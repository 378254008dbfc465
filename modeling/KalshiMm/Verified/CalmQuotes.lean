import KalshiMm.Lib.SlidingWindow
import KalshiMm.Verified.OrderFlow
import KalshiMm.Verified.SpotMoves

/-!
# Quotes on a calm feed

The price state keeps two minutes of ticks.  That is as good as the whole history of accepted ticks:
the gate is open exactly if the last one is fresh, one from a minute ago or earlier lies within the two
minutes, and the price has hardly moved since; and a spot-bound market is only quoted then.
-/

namespace KalshiMm.Verified.CalmQuotes

open KalshiMm.Lib KalshiMm.Model SpotMoves

/-! ## What the buffer remembers -/

/-- The buffer holds the last two minutes of the history, which is in order and of the past. -/
structure Remembers (s : SpotState ℚ) (history : List (ℚ × ℚ)) (clock : ℚ) : Prop where
  ordered : history.Pairwise fun tick later => tick.1 ≤ later.1
  past : ∀ tick ∈ history, tick.1 ≤ clock
  empty : history = [] → s.ticks = []
  kept : ∀ newest ∈ history.getLast?, s.ticks = since Prod.fst (newest.1 - 120) history

theorem remembers_start (tauS clock : ℚ) : Remembers { tauS } [] clock :=
  ⟨.nil, nofun, fun _ => rfl, nofun⟩

section Remembers

variable {s : SpotState ℚ} {history : List (ℚ × ℚ)} {clock : ℚ}

theorem Remembers.later (remembers : Remembers s history clock) {clock' : ℚ} (le : clock ≤ clock') :
    Remembers s history clock' :=
  { remembers with past := fun tick member => (remembers.past tick member).trans le }

/-- The buffer has lost nothing that a window of two minutes before the clock could show. -/
theorem Remembers.retains (remembers : Remembers s history clock) :
    Retains Prod.fst s.ticks history clock (clock - 120) := by
  cases last : history.getLast? with
  | none =>
    obtain rfl := List.getLast?_eq_none_iff.mp last
    rw [remembers.empty rfl]
    exact .nil _ _
  | some newest =>
    have kept := remembers.kept newest last
    have cut : newest.1 - 120 ≤ clock - 120 :=
      sub_le_sub_right (remembers.past newest (List.mem_of_getLast? last)) 120
    refine ⟨?_, fun tick member => ?_, fun cut' after => ?_⟩
    · rw [kept]
      exact remembers.ordered.filter _
    · rw [kept] at member
      exact remembers.past tick (List.mem_filter.mp member).1
    · rw [kept, since_since (cut.trans after)]

theorem push_ticks (s : SpotState ℚ) (ema price nowMono : ℚ) : (s.push ema price nowMono).ticks =
    expire Prod.fst (nowMono - 120) (s.ticks ++ [(nowMono, price)]) := by
  unfold SpotState.push expire SpotState.retainS
  dsimp only
  congr 1
  funext tick
  rw [decide_eq_decide]
  constructor <;> intro old <;> linarith

theorem remembers_push (remembers : Remembers s history clock) (ema price : ℚ) :
    Remembers (s.push ema price clock) (history ++ [(clock, price)]) clock := by
  have retains := remembers.retains.concat (x := (clock, price)) rfl
  refine ⟨List.pairwise_append.mpr ⟨remembers.ordered, List.pairwise_singleton _ _, ?_⟩, ?_, ?_, ?_⟩
  · intro tick member later last
    rw [List.mem_singleton.mp last]
    exact remembers.past tick member
  · intro tick member
    obtain old | last := List.mem_append.mp member
    · exact remembers.past tick old
    · rw [List.mem_singleton.mp last]
  · intro nothing
    exact absurd nothing (List.append_ne_nil_of_right_ne_nil _ (List.cons_ne_nil _ _))
  · intro newest last
    rw [List.getLast?_append_of_ne_nil _ (List.cons_ne_nil _ _)] at last
    cases last
    rw [push_ticks]
    exact retains.expire_eq

/-- A tick that is accepted is remembered. -/
theorem remembers_onTick (remembers : Remembers s history clock) {exp : ℚ → ℚ} {price : ℚ}
    (accepted : (s.onTick exp price clock).2 = true) :
    Remembers (s.onTick exp price clock).1 (history ++ [(clock, price)]) clock := by
  unfold SpotState.onTick at accepted ⊢
  split_ifs at accepted ⊢
  split at accepted
  · split_ifs at accepted ⊢
    exact remembers_push remembers _ price
  · exact remembers_push remembers _ price

/-! ## The return -/

/-- The return over a window, from a whole history: none if its base is more than two minutes older
    than the last tick. -/
def historyReturn (history : List (ℚ × ℚ)) (windowS nowMono : ℚ) : Option ℚ := do
  let newest ← history.getLast?
  let base ← lastUpTo Prod.fst (nowMono - windowS) history
  guard (newest.1 - 120 ≤ base.1)
  pure (newest.2 / base.2 - 1)

theorem historyReturn_eq {windowS nowMono : ℚ} {newest base : ℚ × ℚ}
    (last : history.getLast? = some newest)
    (found : lastUpTo Prod.fst (nowMono - windowS) history = some base) :
    historyReturn history windowS nowMono =
      if newest.1 - 120 ≤ base.1 then some (newest.2 / base.2 - 1) else none := by
  unfold historyReturn
  rw [last, found]
  simp only [Option.bind_eq_bind, Option.bind_some, guard]
  split_ifs <;> rfl

theorem getLast?_ticks (remembers : Remembers s history clock) :
    s.ticks.getLast? = history.getLast? := by
  obtain rfl | ⟨earlier, newest, rfl⟩ := List.eq_nil_or_concat history
  · rw [remembers.empty rfl]
  · rw [List.concat_eq_append] at remembers ⊢
    have last : (earlier ++ [newest]).getLast? = some newest := List.getLast?_concat
    have shown : since Prod.fst (newest.1 - 120) [newest] = [newest] := by
      simp [since]
    rw [remembers.kept newest last, since_append, shown, List.getLast?_concat, last]

/-- The buffer's return is the history's. -/
theorem ret_eq (remembers : Remembers s history clock) (windowS nowMono : ℚ) :
    s.ret windowS nowMono = historyReturn history windowS nowMono := by
  have base : s.ticks.reverse.find? (fun tick => decide (windowS ≤ nowMono - tick.1)) =
      lastUpTo Prod.fst (nowMono - windowS) s.ticks := by
    unfold lastUpTo
    congr 1
    funext tick
    rw [decide_eq_decide]
    exact le_sub_comm
  unfold SpotState.ret historyReturn
  rw [base, getLast?_ticks remembers]
  cases last : history.getLast? with
  | none => rfl
  | some newest =>
    rw [remembers.kept newest last, lastUpTo_since remembers.ordered]
    cases found : lastUpTo Prod.fst (nowMono - windowS) history with
    | none => rfl
    | some base =>
      have whole := historyReturn_eq last found
      unfold historyReturn at whole
      rw [last, found] at whole
      rw [whole]
      split_ifs with within
      · rw [Option.filter_some_pos (by simpa using within)]
        rfl
      · rw [Option.filter_some_neg (by simpa using within)]
        rfl

end Remembers

/-! ## Calm -/

/-- The last tick is fresh, and the price has hardly moved since one that is a minute old or older,
    and at most two minutes older than the last. -/
structure CalmSince (params : SpotParams) (threshold : ℚ) (nowMono : ℚ)
    (base newest : ℚ × ℚ) : Prop where
  fresh : nowMono - newest.1 ≤ params.staleMaxS
  minute : 60 ≤ nowMono - base.1
  recent : newest.1 - base.1 ≤ 120
  still : |newest.2 / base.2 - 1| ≤ threshold

/-- The history of accepted ticks is calm. -/
def Calm (params : SpotParams) (threshold : ℚ) (history : List (ℚ × ℚ)) (nowMono : ℚ) : Prop :=
  ∃ newest ∈ history.getLast?, ∃ base ∈ lastUpTo Prod.fst (nowMono - 60) history,
    CalmSince params threshold nowMono base newest

/-- The threshold of the gate, by its latch. -/
def thresholdOf (params : SpotParams) (latched : Bool) : ℚ :=
  if latched then params.gateRet60s * params.gateReleaseRatio else params.gateRet60s

theorem lastUpTo_le {upTo : ℚ} {history : List (ℚ × ℚ)} {base : ℚ × ℚ}
    (found : lastUpTo Prod.fst upTo history = some base) : base.1 ≤ upTo :=
  of_decide_eq_true (List.find?_some found :)

/-- The gate is open exactly on a calm history. -/
theorem gatedBy_eq_false_iff {s : SpotState ℚ} {history : List (ℚ × ℚ)} {clock : ℚ}
    (remembers : Remembers s history clock) (params : SpotParams) (latched : Bool) (nowMono : ℚ) :
    gatedBy params latched (s, nowMono) = false ↔
      Calm params (thresholdOf params latched) history nowMono := by
  unfold gatedBy Calm
  dsimp only
  rw [ret_eq remembers, SpotState.isStale, getLast?_ticks remembers]
  cases last : history.getLast? with
  | none => simp
  | some newest =>
    cases found : lastUpTo Prod.fst (nowMono - 60) history with
    | none => simp [historyReturn, last, found]
    | some base =>
      have minute : 60 ≤ nowMono - base.1 := le_sub_comm.mp (lastUpTo_le found)
      have calm : (∃ last ∈ some newest, ∃ start ∈ some base,
          CalmSince params (thresholdOf params latched) nowMono start last) ↔
          CalmSince params (thresholdOf params latched) nowMono base newest := by
        simp only [Option.mem_some_iff, exists_eq_left']
      rw [calm, historyReturn_eq last found]
      dsimp only
      split_ifs with stale within
      · refine iff_of_false nofun fun calm => ?_
        exact absurd calm.fresh (not_le.mpr (of_decide_eq_true stale))
      · have fresh : nowMono - newest.1 ≤ params.staleMaxS := by simpa using stale
        unfold trendGated
        dsimp only
        rw [decide_eq_false_iff_not, not_lt]
        exact ⟨fun still => ⟨fresh, minute, sub_le_comm.mp within, still⟩, fun calm => calm.still⟩
      · exact iff_of_false nofun fun calm => within (sub_le_comm.mp calm.recent)

/-! ## Runs -/

theorem remembers_move {env : Env} {tr : Trader} {history : List (ℚ × ℚ)} {m : Move}
    (remembers : Remembers tr.spot history m.mono) :
    Remembers (tr.move env m).spot (history ++ ticked env tr m) m.mono := by
  rw [(moves_move env tr m).spot]
  cases m with
  | poll out ticker =>
    unfold ticked
    rw [List.append_nil]
    exact remembers
  | turn arrival =>
    obtain ⟨event, out⟩ := arrival
    cases event with
    | spot price =>
      unfold spotAfter ticked
      dsimp only
      cases accepted : (tr.spot.onTick env.exp price out.mono).2 with
      | false =>
        rw [onTick_dropped accepted, ite_self, if_neg fun both => Bool.false_ne_true both.2,
          List.append_nil]
        exact remembers
      | true =>
        by_cases running : tr.running = true
        · rw [if_pos running, if_pos ⟨running, rfl⟩]
          exact remembers_onTick remembers accepted
        · rw [if_neg running, if_neg fun both => running both.1, List.append_nil]
          exact remembers
    | book | trade | fill | sync | exits | daily | refresh =>
      unfold ticked
      rw [List.append_nil]
      exact remembers

/-- A quote that a move sends for a spot-bound market is sent on a calm history. -/
def QuotesInCalm (env : Env) (s : Trader × List (ℚ × ℚ)) (m : Move) : Prop :=
  ∀ request reply category, OrderCall.place request reply ∈ (s.1.carryOut env m).calls →
    request.timeInForce = .goodTillCanceled →
    s.1.activeTickers.lookup request.ticker = some category → category ∈ s.1.spotBound →
    Calm s.1.cfg.spot (thresholdOf s.1.cfg.spot s.1.spotGateOn) s.2 m.mono

theorem quotesInCalm_of_remembers {env : Env} {tr : Trader} {history : List (ℚ × ℚ)} {m : Move}
    {clock : ℚ} (remembers : Remembers tr.spot history clock) :
    QuotesInCalm env (tr, history) m := by
  intro request reply category sent rests active bound
  rw [← gatedBy_eq_false_iff remembers, ← spotGated_eq]
  cases ordered_of_sent sent with
  | @quote ticker msg stage plan reached planned side allowed =>
    have staged := staged_of_quoteStage reached
    rw [sideRequest_ticker, staged.active] at active
    cases active
    have ungated := staged.ungated bound
    cases m <;> exact ungated
  | exit _ exits =>
    obtain ⟨_, _, _, rfl⟩ := exits.crosses
    cases rests

theorem remembers_along {env : Env} {tr : Trader} {history : List (ℚ × ℚ)} {clock : ℚ}
    {moves : List Move} (remembers : Remembers tr.spot history clock)
    (behind : ∀ m ∈ moves, clock ≤ m.mono)
    (ordered : moves.Pairwise fun first second => first.mono ≤ second.mono) :
    Along (withGhost (Trader.move env) fun tr history m => history ++ ticked env tr m)
      (fun s m => Remembers s.1.spot s.2 m.mono) (tr, history) moves := by
  induction moves generalizing tr history clock with
  | nil => trivial
  | cons m moves inductionHypothesis =>
    obtain ⟨next, rest⟩ := List.pairwise_cons.mp ordered
    have now := remembers.later (behind m List.mem_cons_self)
    exact ⟨now, inductionHypothesis (remembers_move now) next rest⟩

/-- In every run from startup along which the clock does not go back: whenever a quote is sent for a
    spot-bound market, the last accepted tick is fresh, one of at least a minute ago is at most two
    minutes older, and the price differs from that one's by no more than the gate's threshold. -/
theorem spot_quotes_are_calm (env : Env) (cfg : Config) (out : Outside) {moves : List Move}
    (ordered : moves.Pairwise fun first second => first.mono ≤ second.mono) :
    Along (withGhost (Trader.move env) fun tr history m => history ++ ticked env tr m)
      (QuotesInCalm env) (Trader.startup env cfg out, []) moves := by
  obtain ⟨_, _, spot, _⟩ := moves_startup env cfg out
  cases moves with
  | nil => trivial
  | cons first moves =>
    have starts : Remembers (Trader.startup env cfg out).spot [] first.mono :=
      spot ▸ remembers_start _ _
    have behind : ∀ m ∈ first :: moves, first.mono ≤ m.mono :=
      List.forall_mem_cons.mpr ⟨le_rfl, (List.pairwise_cons.mp ordered).1⟩
    exact (remembers_along starts behind ordered).imp fun _ _ => quotesInCalm_of_remembers

/-- A calm minute, and a book update that quotes behind it. -/
def calmMoves : List Move :=
  [.turn ⟨.spot 100, listing ["KXBTCD-1"] 0⟩, .turn ⟨.spot 100, listing ["KXBTCD-1"] 61⟩,
    .turn ⟨.book "KXBTCD-1" (snapshot (2 / 5) (1 / 2)), listing ["KXBTCD-1"] 62⟩]

theorem spot_quotes_are_calm_minute :
    let env := marketEnv (some narrow)
    let start := Trader.startup env (marketCfg (some "BTC-USD")) (listing ["KXBTCD-1"] 0)
    (outputs (Trader.move env) (fun tr m => (tr.carryOut env m).calls) start calmMoves).length = 2 ∧
    Along (withGhost (Trader.move env) fun tr history m => history ++ ticked env tr m)
      (QuotesInCalm env) (start, []) calmMoves :=
  ⟨by decide +kernel, spot_quotes_are_calm _ _ _ (by decide +kernel)⟩

end KalshiMm.Verified.CalmQuotes
