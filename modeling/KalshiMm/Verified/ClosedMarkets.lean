import KalshiMm.Verified.ExitSpacing

/-!
# Exits after the close

After its close a market settles whatever is sent.  The exit timer asks for the close time before it
sends; the unwind check of a spot tick does not.  So exits reach closed markets exactly where that
check finds one to leave.
-/

namespace KalshiMm.Verified.ClosedMarkets

open KalshiMm.Lib KalshiMm.Model KalshiMm.Verified.ExitSpacing

/-! ## The law and the condition -/

def outsideOf : Move → Outside
  | .turn arrival => arrival.out
  | .poll out _ => out

/-- The market's close time is known and not later than now. -/
def ClosedMarket (tr : Trader) (nowS : ℚ) (ticker : String) : Prop :=
  ∃ ts ∈ tr.state.tickers.lookup ticker, marketClosed ts nowS = true

/-- The move sends no exit order for a closed market. -/
def SparesClosed (env : Env) (tr : Trader) (m : Move) : Prop :=
  ∀ ticker, ClosedMarket tr (outsideOf m).epoch ticker →
    ∀ call ∈ (tr.carryOut env m).calls, isExit ticker call = false

/-- The trader with a spot tick folded in. -/
def ticked (env : Env) (out : Outside) (price : ℚ) (tr : Trader) : Trader :=
  { tr with spot := (tr.spot.onTick env.exp price out.mono).1 }

/-- The unwind check would leave a closed market of a spot-bound category. -/
def LeavesClosed (tr : Trader) (out : Outside) (ticker : String) : Prop :=
  ClosedMarket tr out.epoch ticker ∧ tr.isSpotBound ticker = true ∧ UnwindFires tr ticker out.mono

/-- A spot tick that is accepted and leaves the feed fresh finds a closed market to leave. -/
def AdverseAfterClose (env : Env) (tr : Trader) (m : Move) : Prop :=
  ∃ price out, m = .turn ⟨.spot price, out⟩ ∧ tr.running = true ∧
    (tr.spot.onTick env.exp price out.mono).2 = true ∧
    (ticked env out price tr).spot.isStale out.mono tr.cfg.spot.staleMaxS = false ∧
    ∃ ticker, LeavesClosed (ticked env out price tr) out ticker

/-! ## What the gate leaves alone -/

section Gate

variable (out : Outside) (tr : Trader) (ticker : String)

theorem isSpotBound_updateSpotGate :
    (tr.updateSpotGate out).trader.isSpotBound ticker = tr.isSpotBound ticker := by
  obtain ⟨clear, clears, cleared⟩ := lookup_updateSpotGate out tr
  obtain ⟨_, _, only⟩ := updateSpotGate_only out tr
  have bound : (tr.updateSpotGate out).trader.spotBound = tr.spotBound := by rw [only]
  unfold Trader.isSpotBound
  rw [cleared, bound, Option.any_map]
  congr 1
  funext ts
  obtain ⟨_, _, cleared⟩ := clears ts
  rw [cleared]

theorem midOf_updateSpotGate : (tr.updateSpotGate out).trader.midOf = tr.midOf := by
  obtain ⟨clear, clears, cleared⟩ := lookup_updateSpotGate out tr
  funext ticker
  unfold Trader.midOf
  rw [cleared, Option.bind_map]
  congr 1
  funext ts
  obtain ⟨_, _, cleared⟩ := clears ts
  rw [Function.comp_apply, cleared]

theorem fvShiftFor_updateSpotGate (category : String) :
    (tr.updateSpotGate out).trader.fvShiftFor ticker category = tr.fvShiftFor ticker category := by
  have mids := midOf_updateSpotGate out tr
  obtain ⟨_, _, only⟩ := updateSpotGate_only out tr
  unfold Trader.fvShiftFor
  rw [mids]
  rw [only]

theorem unwindPlan_updateSpotGate :
    (tr.updateSpotGate out).trader.unwindPlan ticker = tr.unwindPlan ticker := by
  obtain ⟨clear, clears, cleared⟩ := lookup_updateSpotGate out tr
  have shifts := fvShiftFor_updateSpotGate out tr ticker
  have cfg : (tr.updateSpotGate out).trader.cfg = tr.cfg := by
    obtain ⟨_, _, only⟩ := updateSpotGate_only out tr
    rw [only]
  unfold Trader.unwindPlan
  rw [cleared, cfg, Option.bind_eq_bind, Option.bind_map]
  congr 1
  funext ts
  obtain ⟨_, _, cleared⟩ := clears ts
  rw [Function.comp_apply, cleared, shifts]
  rfl

theorem unwindFires_updateSpotGate (nowMono : ℚ) :
    UnwindFires (tr.updateSpotGate out).trader ticker nowMono ↔ UnwindFires tr ticker nowMono := by
  have plan := unwindPlan_updateSpotGate out tr ticker
  obtain ⟨_, _, only⟩ := updateSpotGate_only out tr
  unfold UnwindFires
  rw [plan]
  rw [only]

theorem closedMarket_updateSpotGate (nowS : ℚ) :
    ClosedMarket (tr.updateSpotGate out).trader nowS ticker ↔ ClosedMarket tr nowS ticker := by
  obtain ⟨clear, clears, cleared⟩ := lookup_updateSpotGate out tr
  have same (ts : TickerState) : marketClosed (clear ts) nowS = marketClosed ts nowS := by
    obtain ⟨_, _, cleared⟩ := clears ts
    rw [cleared]
    rfl
  unfold ClosedMarket
  rw [cleared]
  cases tr.state.tickers.lookup ticker with
  | none => simp
  | some ts => simp [same]

end Gate

/-! ## Walks over the markets -/

/-- A call of a walk is made by one of its visits, at which the invariant holds. -/
theorem mem_visitAll {J : Trader → Prop} {visit : String → Trader → Outcome}
    (keeps : ∀ ticker tr, J tr → J (visit ticker tr).trader) {tickers : List String} {tr : Trader}
    (start : J tr) {call : OrderCall} (member : call ∈ (visitAll visit tickers tr).calls) :
    ∃ ticker ∈ tickers, ∃ tr', J tr' ∧ call ∈ (visit ticker tr').calls := by
  induction tickers generalizing tr with
  | nil => cases member
  | cons ticker tickers inductionHypothesis =>
    obtain first | later := List.mem_append.mp member
    · exact ⟨ticker, List.mem_cons_self, tr, start, first⟩
    · obtain ⟨visited, listed, found⟩ := inductionHypothesis (keeps ticker tr start) later
      exact ⟨visited, List.mem_cons_of_mem _ listed, found⟩

theorem ticker_of_isExit {ticker visited : String} {api : OrderApi} {plan : ExitPlan}
    {call : OrderCall} (member : call ∈ applyExitPlan api visited plan)
    (exits : isExit ticker call = true) : visited = ticker := by
  by_contra other
  rw [isExit_applyExitPlan other api plan call member] at exits
  cases exits

/-- A visit of the timer that sends something has asked for the close. -/
theorem open_of_visitExit {out : Outside} {ticker visited : String} {tr : Trader} {call : OrderCall}
    (member : call ∈ (tr.visitExit out visited).calls) (exits : isExit ticker call = true) :
    ¬ ClosedMarket tr out.epoch ticker := by
  unfold Trader.visitExit at member
  split_ifs at member
  · cases member
  · split at member
    · cases member
    next ts known =>
      split at member
      · cases member
      · dsimp only at member
        split_ifs at member with closed
        · cases member
        · cases member
        · cases ticker_of_isExit member exits
          rintro ⟨ts', found, shut⟩
          rw [Option.mem_def, known] at found
          cases found
          exact closed shut

theorem spares_checkExits {out : Outside} {ticker : String} {tr : Trader}
    (closed : ClosedMarket tr out.epoch ticker) :
    ∀ call ∈ (tr.checkExits out).calls, isExit ticker call = false := by
  intro call member
  rw [Bool.eq_false_iff]
  intro exits
  obtain ⟨visited, _, tr', timers, sent⟩ := mem_visitAll (J := Timers tr)
    (fun visited tr' timers => timers.trans (timers_visitExit out visited tr')) ⟨_, _, _, rfl⟩ member
  refine open_of_visitExit sent exits ?_
  unfold ClosedMarket
  rw [timers.state]
  exact closed

/-! ## The unwind check -/

theorem visitUnwind_of_fires {out : Outside} {ticker : String} {tr : Trader}
    (fires : UnwindFires tr ticker out.mono) :
    ∃ call ∈ (tr.visitUnwind out ticker).calls, isExit ticker call = true := by
  obtain ⟨nextFree, firedFree, due⟩ := fires
  obtain ⟨plan, planned⟩ := Option.isSome_iff_exists.mp due
  have planned : ({ tr with spotUnwindNext :=
      tr.spotUnwindNext.insert ticker (out.mono + 1) } : Trader).unwindPlan ticker = some plan :=
    planned
  unfold Trader.visitUnwind
  rw [if_neg (not_or.mpr ⟨Bool.eq_false_iff.mp nextFree, Bool.eq_false_iff.mp firedFree⟩)]
  dsimp only
  rw [planned]
  refine ⟨_, List.mem_singleton_self _, ?_⟩
  simp [isExit, sendOrder, exitRequest]

/-- A visit of another market leaves what the check would do with this one. -/
theorem unwindFires_visitUnwind {out : Outside} {ticker visited : String} {tr : Trader}
    (other : visited ≠ ticker) (fires : UnwindFires tr ticker out.mono) :
    UnwindFires (tr.visitUnwind out visited).trader ticker out.mono := by
  have elsewhere {m : Dict String ℚ} (deadline : ℚ) :
      (m.insert visited deadline).lookup ticker = m.lookup ticker :=
    Finmap.lookup_insert_of_ne _ other.symm
  obtain ⟨nextFree, firedFree, due⟩ := fires
  unfold Trader.visitUnwind
  split_ifs
  · exact ⟨nextFree, firedFree, due⟩
  · dsimp only
    split
    · exact ⟨by rwa [elsewhere], firedFree, due⟩
    · exact ⟨by rwa [elsewhere], by rwa [elsewhere], due⟩

theorem walk_of_fires {out : Outside} {ticker : String} {tickers : List String} {tr : Trader}
    (listed : ticker ∈ tickers) (fires : UnwindFires tr ticker out.mono) :
    ∃ call ∈ (visitAll (Trader.visitUnwind out) tickers tr).calls, isExit ticker call = true := by
  induction tickers generalizing tr with
  | nil => cases listed
  | cons visited tickers inductionHypothesis =>
    by_cases other : visited = ticker
    · subst other
      obtain ⟨call, sent, exits⟩ := visitUnwind_of_fires fires
      exact ⟨call, List.mem_append_left _ sent, exits⟩
    · have rest := (List.mem_cons.mp listed).resolve_left (Ne.symm other)
      obtain ⟨call, sent, exits⟩ := inductionHypothesis rest (unwindFires_visitUnwind other fires)
      exact ⟨call, List.mem_append_right _ sent, exits⟩

theorem fires_of_visitUnwind {out : Outside} {ticker visited : String} {start tr : Trader}
    {call : OrderCall} (unvisited : Unvisited start ticker out.mono tr)
    (member : call ∈ (tr.visitUnwind out visited).calls) (exits : isExit ticker call = true) :
    visited = ticker ∧ UnwindFires start ticker out.mono := by
  obtain ⟨⟨next, fired, rfl⟩, same⟩ := unvisited
  unfold Trader.visitUnwind at member
  split_ifs at member with held
  · cases member
  · dsimp only at member
    split at member
    · cases member
    next plan planned =>
      cases ticker_of_isExit member exits
      -- the visit found no hold-off, so the walk has not been here before
      obtain ⟨nextFree, firedFree⟩ := not_or.mp held
      obtain ⟨nextSame, firedSame⟩ := same.resolve_right nextFree
      rw [nextSame] at nextFree
      rw [firedSame] at firedFree
      exact ⟨rfl, Bool.eq_false_iff.mpr nextFree, Bool.eq_false_iff.mpr firedFree,
        Option.isSome_iff_exists.mpr ⟨plan, planned⟩⟩

theorem held_of_unwindPlan {tr : Trader} {ticker : String}
    (due : (tr.unwindPlan ticker).isSome = true) : tr.positionOf ticker ≠ 0 := by
  obtain ⟨plan, planned⟩ := Option.isSome_iff_exists.mp due
  obtain ⟨ts, known, rest⟩ := Option.bind_eq_some_iff.mp planned
  obtain ⟨shift, _, decided⟩ := Option.bind_eq_some_iff.mp rest
  rw [positionOf_of_lookup known]
  intro flat
  rw [spotUnwindDecision, if_pos (Or.inl flat)] at decided
  cases decided

/-- The unwind check sends an exit for a market exactly when it fires on it. -/
theorem checkSpotUnwind_exits (out : Outside) (tr : Trader) (ticker : String) :
    (∃ call ∈ (tr.checkSpotUnwind out).calls, isExit ticker call = true) ↔
      tr.spot.isStale out.mono tr.cfg.spot.staleMaxS = false ∧ tr.isSpotBound ticker = true ∧
        UnwindFires tr ticker out.mono := by
  unfold Trader.checkSpotUnwind
  split_ifs with stale
  · refine iff_of_false ?_ fun due => absurd (stale.symm.trans due.1) Bool.true_eq_false_eq_False
    rintro ⟨call, member, _⟩
    cases member
  constructor
  · rintro ⟨call, member, exits⟩
    obtain ⟨visited, listed, tr', unvisited, sent⟩ := mem_visitAll
      (J := Unvisited tr ticker out.mono)
      (fun visited _ unvisited => unvisited_visitUnwind out visited unvisited)
      (Unvisited.refl tr ticker out.mono) member
    obtain ⟨rfl, fires⟩ := fires_of_visitUnwind unvisited sent exits
    exact ⟨Bool.eq_false_iff.mpr stale, (List.mem_filter.mp listed).2, fires⟩
  · rintro ⟨_, bound, fires⟩
    have held := held_of_unwindPlan fires.2.2
    have known : ticker ∈ tr.state.tickers.keys := by
      by_contra unknown
      rw [Trader.positionOf, Finmap.lookup_eq_none.mpr fun found => unknown (Finmap.mem_keys.mpr found)]
        at held
      exact held rfl
    refine walk_of_fires (List.mem_filter.mpr ⟨List.mem_filter.mpr ⟨?_, ?_⟩, bound⟩) fires
    · exact (out.hash.mem _ _).mpr known
    · exact decide_eq_true held

/-! ## Moves -/

/-- A spot tick that is folded in sends exits where the unwind check finds something to leave. -/
theorem onSpotTick_exits (env : Env) (out : Outside) (price : ℚ) (tr : Trader) (ticker : String) :
    (∃ call ∈ (tr.onSpotTick env out price).calls, isExit ticker call = true) ↔
      (tr.spot.onTick env.exp price out.mono).2 = true ∧
      (ticked env out price tr).spot.isStale out.mono tr.cfg.spot.staleMaxS = false ∧
      (ticked env out price tr).isSpotBound ticker = true ∧
      UnwindFires (ticked env out price tr) ticker out.mono := by
  have gated := checkSpotUnwind_exits out ((ticked env out price tr).updateSpotGate out).trader ticker
  have stale : ((ticked env out price tr).updateSpotGate out).trader.spot.isStale out.mono
        ((ticked env out price tr).updateSpotGate out).trader.cfg.spot.staleMaxS =
      (ticked env out price tr).spot.isStale out.mono tr.cfg.spot.staleMaxS := by
    obtain ⟨_, _, only⟩ := updateSpotGate_only out (ticked env out price tr)
    rw [only]
    rfl
  rw [stale, isSpotBound_updateSpotGate, unwindFires_updateSpotGate] at gated
  unfold Trader.onSpotTick
  dsimp only
  split_ifs with accepted
  · rw [and_iff_right accepted, ← gated]
    constructor
    · rintro ⟨call, member, exits⟩
      obtain cancels | sent := List.mem_append.mp member
      · obtain ⟨id, reply, rfl⟩ := calls_updateSpotGate cancels
        cases exits
      · exact ⟨call, sent, exits⟩
    · rintro ⟨call, sent, exits⟩
      exact ⟨call, List.mem_append_right _ sent, exits⟩
  · refine iff_of_false ?_ fun due => accepted due.1
    rintro ⟨call, member, _⟩
    cases member

theorem spares_of_silent {env : Env} {out : Outside} {event : Event} {tr : Trader}
    (silent : ∀ ticker, ∀ call ∈ (tr.carryOut env (.turn ⟨event, out⟩)).calls,
      isExit ticker call = false)
    (other : ∀ price, event ≠ .spot price) :
    SparesClosed env tr (.turn ⟨event, out⟩) ↔ ¬ AdverseAfterClose env tr (.turn ⟨event, out⟩) := by
  refine iff_of_true (fun ticker _ => silent ticker) ?_
  rintro ⟨price, _, spot, _⟩
  exact other price (Arrival.mk.inj (Move.turn.inj spot)).1

theorem silent_onBookUpdate (env : Env) (out : Outside) (updated : String) (msg : Value)
    (tr : Trader) (ticker : String) :
    ∀ call ∈ (tr.onBookUpdate env out updated msg).calls, isExit ticker call = false :=
  (isExit_bookOutcome ticker (onBookUpdate_outcome env out updated msg tr)).1

theorem spares_spot_iff (env : Env) (out : Outside) (price : ℚ) {tr : Trader}
    (running : tr.running = true) :
    SparesClosed env tr (.turn ⟨.spot price, out⟩) ↔
      ¬ AdverseAfterClose env tr (.turn ⟨.spot price, out⟩) := by
  have turns : tr.carryOut env (.turn ⟨.spot price, out⟩) = tr.onSpotTick env out price :=
    if_pos running
  have exits := onSpotTick_exits env out price tr
  constructor
  · rintro spares ⟨price', out', same, _, accepted, fresh, ticker, shut, bound, fires⟩
    cases same
    obtain ⟨call, member, sent⟩ := (exits ticker).mpr ⟨accepted, fresh, bound, fires⟩
    rw [← turns] at member
    rw [spares ticker shut call member] at sent
    cases sent
  · intro avoids ticker shut call member
    rw [Bool.eq_false_iff]
    intro sent
    rw [turns] at member
    obtain ⟨accepted, fresh, bound, fires⟩ := (exits ticker).mp ⟨call, member, sent⟩
    exact avoids ⟨price, out, rfl, running, accepted, fresh, ticker, shut, bound, fires⟩

/-- The exit timer asks for the close before it sends. -/
theorem spares_onExitTimer (out : Outside) {tr : Trader} {ticker : String}
    (shut : ClosedMarket tr out.epoch ticker) :
    ∀ call ∈ (tr.onExitTimer out).calls, isExit ticker call = false := by
  intro call member
  obtain cancels | sent := List.mem_append.mp member
  · obtain ⟨id, reply, rfl⟩ := calls_updateSpotGate cancels
    rfl
  · exact spares_checkExits ((closedMarket_updateSpotGate out tr ticker out.epoch).mpr shut)
      call sent

/-- Only the exit timer and spot ticks send exits, and only the latter into closed markets. -/
theorem spares_iff (env : Env) (tr : Trader) (m : Move) :
    SparesClosed env tr m ↔ ¬ AdverseAfterClose env tr m := by
  cases m with
  | poll out polled =>
    refine iff_of_true (fun ticker _ => ?_) ?_
    · unfold Trader.carryOut Trader.pollMarket
      dsimp only
      split
      · exact List.forall_mem_nil _
      · exact silent_onBookUpdate env out polled _ tr ticker
    · rintro ⟨_, _, spot, _⟩
      cases spot
  | turn arrival =>
    obtain ⟨event, out⟩ := arrival
    by_cases running : tr.running = true
    swap
    · have idle : tr.carryOut env (.turn ⟨event, out⟩) = ⟨tr, []⟩ := if_neg running
      refine iff_of_true (fun ticker _ => ?_) ?_
      · rw [idle]
        exact List.forall_mem_nil _
      · rintro ⟨_, _, _, runs, _⟩
        exact running runs
    have turns : tr.carryOut env (.turn ⟨event, out⟩) = tr.handle env ⟨event, out⟩ := if_pos running
    cases event with
    | book updated msg =>
      refine spares_of_silent (fun ticker => ?_) nofun
      rw [turns]
      exact silent_onBookUpdate env out updated msg tr ticker
    | spot price => exact spares_spot_iff env out price running
    | exits =>
      refine iff_of_true (fun ticker shut => ?_) ?_
      · rw [turns]
        exact spares_onExitTimer out shut
      · rintro ⟨_, _, spot, _⟩
        cases spot
    | trade | fill | sync | daily | refresh =>
      refine spares_of_silent (fun ticker => ?_) nofun
      rw [turns]
      exact List.forall_mem_nil _

/-- In every run from startup, no exit is sent into a closed market exactly when no spot tick finds
    a closed market to leave. -/
theorem closed_markets_spared_iff (env : Env) (cfg : Config) (out : Outside) (moves : List Move) :
    Along (Trader.move env) (SparesClosed env) (Trader.startup env cfg out) moves ↔
      Along (Trader.move env) (fun tr m => ¬ AdverseAfterClose env tr m)
        (Trader.startup env cfg out) moves :=
  along_congr (spares_iff env) _ moves

/-! ## An unwind after the close -/

def closingEnv : Env := { marketEnv none with parseRfc3339 := fun _ => some 20 }

/-- Two strikes whose markets close at 20 s. -/
def closingStrikes (mono : ℚ) : Outside :=
  { strikes mono with
    api :=
      { (strikes mono).api with
        getMarket := fun _ => .ok (.object [("market",
          .object [("close_time", .string "2025-07-24T17:00:00Z")])]) } }

def closingStart : Trader :=
  Trader.startup closingEnv (marketCfg (some "BTC-USD")) (closingStrikes 0)

/-- Five bought at 60 cents, and a mid of 45. -/
def underwater : List Move :=
  [.turn ⟨.fill boughtFive, closingStrikes 0⟩,
    .turn ⟨.book "KXBTCD-25JUL2417-T1000" (snapshot (44 / 100) (54 / 100)), closingStrikes 1⟩,
    .turn ⟨.book "KXBTCD-25JUL2417-T1010" (snapshot (39 / 100) (59 / 100)), closingStrikes 1⟩,
    .turn ⟨.spot 1000, closingStrikes 2⟩]

/-- Spot down 1.5 % a second after the close: the unwind of the five is sent all the same. -/
theorem unwind_sent_after_close :
    let tick : Move := .turn ⟨.spot 985, closingStrikes 21⟩
    ¬ Along (Trader.move closingEnv) (SparesClosed closingEnv) closingStart (underwater ++ [tick]) ∧
      (((run (Trader.move closingEnv) closingStart underwater).carryOut closingEnv tick).calls.map
        (isExit "KXBTCD-25JUL2417-T1000")) = [true] := by
  intro tick
  let tr := run (Trader.move closingEnv) closingStart underwater
  have shut : (tr.state.tickers.lookup "KXBTCD-25JUL2417-T1000").any
      (fun ts => marketClosed ts 21) = true := by decide +kernel
  have sent : (tr.carryOut closingEnv tick).calls.map (isExit "KXBTCD-25JUL2417-T1000") =
      [true] := by decide +kernel
  refine ⟨fun spared => ?_, sent⟩
  obtain ⟨_, last, _⟩ := along_append.mp spared
  obtain ⟨ts, known, closed⟩ := (Option.any_eq_true _ _).mp shut
  have exits : true ∈ (tr.carryOut closingEnv tick).calls.map (isExit "KXBTCD-25JUL2417-T1000") := by
    rw [sent]
    decide
  obtain ⟨call, member, exit⟩ := List.mem_map.mp exits
  have spares := last "KXBTCD-25JUL2417-T1000" ⟨ts, known, closed⟩ call member
  rw [exit] at spares
  cases spares

end KalshiMm.Verified.ClosedMarkets
