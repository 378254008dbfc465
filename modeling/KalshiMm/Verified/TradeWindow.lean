import KalshiMm.Lib.Run
import KalshiMm.Lib.SlidingWindow
import KalshiMm.Verified.Handlers

/-!
# The window of trade prints

Prints are pruned whenever one arrives and whenever an observation reads them.  As long as the
clock does not go back, an observation sees what it would see of every print ever recorded.
-/

namespace KalshiMm.Verified.TradeWindow

open KalshiMm.Lib KalshiMm.Model

/-! ## Prints of one market -/

/-- The print that a trade message records, if it names the taker's side. -/
def printOf (out : Outside) (msg : Value) : Option TradePrint :=
  let contracts := truncI64 ((jsonF64 ((msg.get "count_fp").or (msg.get "count"))).getD 1)
  match msg.getStr "taker_side" with
  | some "yes" => some ⟨out.epoch, contracts, .yes⟩
  | some "no" => some ⟨out.epoch, contracts, .no⟩
  | _ => none

def tradesOf (market : String) (tr : Trader) : List TradePrint :=
  (tr.state.tickerD market "").recentTrades

/-- Trade messages of any market, and observations of this one.  Everything else the trader does
    leaves this market's prints alone. -/
inductive TapeEvent where
  | trade (out : Outside) (ticker : String) (msg : Value)
  | query (out : Outside) (mm : MmParams)
  | other (tr : Trader)

def TapeEvent.clock : TapeEvent → Option ℚ
  | .trade out _ _ => some out.epoch
  | .query out _ => some out.epoch
  | .other _ => none

def setMarket (market : String) (ts : TickerState) (tr : Trader) : Trader :=
  { tr with state := tr.state.setTicker market ts }

def tapeStep (market : String) (tr : Trader) : TapeEvent → Trader
  | .trade out ticker msg => tr.onTrade out ticker msg
  | .query out mm =>
    setMarket market (buildObservation (tr.state.tickerD market "") mm out.epoch out.mono).1 tr
  | .other tr' =>
    setMarket market { tr'.state.tickerD market "" with recentTrades := tradesOf market tr } tr'

/-- Every print that was ever recorded on the market. -/
def history (market : String) (_ : Trader) (prints : List TradePrint) : TapeEvent → List TradePrint
  | .trade out ticker msg => if ticker = market then prints ++ (printOf out msg).toList else prints
  | _ => prints

/-- The prints of the last minute. -/
def windowOf (prints : List TradePrint) (now : ℚ) : List TradePrint :=
  prints.filter fun print => decide (now - 60 ≤ print.arrival)

/-- Volume and flow of the prints of a window. -/
def featuresOf (prints : List TradePrint) : ℚ × ℚ :=
  let contractsOf (side : TakerSide) : ℤ :=
    ((prints.filter fun print => print.takerSide = side).map TradePrint.contracts).sum
  let bought := contractsOf .no
  let sold := contractsOf .yes
  if prints = [] then (0, 0)
  else (min (prints.length / 50) 1, (bought - sold : ℤ) / (max (bought + sold) 1 : ℤ))

/-- A print that is recorded leaves the window of all prints, and an observation reads volume and
    flow of that window. -/
def Invisible (market : String) (s : Trader × List TradePrint) : TapeEvent → Prop
  | .trade out ticker msg => ticker = market → ∀ print ∈ printOf out msg,
      tradesOf market (s.1.onTrade out ticker msg) = windowOf (s.2 ++ [print]) out.epoch
  | .query out mm =>
      tradeWindowFeatures (tradesOf market s.1) out.epoch =
          (windowOf s.2 out.epoch, featuresOf (windowOf s.2 out.epoch)) ∧
        ∀ obs, (buildObservation (s.1.state.tickerD market "") mm out.epoch out.mono).2 = some obs →
          (obs.tradeVolume, obs.tradeFlow) = featuresOf (windowOf s.2 out.epoch) ∧
          tradesOf market (tapeStep market s.1 (.query out mm)) = windowOf s.2 out.epoch
  | .other _ => True

/-! ## Reading and writing -/

theorem tradesOf_setMarket (market ticker : String) (ts : TickerState) (tr : Trader) :
    tradesOf market (setMarket ticker ts tr) =
      if ticker = market then ts.recentTrades else tradesOf market tr := by
  unfold tradesOf TraderState.tickerD setMarket
  rw [TraderState.setTicker_tickers, Dict.lookup_insert_eq_ite]
  by_cases same : market = ticker
  · rw [if_pos same, if_pos same.symm]
    rfl
  · rw [if_neg same, if_neg (Ne.symm same)]

theorem tradesOf_category (market category : String) (tr : Trader) :
    (tr.state.tickerD market category).recentTrades = tradesOf market tr := by
  unfold tradesOf TraderState.tickerD
  cases tr.state.tickers.lookup market with
  | none => rfl
  | some ts => rfl

theorem pruneTrades_eq (trades : List TradePrint) (now : ℚ) :
    pruneTrades trades now = expire TradePrint.arrival (now - 60) trades := rfl

theorem onTrade_eq (out : Outside) (ticker : String) (msg : Value) (tr : Trader) :
    tr.onTrade out ticker msg =
      match printOf out msg with
      | some print =>
        let ts := tr.state.tickerD ticker ((tr.activeTickers.lookup ticker).getD "")
        setMarket ticker
          { ts with recentTrades := pruneTrades (ts.recentTrades ++ [print]) out.epoch } tr
      | none => tr := by
  unfold Trader.onTrade printOf
  cases msg.getStr "taker_side" with
  | none => rfl
  | some side =>
    by_cases yes : side = "yes"
    · subst yes
      rfl
    · by_cases no : side = "no"
      · subst no
        rfl
      · simp [yes, no]

theorem tradesOf_onTrade (market : String) (out : Outside) (ticker : String) (msg : Value)
    (tr : Trader) : tradesOf market (tr.onTrade out ticker msg) =
      match printOf out msg with
      | some print =>
        if ticker = market then pruneTrades (tradesOf market tr ++ [print]) out.epoch
        else tradesOf market tr
      | none => tradesOf market tr := by
  rw [onTrade_eq]
  cases printOf out msg with
  | none => rfl
  | some print =>
    dsimp only
    rw [tradesOf_setMarket]
    by_cases same : ticker = market
    · rw [if_pos same, if_pos same, same, tradesOf_category]
    · rw [if_neg same, if_neg same]

theorem tradeWindowFeatures_eq (trades : List TradePrint) (now : ℚ) :
    tradeWindowFeatures trades now = (pruneTrades trades now, featuresOf (pruneTrades trades now)) := by
  unfold tradeWindowFeatures featuresOf
  dsimp only
  split_ifs
  · rfl
  · rfl

/-- What an observation does to the prints, and what it reads of them. -/
inductive Reads (ts : TickerState) (nowS : ℚ) (built : TickerState × Option Observation) : Prop
  | nothing (unseen : built.2 = none) (left : built.1.recentTrades = ts.recentTrades)
  | window (obs : Observation) (seen : built.2 = some obs)
      (pruned : built.1.recentTrades = pruneTrades ts.recentTrades nowS)
      (features : (obs.tradeVolume, obs.tradeFlow) = featuresOf (pruneTrades ts.recentTrades nowS))

theorem reads_buildObservation (ts : TickerState) (mm : MmParams) (nowS nowMono : ℚ) :
    Reads ts nowS (buildObservation ts mm nowS nowMono) := by
  unfold buildObservation
  split
  · dsimp only
    split_ifs
    · exact .nothing rfl rfl
    · exact .nothing rfl rfl
    · refine .window _ rfl ?_ ?_
      · rw [tradeWindowFeatures_eq]
      · rw [tradeWindowFeatures_eq]
        rfl
  · exact .nothing rfl rfl

/-! ## Runs -/

/-- The market's prints retain all that an observation at the clock or later could see. -/
def Kept (market : String) (s : Trader × List TradePrint) (now : ℚ) : Prop :=
  Retains TradePrint.arrival (tradesOf market s.1) s.2 now (now - 60)

theorem Kept.later {market : String} {s : Trader × List TradePrint} {now now' : ℚ}
    (kept : Kept market s now) (le : now ≤ now') : Kept market s now' :=
  Retains.later kept le (sub_le_sub_right le 60)

theorem arrival_printOf {out : Outside} {msg : Value} {print : TradePrint}
    (found : printOf out msg = some print) : print.arrival = out.epoch := by
  unfold printOf at found
  dsimp only at found
  split at found
  · cases found
    rfl
  · cases found
    rfl
  · cases found

/-- One event, at the clock the prints are kept for, is invisible and keeps them. -/
theorem kept_step {market : String} {s : Trader × List TradePrint} {event : TapeEvent} {now : ℚ}
    (kept : Kept market s now) (clock : ∀ t ∈ event.clock, t = now) :
    Invisible market s event ∧
      Kept market (withGhost (tapeStep market) (history market) s event) now := by
  obtain ⟨tr, prints⟩ := s
  have retains : Retains TradePrint.arrival (tradesOf market tr) prints now (now - 60) := kept
  cases event with
  | trade out ticker msg =>
    obtain rfl : out.epoch = now := clock _ rfl
    have traded := tradesOf_onTrade market out ticker msg tr
    unfold Kept withGhost tapeStep history
    dsimp only
    cases found : printOf out msg with
    | none =>
      rw [found] at traded
      refine ⟨fun _ print member => ?_, ?_⟩
      · rw [found] at member
        cases member
      · rw [traded, Option.toList_none, List.append_nil, ite_self]
        exact retains
    | some print =>
      rw [found] at traded
      dsimp only at traded
      rw [Option.toList_some]
      have pushed := retains.concat (arrival_printOf found)
      by_cases here : ticker = market
      · rw [if_pos here] at traded ⊢
        rw [traded, pruneTrades_eq]
        refine ⟨fun _ print' member => ?_, pushed.expired⟩
        rw [found] at member
        cases member
        exact traded.trans pushed.expire_eq
      · rw [if_neg here] at traded ⊢
        rw [traded]
        exact ⟨fun same => absurd same here, retains⟩
  | query out mm =>
    obtain rfl : out.epoch = now := clock _ rfl
    have window : pruneTrades (tradesOf market tr) out.epoch = windowOf prints out.epoch :=
      retains.expire_eq
    have written : tradesOf market (tapeStep market tr (.query out mm)) =
        (buildObservation (tr.state.tickerD market "") mm out.epoch out.mono).1.recentTrades := by
      rw [tapeStep, tradesOf_setMarket, if_pos rfl]
    have features : tradeWindowFeatures (tradesOf market tr) out.epoch =
        (windowOf prints out.epoch, featuresOf (windowOf prints out.epoch)) := by
      rw [tradeWindowFeatures_eq, window]
    change (_ ∧ _) ∧ Retains _ (tradesOf market (tapeStep market tr (.query out mm))) prints _ _
    cases reads_buildObservation (tr.state.tickerD market "") mm out.epoch out.mono with
    | nothing unseen left =>
      refine ⟨⟨features, fun obs seen => ?_⟩, ?_⟩
      · rw [unseen] at seen
        cases seen
      · rw [written, left]
        exact retains
    | window obs seen pruned read =>
      refine ⟨⟨features, fun obs' seen' => ?_⟩, ?_⟩
      · cases seen.symm.trans seen'
        rw [written, pruned, read]
        exact ⟨congrArg featuresOf window, window⟩
      · rw [written, pruned, pruneTrades_eq]
        exact retains.expired
  | other tr' =>
    refine ⟨trivial, ?_⟩
    unfold Kept withGhost tapeStep history
    dsimp only
    rw [tradesOf_setMarket, if_pos rfl]
    exact retains

theorem Kept.unclocked {market : String} {s : Trader × List TradePrint} {event : TapeEvent}
    {now : ℚ} (kept : Kept market s now) (clock : event.clock = none) :
    Kept market (withGhost (tapeStep market) (history market) s event) now := by
  refine (kept_step kept fun t found => ?_).2
  rw [clock] at found
  cases found

theorem invisible_unclocked {market : String} {s : Trader × List TradePrint} {event : TapeEvent}
    (clock : event.clock = none) : Invisible market s event := by
  cases event with
  | trade out ticker msg => cases clock
  | query out mm => cases clock
  | other tr' => trivial

theorem along_invisible {market : String} {events : List TapeEvent}
    (ordered : (events.filterMap TapeEvent.clock).Pairwise (· ≤ ·)) :
    ∀ {s : Trader × List TradePrint}, (∀ event ∈ events, ∀ t ∈ event.clock, Kept market s t) →
      Along (withGhost (tapeStep market) (history market)) (Invisible market) s events := by
  induction events with
  | nil => exact fun _ => trivial
  | cons event events inductionHypothesis =>
    intro s kept
    rw [List.forall_mem_cons] at kept
    cases clock : event.clock with
    | none =>
      rw [List.filterMap_cons_none clock] at ordered
      refine ⟨invisible_unclocked clock, inductionHypothesis ordered fun next member t found => ?_⟩
      exact (kept.2 next member t found).unclocked clock
    | some t =>
      rw [List.filterMap_cons_some clock, List.pairwise_cons] at ordered
      obtain ⟨invisible, keeps⟩ := kept_step (kept.1 t clock) fun t' same => by
        rw [clock] at same
        cases same
        rfl
      refine ⟨invisible, inductionHypothesis ordered.2 fun next member t' found => ?_⟩
      exact keeps.later (ordered.1 t' (List.mem_filterMap.mpr ⟨next, member, found⟩))

/-- However often prints are pruned, volume and flow are those of the complete history of the last
    minute, and what is retained is that history. -/
theorem pruning_invisible {market : String} {start : Trader} (fresh : tradesOf market start = [])
    {events : List TapeEvent} (ordered : (events.filterMap TapeEvent.clock).Pairwise (· ≤ ·)) :
    Along (withGhost (tapeStep market) (history market)) (Invisible market) (start, []) events := by
  refine along_invisible ordered fun _ _ now _ => ?_
  change Retains TradePrint.arrival (tradesOf market start) [] now (now - 60)
  rw [fresh]
  exact Retains.nil now (now - 60)

/-- Two prints a minute apart, the first of which is seen by one observation and not the next. -/
theorem pruning_invisible_minute :
    let print : Value := .object [("taker_side", .string "yes"), ("count", .number 3)]
    Along (withGhost (tapeStep "KXBTCD-1") (history "KXBTCD-1")) (Invisible "KXBTCD-1")
      (Trader.start (marketCfg none) 0, [])
      [.trade (answering "" "" 0) "KXBTCD-1" print, .trade (answering "" "" 60) "KXBTCD-1" print,
        .query (answering "" "" 60) {}, .query (answering "" "" 61) {}] := by
  intro print
  refine pruning_invisible rfl ?_
  change List.Pairwise (· ≤ ·) [(0 : ℚ), 60, 60, 61]
  decide +kernel

end KalshiMm.Verified.TradeWindow
