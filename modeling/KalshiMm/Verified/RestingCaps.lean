import KalshiMm.Verified.Clocks

/-!
# Resting orders and the caps

The inventory cap and the tail gate decide which sides a plan places.  A cycle that makes no plan
places nothing and cancels nothing, and two of the layers in front of the caps can end a cycle whose
price gates have passed: the balance backoff, and the one that keeps two resting orders while the
price has not moved.
-/

namespace KalshiMm.Verified.RestingCaps

open KalshiMm.Lib KalshiMm.Model

/-! ## The price gates -/

/-- The quotes a cycle arrives at, where they pass band, budget, clamp and fee edge. -/
def pricedQuotes (action : Action) (fvShift : ℚ) (ts : TickerState) (mm : MmParams)
    (openOrderCount : ℕ) : Option (ℚ × ℚ) := do
  guard (ts.book.isValid = true)
  let bestBid ← ts.book.bestBid
  let bestAsk ← ts.book.bestAsk
  let mid := (bestBid + bestAsk) / 2
  guard (mm.quoteBandLo ≤ mid ∧ mid ≤ mm.quoteBandHi)
  guard (¬ (mm.maxOpenOrders ≤ openOrderCount ∧ ts.everQuoted = false))
  let (modelBid, modelAsk) := modelQuotes action fvShift mid ts.tick mm.subpennyEnabled
  guard (¬ modelAsk ≤ modelBid)
  let quotes ← clampQuotes modelBid modelAsk bestBid bestAsk ts.tick
  guard (quoteEdgeOk quotes.1 quotes.2 mm.makerFeeRate 1 mm.minQuoteEdge = true)
  pure quotes

/-- Behind the price gates, the pair that rests is kept, or a plan is made. -/
theorem decideQuotes_eq (action : Action) (fvShift : ℚ) (ts : TickerState) (mm : MmParams)
    (maxInventory : ℤ) (openOrderCount : ℕ) :
    decideQuotes action fvShift ts mm maxInventory openOrderCount =
      (pricedQuotes action fvShift ts mm openOrderCount).bind fun quotes =>
        if keepsResting ts quotes.1 quotes.2 then none
        else some (sizedPlan ts mm maxInventory quotes.1 quotes.2) := by
  unfold decideQuotes pricedQuotes
  simp only [Option.bind_eq_bind, Option.bind_assoc, Option.pure_def, Option.bind_some]
  -- gate by gate the same, up to the last one
  congr! 13 with _ _ _ _ _ _ _ _ _ _ _ _ quotes
  cases keepsResting ts quotes.1 quotes.2 with
  | true => rfl
  | false => rfl

/-- The quotes of a stage that has passed the price gates. -/
def pricedAt (stage : Stage) (ticker : String) : Option (ℚ × ℚ) :=
  pricedQuotes stage.action stage.fvShift (stage.trader.state.tickerD ticker stage.category)
    stage.trader.cfg.mm stage.trader.state.openOrderCount

/-! ## The caps -/

def bidSize (mm : MmParams) (ourBid : ℚ) : ℤ :=
  if 1 - mm.extremeBand ≤ ourBid then mm.extremeQuoteSize else mm.quoteSize

def askSize (mm : MmParams) (ourAsk : ℚ) : ℤ :=
  if ourAsk ≤ mm.extremeBand then mm.extremeQuoteSize else mm.quoteSize

def maxInventoryOf (tr : Trader) (category : String) : ℤ :=
  ((tr.cats.lookup category).map CategoryConfig.maxInventory).getD 5

/-- No order rests on a side that the inventory cap or the tail gate forbids. -/
structure ObeysCaps (tr : Trader) (category ticker : String) (quotes : ℚ × ℚ) : Prop where
  bid : ¬ (|tr.positionOf ticker + bidSize tr.cfg.mm quotes.1| ≤ maxInventoryOf tr category ∧
    (tr.ladderTailGate ticker).1 = true) → (tr.state.tickerD ticker category).bidOrderId = none
  ask : ¬ (|tr.positionOf ticker - askSize tr.cfg.mm quotes.2| ≤ maxInventoryOf tr category ∧
    (tr.ladderTailGate ticker).2 = true) → (tr.state.tickerD ticker category).askOrderId = none

/-- The layers that leave resting orders alone: the balance backoff, and two resting orders whose
    prices have not moved by a tick. -/
def LeavesResting (tr : Trader) (category ticker : String) (mono : ℚ) (quotes : ℚ × ℚ) : Prop :=
  mono < tr.state.balanceBackoffUntil ∨
    keepsResting (tr.state.tickerD ticker category) quotes.1 quotes.2 = true

/-! ## Quote cycles -/

section QuoteCycle

variable {out : Outside} {category ticker : String} {action : Action} {fvShift : ℚ} {tr : Trader}
  {quotes : ℚ × ℚ}

/-- An unthrottled cycle whose prices pass makes a plan, unless it leaves what rests. -/
theorem planOf_priced
    (unthrottled : 1 ≤ out.mono - (tr.state.tickerD ticker category).lastQuoteTime)
    (priced : pricedQuotes action fvShift (tr.state.tickerD ticker category) tr.cfg.mm
      tr.state.openOrderCount = some quotes) :
    (LeavesResting tr category ticker out.mono quotes →
      planOf out category ticker action fvShift tr = none) ∧
    (¬ LeavesResting tr category ticker out.mono quotes →
      planOf out category ticker action fvShift tr = some (sizedPlan
        { tr.state.tickerD ticker category with lastQuoteTime := out.mono } tr.cfg.mm
        (maxInventoryOf tr category) quotes.1 quotes.2)) := by
  have decided (maxInventory : ℤ) :
      decideQuotes action fvShift { tr.state.tickerD ticker category with lastQuoteTime := out.mono }
        tr.cfg.mm maxInventory tr.state.openOrderCount =
      if keepsResting (tr.state.tickerD ticker category) quotes.1 quotes.2 then none
      else some (sizedPlan { tr.state.tickerD ticker category with lastQuoteTime := out.mono }
        tr.cfg.mm maxInventory quotes.1 quotes.2) := by
    -- the clock is no part of what the gates read
    have priced : pricedQuotes action fvShift
        { tr.state.tickerD ticker category with lastQuoteTime := out.mono } tr.cfg.mm
        tr.state.openOrderCount = some quotes := priced
    rw [decideQuotes_eq, priced]
    rfl
  unfold planOf planQuotes
  rw [if_neg (not_lt.mpr unthrottled)]
  dsimp only
  constructor
  · rintro (backedOff | keeps)
    · rw [if_pos backedOff]
    · split_ifs
      · rfl
      · rw [decided, if_pos keeps]
  · intro moves
    obtain ⟨ready, moved⟩ := not_or.mp moves
    rw [if_neg ready, decided, if_neg moved]
    rfl

/-- What a cycle that makes a plan leaves on record obeys the caps it was sized under. -/
theorem obeysCaps_quoteCycle
    (planned : planOf out category ticker action fvShift tr = some (sizedPlan
      { tr.state.tickerD ticker category with lastQuoteTime := out.mono } tr.cfg.mm
      (maxInventoryOf tr category) quotes.1 quotes.2)) :
    ObeysCaps (tr.quoteCycle out category ticker action fvShift (tr.ladderTailGate ticker)).trader
      category ticker quotes := by
  obtain ⟨_, state, ts, executed, tickers, _, _, bidId, askId, _⟩ :=
    quoteCycle_of_some (tr.ladderTailGate ticker) planned
  have position := positionOf_quoteCycle out category ticker action fvShift
    (tr.ladderTailGate ticker) tr ticker
  have gate := ladderTailGate_quoteCycle out category ticker action fvShift
    (tr.ladderTailGate ticker) tr ticker
  have here : state.tickerD ticker category = ts := by
    rw [TraderState.tickerD, tickers, Finmap.lookup_insert, Option.getD_some]
  rw [executed] at position gate ⊢
  -- a side that is forbidden was not placed, and its id is overwritten with none
  constructor
  · intro forbidden
    rw [position, gate] at forbidden
    have unplaced : ¬ ((decide (|(tr.state.tickerD ticker category).position +
        RestingCaps.bidSize tr.cfg.mm quotes.1| ≤ maxInventoryOf tr category)) &&
        (tr.ladderTailGate ticker).1) = true := by
      rw [Bool.and_eq_true, decide_eq_true_eq, ← positionOf_eq]
      exact forbidden
    rw [here, bidId]
    exact congrArg (fun placed => restingId (sendQuoteSide _ placed _).1)
      (Bool.eq_false_iff.mpr unplaced)
  · intro forbidden
    rw [position, gate] at forbidden
    have unplaced : ¬ ((decide (|(tr.state.tickerD ticker category).position -
        RestingCaps.askSize tr.cfg.mm quotes.2| ≤ maxInventoryOf tr category)) &&
        (tr.ladderTailGate ticker).2) = true := by
      rw [Bool.and_eq_true, decide_eq_true_eq, ← positionOf_eq]
      exact forbidden
    rw [here, askId]
    exact congrArg (fun placed => restingId (sendQuoteSide _ placed _).1)
      (Bool.eq_false_iff.mpr unplaced)

end QuoteCycle

/-! ## Book updates -/

theorem leavesResting_sensed {ticker category : String} {tr tr' : Trader}
    (sensed : Sensed ticker category tr tr') (mono : ℚ) (quotes : ℚ × ℚ) :
    LeavesResting tr' category ticker mono quotes ↔ LeavesResting tr category ticker mono quotes := by
  obtain ⟨_, _, _, _, rfl⟩ := sensed
  unfold LeavesResting
  rw [tickerD_setTicker]
  rfl

theorem ids_sensed {ticker category : String} {tr tr' : Trader}
    (sensed : Sensed ticker category tr tr') :
    (tr'.state.tickerD ticker category).bidOrderId = (tr.state.tickerD ticker category).bidOrderId ∧
      (tr'.state.tickerD ticker category).askOrderId =
        (tr.state.tickerD ticker category).askOrderId := by
  obtain ⟨_, _, _, _, rfl⟩ := sensed
  rw [tickerD_setTicker]
  exact ⟨rfl, rfl⟩

/-- Once a book update whose prices pass has finished, no order rests on a forbidden side, unless
    the update left the resting orders alone: then both sides are recorded as they were. -/
theorem resting_obeys_caps {env : Env} {out : Outside} {ticker : String} {msg : Value} {tr : Trader}
    {stage : Stage} {quotes : ℚ × ℚ} (reached : quoteStage env out ticker msg tr = some stage)
    (priced : pricedAt stage ticker = some quotes) :
    let tr' := (tr.onBookUpdate env out ticker msg).trader
    (¬ LeavesResting tr stage.category ticker out.mono quotes →
      ObeysCaps tr' stage.category ticker quotes) ∧
    (LeavesResting tr stage.category ticker out.mono quotes →
      (tr'.state.tickerD ticker stage.category).bidOrderId =
        (tr.state.tickerD ticker stage.category).bidOrderId ∧
      (tr'.state.tickerD ticker stage.category).askOrderId =
        (tr.state.tickerD ticker stage.category).askOrderId) := by
  intro tr'
  have staged := staged_of_quoteStage reached
  have updates : tr' = (stage.trader.quoteCycle out stage.category ticker stage.action
      stage.fvShift stage.allow).trader := by
    rw [← onBookUpdate_of_stage reached]
  have clocks := SameClocks.of_sensed staged.sensed
  have unthrottled : 1 ≤ out.mono -
      (stage.trader.state.tickerD ticker stage.category).lastQuoteTime := by
    rw [← quotedAt_eq, clocks.quotedAt, quotedAt_eq _ _ stage.category]
    exact staged.passes.2.1
  obtain ⟨leaves, plans⟩ := planOf_priced unthrottled priced
  rw [← leavesResting_sensed staged.sensed, updates]
  constructor
  · intro moves
    rw [staged.tailGate]
    exact obeysCaps_quoteCycle (plans moves)
  · intro rests
    obtain ⟨_, _, idle⟩ := quoteCycle_of_none stage.allow (leaves rests)
    rw [idle, tickerD_setTicker]
    exact ids_sensed staged.sensed

/-! ## A position corrected up to the cap -/

def cappedEnv : Env := marketEnv (some narrow)

def twoMarkets (mono : ℚ) : Outside := listing ["KXBTCD-1", "KXBTCD-2"] mono

/-- An exchange that reports a position in the first market. -/
def holdingFive (mono : ℚ) : Outside :=
  { twoMarkets mono with
    api :=
      { (twoMarkets mono).api with
        getPositions := .ok (.object [("market_positions", .array [.object
          [("ticker", .string "KXBTCD-1"), ("position", .number 5)]])]) } }

/-- An exchange that rejects every order for lack of balance. -/
def outOfBalance (mono : ℚ) : Outside :=
  { twoMarkets mono with
    api := { (twoMarkets mono).api with placeLimitOrder := fun _ => .error "insufficient_balance" } }

/-- The first market quotes at 42 and 48 cents; then a sync finds it five contracts long. -/
def longFive : Trader :=
  run (Trader.step cappedEnv) (Trader.startup cappedEnv (marketCfg none) (twoMarkets 0))
    [⟨.book "KXBTCD-1" (snapshot (2 / 5) (1 / 2)), twoMarkets 61⟩, ⟨.sync, holdingFive 100⟩]

theorem resting_obeys_caps_moved :
    let msg := snapshot (3 / 10) (3 / 5)
    let tr' := (longFive.onBookUpdate cappedEnv (twoMarkets 110) "KXBTCD-1" msg).trader
    ObeysCaps tr' "KXBTCD" "KXBTCD-1" (8 / 25, 19 / 50) ∧
      tr'.state.recordedIds "KXBTCD-1" = ["a1"] := by
  intro msg tr'
  have prices : ((quoteStage cappedEnv (twoMarkets 110) "KXBTCD-1" msg longFive).bind fun stage =>
      pricedAt stage "KXBTCD-1") = some (8 / 25, 19 / 50) := by decide +kernel
  have listed : longFive.activeTickers.lookup "KXBTCD-1" = some "KXBTCD" := by decide +kernel
  obtain ⟨stage, reached, priced⟩ := Option.bind_eq_some_iff.mp prices
  have category : stage.category = "KXBTCD" :=
    Option.some.inj ((staged_of_quoteStage reached).active.symm.trans listed)
  have moves : ¬ LeavesResting longFive "KXBTCD" "KXBTCD-1" 110 (8 / 25, 19 / 50) := by
    unfold LeavesResting
    decide +kernel
  refine ⟨?_, by decide +kernel⟩
  rw [← category]
  exact (resting_obeys_caps reached priced).1 (category ▸ moves)

/-- With the position at the cap, an update at unmoved prices keeps the bid, and so does one at moved
    prices while quoting is backed off. -/
theorem bid_rests_over_cap :
    let backedOff := longFive.step cappedEnv
      ⟨.book "KXBTCD-2" (snapshot (2 / 5) (1 / 2)), outOfBalance 101⟩
    (∃ stage, quoteStage cappedEnv (twoMarkets 110) "KXBTCD-1" (snapshot (2 / 5) (1 / 2)) longFive =
        some stage ∧ pricedAt stage "KXBTCD-1" = some (21 / 50, 12 / 25)) ∧
      ¬ ObeysCaps (longFive.onBookUpdate cappedEnv (twoMarkets 110) "KXBTCD-1"
        (snapshot (2 / 5) (1 / 2))).trader "KXBTCD" "KXBTCD-1" (21 / 50, 12 / 25) ∧
    (∃ stage, quoteStage cappedEnv (twoMarkets 110) "KXBTCD-1" (snapshot (3 / 10) (3 / 5)) backedOff =
        some stage ∧ pricedAt stage "KXBTCD-1" = some (8 / 25, 19 / 50)) ∧
      ¬ ObeysCaps (backedOff.onBookUpdate cappedEnv (twoMarkets 110) "KXBTCD-1"
        (snapshot (3 / 10) (3 / 5))).trader "KXBTCD" "KXBTCD-1" (8 / 25, 19 / 50) := by
  intro backedOff
  have unmoved : ((quoteStage cappedEnv (twoMarkets 110) "KXBTCD-1" (snapshot (2 / 5) (1 / 2))
      longFive).bind fun stage => pricedAt stage "KXBTCD-1") = some (21 / 50, 12 / 25) := by
    decide +kernel
  have moved : ((quoteStage cappedEnv (twoMarkets 110) "KXBTCD-1" (snapshot (3 / 10) (3 / 5))
      backedOff).bind fun stage => pricedAt stage "KXBTCD-1") = some (8 / 25, 19 / 50) := by
    decide +kernel
  refine ⟨Option.bind_eq_some_iff.mp unmoved, fun obeys => ?_, Option.bind_eq_some_iff.mp moved,
    fun obeys => ?_⟩
  · exact absurd (obeys.bid (by decide +kernel)) (by decide +kernel)
  · exact absurd (obeys.bid (by decide +kernel)) (by decide +kernel)

end KalshiMm.Verified.RestingCaps
