import KalshiMm.Model.State

/-!
# Quote, exit and risk decisions (`engine.rs`)

Pure decisions: no I/O and no clock reads.  Shifts and actions are rationals, so the source's
guards against non-finite inputs have no counterpart.
-/

namespace KalshiMm.Model

open KalshiMm.Lib

def expiryBufferS : ℚ := 120
def stopLossFloor : ℚ := 5 / 100

/-- Python's `round(x, dp)`: half to even after decimal scaling. -/
def roundDp (x : ℚ) (dp : ℕ) : ℚ := roundTo roundTiesEven (10 ^ dp) x

structure Action where
  spread : ℚ
  skew : ℚ
deriving DecidableEq

/-- Model action to (half-spread, skew), both at three decimals. -/
def scaleAction (action : Action) : ℚ × ℚ :=
  let a0 := clamp action.spread (-1) 1
  let halfSpread := 1 / 100 + (a0 + 1) / 2 * (49 / 100)
  let a1 := clamp action.skew (-1) 1
  (roundDp halfSpread 3, roundDp (a1 * (5 / 100)) 3)

/-- What the executor should do for one ticker's two-sided quote. -/
structure QuotePlan where
  bidCents : ℚ
  askCents : ℚ
  placeBid : Bool
  placeAsk : Bool
  bidSize : ℤ
  askSize : ℤ
  cancelIds : List String
  quotedBid : ℚ
  quotedAsk : ℚ

inductive OrderSide where
  | buy
  | sell
deriving DecidableEq

inductive ExitReason where
  | stopLoss
  | expiry
  | spotAdverse
deriving DecidableEq

structure ExitPlan where
  side : OrderSide
  priceCents : ℚ
  size : ℤ
  reason : ExitReason
deriving DecidableEq

/-! ## Quoting -/

def supportsSubpenny (tick : ℚ) : Bool := tick ≤ 1 / 1000

/-- The desired quotes before the safety layers: recentred, skewed, nudged for queue priority,
    snapped to the grid and to the legal range. -/
def modelQuotes (action : Action) (fvShift mid tick : ℚ) (subpennyEnabled : Bool) : ℚ × ℚ :=
  let (halfSpread, skew) := scaleAction action
  let center := mid + fvShift
  let nudge : ℚ := if supportsSubpenny tick && subpennyEnabled then 1 / 1000 else 0
  let decimals := if supportsSubpenny tick then 3 else 2
  let ourBid := center - halfSpread + skew + nudge
  let ourAsk := center + halfSpread + skew - nudge
  (clamp (roundDp ourBid decimals) (1 / 100) (99 / 100),
    clamp (roundDp ourAsk decimals) (1 / 100) (99 / 100))

/-- Keep resting orders while the quote has not moved a full tick. -/
def keepsResting (ts : TickerState) (ourBid ourAsk : ℚ) : Bool :=
  match ts.quotedBid, ts.quotedAsk with
  | some qb, some qa =>
    ts.bidOrderId.isSome && ts.askOrderId.isSome &&
      decide (|qb - ourBid| < ts.tick * (999 / 1000)) &&
      decide (|qa - ourAsk| < ts.tick * (999 / 1000))
  | _, _ => false

/-- Dollars to the cents that are sent. -/
def toCents (tick dollars : ℚ) : ℚ :=
  if supportsSubpenny tick then roundDp (dollars * 100) 1 else roundHalfAway (dollars * 100)

def sizedPlan (ts : TickerState) (mm : MmParams) (maxInventory : ℤ) (ourBid ourAsk : ℚ) :
    QuotePlan :=
  let bidSize := if 1 - mm.extremeBand ≤ ourBid then mm.extremeQuoteSize else mm.quoteSize
  let askSize := if ourAsk ≤ mm.extremeBand then mm.extremeQuoteSize else mm.quoteSize
  { bidCents := toCents ts.tick ourBid
    askCents := toCents ts.tick ourAsk
    -- the cap is held against the position, not against orders that may still rest
    placeBid := |ts.position + bidSize| ≤ maxInventory
    placeAsk := |ts.position - askSize| ≤ maxInventory
    bidSize
    askSize
    cancelIds := ts.orderIds
    quotedBid := ourBid
    quotedAsk := ourAsk }

/-- The layers of `planQuotes` behind throttle and backoff, in the source's order. -/
def decideQuotes (action : Action) (fvShift : ℚ) (ts : TickerState) (mm : MmParams)
    (maxInventory : ℤ) (openOrderCount : ℕ) : Option QuotePlan := do
  guard (ts.book.isValid = true)
  let bestBid ← ts.book.bestBid
  let bestAsk ← ts.book.bestAsk
  let mid := (bestBid + bestAsk) / 2
  guard (mm.quoteBandLo ≤ mid ∧ mid ≤ mm.quoteBandHi)
  -- a market that has quoted before keeps refreshing, at the cap, too
  guard (¬ (mm.maxOpenOrders ≤ openOrderCount ∧ ts.everQuoted = false))
  let (modelBid, modelAsk) := modelQuotes action fvShift mid ts.tick mm.subpennyEnabled
  guard (¬ modelAsk ≤ modelBid)
  let (ourBid, ourAsk) ← clampQuotes modelBid modelAsk bestBid bestAsk ts.tick
  -- the edge is that of one contract, whatever the size
  guard (quoteEdgeOk ourBid ourAsk mm.makerFeeRate 1 mm.minQuoteEdge = true)
  guard (keepsResting ts ourBid ourAsk = false)
  pure (sizedPlan ts mm maxInventory ourBid ourAsk)

/-- Model action to quote plan; this function owns the throttle clock. -/
def planQuotes (action : Action) (fvShift : ℚ) (ts : TickerState) (mm : MmParams)
    (maxInventory : ℤ) (openOrderCount : ℕ) (balanceBackoffUntil nowMono : ℚ) :
    TickerState × Option QuotePlan :=
  if nowMono - ts.lastQuoteTime < 1 then (ts, none)
  else
    let ts := { ts with lastQuoteTime := nowMono }
    -- the clock has advanced even where a later layer refuses
    if nowMono < balanceBackoffUntil then (ts, none)
    else (ts, decideQuotes action fvShift ts mm maxInventory openOrderCount)

theorem decideQuotes_some {action : Action} {fvShift : ℚ} {ts : TickerState} {mm : MmParams}
    {maxInventory : ℤ} {openOrderCount : ℕ} {plan : QuotePlan}
    (decided : decideQuotes action fvShift ts mm maxInventory openOrderCount = some plan) :
    ∃ bestBid bestAsk quotes, ts.book.isValid = true ∧ ts.book.bestBid = some bestBid ∧
      ts.book.bestAsk = some bestAsk ∧ mm.quoteBandLo ≤ (bestBid + bestAsk) / 2 ∧
      (bestBid + bestAsk) / 2 ≤ mm.quoteBandHi ∧
      ¬ (mm.maxOpenOrders ≤ openOrderCount ∧ ts.everQuoted = false) ∧
      clampQuotes
          (modelQuotes action fvShift ((bestBid + bestAsk) / 2) ts.tick mm.subpennyEnabled).1
          (modelQuotes action fvShift ((bestBid + bestAsk) / 2) ts.tick mm.subpennyEnabled).2
          bestBid bestAsk ts.tick = some quotes ∧
      quoteEdgeOk quotes.1 quotes.2 mm.makerFeeRate 1 mm.minQuoteEdge = true ∧
      keepsResting ts quotes.1 quotes.2 = false ∧
      plan = sizedPlan ts mm maxInventory quotes.1 quotes.2 := by
  simp only [decideQuotes, Option.bind_eq_bind, Option.bind_eq_some_iff, Option.guard_eq_some',
    Option.pure_def, Option.some.injEq, exists_const] at decided
  obtain ⟨valid, bestBid, hasBid, bestAsk, hasAsk, ⟨bandLo, bandHi⟩, budget, _, quotes, clamped,
    edge, moved, rfl⟩ := decided
  exact ⟨bestBid, bestAsk, quotes, valid, hasBid, hasAsk, bandLo, bandHi, budget, clamped, edge,
    moved, rfl⟩

theorem planQuotes_fst (action : Action) (fvShift : ℚ) (ts : TickerState) (mm : MmParams)
    (maxInventory : ℤ) (openOrderCount : ℕ) (balanceBackoffUntil nowMono : ℚ) :
    ∃ lastQuoteTime, (planQuotes action fvShift ts mm maxInventory openOrderCount
      balanceBackoffUntil nowMono).1 = { ts with lastQuoteTime } := by
  unfold planQuotes
  split_ifs
  · exact ⟨_, rfl⟩
  · exact ⟨_, rfl⟩
  · exact ⟨_, rfl⟩

theorem planQuotes_some {action : Action} {fvShift : ℚ} {ts : TickerState} {mm : MmParams}
    {maxInventory : ℤ} {openOrderCount : ℕ} {balanceBackoffUntil nowMono : ℚ} {plan : QuotePlan}
    (planned : (planQuotes action fvShift ts mm maxInventory openOrderCount balanceBackoffUntil
      nowMono).2 = some plan) :
    decideQuotes action fvShift { ts with lastQuoteTime := nowMono } mm maxInventory
      openOrderCount = some plan := by
  unfold planQuotes at planned
  split_ifs at planned
  exact planned

/-! ## Exits -/

def marketClosed (ts : TickerState) (nowS : ℚ) : Bool := ts.closeTimeS.any fun closeS => closeS ≤ nowS

def expiryImminent (ts : TickerState) (nowS : ℚ) : Bool :=
  ts.closeTimeS.any fun closeS => closeS - nowS < expiryBufferS

def stopLossTriggered (ts : TickerState) : Bool :=
  match ts.entryPrice, ts.book.isValid, ts.book.bestBid, ts.book.bestAsk with
  | some entry, true, some bestBid, some bestAsk =>
    let mid := (bestBid + bestAsk) / 2
    let spread := bestAsk - bestBid
    let stopThreshold := max stopLossFloor (2 * spread)
    ((0 < ts.position ∧ mid < entry) ∨ (ts.position < 0 ∧ entry < mid)) ∧
      stopThreshold ≤ |mid - entry|
  | _, _, _, _ => false

/-- The crossing order that takes a position to zero: a long sells into the bid, a short buys
    the ask; nothing where that side is empty. -/
def crossingExit (ts : TickerState) (reason : ExitReason) : Option ExitPlan :=
  if 0 < ts.position then
    ts.book.bestBid.map fun bestBid =>
      { side := .sell, priceCents := roundDp (bestBid * 100) 1, size := ts.position, reason }
  else
    ts.book.bestAsk.map fun bestAsk =>
      { side := .buy, priceCents := roundDp (bestAsk * 100) 1, size := |ts.position|, reason }

def exitDecision (ts : TickerState) (nowS : ℚ) : Option ExitPlan :=
  if ts.position = 0 then none
  else if stopLossTriggered ts then crossingExit ts .stopLoss
  else if expiryImminent ts nowS then crossingExit ts .expiry
  else none

/-- Why a held position got no exit order. -/
inductive ExitBlock where
  | noExitLiquidity
  | noEntryPrice
  | bookOneSided
  | withinThreshold
deriving DecidableEq

/-- The reason, ordered by urgency; `none` for a flat position and where a plan was made. -/
def exitBlock (ts : TickerState) (nowS : ℚ) : Option ExitBlock :=
  if ts.position = 0 ∨ (exitDecision ts nowS).isSome then none
  else if expiryImminent ts nowS ∨ stopLossTriggered ts then some .noExitLiquidity
  else if ts.entryPrice.isNone then some .noEntryPrice
  else if ts.book.isValid = false then some .bookOneSided
  else some .withinThreshold

def exitRetryBaseS : ℚ := 10
def exitRetryMaxS : ℚ := 60

/-- How long to wait before re-sending an exit that failed to change the position. -/
def exitRetryDelayS (consecutiveAttempts : ℕ) : ℚ :=
  if consecutiveAttempts = 0 then 0
  else min (exitRetryBaseS * 2 ^ (consecutiveAttempts - 1)) exitRetryMaxS

/-- Spot-adverse unwind: fair value moved against the inventory by more than the threshold. -/
def spotUnwindDecision (ts : TickerState) (fvShift unwindShift : ℚ) : Option ExitPlan :=
  if ts.position = 0 ∨ ts.book.isValid = false then none
  else if -unwindShift ≤ ts.position.sign * fvShift then none
  else
    match ts.book.bestBid, ts.book.bestAsk with
    | some _, some _ => crossingExit ts .spotAdverse
    | _, _ => none

/-! ## Risk -/

/-- Account-level gates: may the trader quote, and the reason to halt altogether. -/
def checkRiskLimits (state : TraderState) (live : LiveConfig) (active : Option (Finset String)) :
    Bool × Option String :=
  if state.dailyPnl ≤ -live.maxDailyLoss then (false, some "Daily loss limit")
  else if state.cumulativePnl ≤ live.stopLossThreshold then (false, some "Stop loss")
  else if live.maxPositionValue ≤ state.positionValue active then (false, none)
  else (true, none)

end KalshiMm.Model
