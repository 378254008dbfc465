import KalshiMm.Verified.KeepResting

/-!
# The inventory cap and unwinding

The cap is held against the size of the position after a fill, whichever way the fill goes.  A
position that lies beyond the cap by more than one order is blocked on the unwinding side, too.
-/

namespace KalshiMm.Verified.Unwinding

open KalshiMm.Lib KalshiMm.Model RestingCaps KeepResting

/-- A side whose full fill takes the position toward zero and not across it is allowed. -/
structure UnwindingAllowed (position : ℤ) (plan : QuotePlan) : Prop where
  ask : 0 < plan.askSize → plan.askSize ≤ position → plan.placeAsk = true
  bid : 0 < plan.bidSize → plan.bidSize ≤ -position → plan.placeBid = true

/-- One order of the unwinding side, of the size that goes with its price, takes the position back
    to the cap. -/
structure OneOrderOver (position maxInventory : ℤ) (mm : MmParams) (quotes : ℚ × ℚ) : Prop where
  ask : 0 < askSize mm quotes.2 → askSize mm quotes.2 ≤ position →
    position - askSize mm quotes.2 ≤ maxInventory
  bid : 0 < bidSize mm quotes.1 → bidSize mm quotes.1 ≤ -position →
    -position - bidSize mm quotes.1 ≤ maxInventory

theorem placeAsk_sizedPlan (ts : TickerState) (mm : MmParams) (maxInventory : ℤ) (quotes : ℚ × ℚ) :
    (sizedPlan ts mm maxInventory quotes.1 quotes.2).placeAsk = true ↔
      |ts.position - askSize mm quotes.2| ≤ maxInventory := decide_eq_true_iff

theorem placeBid_sizedPlan (ts : TickerState) (mm : MmParams) (maxInventory : ℤ) (quotes : ℚ × ℚ) :
    (sizedPlan ts mm maxInventory quotes.1 quotes.2).placeBid = true ↔
      |ts.position + bidSize mm quotes.1| ≤ maxInventory := decide_eq_true_iff

theorem unwindingAllowed_sizedPlan (ts : TickerState) (mm : MmParams) (maxInventory : ℤ)
    (quotes : ℚ × ℚ) :
    UnwindingAllowed ts.position (sizedPlan ts mm maxInventory quotes.1 quotes.2) ↔
      OneOrderOver ts.position maxInventory mm quotes := by
  have asked : 0 < askSize mm quotes.2 → askSize mm quotes.2 ≤ ts.position →
      ((sizedPlan ts mm maxInventory quotes.1 quotes.2).placeAsk = true ↔
        ts.position - askSize mm quotes.2 ≤ maxInventory) := by
    intro _ covered
    rw [placeAsk_sizedPlan, abs_of_nonneg (sub_nonneg.mpr covered)]
  have bidden : 0 < bidSize mm quotes.1 → bidSize mm quotes.1 ≤ -ts.position →
      ((sizedPlan ts mm maxInventory quotes.1 quotes.2).placeBid = true ↔
        -ts.position - bidSize mm quotes.1 ≤ maxInventory) := by
    intro _ covered
    rw [placeBid_sizedPlan, abs_of_nonpos (by omega), neg_add']
  constructor
  · intro allowed
    exact ⟨fun sized covered => (asked sized covered).mp (allowed.ask sized covered),
      fun sized covered => (bidden sized covered).mp (allowed.bid sized covered)⟩
  · intro withinOne
    exact ⟨fun sized covered => (asked sized covered).mpr (withinOne.ask sized covered),
      fun sized covered => (bidden sized covered).mpr (withinOne.bid sized covered)⟩

theorem neither_side_sizedPlan (ts : TickerState) {mm : MmParams} {maxInventory : ℤ} {quotes : ℚ × ℚ}
    (ask : 0 ≤ askSize mm quotes.2) (bid : 0 ≤ bidSize mm quotes.1)
    (beyond : maxInventory + max (askSize mm quotes.2) (bidSize mm quotes.1) < |ts.position|) :
    (sizedPlan ts mm maxInventory quotes.1 quotes.2).placeAsk = false ∧
      (sizedPlan ts mm maxInventory quotes.1 quotes.2).placeBid = false := by
  have askLe := le_max_left (askSize mm quotes.2) (bidSize mm quotes.1)
  have bidLe := le_max_right (askSize mm quotes.2) (bidSize mm quotes.1)
  rw [← Bool.not_eq_true, ← Bool.not_eq_true, placeAsk_sizedPlan, placeBid_sizedPlan, not_le, not_le]
  constructor
  · have triangle := abs_sub_abs_le_abs_sub ts.position (askSize mm quotes.2)
    rw [abs_of_nonneg ask] at triangle
    omega
  · have triangle := abs_sub_abs_le_abs_sub ts.position (-bidSize mm quotes.1)
    rw [abs_neg, abs_of_nonneg bid, sub_neg_eq_add] at triangle
    omega

section Plans

variable {action : Action} {fvShift : ℚ} {ts : TickerState} {mm : MmParams} {maxInventory : ℤ}
  {openOrderCount : ℕ} {balanceBackoffUntil nowMono : ℚ} {plan : QuotePlan}

/-- A plan is that of its prices, which the throttle clock is no part of. -/
theorem pricedQuotes_of_planQuotes
    (planned : (planQuotes action fvShift ts mm maxInventory openOrderCount balanceBackoffUntil
      nowMono).2 = some plan) :
    ∃ quotes, pricedQuotes action fvShift ts mm openOrderCount = some quotes ∧
      plan = sizedPlan { ts with lastQuoteTime := nowMono } mm maxInventory quotes.1 quotes.2 := by
  obtain ⟨quotes, priced, made⟩ := decideQuotes_priced (planQuotes_some planned)
  exact ⟨quotes, priced, made⟩

/-- Within the cap, either side of any size may unwind. -/
theorem unwinds_within_the_cap
    (planned : (planQuotes action fvShift ts mm maxInventory openOrderCount balanceBackoffUntil
      nowMono).2 = some plan)
    (capped : |ts.position| ≤ maxInventory) : UnwindingAllowed ts.position plan := by
  obtain ⟨quotes, _, rfl⟩ := pricedQuotes_of_planQuotes planned
  obtain ⟨short, long⟩ := abs_le.mp capped
  have withinOne : OneOrderOver ts.position maxInventory mm quotes := ⟨by omega, by omega⟩
  exact (unwindingAllowed_sizedPlan { ts with lastQuoteTime := nowMono } mm _ quotes).mpr withinOne

/-- Beyond the cap by more than either order, the market is quoted on neither side. -/
theorem neither_side_placed
    (planned : (planQuotes action fvShift ts mm maxInventory openOrderCount balanceBackoffUntil
      nowMono).2 = some plan)
    (ask : 0 ≤ plan.askSize) (bid : 0 ≤ plan.bidSize)
    (beyond : maxInventory + max plan.askSize plan.bidSize < |ts.position|) :
    plan.placeAsk = false ∧ plan.placeBid = false := by
  obtain ⟨quotes, _, rfl⟩ := pricedQuotes_of_planQuotes planned
  exact neither_side_sizedPlan { ts with lastQuoteTime := nowMono } ask bid beyond

/-- The cap leaves unwinding alone exactly where one order takes the position back to the cap. -/
theorem unwinding_allowed_iff
    (planned : (planQuotes action fvShift ts mm maxInventory openOrderCount balanceBackoffUntil
      nowMono).2 = some plan) :
    UnwindingAllowed ts.position plan ↔ ∃ quotes ∈ pricedQuotes action fvShift ts mm openOrderCount,
      OneOrderOver ts.position maxInventory mm quotes := by
  obtain ⟨quotes, priced, rfl⟩ := pricedQuotes_of_planQuotes planned
  rw [priced]
  refine (unwindingAllowed_sizedPlan { ts with lastQuoteTime := nowMono } mm maxInventory quotes).trans
    ⟨fun withinOne => ⟨quotes, rfl, withinOne⟩, ?_⟩
  rintro ⟨_, found, withinOne⟩
  cases found
  exact withinOne

end Plans

/-! ## A position that was carried over -/

def reporting (position : ℚ) : Outside :=
  { answering "b1" "a1" 10 with
    api :=
      { (answering "b1" "a1" 10).api with
        getPositions := .ok (.object [("market_positions", .array [.object
          [("ticker", .string "KXBTCD-1"), ("position_fp", .number position)]])]) } }

/-- The market, flat as far as the trader knows, once the exchange has reported its position. -/
def carriedOver (position : ℚ) : TickerState :=
  let known := (Trader.start (marketCfg none) 0).state.setTicker "KXBTCD-1" (quotable 0)
  let synced := Trader.syncPositions (reporting position)
    { Trader.start (marketCfg none) 0 with state := known }
  synced.state.tickerD "KXBTCD-1" "KXBTCD"

theorem unwinding_allowed_one_over :
    ∃ plan, (planQuotes narrow 0 (carriedOver 6) {} 5 0 0 11).2 = some plan ∧
      UnwindingAllowed 6 plan := by
  obtain ⟨plan, planned⟩ : ∃ plan, (planQuotes narrow 0 (carriedOver 6) {} 5 0 0 11).2 = some plan :=
    Option.isSome_iff_exists.mp (by decide +kernel)
  have position : (carriedOver 6).position = 6 := by decide +kernel
  have priced : pricedQuotes narrow 0 (carriedOver 6) {} 0 = some (21 / 50, 12 / 25) := by
    decide +kernel
  have allowed := (unwinding_allowed_iff planned).mpr ⟨_, priced, ?_⟩
  · rw [position] at allowed
    exact ⟨plan, planned, allowed⟩
  · rw [position]
    exact ⟨by decide +kernel, by decide +kernel⟩

/-- Thirty contracts with a cap of five: selling one of them is blocked. -/
theorem unwinding_blocked :
    (carriedOver 30).position = 30 ∧
      ¬ ∀ plan ∈ (planQuotes narrow 0 (carriedOver 30) {} 5 0 0 11).2,
        UnwindingAllowed (carriedOver 30).position plan := by
  have position : (carriedOver 30).position = 30 := by decide +kernel
  refine ⟨position, fun allowed => ?_⟩
  have blocked : (planQuotes narrow 0 (carriedOver 30) {} 5 0 0 11).2.map
      (fun plan => (plan.askSize, plan.placeAsk)) = some (1, false) := by
    decide +kernel
  obtain ⟨plan, planned, asked⟩ := Option.map_eq_some_iff.mp blocked
  obtain ⟨size, placed⟩ := Prod.mk.inj asked
  have ask := (allowed plan planned).ask
  rw [position, size, placed] at ask
  exact absurd (ask (by norm_num) (by norm_num)) Bool.false_ne_true

end KalshiMm.Verified.Unwinding
