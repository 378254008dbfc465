import KalshiMm.Model.Engine

/-!
# Quotes lean with their inputs

From the action and the shift to the cents that are sent, every step of the pricing is monotone:
the scaling, all the roundings, the legal range and the clamp at the touch.  A bid rises with shift
and skew and falls with the half-spread, and an ask rises with all three, on any book and tick.
-/

namespace KalshiMm.Verified.Leaning

open KalshiMm.Lib KalshiMm.Model

/-! ## Monotone steps -/

theorem roundDp_monotone (dp : ℕ) : Monotone fun x => roundDp x dp :=
  roundTo_monotone roundTiesEven_isNearest.monotone (by positivity)

theorem round4_monotone : Monotone round4 :=
  roundTo_monotone roundHalfAway_isNearest.monotone (by norm_num)

theorem clamp_monotone (lo hi : ℚ) : Monotone fun x => clamp x lo hi :=
  fun _ _ le => max_le_max_left lo (min_le_min_left hi le)

theorem toCents_monotone (tick : ℚ) : Monotone (toCents tick) := by
  intro x y le
  have scaled : x * 100 ≤ y * 100 := by linarith
  unfold toCents
  split_ifs
  · exact roundDp_monotone 1 scaled
  · exact Int.cast_le.mpr (roundHalfAway_isNearest.monotone scaled)

section Scale

variable {action action' : Action}

theorem halfSpread_mono (wider : action.spread ≤ action'.spread) :
    (scaleAction action).1 ≤ (scaleAction action').1 := by
  have clamped := clamp_monotone (-1) 1 wider
  refine roundDp_monotone 3 ?_
  dsimp only at clamped ⊢
  linarith

theorem skew_mono (skewed : action.skew ≤ action'.skew) :
    (scaleAction action).2 ≤ (scaleAction action').2 := by
  have clamped := clamp_monotone (-1) 1 skewed
  refine roundDp_monotone 3 ?_
  dsimp only at clamped ⊢
  linarith

variable {fvShift fvShift' : ℚ} (skewed : action.skew ≤ action'.skew) (shifted : fvShift ≤ fvShift')
  (mid tick : ℚ) (subpennyEnabled : Bool)
include skewed shifted

theorem modelBid_mono (narrower : action'.spread ≤ action.spread) :
    (modelQuotes action fvShift mid tick subpennyEnabled).1 ≤
      (modelQuotes action' fvShift' mid tick subpennyEnabled).1 := by
  have spread := halfSpread_mono narrower
  have skew := skew_mono skewed
  unfold scaleAction at spread skew
  refine clamp_monotone _ _ (roundDp_monotone _ ?_)
  linarith

theorem modelAsk_mono (wider : action.spread ≤ action'.spread) :
    (modelQuotes action fvShift mid tick subpennyEnabled).2 ≤
      (modelQuotes action' fvShift' mid tick subpennyEnabled).2 := by
  have spread := halfSpread_mono wider
  have skew := skew_mono skewed
  unfold scaleAction at spread skew
  refine clamp_monotone _ _ (roundDp_monotone _ ?_)
  linarith

end Scale

/-! ## The cents of a plan -/

theorem clampQuotes_eq {bid ask bestBid bestAsk tick : ℚ} {quotes : ℚ × ℚ}
    (clamped : clampQuotes bid ask bestBid bestAsk tick = some quotes) :
    quotes = (round4 (min bid (bestAsk - tick)), round4 (max ask (bestBid + tick))) := by
  unfold clampQuotes at clamped
  dsimp only at clamped
  split_ifs at clamped
  exact (Option.some.inj clamped).symm

/-- The cents of a plan, from the touch and the model's quotes. -/
theorem cents_of_planQuotes {action : Action} {fvShift : ℚ} {ts : TickerState} {mm : MmParams}
    {maxInventory : ℤ} {openOrderCount : ℕ} {balanceBackoffUntil nowMono : ℚ} {plan : QuotePlan}
    (planned : (planQuotes action fvShift ts mm maxInventory openOrderCount balanceBackoffUntil
      nowMono).2 = some plan) :
    ∃ bestBid bestAsk, ts.book.bestBid = some bestBid ∧ ts.book.bestAsk = some bestAsk ∧
      let model := modelQuotes action fvShift ((bestBid + bestAsk) / 2) ts.tick mm.subpennyEnabled
      plan.bidCents = toCents ts.tick (round4 (min model.1 (bestAsk - ts.tick))) ∧
      plan.askCents = toCents ts.tick (round4 (max model.2 (bestBid + ts.tick))) := by
  obtain ⟨bestBid, bestAsk, quotes, _, hasBid, hasAsk, _, _, _, clamped, _, _, rfl⟩ :=
    decideQuotes_some (planQuotes_some planned)
  rw [clampQuotes_eq clamped]
  exact ⟨bestBid, bestAsk, hasBid, hasAsk, rfl, rfl⟩

/-- Two plans for one market at one time.  The bid is no lower where shift and skew are no lower and
    the half-spread is no wider; the ask is no lower where none of the three is. -/
theorem quotes_lean {action action' : Action} {fvShift fvShift' : ℚ} {ts : TickerState}
    {mm : MmParams} {maxInventory : ℤ} {openOrderCount : ℕ} {balanceBackoffUntil nowMono : ℚ}
    {plan plan' : QuotePlan}
    (planned : (planQuotes action fvShift ts mm maxInventory openOrderCount balanceBackoffUntil
      nowMono).2 = some plan)
    (planned' : (planQuotes action' fvShift' ts mm maxInventory openOrderCount balanceBackoffUntil
      nowMono).2 = some plan')
    (skewed : action.skew ≤ action'.skew) (shifted : fvShift ≤ fvShift') :
    (action'.spread ≤ action.spread → plan.bidCents ≤ plan'.bidCents) ∧
      (action.spread ≤ action'.spread → plan.askCents ≤ plan'.askCents) := by
  obtain ⟨bestBid, bestAsk, hasBid, hasAsk, bid, ask⟩ := cents_of_planQuotes planned
  obtain ⟨_, _, hasBid', hasAsk', bid', ask'⟩ := cents_of_planQuotes planned'
  cases hasBid.symm.trans hasBid'
  cases hasAsk.symm.trans hasAsk'
  constructor
  · intro narrower
    have model := modelBid_mono skewed shifted ((bestBid + bestAsk) / 2) ts.tick
      mm.subpennyEnabled narrower
    rw [bid, bid']
    exact toCents_monotone _ (round4_monotone (min_le_min_right _ model))
  · intro wider
    have model := modelAsk_mono skewed shifted ((bestBid + bestAsk) / 2) ts.tick
      mm.subpennyEnabled wider
    rw [ask, ask']
    exact toCents_monotone _ (round4_monotone (max_le_max_right _ model))

/-- A shift of five cents on a wide book. -/
theorem quotes_lean_shifted :
    let ts : TickerState := { TickerState.new "KXBTCD" with
      book := { yes := Finmap.singleton 300 10, no := Finmap.singleton 500 10 } }
    ∃ plan plan', (planQuotes ⟨-9 / 10, 0⟩ 0 ts {} 5 0 0 10).2 = some plan ∧
      (planQuotes ⟨-9 / 10, 0⟩ (1 / 20) ts {} 5 0 0 10).2 = some plan' ∧
      plan.bidCents ≤ plan'.bidCents ∧ plan.askCents ≤ plan'.askCents := by
  intro ts
  obtain ⟨plan, planned⟩ : ∃ plan, (planQuotes ⟨-9 / 10, 0⟩ 0 ts {} 5 0 0 10).2 = some plan :=
    Option.isSome_iff_exists.mp (by decide +kernel)
  obtain ⟨plan', planned'⟩ :
      ∃ plan, (planQuotes ⟨-9 / 10, 0⟩ (1 / 20) ts {} 5 0 0 10).2 = some plan :=
    Option.isSome_iff_exists.mp (by decide +kernel)
  have leans := quotes_lean planned planned' le_rfl (by norm_num)
  exact ⟨plan, plan', planned, planned', leans.1 le_rfl, leans.2 le_rfl⟩

end KalshiMm.Verified.Leaning
