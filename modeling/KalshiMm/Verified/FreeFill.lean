import KalshiMm.Verified.AccountTotals
import KalshiMm.Verified.Pnl

/-!
# A settlement is a free fill

A market that settles is cleared as a fill would clear it that closes the whole position at the
final value and costs nothing.  What only a fill leaves behind is its count, its log entry, its time
and the order slot it releases; the streak of losses is left alone by a settlement.
-/

namespace KalshiMm.Verified.FreeFill

open KalshiMm.Lib KalshiMm.Model Pnl

/-- A fill of the whole position, against it, at the settlement's value. -/
structure ClosingFill (ts : TickerState) (resultYes : Bool) (nf : NormalizedFill) : Prop where
  direction : nf.longYes = decide (ts.position < 0)
  whole : nf.size = |ts.position|
  price : nf.priceYes = settleValue resultYes

/-- A market without what only a fill leaves on it. -/
def forgetFill (ts : TickerState) : TickerState :=
  { ts with
    fillsBuy := 0
    fillsSell := 0
    bidOrderId := none
    askOrderId := none
    lastFillEpoch := 0 }

/-- The account without what only a fill leaves on it and on one market, and without its streaks. -/
def forgetFillOf (ticker : String) (s : TraderState) : TraderState :=
  { s with
    tickers := Dict.mapValues (fun other ts => if other = ticker then forgetFill ts else ts) s.tickers
    fills := 0
    takerFills := 0
    makerFills := 0
    consecutiveLosses := ∅
    tradeLog := [] }

/-- What a settlement realizes on a market; without a basis nothing. -/
def settlementPnl (ts : TickerState) (resultYes : Bool) : ℚ :=
  (ts.entryPrice.map fun entry => ts.position * (settleValue resultYes - entry)).getD 0

/-! ## The market -/

section Market

variable {ts : TickerState} {resultYes : Bool} {nf : NormalizedFill}

theorem flat_of_closing (closing : ClosingFill ts resultYes nf) :
    ts.position + nf.signedSize = 0 := by
  rw [NormalizedFill.signedSize, closing.direction, closing.whole]
  by_cases short : ts.position < 0
  · simp [short, abs_of_neg short]
  · simp [short, abs_of_nonneg (not_lt.mp short)]

/-- The two ways to close realize the same on either side, and nothing without a basis. -/
theorem realizedOn_closing (held : ts.position ≠ 0) (closing : ClosingFill ts resultYes nf) :
    ts.realizedOn nf = settlementPnl ts resultYes := by
  unfold TickerState.realizedOn settlementPnl
  rw [closing.direction, closing.whole, closing.price]
  by_cases short : ts.position < 0
  · have side : ¬ 0 < ts.position := not_lt.mpr short.le
    cases ts.entryPrice with
    | none => simp [short, side]
    | some entry =>
      simp only [short, side, abs_of_neg short, decide_true, min_self, Option.getD_some,
        Option.map_some, and_true, if_true, and_false, if_false]
      push_cast
      ring
  · have side : 0 < ts.position := by omega
    cases ts.entryPrice with
    | none => simp [short, side]
    | some entry => simp [short, side, abs_of_pos side]

theorem forgetFill_closing (held : ts.position ≠ 0) (closing : ClosingFill ts resultYes nf)
    (nowEpoch : ℚ) :
    forgetFill (ts.filled nf nowEpoch) = forgetFill (ts.settled (some resultYes)) := by
  have flat := flat_of_closing closing
  have realized := realizedOn_closing held closing
  have settled : (ts.settled (some resultYes)).realizedPnl =
      ts.realizedPnl + settlementPnl ts resultYes := by
    unfold TickerState.settled settlementPnl
    cases ts.entryPrice with
    | none => simp
    | some entry => rfl
  simp only [forgetFill, TickerState.filled, TickerState.bookFill, flat, realized, settled]
  simp [foldEntryPrice, TickerState.settled]

end Market

/-! ## The account -/

theorem applySettlement_eq {s : TraderState} {ticker : String} {ts : TickerState}
    (known : s.tickers.lookup ticker = some ts) (held : ts.position ≠ 0) (resultYes : Bool) :
    (s.applySettlement ticker (some resultYes)).1 =
        (s.setTicker ticker (ts.settled (some resultYes))).bookRealizedClose ts.category
          (settlementPnl ts resultYes) true ∧
      (s.applySettlement ticker (some resultYes)).2.getD 0 = settlementPnl ts resultYes := by
  simp only [TraderState.applySettlement, known, if_neg held]
  cases entry : ts.entryPrice with
  | none => simp [settlementPnl, TickerState.settled, TraderState.bookRealizedClose, entry]
  | some price => simp [settlementPnl, TickerState.settled, settleValue, entry]

theorem forgetFillOf_setTicker (s : TraderState) (ticker : String) {first second : TickerState}
    (same : forgetFill first = forgetFill second) :
    forgetFillOf ticker (s.setTicker ticker first) =
      forgetFillOf ticker (s.setTicker ticker second) := by
  have tickers : Dict.mapValues (fun other ts => if other = ticker then forgetFill ts else ts)
      (s.tickers.insert ticker first) =
      Dict.mapValues (fun other ts => if other = ticker then forgetFill ts else ts)
        (s.tickers.insert ticker second) := by
    refine Finmap.ext_lookup fun other => ?_
    rw [Dict.lookup_mapValues, Dict.lookup_mapValues]
    by_cases here : other = ticker
    · subst here
      simp [same]
    · rw [Finmap.lookup_insert_of_ne _ here, Finmap.lookup_insert_of_ne _ here]
  unfold forgetFillOf
  rw [TraderState.setTicker_tickers, TraderState.setTicker_tickers, tickers]
  rfl

/-- What is forgotten neither enters a close nor is what it leaves, the streak apart. -/
theorem forgetFillOf_close {s t : TraderState} {ticker : String}
    (same : forgetFillOf ticker s = forgetFillOf ticker t) (category : String) (realized : ℚ)
    (exempt exempt' : Bool) :
    forgetFillOf ticker (s.bookRealizedClose category realized exempt) =
      forgetFillOf ticker (t.bookRealizedClose category realized exempt') := by
  simp only [forgetFillOf, TraderState.mk.injEq] at same ⊢
  by_cases scratch : realized = 0
  · simpa only [TraderState.bookRealizedClose, if_pos scratch] using same
  · by_cases won : 0 < realized
    · simp [TraderState.bookRealizedClose, scratch, won, same]
    · simp [TraderState.bookRealizedClose, scratch, won, same]

/-- A fill without a fee leaves the account's totals as they were. -/
theorem forgetFillOf_bookFee (s : TraderState) (ticker : String) (nf : NormalizedFill)
    (ts : TickerState) : forgetFillOf ticker ((s.bookFee nf 0).setTicker ticker ts) =
      forgetFillOf ticker (s.setTicker ticker ts) := by
  simp [forgetFillOf, TraderState.bookFee, TraderState.setTicker]

/-- A settlement at a binary result and a free fill of the whole position at the final value realize
    the same, and leave accounts that differ in nothing but the streaks and what only a fill leaves:
    counts, order slots, times and the trade log. -/
theorem settlement_is_free_fill {s : TraderState} {ticker : String} {ts : TickerState}
    (known : s.tickers.lookup ticker = some ts) (held : ts.position ≠ 0) {resultYes : Bool}
    {nf : NormalizedFill} (closing : ClosingFill ts resultYes nf) (nowEpoch : ℚ) :
    ∃ s', s.applyFill ticker nf 0 nowEpoch =
        some (s', (s.applySettlement ticker (some resultYes)).2.getD 0) ∧
      forgetFillOf ticker s' =
        forgetFillOf ticker (s.applySettlement ticker (some resultYes)).1 := by
  obtain ⟨settled, realized⟩ := applySettlement_eq known held resultYes
  rw [settled, realized, Totals.applyFill_of_known known, realizedOn_closing held closing]
  refine ⟨_, rfl, ?_⟩
  refine forgetFillOf_close ?_ ts.category _ ts.carried true
  rw [forgetFillOf_bookFee]
  exact forgetFillOf_setTicker s ticker (forgetFill_closing held closing nowEpoch)

/-- A short of four at thirty cents in a market that settles at a dollar. -/
theorem settlement_is_free_fill_short :
    let ts : TickerState := { TickerState.new "KXBTCD" with
      position := -4, entryPrice := some (3 / 10), carried := true }
    let s := (TraderState.new 0).setTicker "KXBTCD-25JUL2417-T100" ts
    let nf : NormalizedFill :=
      { fillId := "f1", ticker := "KXBTCD-25JUL2417-T100", longYes := true, priceYes := 1, size := 4,
        isTaker := false, orderId := none }
    ∃ s', s.applyFill "KXBTCD-25JUL2417-T100" nf 0 60 = some (s', -14 / 5) ∧
      forgetFillOf "KXBTCD-25JUL2417-T100" s' = forgetFillOf "KXBTCD-25JUL2417-T100"
        (s.applySettlement "KXBTCD-25JUL2417-T100" (some true)).1 := by
  intro ts s nf
  have known : s.tickers.lookup "KXBTCD-25JUL2417-T100" = some ts := Finmap.lookup_insert _
  have realized : (s.applySettlement "KXBTCD-25JUL2417-T100" (some true)).2.getD 0 = -14 / 5 := by
    decide +kernel
  have closing : ClosingFill ts true nf := ⟨by decide, by decide, rfl⟩
  obtain ⟨s', applied, same⟩ := settlement_is_free_fill known (by decide) closing 60
  exact ⟨s', realized ▸ applied, same⟩

end KalshiMm.Verified.FreeFill
