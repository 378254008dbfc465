import KalshiMm.Verified.AccountTotals
import KalshiMm.Verified.Pnl

/-!
# The risk budget is the money at risk

The entry price of an open position is an average of fill prices, so it stays within a dollar, and
then the collateral that the budget counts is what the worse of the two results would lose.
-/

namespace KalshiMm.Verified.RiskBudget

open KalshiMm.Lib KalshiMm.Model Pnl Totals

/-- A fill within a dollar, of a number of contracts. -/
def Priced : Entry → Prop
  | .fill _ nf _ _ => 0 ≤ nf.priceYes ∧ nf.priceYes ≤ 1 ∧ 0 ≤ nf.size
  | _ => True

/-- What a settlement at a result would lose on a market. -/
def lossAt (s : TraderState) (ticker : String) (resultYes : Bool) : ℚ :=
  -((s.applySettlement ticker (some resultYes)).2.getD 0)

def largestLoss (s : TraderState) (ticker : String) : ℚ :=
  max (lossAt s ticker true) (lossAt s ticker false)

/-- An open position has an entry price, and the price is within a dollar. -/
structure WithinDollar (ts : TickerState) : Prop where
  basis : HasBasis ts
  low : ∀ entry ∈ ts.entryPrice, 0 ≤ entry
  high : ∀ entry ∈ ts.entryPrice, entry ≤ 1

/-! ## The entry price is an average -/

theorem average_between {w v a b : ℚ} (wNonneg : 0 ≤ w) (vNonneg : 0 ≤ v) (positive : 0 < w + v)
    (aLow : 0 ≤ a) (aHigh : a ≤ 1) (bLow : 0 ≤ b) (bHigh : b ≤ 1) :
    0 ≤ (w * a + v * b) / (w + v) ∧ (w * a + v * b) / (w + v) ≤ 1 := by
  constructor
  · positivity
  · rw [div_le_one positive]
    have first := mul_le_mul_of_nonneg_left aHigh wNonneg
    have second := mul_le_mul_of_nonneg_left bHigh vNonneg
    linarith

theorem withinDollar_filled {ts : TickerState} (within : WithinDollar ts) {nf : NormalizedFill}
    (low : 0 ≤ nf.priceYes) (high : nf.priceYes ≤ 1) (sized : 0 ≤ nf.size) (nowEpoch : ℚ) :
    WithinDollar (ts.filled nf nowEpoch) := by
  have between : ∀ entry ∈ (ts.filled nf nowEpoch).entryPrice, 0 ≤ entry ∧ entry ≤ 1 := by
    intro entry found
    change foldEntryPrice _ _ _ _ _ = some entry at found
    unfold foldEntryPrice at found
    split_ifs at found with flat fresh grown
    · cases found
      exact ⟨low, high⟩
    · obtain ⟨open_, same⟩ := not_or.mp fresh
      obtain ⟨before, known⟩ := Option.isSome_iff_exists.mp (within.basis.mpr open_)
      -- what extends a position adds its size to it
      have added : |ts.position + nf.signedSize| = |ts.position| + nf.size := by
        unfold NormalizedFill.signedSize at flat same grown ⊢
        rw [Int.abs_eq_natAbs, Int.abs_eq_natAbs] at grown ⊢
        split_ifs at flat same grown ⊢
        · omega
        · omega
      have positive : 0 < |ts.position| := abs_pos.mpr open_
      rw [known, added, Option.getD_some, Option.some.injEq, Int.cast_add] at found
      subst found
      exact average_between (by exact_mod_cast positive.le) (by exact_mod_cast sized)
        (by exact_mod_cast Int.add_pos_of_pos_of_nonneg positive sized) (within.low before known)
        (within.high before known) low high
    · exact ⟨within.low entry found, within.high entry found⟩
  exact ⟨hasBasis_filled within.basis nowEpoch, fun entry found => (between entry found).1,
    fun entry found => (between entry found).2⟩

theorem withinDollar_flat {ts : TickerState} (flat : ts.position = 0)
    (unpriced : ts.entryPrice = none) : WithinDollar ts := by
  refine ⟨by simp [HasBasis, flat, unpriced], fun entry found => ?_, fun entry found => ?_⟩
  · rw [unpriced] at found
    cases found
  · rw [unpriced] at found
    cases found

/-! ## Runs -/

/-- Every market of the account. -/
def AllWithinDollar (s : TraderState) : Prop :=
  ∀ ticker ts, s.tickers.lookup ticker = some ts → WithinDollar ts

theorem allWithinDollar_insert {s s' : TraderState} {ticker : String} {ts : TickerState}
    (all : AllWithinDollar s) (tickers : s'.tickers = s.tickers.insert ticker ts)
    (within : WithinDollar ts) : AllWithinDollar s' := by
  intro other ts' found
  rw [tickers] at found
  by_cases here : other = ticker
  · subst here
    rw [Finmap.lookup_insert] at found
    cases found
    exact within
  · rw [Finmap.lookup_insert_of_ne _ here] at found
    exact all other ts' found

theorem allWithinDollar_settle {s : TraderState} (all : AllWithinDollar s) (ticker : String)
    (resultYes : Option Bool) : AllWithinDollar (s.applySettlement ticker resultYes).1 := by
  cases known : s.tickers.lookup ticker with
  | none =>
    have same : s.applySettlement ticker resultYes = (s, none) := by
      simp only [TraderState.applySettlement, known]
    rw [same]
    exact all
  | some ts =>
    by_cases flat : ts.position = 0
    · rw [TraderState.applySettlement_of_flat known flat]
      exact all
    · exact allWithinDollar_insert all (TraderState.applySettlement_tickers known flat resultYes)
        (withinDollar_flat rfl rfl)

/-- One entry on the account keeps every entry price within a dollar. -/
theorem allWithinDollar_enter {s s' : TraderState} {entry : Entry} {amount : ℚ}
    (all : AllWithinDollar s) (priced : Priced entry)
    (entered : enter s entry = some (s', amount)) : AllWithinDollar s' := by
  cases entry with
  | create ticker category =>
    cases entered
    refine allWithinDollar_insert all rfl ?_
    unfold TraderState.tickerD
    cases known : s.tickers.lookup ticker with
    | none => exact withinDollar_flat rfl rfl
    | some ts => exact all ticker ts known
  | fill ticker nf fee nowEpoch =>
    obtain ⟨low, high, sized⟩ := priced
    cases known : s.tickers.lookup ticker with
    | none =>
      have absent : (s.bookFee nf fee).tickers.lookup ticker = none := known
      rw [enter, TraderState.applyFill, absent] at entered
      cases entered
    | some ts =>
      obtain ⟨booked, applied, tickers⟩ := TraderState.applyFill_tickers known nf fee nowEpoch
      rw [enter, applied] at entered
      cases entered
      exact allWithinDollar_insert all tickers
        (withinDollar_filled (all ticker ts known) low high sized nowEpoch)
  | settle ticker resultYes =>
    cases entered
    exact allWithinDollar_settle all ticker resultYes
  | reset nowEpoch =>
    cases entered
    exact all

theorem allWithinDollar_enterAll {nowEpoch : ℚ} {entries : List Entry} {s : TraderState}
    {amounts : List ℚ} (entered : enterAll (TraderState.new nowEpoch) entries = some (s, amounts))
    (priced : ∀ entry ∈ entries, Priced entry) : AllWithinDollar s := by
  -- on the last entry: the account before it is one that fewer entries have reached
  induction entries using List.reverseRecOn generalizing s amounts with
  | nil =>
    cases entered
    intro ticker ts found
    cases found
  | append_singleton entries entry inductionHypothesis =>
    obtain ⟨before, earlier, amount, ran, last, rfl⟩ := enterAll_concat entered
    refine allWithinDollar_enter (inductionHypothesis ran fun e member => ?_) ?_ last
    · exact priced e (List.mem_append_left _ member)
    · exact priced entry (List.mem_append_right _ (List.mem_singleton_self entry))

/-! ## What a settlement could lose -/

theorem lossAt_of_known {s : TraderState} {ticker : String} {ts : TickerState} {entry : ℚ}
    (known : s.tickers.lookup ticker = some ts) (held : ts.position ≠ 0)
    (price : ts.entryPrice = some entry) (resultYes : Bool) :
    lossAt s ticker resultYes = ts.position * (entry - settleValue resultYes) := by
  simp only [lossAt, TraderState.applySettlement, known, if_neg held, price, Option.getD_some,
    settleValue]
  ring

/-- A long loses its entry price at no, a short the rest of the dollar at yes. -/
theorem largestLoss_of_known {s : TraderState} {ticker : String} {ts : TickerState} {entry : ℚ}
    (known : s.tickers.lookup ticker = some ts) (held : ts.position ≠ 0)
    (price : ts.entryPrice = some entry) :
    largestLoss s ticker = |ts.position| * (if 0 < ts.position then entry else 1 - entry) := by
  unfold largestLoss
  rw [lossAt_of_known known held price, lossAt_of_known known held price]
  simp only [settleValue, if_true, Bool.false_eq_true, if_false, sub_zero]
  split_ifs with long
  · have positive : (0 : ℚ) < ts.position := by exact_mod_cast long
    rw [abs_of_pos long, max_eq_right]
    have worse := mul_le_mul_of_nonneg_left (by linarith : entry - 1 ≤ entry) positive.le
    exact worse
  · have negative : (ts.position : ℚ) < 0 := by exact_mod_cast (by omega : ts.position < 0)
    rw [abs_of_nonpos (not_lt.mp long), max_eq_left]
    · push_cast
      ring
    · exact mul_le_mul_of_nonpos_left (by linarith : entry - 1 ≤ entry) negative.le

/-- After any entries from a new account, fills of prices within a dollar among them: every open
    position has an entry price within a dollar, and the budget counts, over all markets or over the
    active ones, the most that a settlement could lose on each. -/
theorem positionValue_is_largest_loss {nowEpoch : ℚ} {entries : List Entry} {s : TraderState}
    {amounts : List ℚ} (entered : enterAll (TraderState.new nowEpoch) entries = some (s, amounts))
    (priced : ∀ entry ∈ entries, Priced entry) :
    (∀ ticker ts, s.tickers.lookup ticker = some ts → ts.position ≠ 0 →
      ∃ entry, ts.entryPrice = some entry ∧ 0 ≤ entry ∧ entry ≤ 1) ∧
    ∀ active, s.positionValue active = Dict.sumOf (fun ticker ts =>
      if ts.position = 0 ∨ (active.any fun set => ticker ∉ set) then 0
      else largestLoss s ticker) s.tickers := by
  have all := allWithinDollar_enterAll entered priced
  have withEntry : ∀ ticker ts, s.tickers.lookup ticker = some ts → ts.position ≠ 0 →
      ∃ entry, ts.entryPrice = some entry ∧ 0 ≤ entry ∧ entry ≤ 1 := by
    intro ticker ts known held
    have within := all ticker ts known
    obtain ⟨entry, price⟩ := Option.isSome_iff_exists.mp (within.basis.mpr held)
    exact ⟨entry, price, within.low entry price, within.high entry price⟩
  refine ⟨withEntry, fun active => Dict.sumOf_congr fun ticker ts known => ?_⟩
  by_cases idle : ts.position = 0 ∨ (active.any fun set => ticker ∉ set)
  · rw [if_pos idle, if_pos idle]
  · obtain ⟨entry, price, _⟩ := withEntry ticker ts known (not_or.mp idle).1
    rw [if_neg idle, if_neg idle, largestLoss_of_known known (not_or.mp idle).1 price, price,
      Option.getD_some, Int.cast_abs]

/-- A long of two bought at 40¢ can lose 80¢, a short of three sold at 90¢ another 30¢. -/
theorem positionValue_is_largest_loss_short :
    let trade (ticker : String) (longYes : Bool) (priceYes : ℚ) (size : ℤ) : Entry :=
      .fill ticker
        { fillId := ticker, ticker, longYes, priceYes, size, isTaker := false, orderId := none } 0 0
    let entries : List Entry :=
      [.create "KXBTCD-25JUL2417-T100" "KXBTCD", .create "KXBTCD-25JUL2417-T200" "KXBTCD",
        trade "KXBTCD-25JUL2417-T100" true (2 / 5) 2,
        trade "KXBTCD-25JUL2417-T200" false (9 / 10) 3]
    ∃ s amounts, enterAll (TraderState.new 0) entries = some (s, amounts) ∧
      s.positionValue none = 11 / 10 ∧
      Dict.sumOf (fun ticker ts => if ts.position = 0 then 0 else largestLoss s ticker)
        s.tickers = 11 / 10 := by
  intro trade entries
  have value : (enterAll (TraderState.new 0) entries).map (fun run => run.1.positionValue none) =
      some (11 / 10) := by decide +kernel
  obtain ⟨⟨s, amounts⟩, entered, counted⟩ := Option.map_eq_some_iff.mp value
  have priced : ∀ entry ∈ entries, Priced entry := by
    simp only [entries, trade, List.forall_mem_cons, Priced]
    norm_num
  obtain ⟨_, budget⟩ := positionValue_is_largest_loss entered priced
  refine ⟨s, amounts, entered, counted, ?_⟩
  rw [← counted, budget none]
  simp

end KalshiMm.Verified.RiskBudget
