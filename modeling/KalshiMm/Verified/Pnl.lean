import Mathlib.Tactic.FieldSimp
import Mathlib.Tactic.Linarith
import KalshiMm.Lib.Account
import KalshiMm.Model.State

/-!
# PnL conservation on one market

A market with an average-cost basis is read as an `Account`: its cash is the realized PnL less
what the open position cost.  A fill is then a trade at the fill's price and a settlement a
liquidation at the market's final value, whatever the fill does to the position, so the worth of
the account after any run is the sum of the fills' gains.
-/

namespace KalshiMm.Verified.Pnl

open KalshiMm.Lib KalshiMm.Model

def account (ts : TickerState) : Account ℚ where
  cash := ts.realizedPnl - ts.position * ts.entryPrice.getD 0
  stock := ts.position

/-- The cost basis is known exactly while a position is open. -/
def HasBasis (ts : TickerState) : Prop := ts.entryPrice.isSome ↔ ts.position ≠ 0

def settleValue (resultYes : Bool) : ℚ := if resultYes then 1 else 0

/-! ## The entry price, regime by regime -/

theorem foldEntryPrice_open {newInv : ℤ} (held : newInv ≠ 0) (entry : Option ℚ) (size : ℤ)
    (price : ℚ) : foldEntryPrice 0 newInv entry size price = some price := by
  simp [foldEntryPrice, held]

theorem foldEntryPrice_flip {oldInv newInv : ℤ} (held : newInv ≠ 0)
    (crossed : 0 < oldInv ↔ ¬ 0 < newInv) (entry : Option ℚ) (size : ℤ) (price : ℚ) :
    foldEntryPrice oldInv newInv entry size price = some price := by
  rw [foldEntryPrice, if_neg held, if_pos (Or.inr crossed)]

theorem foldEntryPrice_extend {oldInv newInv : ℤ} (open_ : oldInv ≠ 0) (held : newInv ≠ 0)
    (same : ¬ (0 < oldInv ↔ ¬ 0 < newInv)) (grown : |oldInv| < |newInv|) (entry : ℚ) (size : ℤ)
    (price : ℚ) : foldEntryPrice oldInv newInv (some entry) size price =
      some ((|oldInv| * entry + size * price) / |newInv|) := by
  rw [foldEntryPrice, if_neg held, if_neg (not_or.mpr ⟨open_, same⟩), if_pos grown,
    Option.getD_some]

theorem foldEntryPrice_reduce {oldInv newInv : ℤ} (open_ : oldInv ≠ 0) (held : newInv ≠ 0)
    (same : ¬ (0 < oldInv ↔ ¬ 0 < newInv)) (shrunk : ¬ |oldInv| < |newInv|) (entry : Option ℚ)
    (size : ℤ) (price : ℚ) : foldEntryPrice oldInv newInv entry size price = entry := by
  rw [foldEntryPrice, if_neg held, if_neg (not_or.mpr ⟨open_, same⟩), if_neg shrunk]

theorem foldEntryPrice_isSome {oldInv newInv : ℤ} {entry : Option ℚ}
    (basis : entry.isSome ↔ oldInv ≠ 0) (size : ℤ) (price : ℚ) :
    (foldEntryPrice oldInv newInv entry size price).isSome ↔ newInv ≠ 0 := by
  unfold foldEntryPrice
  split_ifs with flat fresh grown
  · simp [flat]
  · simp [flat]
  · simp [flat]
  · simp [basis, (not_or.mp fresh).1, flat]

/-! ## What the position cost, regime by regime -/

def cost (position : ℤ) (entry : Option ℚ) : ℚ := position * entry.getD 0

section Cost

variable {oldInv newInv size : ℤ} {entry : Option ℚ} {price : ℚ}

theorem cost_of_adding (basis : entry.isSome ↔ oldInv ≠ 0)
    (adding : (0 ≤ oldInv ∧ newInv = oldInv + size) ∨ (oldInv ≤ 0 ∧ newInv = oldInv - size))
    (positive : 1 ≤ size) : cost newInv (foldEntryPrice oldInv newInv entry size price) =
      cost oldInv entry + (newInv - oldInv) * price := by
  have held : newInv ≠ 0 := by omega
  -- a flat market opens at the fill's price, an open one averages it in
  by_cases flat : oldInv = 0
  · subst flat
    rw [foldEntryPrice_open held]
    simp [cost]
  · obtain ⟨e, rfl⟩ := Option.isSome_iff_exists.mp (basis.mpr flat)
    have nonzero : (newInv : ℚ) ≠ 0 := Int.cast_ne_zero.mpr held
    have grown : |oldInv| < |newInv| := by
      rw [Int.abs_eq_natAbs, Int.abs_eq_natAbs]
      omega
    rw [foldEntryPrice_extend flat held (by omega) grown]
    simp only [cost, Option.getD_some]
    obtain ⟨long, rfl⟩ | ⟨short, rfl⟩ := adding
    · rw [abs_of_nonneg long, abs_of_nonneg (by omega : 0 ≤ oldInv + size)]
      push_cast at nonzero ⊢
      field_simp
      ring
    · rw [abs_of_nonpos short, abs_of_nonpos (by omega : oldInv - size ≤ 0)]
      push_cast at nonzero ⊢
      have : (-((oldInv : ℚ) - size)) ≠ 0 := neg_ne_zero.mpr nonzero
      field_simp
      ring

/-- A fill that closes part of the position, or all of it, leaves the rest at its cost. -/
theorem cost_of_closing
    (closing : (0 < oldInv ∧ 0 ≤ newInv ∧ newInv < oldInv) ∨
      (oldInv < 0 ∧ newInv ≤ 0 ∧ oldInv < newInv)) :
    cost newInv (foldEntryPrice oldInv newInv entry size price) = newInv * entry.getD 0 := by
  by_cases flat : newInv = 0
  · simp [cost, flat]
  · have shrunk : ¬ |oldInv| < |newInv| := by
      rw [Int.abs_eq_natAbs, Int.abs_eq_natAbs]
      omega
    rw [foldEntryPrice_reduce (by omega) flat (by omega) shrunk, cost]

/-- A fill that turns the position over opens the new one at its own price. -/
theorem cost_of_flipping
    (flipping : (0 < oldInv ∧ newInv < 0) ∨ (oldInv < 0 ∧ 0 < newInv)) :
    cost newInv (foldEntryPrice oldInv newInv entry size price) = newInv * price := by
  rw [foldEntryPrice_flip (by omega) (by omega), cost, Option.getD_some]

end Cost

/-! ## A fill is a trade -/

section Fill

variable {ts : TickerState} {nf : NormalizedFill}

theorem realizedOn_of_sale (long : 0 < ts.position) (sells : nf.longYes = false)
    (basis : HasBasis ts) : ts.realizedOn nf =
      (min nf.size ts.position : ℤ) * (nf.priceYes - ts.entryPrice.getD 0) := by
  obtain ⟨e, known⟩ := Option.isSome_iff_exists.mp (basis.mpr long.ne')
  simp [TickerState.realizedOn, sells, long, known]

theorem realizedOn_of_cover (short : ts.position < 0) (buys : nf.longYes = true)
    (basis : HasBasis ts) : ts.realizedOn nf =
      (min nf.size (-ts.position) : ℤ) * (ts.entryPrice.getD 0 - nf.priceYes) := by
  obtain ⟨e, known⟩ := Option.isSome_iff_exists.mp (basis.mpr short.ne)
  simp [TickerState.realizedOn, buys, short, known, abs_of_neg short]

theorem realizedOn_of_adding
    (adding : (0 ≤ ts.position ∧ nf.longYes = true) ∨ (ts.position ≤ 0 ∧ nf.longYes = false)) :
    ts.realizedOn nf = 0 := by
  obtain ⟨long, buys⟩ | ⟨short, sells⟩ := adding
  · simp [TickerState.realizedOn, buys, long.not_gt]
  · simp [TickerState.realizedOn, sells, short.not_gt]

/-- What a fill realizes and what the position costs afterwards balance what it cost before and
    what the fill paid. -/
theorem realized_sub_cost (basis : HasBasis ts) (positive : 1 ≤ nf.size) :
    let newInv := ts.position + nf.signedSize
    ts.realizedOn nf -
        cost newInv (foldEntryPrice ts.position newInv ts.entryPrice nf.size nf.priceYes) =
      -cost ts.position ts.entryPrice - nf.signedSize * nf.priceYes := by
  intro newInv
  have direction : nf.longYes = true ∧ nf.signedSize = nf.size ∨
      nf.longYes = false ∧ nf.signedSize = -nf.size := by
    cases side : nf.longYes <;> simp [NormalizedFill.signedSize, side]
  have moved : newInv = ts.position + nf.signedSize := rfl
  have exact_ : (newInv : ℚ) = ts.position + nf.signedSize := by exact_mod_cast moved
  clear_value newInv
  -- a buy extends a long; it covers a short, in part or beyond flat; sales mirror it
  obtain ⟨buys, signed⟩ | ⟨sells, signed⟩ := direction
  · by_cases long : 0 ≤ ts.position
    · rw [realizedOn_of_adding (Or.inl ⟨long, buys⟩),
        cost_of_adding basis (Or.inl ⟨long, by omega⟩) positive, exact_]
      ring
    · rw [realizedOn_of_cover (by omega) buys basis]
      rw [signed] at moved exact_ ⊢
      by_cases past : -ts.position < nf.size
      · rw [cost_of_flipping (Or.inr ⟨by omega, by omega⟩), min_eq_right past.le, cost, exact_]
        push_cast
        ring
      · rw [cost_of_closing (Or.inr ⟨by omega, by omega, by omega⟩), min_eq_left (by omega), cost,
          exact_]
        ring
  · by_cases short : ts.position ≤ 0
    · rw [realizedOn_of_adding (Or.inr ⟨short, sells⟩),
        cost_of_adding basis (Or.inr ⟨short, by omega⟩) positive, exact_]
      ring
    · rw [realizedOn_of_sale (by omega) sells basis]
      rw [signed] at moved exact_ ⊢
      by_cases past : ts.position < nf.size
      · rw [cost_of_flipping (Or.inl ⟨by omega, by omega⟩), min_eq_right past.le, cost, exact_]
        push_cast
        ring
      · rw [cost_of_closing (Or.inl ⟨by omega, by omega, by omega⟩), min_eq_left (by omega), cost,
          exact_]
        push_cast
        ring

theorem hasBasis_filled (basis : HasBasis ts) (nowEpoch : ℚ) : HasBasis (ts.filled nf nowEpoch) :=
  foldEntryPrice_isSome basis nf.size nf.priceYes

/-- A fill is a trade at its price. -/
theorem account_filled (basis : HasBasis ts) (positive : 1 ≤ nf.size) (value nowEpoch : ℚ) :
    account (ts.filled nf nowEpoch) =
      (account ts).move value (.trade nf.signedSize nf.priceYes) := by
  have balance := realized_sub_cost basis positive
  simp only [cost] at balance
  simp only [account, Account.move, TickerState.filled, TickerState.bookFill, Account.mk.injEq]
  refine ⟨?_, by push_cast; rfl⟩
  linarith

end Fill

/-! ## A settlement is a liquidation -/

theorem hasBasis_settled (ts : TickerState) (resultYes : Option Bool) :
    HasBasis (ts.settled resultYes) := by
  simp [HasBasis, TickerState.settled]

theorem account_settled {ts : TickerState} (basis : HasBasis ts) (held : ts.position ≠ 0)
    (resultYes : Bool) : account (ts.settled (some resultYes)) =
      (account ts).move (settleValue resultYes) .liquidate := by
  obtain ⟨entry, known⟩ := Option.isSome_iff_exists.mp (basis.mpr held)
  simp only [account, Account.move, Account.worth, TickerState.settled, known, settleValue,
    Account.mk.injEq, Option.getD_some, Option.getD_none, Int.cast_zero, and_true]
  ring

theorem liquidate_of_flat {ts : TickerState} (flat : ts.position = 0) (value : ℚ) :
    (account ts).move value .liquidate = account ts := by
  simp [account, Account.move, Account.worth, flat]

/-! ## Runs -/

/-- What can be booked on one market that settles. -/
inductive Booking where
  | fill (nf : NormalizedFill) (fee nowEpoch : ℚ)
  | settle

/-- Book on one market; the state is kept where the source panics. -/
def book (ticker : String) (resultYes : Bool) (s : TraderState) : Booking → TraderState
  | .fill nf fee nowEpoch => ((s.applyFill ticker nf fee nowEpoch).map Prod.fst).getD s
  | .settle => (s.applySettlement ticker (some resultYes)).1

def fillsOf (bookings : List Booking) : List NormalizedFill :=
  bookings.filterMap fun
    | .fill nf _ _ => some nf
    | .settle => none

@[simp] theorem fillsOf_fill (nf : NormalizedFill) (fee nowEpoch : ℚ) (bookings : List Booking) :
    fillsOf (.fill nf fee nowEpoch :: bookings) = nf :: fillsOf bookings := rfl

@[simp] theorem fillsOf_settle (bookings : List Booking) :
    fillsOf (.settle :: bookings) = fillsOf bookings := rfl

def movement : Booking → Movement ℚ
  | .fill nf _ _ => .trade nf.signedSize nf.priceYes
  | .settle => .liquidate

/-- Every fill of the run has at least one contract, as a normalized one does. -/
def Sized (bookings : List Booking) : Prop := ∀ nf ∈ fillsOf bookings, 1 ≤ nf.size

theorem sized_cons {booking : Booking} {bookings : List Booking} :
    Sized (booking :: bookings) ↔ Sized [booking] ∧ Sized bookings := by
  cases booking with
  | fill nf fee nowEpoch => simp [Sized, fillsOf]
  | settle => simp [Sized, fillsOf]

/-- One booking simulates one movement. -/
theorem book_simulates {s : TraderState} {ticker : String} {ts : TickerState}
    (known : s.tickers.lookup ticker = some ts) (basis : HasBasis ts) (resultYes : Bool)
    {booking : Booking} (sized : Sized [booking]) :
    ∃ ts', (book ticker resultYes s booking).tickers.lookup ticker = some ts' ∧ HasBasis ts' ∧
      account ts' = (account ts).move (settleValue resultYes) (movement booking) := by
  cases booking with
  | fill nf fee nowEpoch =>
    obtain ⟨s', applied, tickers⟩ := TraderState.applyFill_tickers known nf fee nowEpoch
    refine ⟨ts.filled nf nowEpoch, ?_, hasBasis_filled basis nowEpoch, ?_⟩
    · simp only [book, applied, Option.map_some, Option.getD_some, tickers]
      exact Finmap.lookup_insert _
    · exact account_filled basis (sized nf (by simp [fillsOf])) _ nowEpoch
  | settle =>
    -- a settlement of a flat market returns early: it liquidates nothing
    by_cases flat : ts.position = 0
    · refine ⟨ts, ?_, basis, (liquidate_of_flat flat _).symm⟩
      rw [book, TraderState.applySettlement_of_flat known flat, known]
    · refine ⟨ts.settled (some resultYes), ?_, hasBasis_settled ts _,
        account_settled basis flat resultYes⟩
      rw [book, TraderState.applySettlement_tickers known flat]
      exact Finmap.lookup_insert _

/-- A run of bookings simulates a run of movements. -/
theorem run_simulates {s : TraderState} {ticker : String} {ts : TickerState}
    (known : s.tickers.lookup ticker = some ts) (basis : HasBasis ts) (resultYes : Bool)
    {bookings : List Booking} (sized : Sized bookings) :
    ∃ ts', (run (book ticker resultYes) s bookings).tickers.lookup ticker = some ts' ∧
      HasBasis ts' ∧
      account ts' = run (Account.move (settleValue resultYes)) (account ts)
        (bookings.map movement) := by
  -- each booking is one movement, so the two runs stay in step
  induction bookings generalizing s ts with
  | nil => exact ⟨ts, known, basis, rfl⟩
  | cons booking bookings inductionHypothesis =>
    obtain ⟨headSized, tailSized⟩ := sized_cons.mp sized
    obtain ⟨next, known', basis', moved⟩ := book_simulates known basis resultYes headSized
    obtain ⟨last, found, lastBasis, total⟩ := inductionHypothesis known' basis' tailSized
    exact ⟨last, found, lastBasis, by rw [total, moved]; rfl⟩

theorem gain_sum (value : ℚ) (bookings : List Booking) :
    ((bookings.map movement).map (Account.gain value)).sum =
      ((fillsOf bookings).map fun nf => nf.signedSize * (value - nf.priceYes)).sum := by
  induction bookings with
  | nil => rfl
  | cons booking bookings inductionHypothesis =>
    rw [List.map_cons, List.map_cons, List.sum_cons, inductionHypothesis]
    cases booking with
    | fill nf fee nowEpoch => simp [movement, Account.gain]
    | settle => simp [movement, Account.gain]

def realizedOf (s : TraderState) (ticker : String) : Option ℚ :=
  (s.tickers.lookup ticker).map TickerState.realizedPnl

/-- What has been realized, and the open position at the final value against its basis, are
    together what the booked fills are worth at that value. -/
theorem realized_add_open {s : TraderState} {ticker : String} {ts : TickerState}
    (known : s.tickers.lookup ticker = some ts) (flat : ts.position = 0)
    (unpriced : ts.entryPrice = none) (resultYes : Bool) {bookings : List Booking}
    (sized : Sized bookings) :
    ∃ ts', (run (book ticker resultYes) s bookings).tickers.lookup ticker = some ts' ∧
      ts'.realizedPnl + ts'.position * (settleValue resultYes - ts'.entryPrice.getD 0) =
        ts.realizedPnl + ((fillsOf bookings).map fun nf =>
          nf.signedSize * (settleValue resultYes - nf.priceYes)).sum ∧
      (ts'.entryPrice.isSome ↔ ts'.position ≠ 0) := by
  have basis : HasBasis ts := by simp [HasBasis, flat, unpriced]
  obtain ⟨ts', found, basis', total⟩ := run_simulates known basis resultYes sized
  refine ⟨ts', found, ?_, basis'⟩
  have worth := Account.worth_run (settleValue resultYes) (account ts) (bookings.map movement)
  rw [← total, gain_sum] at worth
  simp only [Account.worth, account, flat, Int.cast_zero, zero_mul, sub_zero, add_zero] at worth
  linarith

theorem flat_after_settle {s : TraderState} {ticker : String} {ts ts' : TickerState}
    (known : s.tickers.lookup ticker = some ts) (resultYes : Bool)
    (after : (book ticker resultYes s .settle).tickers.lookup ticker = some ts') :
    ts'.position = 0 := by
  by_cases flat : ts.position = 0
  · rw [book, TraderState.applySettlement_of_flat known flat, known] at after
    cases after
    exact flat
  · rw [book, TraderState.applySettlement_tickers known flat, Finmap.lookup_insert] at after
    cases after
    rfl

theorem realizedOf_settled {s : TraderState} {ticker : String} {ts : TickerState}
    (known : s.tickers.lookup ticker = some ts) (flat : ts.position = 0)
    (unpriced : ts.entryPrice = none) (resultYes : Bool) {bookings : List Booking}
    (sized : Sized bookings) :
    realizedOf (run (book ticker resultYes) s (bookings ++ [.settle])) ticker =
      some (ts.realizedPnl + ((fillsOf bookings).map fun nf =>
        nf.signedSize * (settleValue resultYes - nf.priceYes)).sum) := by
  have fills : fillsOf (bookings ++ [.settle]) = fillsOf bookings := by
    simp [fillsOf]
  have sized' : Sized (bookings ++ [.settle]) := by rwa [Sized, fills]
  obtain ⟨before, known', _⟩ := realized_add_open known flat unpriced resultYes sized
  obtain ⟨ts', found, total, _⟩ := realized_add_open known flat unpriced resultYes sized'
  -- settled last, the open term is gone
  have flat' : ts'.position = 0 := by
    rw [run_concat] at found
    exact flat_after_settle known' resultYes found
  rw [fills, flat', Int.cast_zero, zero_mul, add_zero] at total
  rw [realizedOf, found, Option.map_some, total]

/-! ## Conservation -/

/-- PnL is conserved at every point of every run, and what a settled market has realized does
    not depend on the order in which its fills and settlements were booked. -/
theorem pnl_conserved {s : TraderState} {ticker : String} {ts : TickerState}
    (known : s.tickers.lookup ticker = some ts) (flat : ts.position = 0)
    (unpriced : ts.entryPrice = none) (resultYes : Bool) :
    (∀ bookings, Sized bookings →
      ∃ ts', (run (book ticker resultYes) s bookings).tickers.lookup ticker = some ts' ∧
        ts'.realizedPnl + ts'.position * (settleValue resultYes - ts'.entryPrice.getD 0) =
          ts.realizedPnl + ((fillsOf bookings).map fun nf =>
            nf.signedSize * (settleValue resultYes - nf.priceYes)).sum ∧
        (ts'.entryPrice.isSome ↔ ts'.position ≠ 0)) ∧
    ∀ bookings bookings', Sized bookings → (fillsOf bookings).Perm (fillsOf bookings') →
      realizedOf (run (book ticker resultYes) s (bookings ++ [.settle])) ticker =
        realizedOf (run (book ticker resultYes) s (bookings' ++ [.settle])) ticker := by
  refine ⟨fun bookings sized => realized_add_open known flat unpriced resultYes sized, ?_⟩
  intro bookings bookings' sized sameFills
  have sized' : Sized bookings' := fun nf member => sized nf (sameFills.mem_iff.mpr member)
  rw [realizedOf_settled known flat unpriced resultYes sized,
    realizedOf_settled known flat unpriced resultYes sized', (sameFills.map _).sum_eq]

theorem pnl_conserved_fresh :
    let s := (TraderState.new 0).ticker "KXBTCD-25JUL2417-T100" "KXBTCD"
    let buys (id : String) (price : ℚ) : Booking :=
      .fill { fillId := id, ticker := "KXBTCD-25JUL2417-T100", longYes := true, priceYes := price,
              size := 2, isTaker := false, orderId := none } 0 0
    realizedOf (run (book "KXBTCD-25JUL2417-T100" true) s
        [.settle, buys "f1" (1 / 2), .settle, buys "f2" (1 / 4), .settle]) "KXBTCD-25JUL2417-T100" =
      realizedOf (run (book "KXBTCD-25JUL2417-T100" true) s
        [buys "f2" (1 / 4), buys "f1" (1 / 2), .settle]) "KXBTCD-25JUL2417-T100" := by
  intro s buys
  have known : s.tickers.lookup "KXBTCD-25JUL2417-T100" = some (TickerState.new "KXBTCD") :=
    Finmap.lookup_insert _
  refine (pnl_conserved known rfl rfl true).2
    [.settle, buys "f1" (1 / 2), .settle, buys "f2" (1 / 4)] [buys "f2" (1 / 4), buys "f1" (1 / 2)]
    ?_ ?_
  · intro nf member
    simp only [fillsOf_settle, fillsOf_fill, buys, List.mem_cons] at member
    rcases member with rfl | rfl | nothing
    · decide
    · decide
    · cases nothing
  · exact List.Perm.swap _ _ _

end KalshiMm.Verified.Pnl
