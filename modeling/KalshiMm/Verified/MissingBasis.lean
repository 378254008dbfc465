import KalshiMm.Verified.Pnl

/-!
# A missing cost basis

Inventory that is read back from the exchange has no entry price until its backfill succeeds.
Reductions leave the price missing and realize nothing, in any order.  The first fill that extends
such a position makes its own price the basis of the whole of it.
-/

namespace KalshiMm.Verified.MissingBasis

open KalshiMm.Lib KalshiMm.Model

/-- One call of `applyFill`. -/
structure FillCall where
  ticker : String
  nf : NormalizedFill
  fee : ℚ
  nowEpoch : ℚ

/-- The account after a list of calls, and what each of them realized; `none` where the source
    panics. -/
def applyFills (s : TraderState) : List FillCall → Option (TraderState × List (String × ℚ))
  | [] => some (s, [])
  | call :: calls =>
    (s.applyFill call.ticker call.nf call.fee call.nowEpoch).bind fun (s, realized) =>
      (applyFills s calls).map fun (s, later) => (s, (call.ticker, realized) :: later)

/-- What the calls add to one market's position, in order. -/
def movesOn (ticker : String) (calls : List FillCall) : List ℤ :=
  (calls.filter fun call => call.ticker = ticker).map fun call => call.nf.signedSize

/-- No move of the list closes the position or turns it over. -/
def StaysOpen (position : ℤ) : List ℤ → Prop
  | [] => True
  | moved :: moves => (position + moved).sign = position.sign ∧ StaysOpen (position + moved) moves

/-- No move of the list extends the position. -/
def NeverExtends (position : ℤ) : List ℤ → Prop
  | [] => True
  | moved :: moves => |position + moved| ≤ |position| ∧ NeverExtends (position + moved) moves

theorem movesOn_same {ticker : String} {call : FillCall} (same : call.ticker = ticker)
    (calls : List FillCall) :
    movesOn ticker (call :: calls) = call.nf.signedSize :: movesOn ticker calls := by
  simp [movesOn, same]

theorem movesOn_other {ticker : String} {call : FillCall} (other : call.ticker ≠ ticker)
    (calls : List FillCall) : movesOn ticker (call :: calls) = movesOn ticker calls := by
  simp [movesOn, other]

/-! ## One fill -/

theorem realizedOn_of_missing {ts : TickerState} (missing : ts.entryPrice = none)
    (nf : NormalizedFill) : ts.realizedOn nf = 0 := by
  simp [TickerState.realizedOn, missing]

section Sides

variable {position moved : ℤ}

theorem ne_zero_of_sign (held : position ≠ 0) (side : (position + moved).sign = position.sign) :
    position + moved ≠ 0 := by
  intro flat
  rw [flat, Int.sign_zero, eq_comm, Int.sign_eq_zero_iff_zero] at side
  exact held side

theorem uncrossed_of_sign (side : (position + moved).sign = position.sign) :
    ¬ (0 < position ↔ ¬ 0 < position + moved) := by
  rw [← Int.sign_eq_one_iff_pos (a := position), ← side, Int.sign_eq_one_iff_pos]
  exact iff_not_self

end Sides

/-- A fill that leaves the position open on its side keeps a missing price missing exactly if it
    does not extend it. -/
theorem entryPrice_filled_iff {ts : TickerState} {nf : NormalizedFill} (held : ts.position ≠ 0)
    (missing : ts.entryPrice = none)
    (side : (ts.position + nf.signedSize).sign = ts.position.sign) (nowEpoch : ℚ) :
    (ts.filled nf nowEpoch).entryPrice = none ↔ |ts.position + nf.signedSize| ≤ |ts.position| := by
  have open_ := ne_zero_of_sign held side
  have uncrossed := uncrossed_of_sign side
  change foldEntryPrice _ _ _ _ _ = none ↔ _
  rw [missing, foldEntryPrice, if_neg open_, if_neg (not_or.mpr ⟨held, uncrossed⟩), ← not_lt]
  split_ifs with grown
  · simp [grown]
  · simp [grown]

theorem entryPrice_filled_isSome {ts : TickerState} {nf : NormalizedFill}
    (held : ts.position ≠ 0) (known : ts.entryPrice.isSome)
    (side : (ts.position + nf.signedSize).sign = ts.position.sign) (nowEpoch : ℚ) :
    (ts.filled nf nowEpoch).entryPrice.isSome :=
  (Pnl.foldEntryPrice_isSome (by simp [known, held]) nf.size nf.priceYes).mpr
    (ne_zero_of_sign held side)

/-! ## Runs -/

/-- A call that does not panic books one fill on its market and leaves the others. -/
theorem applyFills_cons {s s' : TraderState} {call : FillCall} {calls : List FillCall}
    {booked : List (String × ℚ)} (applied : applyFills s (call :: calls) = some (s', booked)) :
    ∃ ts next later, s.tickers.lookup call.ticker = some ts ∧
      next.tickers = s.tickers.insert call.ticker (ts.filled call.nf call.nowEpoch) ∧
      applyFills next calls = some (s', later) ∧
      booked = (call.ticker, ts.realizedOn call.nf) :: later := by
  simp only [applyFills, Option.bind_eq_some_iff, Option.map_eq_some_iff] at applied
  obtain ⟨⟨next, realized⟩, first, ⟨last, later⟩, rest, done⟩ := applied
  cases done
  cases known : s.tickers.lookup call.ticker with
  | none =>
    have absent : (s.bookFee call.nf call.fee).tickers.lookup call.ticker = none := known
    rw [TraderState.applyFill, absent] at first
    cases first
  | some ts =>
    obtain ⟨s₁, applied, tickers⟩ :=
      TraderState.applyFill_tickers known call.nf call.fee call.nowEpoch
    rw [applied] at first
    cases first
    exact ⟨ts, next, later, rfl, tickers, rest, rfl⟩

/-- A known price stays known while the position stays open. -/
theorem isSome_of_applyFills {s s' : TraderState} {ticker : String} {ts : TickerState}
    (found : s.tickers.lookup ticker = some ts) (held : ts.position ≠ 0)
    (known : ts.entryPrice.isSome) {calls : List FillCall} {booked : List (String × ℚ)}
    (applied : applyFills s calls = some (s', booked))
    (stays : StaysOpen ts.position (movesOn ticker calls)) :
    ∃ ts', s'.tickers.lookup ticker = some ts' ∧ ts'.entryPrice.isSome := by
  induction calls generalizing s ts booked with
  | nil =>
    cases applied
    exact ⟨ts, found, known⟩
  | cons call calls inductionHypothesis =>
    obtain ⟨ts₁, next, later, found₁, tickers, rest, -⟩ := applyFills_cons applied
    by_cases same : call.ticker = ticker
    · rw [same, found] at found₁
      cases found₁
      rw [movesOn_same same] at stays
      have inserted : next.tickers.lookup ticker = some (ts.filled call.nf call.nowEpoch) := by
        rw [tickers, same, Finmap.lookup_insert]
      exact inductionHypothesis inserted (ne_zero_of_sign held stays.1)
        (entryPrice_filled_isSome held known stays.1 _) rest stays.2
    · rw [movesOn_other same] at stays
      refine inductionHypothesis ?_ held known rest stays
      rw [tickers, Finmap.lookup_insert_of_ne _ (Ne.symm same), found]

/-- Over any fills that neither close nor turn over a position without a basis, the basis stays
    missing and nothing is realized exactly if none of them extends the position. -/
theorem missing_basis_kept_iff {s s' : TraderState} {ticker : String} {ts : TickerState}
    (found : s.tickers.lookup ticker = some ts) (held : ts.position ≠ 0)
    (missing : ts.entryPrice = none) {calls : List FillCall} {booked : List (String × ℚ)}
    (applied : applyFills s calls = some (s', booked))
    (stays : StaysOpen ts.position (movesOn ticker calls)) :
    ((∃ ts', s'.tickers.lookup ticker = some ts' ∧ ts'.entryPrice = none) ∧
      ∀ realized, (ticker, realized) ∈ booked → realized = 0) ↔
    NeverExtends ts.position (movesOn ticker calls) := by
  induction calls generalizing s ts booked with
  | nil =>
    cases applied
    exact ⟨fun _ => trivial, fun _ => ⟨⟨ts, found, missing⟩, by simp⟩⟩
  | cons call calls inductionHypothesis =>
    obtain ⟨ts₁, next, later, found₁, tickers, rest, rfl⟩ := applyFills_cons applied
    by_cases same : call.ticker = ticker
    · rw [same, found] at found₁
      cases found₁
      rw [movesOn_same same] at stays ⊢
      have found' : next.tickers.lookup ticker = some (ts.filled call.nf call.nowEpoch) := by
        rw [tickers, same, Finmap.lookup_insert]
      have held' : (ts.filled call.nf call.nowEpoch).position ≠ 0 := ne_zero_of_sign held stays.1
      have priced := entryPrice_filled_iff held missing stays.1 call.nowEpoch
      by_cases extends_ : |ts.position + call.nf.signedSize| ≤ |ts.position|
      · have later_ := inductionHypothesis found' held' (priced.mpr extends_) rest stays.2
        rw [NeverExtends, and_iff_right extends_]
        refine Iff.trans ?_ later_
        simp [same, realizedOn_of_missing missing]
      · -- the price this fill brings in is never lost again
        obtain ⟨ts', found'', known⟩ := isSome_of_applyFills found' held'
          (Option.ne_none_iff_isSome.mp fun none_ => extends_ (priced.mp none_)) rest stays.2
        refine ⟨fun ⟨⟨last, lookup, none_⟩, _⟩ => ?_, fun never => absurd never.1 extends_⟩
        rw [found''] at lookup
        cases lookup
        rw [none_] at known
        cases known
    · rw [movesOn_other same] at stays ⊢
      have found' : next.tickers.lookup ticker = some ts := by
        rw [tickers, Finmap.lookup_insert_of_ne _ (Ne.symm same), found]
      refine Iff.trans ?_ (inductionHypothesis found' held missing rest stays)
      simp [Ne.symm same]

/-- Five contracts read back from the exchange, without a basis. -/
def inherited : TraderState :=
  (TraderState.new 0).setTicker "KXBTCD-25JUL2417-T100"
    { category := "KXBTCD", position := 5, carried := true }

def tradeAt (longYes : Bool) (priceYes : ℚ) (size : ℤ) : FillCall where
  ticker := "KXBTCD-25JUL2417-T100"
  nf := { fillId := "f1", ticker := "KXBTCD-25JUL2417-T100", longYes, priceYes, size,
          isTaker := false, orderId := none }
  fee := 0
  nowEpoch := 0

/-- One contract bought at sixty cents prices the five that were read back, and selling five of the
    six at seventy cents books half a dollar on them. -/
theorem basis_invented_by_extension :
    let calls := [tradeAt true (3 / 5) 1, tradeAt false (7 / 10) 5]
    StaysOpen 5 (movesOn "KXBTCD-25JUL2417-T100" calls) ∧
    ((applyFills inherited calls).map fun (s, booked) =>
        ((s.tickers.lookup "KXBTCD-25JUL2417-T100").map TickerState.entryPrice, booked)) =
      some (some (some (3 / 5)),
        [("KXBTCD-25JUL2417-T100", 0), ("KXBTCD-25JUL2417-T100", 1 / 2)]) := by
  intro calls
  exact ⟨⟨by decide, by decide, trivial⟩, by decide +kernel⟩

theorem missing_basis_kept_of_reductions :
    let calls := [tradeAt false (3 / 5) 1, tradeAt false (7 / 10) 2]
    NeverExtends 5 (movesOn "KXBTCD-25JUL2417-T100" calls) ∧
    ∃ s' booked, applyFills inherited calls = some (s', booked) ∧
      ∀ realized, ("KXBTCD-25JUL2417-T100", realized) ∈ booked → realized = 0 := by
  intro calls
  have never : NeverExtends 5 (movesOn "KXBTCD-25JUL2417-T100" calls) :=
    ⟨by decide, by decide, trivial⟩
  have runs : (applyFills inherited calls).isSome := by decide +kernel
  obtain ⟨⟨s', booked⟩, applied⟩ := Option.isSome_iff_exists.mp runs
  have stays : StaysOpen 5 (movesOn "KXBTCD-25JUL2417-T100" calls) :=
    ⟨by decide, by decide, trivial⟩
  have found : inherited.tickers.lookup "KXBTCD-25JUL2417-T100" =
      some { category := "KXBTCD", position := 5, carried := true } := Finmap.lookup_insert _
  exact ⟨never, s', booked, applied,
    ((missing_basis_kept_iff found (by decide) rfl applied stays).mpr never).2⟩

end KalshiMm.Verified.MissingBasis
