import KalshiMm.Lib.Run
import KalshiMm.Verified.Pnl

/-!
# Replaying fills against booking them

`replay_entry_price` and live booking fold the same step over position and entry price, the one
from flat, the other from what the market holds.  A history cut off at its old end that still
ends at the same position has dropped fills that sum to nothing, and a market that nets to
nothing carries no entry price, so the cut leaves nothing out.
-/

namespace KalshiMm.Verified.Replay

open KalshiMm.Lib KalshiMm.Model

/-- What a fill does to position and entry price. -/
def foldFill (basis : ℤ × Option ℚ) (nf : NormalizedFill) : ℤ × Option ℚ :=
  (basis.1 + nf.signedSize,
    foldEntryPrice basis.1 (basis.1 + nf.signedSize) basis.2 nf.size nf.priceYes)

theorem replayEntryPrice_eq (fills : List NormalizedFill) :
    replayEntryPrice fills = run foldFill (0, none) fills := rfl

/-! ## Live booking -/

/-- A fill that is booked, with its fee and the time of its booking. -/
structure Booking where
  fill : NormalizedFill
  fee : ℚ
  epoch : ℚ

/-- Booking fills one after the other; `none` is the panic on a market without a state. -/
def bookAll (ticker : String) : TraderState → List Booking → Option TraderState
  | s, [] => some s
  | s, booking :: rest =>
    (s.applyFill ticker booking.fill booking.fee booking.epoch).bind fun booked =>
      bookAll ticker booked.1 rest

def basisOf (ts : TickerState) : ℤ × Option ℚ := (ts.position, ts.entryPrice)

/-- Live booking folds the replay's step, whatever the fees and the times. -/
theorem bookAll_basis {ticker : String} {s : TraderState} {ts : TickerState}
    (known : s.tickers.lookup ticker = some ts) (bookings : List Booking) :
    ∃ s' ts', bookAll ticker s bookings = some s' ∧ s'.tickers.lookup ticker = some ts' ∧
      basisOf ts' = run foldFill (basisOf ts) (bookings.map Booking.fill) := by
  induction bookings generalizing s ts with
  | nil => exact ⟨s, ts, rfl, known, rfl⟩
  | cons booking rest inductionHypothesis =>
    obtain ⟨booked, applied, tickers⟩ :=
      TraderState.applyFill_tickers known booking.fill booking.fee booking.epoch
    have known' : booked.tickers.lookup ticker = some (ts.filled booking.fill booking.epoch) := by
      rw [tickers, Finmap.lookup_insert]
    obtain ⟨s', ts', all, found, basis⟩ := inductionHypothesis known'
    refine ⟨s', ts', ?_, found, basis⟩
    rw [bookAll, applied]
    exact all

/-! ## Cutting off the old end -/

/-- The position is a sum, whatever order or basis. -/
theorem run_foldFill_fst (basis : ℤ × Option ℚ) (fills : List NormalizedFill) :
    (run foldFill basis fills).1 = basis.1 + (fills.map NormalizedFill.signedSize).sum := by
  induction fills generalizing basis with
  | nil => simp
  | cons nf fills inductionHypothesis =>
    rw [run_cons, inductionHypothesis, List.map_cons, List.sum_cons, foldFill, add_assoc]

theorem run_foldFill_flat {basis : ℤ × Option ℚ} (clean : basis.1 = 0 → basis.2 = none)
    (fills : List NormalizedFill) (flat : (run foldFill basis fills).1 = 0) :
    (run foldFill basis fills).2 = none := by
  have kept (b : ℤ × Option ℚ) (nf : NormalizedFill) (_ : b.1 = 0 → b.2 = none) :
      (foldFill b nf).1 = 0 → (foldFill b nf).2 = none := by
    intro flat
    exact if_pos flat
  exact run_induct (I := fun b : ℤ × Option ℚ => b.1 = 0 → b.2 = none) kept clean flat

/-- A suffix of the history that ends at its position ends at its entry price. -/
theorem replay_of_suffix {fills kept : List NormalizedFill} (suffix : kept <:+ fills)
    (same : (run foldFill (0, none) kept).1 = (run foldFill (0, none) fills).1) :
    run foldFill (0, none) kept = run foldFill (0, none) fills := by
  obtain ⟨dropped, rfl⟩ := suffix
  have whole := run_append foldFill (0, none) dropped kept
  -- what was dropped nets to nothing
  have flat : (run foldFill (0, none) dropped).1 = 0 := by
    rw [whole, run_foldFill_fst, run_foldFill_fst _ kept] at same
    linarith
  have fresh : run foldFill (0, none) dropped = (0, none) :=
    Prod.ext flat (run_foldFill_flat (fun _ => rfl) dropped flat)
  rw [whole, fresh]

/-- From a flat market, a replay of the whole history agrees with live booking, and a replay of
    its newest part does wherever the positions agree. -/
theorem truncated_replay_safe {ticker : String} {s : TraderState} {ts : TickerState}
    (known : s.tickers.lookup ticker = some ts) (fresh : basisOf ts = (0, none))
    (bookings : List Booking) :
    ∃ s' ts', bookAll ticker s bookings = some s' ∧ s'.tickers.lookup ticker = some ts' ∧
      replayEntryPrice (bookings.map Booking.fill) = basisOf ts' ∧
      ∀ kept, kept <:+ bookings.map Booking.fill →
        (replayEntryPrice kept).1 = ts'.position → (replayEntryPrice kept).2 = ts'.entryPrice := by
  obtain ⟨s', ts', booked, found, basis⟩ := bookAll_basis known bookings
  rw [fresh] at basis
  refine ⟨s', ts', booked, found, basis.symm, ?_⟩
  intro kept suffix same
  have position : (run foldFill (0, none) kept).1 =
      (run foldFill (0, none) (bookings.map Booking.fill)).1 := by
    rw [← basis]
    exact same
  rw [replayEntryPrice_eq, replay_of_suffix suffix position, ← basis]
  rfl

/-- A round trip before the restart, and one buy after it that a short history still shows. -/
theorem truncated_replay_round_trip :
    let trade (longYes : Bool) (priceYes : ℚ) : Booking :=
      { fill := { fillId := "f", ticker := "KXBTCD-26JUL1517-T64000", longYes, priceYes, size := 1,
                  isTaker := false, orderId := none }
        fee := 0, epoch := 0 }
    let bookings := [trade true (2 / 5), trade false (1 / 2), trade true (3 / 5)]
    ∃ s' ts', bookAll "KXBTCD-26JUL1517-T64000"
        ((TraderState.new 0).ticker "KXBTCD-26JUL1517-T64000" "KXBTCD") bookings = some s' ∧
      s'.tickers.lookup "KXBTCD-26JUL1517-T64000" = some ts' ∧ ts'.entryPrice = some (3 / 5) := by
  intro trade bookings
  have known : ((TraderState.new 0).ticker "KXBTCD-26JUL1517-T64000" "KXBTCD").tickers.lookup
      "KXBTCD-26JUL1517-T64000" = some (TickerState.new "KXBTCD") := Finmap.lookup_insert _
  obtain ⟨s', ts', booked, found, whole, cut⟩ := truncated_replay_safe known rfl bookings
  have suffix : [(trade true (3 / 5)).fill] <:+ bookings.map Booking.fill :=
    ⟨[(trade true (2 / 5)).fill, (trade false (1 / 2)).fill], rfl⟩
  have position : (replayEntryPrice [(trade true (3 / 5)).fill]).1 = ts'.position :=
    (show _ = (replayEntryPrice (bookings.map Booking.fill)).1 by decide +kernel).trans
      (congrArg Prod.fst whole)
  exact ⟨s', ts', booked, found, (cut _ suffix position).symm.trans (by decide +kernel)⟩

end KalshiMm.Verified.Replay
