import KalshiMm.Verified.ExitPasses

/-!
# The first exit of a position

A retry entry is dropped when a pass finds its market flat, and started anew when a pass finds
another position.  A position that is closed and opened again at the same size, with no pass in
between, looks to the timer like one that never moved, and waits out the earlier one's backoff.
-/

namespace KalshiMm.Verified.FreshExits

open KalshiMm.Lib KalshiMm.Model ExitPasses

/-- An exit order as it was sent: for which position, as which of a row, and when. -/
structure SentExit where
  position : ℤ
  row : ℕ
  mono : ℚ

/-- What a watcher of one market's orders and position remembers: the last exit order, whether the
    market has been flat since, and whether a pass has found it flat since. -/
structure ExitMemory where
  last : Option SentExit := none
  flatSince : Bool := true
  foundFlat : Bool := true

/-- The place of the next exit order in its row: a row is of orders for one position, which no
    pass has found flat. -/
def ExitMemory.nextRow (memory : ExitMemory) (position : ℤ) : ℕ :=
  match memory.last with
  | some sent => if memory.foundFlat = false ∧ sent.position = position then sent.row + 1 else 1
  | none => 1

def remember (ticker : String) (tr : Trader) (memory : ExitMemory) (event : ExitEvent) :
    ExitMemory :=
  match event with
  | .pass out =>
    if sendsExit out ticker tr then
      let position := tr.positionOf ticker
      { last := some { position, row := memory.nextRow position, mono := out.mono }
        flatSince := false
        foundFlat := false }
    else { memory with foundFlat := memory.foundFlat || tr.positionOf ticker = 0 }
  | _ =>
    { memory with flatSince := memory.flatSince || (exitStep tr event).positionOf ticker = 0 }

def watchedStep (ticker : String) : Trader × ExitMemory → ExitEvent → Trader × ExitMemory :=
  withGhost exitStep (remember ticker)

/-- Where the market has been flat since its last exit order, a pass that finds an exit ready sends
    it. -/
def FirstAtOnce (ticker : String) (s : Trader × ExitMemory) : ExitEvent → Prop
  | .pass out => s.2.flatSince = true → exitReady out ticker s.1 = true →
      sendsExit out ticker s.1 = true
  | _ => True

/-- The position is the one the last exit order was sent for, no pass has found the market flat
    since, and that order's backoff has not run out. -/
def Reopened (ticker : String) (s : Trader × ExitMemory) (nowMono : ℚ) : Prop :=
  s.2.foundFlat = false ∧ ∃ sent ∈ s.2.last, sent.position = s.1.positionOf ticker ∧
    nowMono < sent.mono + exitRetryDelayS sent.row

/-- No pass finds an exit ready for a position that was opened again, after being flat, as it was
    when its last exit order was sent, within that order's backoff. -/
def NotReopened (ticker : String) (s : Trader × ExitMemory) : ExitEvent → Prop
  | .pass out => s.2.flatSince = true → exitReady out ticker s.1 = true →
      ¬ Reopened ticker s out.mono
  | _ => True

instance (ticker : String) (s : Trader × ExitMemory) (nowMono : ℚ) :
    Decidable (Reopened ticker s nowMono) :=
  inferInstanceAs (Decidable (_ ∧ ∃ sent ∈ s.2.last, _ ∧ _))

instance (ticker : String) (s : Trader × ExitMemory) (event : ExitEvent) :
    Decidable (FirstAtOnce ticker s event) :=
  match event with
  | .pass _ => inferInstanceAs (Decidable (_ → _ → _ = _))
  | .fill .. => isTrue trivial
  | .other _ => isTrue trivial

instance (ticker : String) (s : Trader × ExitMemory) (event : ExitEvent) :
    Decidable (NotReopened ticker s event) :=
  match event with
  | .pass _ => inferInstanceAs (Decidable (_ → _ → ¬ Reopened _ _ _))
  | .fill .. => isTrue trivial
  | .other _ => isTrue trivial

/-! ## Retry entries and memory -/

/-- The retry entry that goes with a memory. -/
def ExitMemory.entry (memory : ExitMemory) : Option ExitRetry :=
  if memory.foundFlat then none
  else memory.last.map fun sent =>
    { attempts := sent.row
      positionAtAttempt := sent.position
      nextAllowedMono := some (sent.mono + exitRetryDelayS sent.row) }

def Remembered (ticker : String) (s : Trader × ExitMemory) : Prop :=
  s.1.exitRetries.lookup ticker = s.2.entry

/-- The retry entry on record is the backoff that is remembered for this very position. -/
theorem retryOff_iff {ticker : String} {s : Trader × ExitMemory}
    (remembered : Remembered ticker s) (out : Outside) :
    retryOff out ticker s.1 = true ↔ Reopened ticker s out.mono := by
  obtain ⟨tr, last, flatSince, foundFlat⟩ := s
  unfold Remembered ExitMemory.entry at remembered
  unfold retryOff nextRetry Trader.retryFor Reopened
  rw [remembered]
  cases foundFlat with
  | true => simp [heldUntil]
  | false =>
    cases last with
    | none => simp [heldUntil]
    | some sent =>
      by_cases same : sent.position = tr.positionOf ticker
      · simp [heldUntil, same]
      · simp [heldUntil, same]

theorem attempts_nextRetry {ticker : String} {s : Trader × ExitMemory}
    (remembered : Remembered ticker s) :
    (nextRetry ticker s.1).attempts + 1 = s.2.nextRow (s.1.positionOf ticker) := by
  obtain ⟨tr, last, flatSince, foundFlat⟩ := s
  unfold Remembered ExitMemory.entry at remembered
  unfold nextRetry Trader.retryFor ExitMemory.nextRow
  rw [remembered]
  cases foundFlat with
  | true => cases last <;> simp
  | false =>
    cases last with
    | none => simp
    | some sent =>
      by_cases same : sent.position = tr.positionOf ticker
      · simp [same]
      · simp [same]

/-- The memory follows the retry entry through every step. -/
theorem remembered_step {ticker : String} (s : Trader × ExitMemory) (event : ExitEvent)
    (remembered : Remembered ticker s) : Remembered ticker (watchedStep ticker s event) := by
  cases event with
  | fill out raw => exact (congrArg _ (exitRetries_processFill out raw s.1)).trans remembered
  | other tr => exact remembered
  | pass out =>
    refine (exitRetries_pass out ticker s.1).trans ?_
    change _ = (remember ticker s.1 s.2 (.pass out)).entry
    rw [remember]
    split_ifs with flat sends sends
    · exact absurd flat (position_of_sends sends)
    · simp [ExitMemory.entry, flat]
    · simp [ExitMemory.entry, sentRetry, attempts_nextRetry remembered]
    · rw [decide_eq_false flat, Bool.or_false]
      exact remembered

theorem firstAtOnce_iff {ticker : String} (s : Trader × ExitMemory) (event : ExitEvent)
    (remembered : Remembered ticker s) : FirstAtOnce ticker s event ↔ NotReopened ticker s event := by
  cases event with
  | fill out raw => exact Iff.rfl
  | other tr => exact Iff.rfl
  | pass out =>
    refine imp_congr_right fun _ => imp_congr_right fun ready => ?_
    rw [sendsExit_eq, ready, Bool.true_and, ← retryOff_iff remembered, Bool.not_eq_true',
      Bool.not_eq_true]

/-- In a run from a market without a retry entry, every first exit after the market has been flat
    is sent at once exactly if none of them is for a position that was opened again, within the
    backoff, at the size its last exit order was sent for, with no pass in between. -/
theorem first_exits_at_once_iff {ticker : String} {tr : Trader}
    (unretried : tr.exitRetries.lookup ticker = none) (events : List ExitEvent) :
    Along (watchedStep ticker) (FirstAtOnce ticker) (tr, {}) events ↔
      Along (watchedStep ticker) (NotReopened ticker) (tr, {}) events :=
  along_congr_of_step remembered_step firstAtOnce_iff unretried

def fiveReported (id action : String) : Value :=
  .object [("trade_id", .string id), ("ticker", .string "KXBTCD-25JUL2417-T100"),
    ("action", .string action), ("side", .string "yes"), ("yes_price_dollars", .string "0.44"),
    ("count", .number 5)]

theorem first_exits_at_once_when_found_flat :
    Along (watchedStep "KXBTCD-25JUL2417-T100") (FirstAtOnce "KXBTCD-25JUL2417-T100") (heldFive, {})
      [.pass (clockAt 0), .fill (clockAt 2) (fiveReported "f1" "sell"), .pass (clockAt 3),
        .fill (clockAt 4) (fiveReported "f2" "buy"), .pass (clockAt 5)] :=
  (first_exits_at_once_iff rfl _).mpr (by decide +kernel)

/-- Closed and opened again at five contracts between the passes at 10 s and 20 s, the position
    waits until 30 s, which the second order for the earlier one had set. -/
theorem reopened_exit_waits :
    ¬ Along (watchedStep "KXBTCD-25JUL2417-T100") (FirstAtOnce "KXBTCD-25JUL2417-T100")
      (heldFive, {})
      [.pass (clockAt 0), .pass (clockAt 10), .fill (clockAt 12) (fiveReported "f1" "sell"),
        .fill (clockAt 14) (fiveReported "f2" "buy"), .pass (clockAt 20)] := by
  decide +kernel

end KalshiMm.Verified.FreshExits
