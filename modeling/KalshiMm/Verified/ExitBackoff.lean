import Mathlib.Algebra.Order.Floor.Ring
import KalshiMm.Verified.ExitPasses

/-!
# The backoff of stuck exits

While a position stays as it is, its retry entry survives every pass, and each exit order doubles
the wait for the next one, up to a minute.  The waits that add up bound the orders of a window.
-/

namespace KalshiMm.Verified.ExitBackoff

open KalshiMm.Lib KalshiMm.Model ExitSpacing ExitPasses

/-- When the exit orders of one market are sent. -/
def exitTimes (ticker : String) (tr : Trader) : ExitEvent → List ℚ
  | .pass out => ((tr.checkExits out).calls.filter (isExit ticker)).map fun _ => out.mono
  | .fill .. => []
  | .other _ => []

def sentTimes (ticker : String) (tr : Trader) (events : List ExitEvent) : List ℚ :=
  outputs exitStep (exitTimes ticker) tr events

/-- The wait after the exit order of an index, from zero. -/
def wait (k : ℕ) : ℚ := min (10 * 2 ^ k) 60

theorem wait_nonneg (k : ℕ) : 0 ≤ wait k := le_min (by positivity) (by norm_num)

theorem exitRetryDelayS_succ (k : ℕ) : exitRetryDelayS (k + 1) = wait k := by
  simp [exitRetryDelayS, wait, exitRetryBaseS, exitRetryMaxS]

theorem wait_mono : Monotone wait := fun j k le =>
  min_le_min_right 60 (mul_le_mul_of_nonneg_left (pow_le_pow_right₀ one_le_two le) (by norm_num))

theorem wait_of_long {k : ℕ} (long : 3 ≤ k) : wait k = 60 := by
  have reached : wait 3 = 60 := by norm_num [wait]
  exact le_antisymm (min_le_right _ _) (reached.symm.trans_le (wait_mono long))

/-- After ten, twenty and forty seconds the waits are a minute each. -/
theorem sum_wait (n : ℕ) : ∑ k ∈ Finset.range (3 + n), wait k = 70 + 60 * n := by
  induction n with
  | zero => norm_num [Finset.sum_range_succ, wait]
  | succ n inductionHypothesis =>
    rw [← add_assoc, Finset.sum_range_succ, inductionHypothesis, wait_of_long (by omega)]
    push_cast
    ring

/-! ## The retry entry counts -/

/-- The times so far keep the waits, and the retry entry holds the market off for the wait after
    the last of them, or longer. -/
def Backed (ticker : String) (position : ℤ) (tr : Trader) (times : List ℚ) : Prop :=
  SpacedBy wait times ∧ ∀ last, times.getLast? = some last → position ≠ 0 ∧
    ∃ extra, tr.exitRetries.lookup ticker = some
      { attempts := times.length + extra
        positionAtAttempt := position
        nextAllowedMono := some (last + exitRetryDelayS (times.length + extra)) }

theorem Backed.of_kept {ticker : String} {position : ℤ} {tr tr' : Trader} {times : List ℚ}
    (backed : Backed ticker position tr times)
    (kept : position ≠ 0 → tr'.exitRetries.lookup ticker = tr.exitRetries.lookup ticker) :
    Backed ticker position tr' times := by
  refine ⟨backed.1, fun last found => ?_⟩
  obtain ⟨held, extra, entry⟩ := backed.2 last found
  exact ⟨held, extra, (kept held).trans entry⟩

theorem exitTimes_pass (out : Outside) (ticker : String) (tr : Trader) :
    exitTimes ticker tr (.pass out) = if sendsExit out ticker tr then [out.mono] else [] := by
  have count := exits_pass out ticker tr
  rw [exitTimes]
  split_ifs with sends
  · rw [sends] at count
    obtain ⟨call, one⟩ := List.length_eq_one_iff.mp count
    rw [one, List.map_singleton]
  · rw [Bool.eq_false_iff.mpr sends] at count
    rw [List.length_eq_zero_iff.mp count, List.map_nil]

/-- The entry on record is the one that the next exit of the position starts from. -/
theorem Backed.nextRetry_eq {ticker : String} {position : ℤ} {tr : Trader} {times : List ℚ}
    (backed : Backed ticker position tr times) (here : tr.positionOf ticker = position) {last : ℚ}
    (found : times.getLast? = some last) :
    ∃ extra, nextRetry ticker tr =
      { attempts := times.length + extra
        positionAtAttempt := position
        nextAllowedMono := some (last + exitRetryDelayS (times.length + extra)) } := by
  obtain ⟨_, extra, entry⟩ := backed.2 last found
  refine ⟨extra, ?_⟩
  rw [nextRetry, Trader.retryFor, entry, here]
  exact if_neg (not_not.mpr rfl)

/-- An exit that is sent has waited for the entry on record, and counts on from it. -/
theorem backed_sent {ticker : String} {position : ℤ} {tr : Trader} {times : List ℚ}
    (backed : Backed ticker position tr times) {out : Outside}
    (sends : sendsExit out ticker tr = true) (here : tr.positionOf ticker = position) :
    Backed ticker position (tr.checkExits out).trader (times ++ [out.mono]) := by
  have held := position_of_sends sends
  have free : retryOff out ticker tr = false := by
    rw [sendsExit_eq, Bool.and_eq_true, Bool.not_eq_true'] at sends
    exact sends.2
  have entered := exitRetries_pass out ticker tr
  rw [if_neg held, if_pos sends] at entered
  refine ⟨backed.1.concat fun last found => ?_, fun last found => ⟨here ▸ held, ?_⟩⟩
  · obtain ⟨extra, entry⟩ := backed.nextRetry_eq here found
    have nonempty : times.length ≠ 0 := by
      rintro empty
      rw [List.length_eq_zero_iff.mp empty] at found
      cases found
    rw [retryOff, entry] at free
    have waited := le_of_not_held free
    have longer : wait (times.length - 1) ≤ exitRetryDelayS (times.length + extra) := by
      rw [(by omega : times.length + extra = times.length - 1 + extra + 1), exitRetryDelayS_succ]
      exact wait_mono (Nat.le_add_right _ _)
    linarith
  · rw [List.getLast?_concat, Option.some.injEq] at found
    have attempts : ∃ extra, (nextRetry ticker tr).attempts = times.length + extra := by
      cases previous : times.getLast? with
      | none =>
        rw [List.getLast?_eq_none_iff.mp previous]
        exact ⟨_, (Nat.zero_add _).symm⟩
      | some last =>
        obtain ⟨extra, entry⟩ := backed.nextRetry_eq here previous
        exact ⟨extra, by rw [entry]⟩
    obtain ⟨extra, attempts⟩ := attempts
    refine ⟨extra, entered.trans ?_⟩
    rw [sentRetry, attempts, here, found, List.length_append, List.length_singleton,
      Nat.add_right_comm]

theorem backed_step {ticker : String} {position : ℤ} (tr : Trader) (event : ExitEvent)
    (times : List ℚ) (backed : Backed ticker position tr times)
    (here : tr.positionOf ticker = position) :
    Backed ticker position (exitStep tr event) (times ++ exitTimes ticker tr event) := by
  cases event with
  | fill out raw =>
    rw [exitTimes, List.append_nil]
    exact backed.of_kept fun _ => congrArg _ (exitRetries_processFill out raw tr)
  | other tr' =>
    rw [exitTimes, List.append_nil]
    exact backed.of_kept fun _ => rfl
  | pass out =>
    rw [exitTimes_pass]
    split_ifs with sends
    · exact backed_sent backed sends here
    · rw [List.append_nil]
      refine backed.of_kept fun held => (exitRetries_pass out ticker tr).trans ?_
      rw [here, if_neg held, if_neg sends]

/-- While the position stays as it is, whatever its triggers do: consecutive exit orders are ten
    seconds apart at first and twice as long each time, up to a minute; at most four fall into the
    two minutes from the first one, and one more for every further minute beyond seventy seconds. -/
theorem exits_back_off {ticker : String} {position : ℤ} {tr : Trader} {events : List ExitEvent}
    (unmoved : Throughout exitStep (fun tr => tr.positionOf ticker = position) tr events) :
    let times := sentTimes ticker tr events
    (∀ k t t', times[k]? = some t → times[k + 1]? = some t' → t + min (10 * 2 ^ k) 60 ≤ t') ∧
    ∀ first, times.head? = some first →
      (times.filter fun t => t ≤ first + 120).length ≤ 4 ∧
      ∀ window, 70 ≤ window →
        ((times.filter fun t => t ≤ first + window).length : ℤ) ≤ 4 + ⌈(window - 70) / 60⌉ := by
  intro times
  have start : Backed ticker position tr [] := ⟨.nil wait, nofun⟩
  have spaced : SpacedBy wait times := (outputs_induct exitStep
    (I := Backed ticker position) (fun tr event times => backed_step tr event times) start
    unmoved.along).1
  refine ⟨spaced, fun first starts => ⟨?_, fun window long => ?_⟩⟩
  · refine spaced.count_le wait_nonneg starts (n := 4) ?_
    have passed := sum_wait 1
    norm_num at passed
    rw [passed]
    linarith
  · -- as many minutes as fit beyond the first seventy seconds
    obtain ⟨minutes, counted⟩ := Int.eq_ofNat_of_zero_le
      (Int.ceil_nonneg (by linarith : 0 ≤ (window - 70) / 60))
    have enough := Int.le_ceil ((window - 70) / 60)
    have within : (times.filter fun t => t ≤ first + window).length ≤ 3 + (minutes + 1) := by
      refine spaced.count_le wait_nonneg starts ?_
      rw [sum_wait]
      rw [counted] at enough
      push_cast at enough ⊢
      linarith
    rw [counted]
    omega

/-- Five passes, one of them too early. -/
theorem exits_back_off_four_orders :
    let events : List ExitEvent := [0, 5, 10, 30, 70].map fun mono => .pass (clockAt mono)
    let times := sentTimes "KXBTCD-25JUL2417-T100" heldFive events
    times = [0, 10, 30, 70] ∧ (times.filter fun t => t ≤ 0 + 120).length ≤ 4 := by
  intro events times
  have sent : times = [0, 10, 30, 70] := by decide +kernel
  have unmoved : Throughout exitStep
      (fun tr => tr.positionOf "KXBTCD-25JUL2417-T100" = 5) heldFive events := by decide +kernel
  have first : times.head? = some 0 := by rw [sent]; rfl
  exact ⟨sent, ((exits_back_off unmoved).2 0 first).1⟩

end KalshiMm.Verified.ExitBackoff
