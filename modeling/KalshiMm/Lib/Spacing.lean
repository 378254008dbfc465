import Mathlib.Algebra.Order.BigOperators.Group.Finset
import KalshiMm.Lib.Run

/-!
# Spaced marks in a log

A log of time stamps, some of which are forgotten when a reset is logged.  `watch` remembers the
last stamp since the last reset, and `Respects gap` is what it checks of the next mark.  A log
that the watch accepts throughout has any two of its stamps at least `gap` apart, unless a reset
stands between them.

Where the gap depends on how many stamps there were before, `SpacedBy` speaks of a list of times,
and the gaps that have added up bound how many of the times can fall into a window.
-/

namespace KalshiMm.Lib

/-- A line of the log. -/
inductive Mark (α : Type*) where
  | stamp (time : α)
  | reset
deriving DecidableEq

namespace Mark

variable {α : Type*}

/-- The last stamp since the last reset. -/
def watch : Option α → Mark α → Option α
  | _, .stamp time => some time
  | _, .reset => none

/-- The mark keeps its distance to the stamp remembered. -/
def Respects [Add α] [LE α] (gap : α) (last : Option α) (mark : Mark α) : Prop :=
  ∀ earlier time, last = some earlier → mark = .stamp time → earlier + gap ≤ time

variable [AddCommMonoid α] [PartialOrder α] [IsOrderedAddMonoid α] {gap : α}

/-- Without a reset, the stamp remembered only moves forward. -/
theorem watch_forward (nonneg : 0 ≤ gap) {start : α} {log : List (Mark α)}
    (accepted : Along watch (Respects gap) (some start) log) (kept : .reset ∉ log) :
    ∃ last, run watch (some start) log = some last ∧ start ≤ last := by
  induction log generalizing start with
  | nil => exact ⟨start, rfl, le_rfl⟩
  | cons mark log inductionHypothesis =>
    obtain ⟨head, tail⟩ := accepted
    cases mark with
    | reset => exact absurd List.mem_cons_self kept
    | stamp time =>
      obtain ⟨last, found, later⟩ :=
        inductionHypothesis tail fun member => kept (List.mem_cons_of_mem _ member)
      have forward : start ≤ start + gap := le_add_of_nonneg_right nonneg
      exact ⟨last, found, forward.trans ((head start time rfl rfl).trans later)⟩

/-- Two stamps of an accepted log with no reset between them are `gap` apart. -/
theorem spaced (nonneg : 0 ≤ gap) {first : Option α} {log before between after : List (Mark α)}
    {s t : α} (accepted : Along watch (Respects gap) first log)
    (split : log = before ++ .stamp s :: between ++ .stamp t :: after) (kept : .reset ∉ between) :
    s + gap ≤ t := by
  subst split
  rw [List.append_assoc, along_append, List.cons_append] at accepted
  obtain ⟨_, _, rest⟩ := accepted
  obtain ⟨stretch, head, _⟩ := along_append.mp rest
  obtain ⟨last, found, later⟩ := watch_forward nonneg stretch kept
  have next := head last t found rfl
  exact (add_le_add_left later gap).trans next

end Mark

/-! ## Gaps that depend on the count -/

section Gaps

variable {α : Type*} [AddCommMonoid α]

/-- From each time to the next there is at least the gap of its index. -/
def SpacedBy [LE α] (gap : ℕ → α) (times : List α) : Prop :=
  ∀ k t t', times[k]? = some t → times[k + 1]? = some t' → t + gap k ≤ t'

theorem SpacedBy.nil [LE α] (gap : ℕ → α) : SpacedBy gap [] := fun _ _ _ found => nomatch found

theorem SpacedBy.concat [LE α] {gap : ℕ → α} {times : List α} (spaced : SpacedBy gap times) {time : α}
    (later : ∀ last, times.getLast? = some last → last + gap (times.length - 1) ≤ time) :
    SpacedBy gap (times ++ [time]) := by
  intro k t t' found next
  obtain ⟨bound, value⟩ := List.getElem?_eq_some_iff.mp next
  rw [List.length_append, List.length_singleton] at bound
  rw [List.getElem?_append_left (by omega)] at found
  by_cases inside : k + 1 < times.length
  · rw [List.getElem?_append_left inside] at next
    exact spaced k t t' found next
  · have index : k = times.length - 1 := by omega
    have last : times.getLast? = some t := by rw [List.getLast?_eq_getElem?, ← index, found]
    rw [List.getElem_append_right (by omega), List.getElem_singleton] at value
    rw [← value, index]
    exact later t last

variable [LinearOrder α] [IsOrderedAddMonoid α] {gap : ℕ → α} {times : List α} {first : α}

/-- The gaps add up. -/
theorem SpacedBy.sum_le (spaced : SpacedBy gap times) (start : times.head? = some first) {n : ℕ}
    {t : α} (found : times[n]? = some t) : first + ∑ k ∈ Finset.range n, gap k ≤ t := by
  induction n generalizing t with
  | zero =>
    rw [List.head?_eq_getElem?, found, Option.some.injEq] at start
    rw [Finset.sum_range_zero, add_zero, start]
  | succ n inductionHypothesis =>
    obtain ⟨bound, _⟩ := List.getElem?_eq_some_iff.mp found
    have before := List.getElem?_eq_getElem (by omega : n < times.length)
    rw [Finset.sum_range_succ, ← add_assoc]
    exact (add_le_add_left (inductionHypothesis before) _).trans (spaced n _ _ before found)

/-- No more than `n` of the times fall before a limit that the first `n` gaps pass. -/
theorem SpacedBy.count_le (spaced : SpacedBy gap times) (nonneg : ∀ k, 0 ≤ gap k)
    (start : times.head? = some first) {limit : α} {n : ℕ}
    (passed : limit < first + ∑ k ∈ Finset.range n, gap k) :
    (times.filter fun t => t ≤ limit).length ≤ n := by
  have none_ : (times.drop n).filter (fun t => t ≤ limit) = [] := by
    refine List.filter_eq_nil_iff.mpr fun t member => ?_
    obtain ⟨j, found⟩ := List.getElem?_of_mem member
    rw [List.getElem?_drop] at found
    have grown : ∑ k ∈ Finset.range n, gap k ≤ ∑ k ∈ Finset.range (n + j), gap k :=
      Finset.sum_le_sum_of_subset_of_nonneg (Finset.range_mono (Nat.le_add_right n j))
        fun k _ _ => nonneg k
    have beyond := (passed.trans_le (add_le_add_right grown first)).trans_le
      (spaced.sum_le start found)
    simpa using beyond
  rw [← List.take_append_drop n times, List.filter_append, none_, List.append_nil]
  exact (List.length_filter_le _ _).trans (List.length_take_le n times)

end Gaps

end KalshiMm.Lib
