import Mathlib.Order.Basic
import Mathlib.Order.Lattice
import KalshiMm.Lib.Run

/-!
# Hysteresis

A switch with two thresholds: it goes on above the one, and stays on above the other, which is no
higher.  So it is on after some levels exactly when one of them tripped it and none since has let go
of it, and it does not go on twice without having been let go in between.
-/

namespace KalshiMm.Lib

variable {α : Type*} [LinearOrder α]

structure Band (α : Type*) [LinearOrder α] where
  trip : α
  release : α
  ordered : release ≤ trip

namespace Band

variable (band : Band α)

def threshold (on : Bool) : α := if on then band.release else band.trip

def next (on : Bool) (level : α) : Bool := decide (band.threshold on < level)

/-- One of the levels trips the switch, and none since lets go of it. -/
def Trips (levels : List α) : Prop :=
  ∃ before level after, levels = before ++ level :: after ∧ band.trip < level ∧
    ∀ later ∈ after, band.release < later

variable {band}

/-- What trips the switch does not let go of it. -/
theorem next_iff (on : Bool) (level : α) : band.next on level = true ↔
    on = true ∧ band.release < level ∨ band.trip < level := by
  unfold next threshold
  cases on with
  | false => simp
  | true =>
    simp only [if_true, decide_eq_true_eq, true_and]
    exact ⟨Or.inl, fun either => either.elim id fun trips => band.ordered.trans_lt trips⟩

theorem not_trips_nil : ¬ band.Trips [] := by
  rintro ⟨before, level, after, split, _⟩
  exact absurd split.symm (List.append_ne_nil_of_right_ne_nil _ (List.cons_ne_nil _ _))

theorem trips_concat {levels : List α} {level : α} : band.Trips (levels ++ [level]) ↔
    band.Trips levels ∧ band.release < level ∨ band.trip < level := by
  constructor
  · rintro ⟨before, tripping, after, split, trips, held⟩
    obtain rfl | ⟨earlier, last, rfl⟩ := List.eq_nil_or_concat after
    · obtain ⟨_, same⟩ := List.append_inj' split rfl
      cases same
      exact Or.inr trips
    · rw [List.concat_eq_append] at split held
      rw [← List.cons_append, ← List.append_assoc] at split
      obtain ⟨rest, same⟩ := List.append_inj' split rfl
      cases same
      exact Or.inl ⟨⟨before, tripping, earlier, rest, trips, fun later member =>
        held later (List.mem_append_left _ member)⟩, held level (by simp)⟩
  · rintro (⟨⟨before, tripping, after, rfl, trips, held⟩, last⟩ | trips)
    · refine ⟨before, tripping, after ++ [level], by simp, trips, fun later member => ?_⟩
      obtain old | new := List.mem_append.mp member
      · exact held later old
      · exact List.mem_singleton.mp new ▸ last
    · exact ⟨levels, level, [], rfl, trips, nofun⟩

/-- Off at first, the switch is on exactly if a level tripped it for good. -/
theorem run_next_iff (levels : List α) : run band.next false levels = true ↔ band.Trips levels := by
  induction levels using List.reverseRecOn with
  | nil => simp [not_trips_nil]
  | append_singleton levels level inductionHypothesis =>
    rw [run_concat, next_iff, trips_concat, inductionHypothesis]

theorem run_next_of_held {levels : List α} (held : ∀ level ∈ levels, band.release < level) :
    run band.next true levels = true := by
  induction levels with
  | nil => rfl
  | cons level levels inductionHypothesis =>
    obtain ⟨first, rest⟩ := List.forall_mem_cons.mp held
    have stays : band.next true level = true := decide_eq_true first
    rw [run_cons, stays]
    exact inductionHypothesis rest

/-- A switch that was on and is off has been let go. -/
theorem released_of_off {levels : List α} (off : run band.next true levels = false) :
    ∃ level ∈ levels, level ≤ band.release := by
  by_contra held
  push Not at held
  rw [run_next_of_held held] at off
  cases off

end Band

end KalshiMm.Lib
