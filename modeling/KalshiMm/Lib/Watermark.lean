import Mathlib.Algebra.Order.Group.Defs
import Mathlib.Data.Set.Basic
import Mathlib.Tactic.Common

/-!
# Scans from a watermark

A log is read by repeated scans, each of which starts an overlap before a mark and moves the mark
when it was complete.  Nothing is lost as long as a complete scan ends within the overlap of its
beginning: the next scan then starts before what this one could not have seen.
-/

namespace KalshiMm.Lib

variable {α T : Type*} [AddCommGroup T] [LinearOrder T]

/-- Everything of the log from `start` on has been seen up to some point, and a scan from the mark
    starts no later than there. -/
def Covered (time : α → T) (start overlap : T) (log : Set α) (mark : T) (seen : Set α) : Prop :=
  ∃ reached, (∀ x ∈ log, start ≤ time x → time x < reached → x ∈ seen) ∧ mark - overlap ≤ reached

namespace Covered

variable {time : α → T} {start overlap mark mark' began ended : T} {log seen seen' : Set α}

theorem init (early : mark - overlap ≤ start) : Covered time start overlap log mark seen :=
  ⟨start, fun _ _ since before => absurd before (not_lt.mpr since), early⟩

theorem more (covered : Covered time start overlap log mark seen) (grown : seen ⊆ seen') :
    Covered time start overlap log mark seen' := by
  obtain ⟨reached, all, early⟩ := covered
  exact ⟨reached, fun x member since before => grown (all x member since before), early⟩

/-- A complete scan leaves nothing unseen that happened before it began. -/
theorem all_seen (covered : Covered time start overlap log mark seen) (grown : seen ⊆ seen')
    (complete : ∀ x ∈ log, mark - overlap ≤ time x → time x < began → x ∈ seen') :
    ∀ x ∈ log, start ≤ time x → time x < began → x ∈ seen' := by
  obtain ⟨reached, all, early⟩ := covered
  intro x member since before
  obtain known | unknown := lt_or_ge (time x) reached
  · exact grown (all x member since known)
  · exact complete x member (early.trans unknown) before

/-- After it the mark may move to where the scan ended, if that is within the overlap. -/
theorem advance [IsOrderedAddMonoid T] (covered : Covered time start overlap log mark seen)
    (grown : seen ⊆ seen')
    (complete : ∀ x ∈ log, mark - overlap ≤ time x → time x < began → x ∈ seen')
    (moved : mark' ≤ ended) (quick : ended - began ≤ overlap) :
    Covered time start overlap log mark' seen' := by
  refine ⟨began, covered.all_seen grown complete, ?_⟩
  calc mark' - overlap ≤ ended - overlap := sub_le_sub_right moved overlap
    _ ≤ began := sub_le_comm.mp quick

end Covered

end KalshiMm.Lib
