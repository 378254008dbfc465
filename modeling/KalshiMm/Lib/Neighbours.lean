import Mathlib.Data.List.Sort
import Mathlib.Order.Basic

/-!
# Neighbours in a list ranked by a key

A list is ranked when its keys increase strictly.  The position before an element then holds the
nearest one below it and the position after it the nearest one above; at the two ends the element
stands in for the neighbour it lacks.  Sorting by the key ranks every list whose keys are
distinct, and to the same result from every order of arrival.
-/

namespace KalshiMm.Lib

variable {α κ : Type*} [LinearOrder κ] (key : α → κ)

def Ranked (l : List α) : Prop := l.Pairwise fun a b => key a < key b

/-- The nearest element below `x`, or `x` itself where it is the lowest. -/
def LowerEnd (s : Set α) (x y : α) : Prop :=
  (y ∈ s ∧ key y < key x ∧ ∀ z ∈ s, key z < key x → key z ≤ key y) ∨
    (y = x ∧ ∀ z ∈ s, key x ≤ key z)

/-- The nearest element above `x`, or `x` itself where it is the highest. -/
def UpperEnd (s : Set α) (x y : α) : Prop :=
  (y ∈ s ∧ key x < key y ∧ ∀ z ∈ s, key x < key z → key y ≤ key z) ∨
    (y = x ∧ ∀ z ∈ s, key z ≤ key x)

variable {key} {l : List α}

/-! ## Positions are the order of the keys -/

namespace Ranked

section Positions

variable (ranked : Ranked key l) {i j : ℕ}
include ranked

theorem lt_of_lt (hj : j < l.length) (before : i < j) : key l[i] < key l[j] :=
  List.pairwise_iff_getElem.mp ranked i j (before.trans hj) hj before

theorem lt_iff (hi : i < l.length) (hj : j < l.length) : key l[i] < key l[j] ↔ i < j := by
  constructor
  · intro below
    by_contra notBefore
    obtain after | rfl := lt_or_eq_of_le (not_lt.mp notBefore)
    · exact lt_asymm below (ranked.lt_of_lt hi after)
    · exact lt_irrefl _ below
  · exact ranked.lt_of_lt hj

theorem le_of_le (hj : j < l.length) (before : i ≤ j) : key l[i] ≤ key l[j] := by
  obtain before | rfl := lt_or_eq_of_le before
  · exact (ranked.lt_of_lt hj before).le
  · exact le_rfl

end Positions

/-! ## The neighbours of a position -/

section Ends

variable (ranked : Ranked key l) {i : ℕ}
include ranked

theorem lowerEnd_zero (first : 0 < l.length) : LowerEnd key {x | x ∈ l} l[0] l[0] := by
  refine Or.inr ⟨rfl, ?_⟩
  intro z member
  obtain ⟨j, hj, rfl⟩ := List.mem_iff_getElem.mp member
  exact ranked.le_of_le hj (Nat.zero_le j)

theorem lowerEnd_succ (inside : i + 1 < l.length) : LowerEnd key {x | x ∈ l} l[i + 1] l[i] := by
  refine Or.inl ⟨List.getElem_mem _, ranked.lt_of_lt inside (Nat.lt_succ_self i), ?_⟩
  intro z member below
  obtain ⟨j, hj, rfl⟩ := List.mem_iff_getElem.mp member
  exact ranked.le_of_le _ (Nat.lt_succ_iff.mp ((ranked.lt_iff hj inside).mp below))

theorem upperEnd_last (inside : i < l.length) (last : i + 1 = l.length) :
    UpperEnd key {x | x ∈ l} l[i] l[i] := by
  refine Or.inr ⟨rfl, ?_⟩
  intro z member
  obtain ⟨j, hj, rfl⟩ := List.mem_iff_getElem.mp member
  exact ranked.le_of_le _ (by omega)

theorem upperEnd_succ (inside : i + 1 < l.length) : UpperEnd key {x | x ∈ l} l[i] l[i + 1] := by
  refine Or.inl ⟨List.getElem_mem _, ranked.lt_of_lt inside (Nat.lt_succ_self i), ?_⟩
  intro z member above
  obtain ⟨j, hj, rfl⟩ := List.mem_iff_getElem.mp member
  exact ranked.le_of_le hj ((ranked.lt_iff _ hj).mp above)

end Ends

end Ranked

theorem LowerEnd.lt_of_ne {s : Set α} {x y : α} (lower : LowerEnd key s x y) (other : y ≠ x) :
    key y < key x := by
  obtain ⟨_, below, _⟩ | ⟨same, _⟩ := lower
  · exact below
  · exact absurd same other

theorem UpperEnd.lt_of_ne {s : Set α} {x y : α} (upper : UpperEnd key s x y) (other : y ≠ x) :
    key x < key y := by
  obtain ⟨_, above, _⟩ | ⟨same, _⟩ := upper
  · exact above
  · exact absurd same other

/-- The two ends span the element, strictly where it has a neighbour. -/
theorem LowerEnd.lt_of_upperEnd {s : Set α} {x y z : α} (lower : LowerEnd key s x y)
    (upper : UpperEnd key s x z) (neighbour : ¬ (y = x ∧ z = x)) : key y < key z := by
  by_cases lone : y = x
  · subst lone
    exact upper.lt_of_ne fun same => neighbour ⟨rfl, same⟩
  · have below := lower.lt_of_ne lone
    by_cases last : z = x
    · rwa [last]
    · exact below.trans (upper.lt_of_ne last)

/-! ## The ends are unique -/

section Unique

variable {s : Set α} (distinct : Set.InjOn key s) {x y z : α}
include distinct

theorem LowerEnd.unique (left : LowerEnd key s x y) (right : LowerEnd key s x z) : y = z := by
  obtain ⟨memberY, belowY, nearestY⟩ | ⟨rfl, lowest⟩ := left
  · obtain ⟨memberZ, belowZ, nearestZ⟩ | ⟨rfl, lowest⟩ := right
    · exact distinct memberY memberZ
        (le_antisymm (nearestZ y memberY belowY) (nearestY z memberZ belowZ))
    · exact absurd belowY (lowest y memberY).not_gt
  · obtain ⟨memberZ, belowZ, _⟩ | ⟨rfl, _⟩ := right
    · exact absurd belowZ (lowest z memberZ).not_gt
    · rfl

theorem UpperEnd.unique (left : UpperEnd key s x y) (right : UpperEnd key s x z) : y = z := by
  obtain ⟨memberY, aboveY, nearestY⟩ | ⟨rfl, highest⟩ := left
  · obtain ⟨memberZ, aboveZ, nearestZ⟩ | ⟨rfl, highest⟩ := right
    · exact distinct memberY memberZ
        (le_antisymm (nearestY z memberZ aboveZ) (nearestZ y memberY aboveY))
    · exact absurd aboveY (highest y memberY).not_gt
  · obtain ⟨memberZ, aboveZ, _⟩ | ⟨rfl, _⟩ := right
    · exact absurd aboveZ (highest z memberZ).not_gt
    · rfl

end Unique

/-! ## Sorting -/

section Sorting

variable (key) in
/-- The stable sort by a key. -/
def sortBy (l : List α) : List α := l.insertionSort fun a b => key a ≤ key b

theorem perm_sortBy (l : List α) : (sortBy key l).Perm l := List.perm_insertionSort _ l

theorem pairwise_sortBy (l : List α) : (sortBy key l).Pairwise fun a b => key a ≤ key b := by
  have total : Std.Total fun a b : α => key a ≤ key b := ⟨fun a b => le_total (key a) (key b)⟩
  have trans : IsTrans α fun a b => key a ≤ key b := ⟨fun _ _ _ => le_trans⟩
  exact List.pairwise_insertionSort _ l

/-- Sorting ranks a list whose keys are distinct. -/
theorem ranked_sortBy (distinct : l.Pairwise fun a b => key a ≠ key b) :
    Ranked key (sortBy key l) := by
  have apart : (sortBy key l).Pairwise fun a b => key a ≠ key b :=
    ((perm_sortBy l).pairwise_iff fun ne => Ne.symm ne).mpr distinct
  exact (pairwise_sortBy l).imp₂ (fun _ _ le ne => lt_of_le_of_ne le ne) apart

theorem Ranked.eq_of_perm {l' : List α} (left : Ranked key l) (right : Ranked key l')
    (perm : l.Perm l') : l = l' :=
  List.Perm.eq_of_pairwise (fun _ _ _ _ below above => absurd above below.asymm) left right perm

/-- A sorted list that is not ranked has two neighbours of one key. -/
theorem exists_tie (sorted : l.Pairwise fun x y => key x ≤ key y) (notRanked : ¬ Ranked key l) :
    ∃ before x y after, l = before ++ x :: y :: after ∧ key x = key y := by
  induction l with
  | nil => exact absurd List.Pairwise.nil notRanked
  | cons a tail inductionHypothesis =>
    obtain ⟨below, sortedTail⟩ := List.pairwise_cons.mp sorted
    by_cases ranked : Ranked key tail
    · cases tail with
      | nil => exact absurd (List.pairwise_singleton _ a) notRanked
      | cons b rest =>
        refine ⟨[], a, b, rest, rfl, ?_⟩
        by_contra differ
        have first : key a < key b := lt_of_le_of_ne (below b List.mem_cons_self) differ
        refine notRanked (List.pairwise_cons.mpr ⟨?_, ranked⟩)
        intro c member
        obtain rfl | later := List.mem_cons.mp member
        · exact first
        · exact first.trans (List.rel_of_pairwise_cons ranked later)
    · obtain ⟨before, x, y, after, rfl, tie⟩ := inductionHypothesis sortedTail ranked
      exact ⟨a :: before, x, y, after, rfl, tie⟩

/-- Two elements of one key keep their order in the sort. -/
theorem pair_sublist_sortBy {a b : α} (tie : key a = key b) (pair : [a, b].Sublist l) :
    [a, b].Sublist (sortBy key l) := by
  have total : Std.Total fun a b : α => key a ≤ key b := ⟨fun a b => le_total (key a) (key b)⟩
  have trans : IsTrans α fun a b => key a ≤ key b := ⟨fun _ _ _ => le_trans⟩
  exact List.pair_sublist_insertionSort tie.le pair

/-- A sorted list whose keys are distinct past its head has one other sorted order at most, with
    the first two exchanged. -/
theorem eq_or_swap_of_perm {l' : List α} (sorted : l.Pairwise fun x y => key x ≤ key y)
    (sorted' : l'.Pairwise fun x y => key x ≤ key y) (perm : l'.Perm l)
    (apart : Ranked key l.tail) :
    l' = l ∨ ∃ a b rest, l = a :: b :: rest ∧ l' = b :: a :: rest := by
  cases l with
  | nil => exact Or.inl perm.eq_nil
  | cons a tail =>
    obtain ⟨before, after, rfl⟩ := List.append_of_mem (perm.mem_iff.mpr List.mem_cons_self)
    have rest : (before ++ after).Perm tail :=
      (List.perm_cons a).mp (List.perm_middle.symm.trans perm)
    have sortedRest : (before ++ after).Pairwise fun x y => key x ≤ key y :=
      sorted'.sublist ((List.sublist_cons_self a after).append_left before)
    have distinct : (before ++ after).Pairwise fun x y => key x ≠ key y :=
      (rest.pairwise_iff fun ne => Ne.symm ne).mpr (apart.imp fun less => less.ne)
    have rankedRest : Ranked key (before ++ after) :=
      sortedRest.imp₂ (fun _ _ le ne => lt_of_le_of_ne le ne) distinct
    have same : before ++ after = tail := rankedRest.eq_of_perm apart rest
    subst same
    -- what stands before the head ties with it, and no two of the others tie
    have level (x : α) (member : x ∈ before) : key x = key a := by
      have inTail : x ∈ before ++ after := List.mem_append_left _ member
      exact le_antisymm ((List.pairwise_append.mp sorted').2.2 x member a List.mem_cons_self)
        (List.rel_of_pairwise_cons sorted inTail)
    rcases before with _ | ⟨b, _ | ⟨c, more⟩⟩
    · exact Or.inl rfl
    · exact Or.inr ⟨a, b, after, rfl, rfl⟩
    · have tie := (level b (by simp)).trans (level c (by simp)).symm
      have less : key b < key c := List.rel_of_pairwise_cons apart (by simp)
      exact absurd tie less.ne

end Sorting

end KalshiMm.Lib
