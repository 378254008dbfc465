import Mathlib.Algebra.BigOperators.Group.Multiset.Basic
import Mathlib.Algebra.Order.BigOperators.Group.Finset
import Mathlib.Algebra.Order.BigOperators.Group.Multiset
import Mathlib.Algebra.Order.Ring.Nat
import Mathlib.Data.Finmap

/-!
# Finite maps with totals

`Dict κ β` is Mathlib's `Finmap` at a constant family: the unordered key-value store behind a
hash map.  Added here are what an account over such a store needs: `sumOf`, the total of a
quantity over all entries, with its behaviour under insertion and erasure, and the two bulk
operations `mapValues` and `retain`.  `Stores` is the map that keeps the positive ones of a family
of totals, and `bump` moves one of them.
-/

namespace KalshiMm.Lib

/-- An unordered finite map from `κ` to `β`. -/
abbrev Dict (κ β : Type*) := Finmap fun _ : κ => β

namespace Dict

variable {κ β γ M : Type*} [DecidableEq κ]

/-! ## Totals -/

/-- The total of `f` over the entries of `m`. -/
def sumOf [AddCommMonoid M] (f : κ → β → M) (m : Dict κ β) : M :=
  (m.entries.map fun entry => f entry.1 entry.2).sum

section Totals

variable [AddCommMonoid M] (f : κ → β → M)

omit [DecidableEq κ] in
@[simp] theorem sumOf_empty : sumOf f (∅ : Dict κ β) = 0 := rfl

theorem sumOf_insert_of_notMem {m : Dict κ β} {k : κ} (b : β) (absent : k ∉ m) :
    sumOf f (m.insert k b) = f k b + sumOf f m := by
  rw [sumOf, sumOf, Finmap.entries_insert_of_notMem absent, Multiset.map_cons, Multiset.sum_cons]

theorem insert_erase (m : Dict κ β) (k : κ) (b : β) :
    Finmap.insert k b (m.erase k) = Finmap.insert k b m := by
  apply Finmap.ext_lookup
  intro j
  by_cases same : j = k
  · subst same; rw [Finmap.lookup_insert, Finmap.lookup_insert]
  · rw [Finmap.lookup_insert_of_ne _ same, Finmap.lookup_insert_of_ne _ same,
      Finmap.lookup_erase_ne same]

theorem insert_of_lookup {m : Dict κ β} {k : κ} {b : β} (found : m.lookup k = some b) :
    m.insert k b = m := by
  apply Finmap.ext_lookup
  intro j
  by_cases same : j = k
  · subst same; rw [Finmap.lookup_insert, found]
  · rw [Finmap.lookup_insert_of_ne _ same]

theorem sumOf_insert (m : Dict κ β) (k : κ) (b : β) :
    sumOf f (m.insert k b) = f k b + sumOf f (m.erase k) := by
  rw [← insert_erase, sumOf_insert_of_notMem f b Finmap.notMem_erase_self]

theorem sumOf_of_lookup {m : Dict κ β} {k : κ} {b : β} (found : m.lookup k = some b) :
    sumOf f m = f k b + sumOf f (m.erase k) := by
  rw [← sumOf_insert, insert_of_lookup found]

/-- Rewriting a key that counts for as much as before leaves the total. -/
theorem sumOf_insert_of_share {m : Dict κ β} {k : κ} {b : β}
    (same : f k b = (m.lookup k).elim 0 (f k)) : sumOf f (m.insert k b) = sumOf f m := by
  cases found : m.lookup k with
  | none =>
    rw [found, Option.elim_none] at same
    rw [sumOf_insert_of_notMem f b (Finmap.lookup_eq_none.mp found), same, zero_add]
  | some b' =>
    rw [found, Option.elim_some] at same
    rw [sumOf_insert, sumOf_of_lookup f found, same]

end Totals

theorem entries_insert (m : Dict κ β) (k : κ) (b : β) :
    (m.insert k b).entries = ⟨k, b⟩ ::ₘ (m.erase k).entries := by
  rw [← insert_erase, Finmap.entries_insert_of_notMem Finmap.notMem_erase_self]

theorem entries_of_lookup {m : Dict κ β} {k : κ} {b : β} (found : m.lookup k = some b) :
    m.entries = ⟨k, b⟩ ::ₘ (m.erase k).entries := by
  rw [← entries_insert, insert_of_lookup found]

omit [DecidableEq κ] in
/-- A total over selected entries is one over all entries, where those left out count for nothing. -/
theorem sum_filterMap [AddCommMonoid M] {δ : Type*} (m : Dict κ β)
    (select : (Sigma fun _ : κ => β) → Option δ) (f : δ → M) :
    ((m.entries.filterMap select).map f).sum =
      sumOf (fun k b => (select ⟨k, b⟩).elim 0 f) m := by
  unfold sumOf
  induction m.entries using Multiset.induction with
  | empty => rfl
  | cons entry entries inductionHypothesis =>
    rw [Multiset.map_cons, Multiset.sum_cons, ← inductionHypothesis]
    change _ = (select entry).elim 0 f + _
    cases selected : select entry with
    | none => rw [Multiset.filterMap_cons_none _ _ selected, Option.elim_none, zero_add]
    | some d =>
      rw [Multiset.filterMap_cons_some _ _ _ selected, Multiset.map_cons, Multiset.sum_cons,
        Option.elim_some]

theorem mem_entries {m : Dict κ β} {entry : Sigma fun _ : κ => β} :
    entry ∈ m.entries ↔ m.lookup entry.1 = some entry.2 := by
  rw [Finmap.lookup_eq_some_iff]

theorem sumOf_congr [AddCommMonoid M] {f g : κ → β → M} {m : Dict κ β}
    (equal : ∀ k b, m.lookup k = some b → f k b = g k b) : sumOf f m = sumOf g m := by
  unfold sumOf
  congr 1
  apply Multiset.map_congr rfl
  intro entry member
  exact equal entry.1 entry.2 (mem_entries.mp member)

theorem sumOf_le_sumOf [AddCommMonoid M] [PartialOrder M] [IsOrderedAddMonoid M]
    {f g : κ → β → M} {m : Dict κ β}
    (below : ∀ k b, m.lookup k = some b → f k b ≤ g k b) : sumOf f m ≤ sumOf g m := by
  unfold sumOf
  apply Multiset.sum_map_le_sum_map
  intro entry member
  exact below entry.1 entry.2 (mem_entries.mp member)

/-- The total as a sum over any finite set that covers the keys. -/
theorem sumOf_eq_sum [AddCommMonoid M] (f : κ → β → M) {m : Dict κ β} {keys : Finset κ}
    (covered : m.keys ⊆ keys) : sumOf f m = ∑ k ∈ keys, (m.lookup k).elim 0 (f k) := by
  have outside (k : κ) (_ : k ∈ keys) (absent : k ∉ m.keys) : (m.lookup k).elim 0 (f k) = 0 := by
    rw [Finmap.mem_keys] at absent
    rw [Finmap.lookup_eq_none.mpr absent, Option.elim_none]
  rw [← Finset.sum_subset covered outside]
  unfold sumOf Finset.sum Finmap.keys Multiset.keys
  rw [Multiset.map_map]
  congr 1
  apply Multiset.map_congr rfl
  intro entry member
  rw [Function.comp_apply, mem_entries.mp member, Option.elim_some]

/-- Totals of two maps are ordered where the shares of every key are. -/
theorem sumOf_le_of_share [AddCommMonoid M] [PartialOrder M] [IsOrderedAddMonoid M]
    {f : κ → β → M} {g : κ → γ → M} {m : Dict κ β} {m' : Dict κ γ}
    (below : ∀ k, (m.lookup k).elim 0 (f k) ≤ (m'.lookup k).elim 0 (g k)) :
    sumOf f m ≤ sumOf g m' := by
  have left : m.keys ⊆ m.keys ∪ m'.keys := Finset.subset_union_left
  have right : m'.keys ⊆ m.keys ∪ m'.keys := Finset.subset_union_right
  rw [sumOf_eq_sum f left, sumOf_eq_sum g right]
  exact Finset.sum_le_sum fun k _ => below k

theorem lookup_of_lookup_erase {m : Dict κ β} {j k : κ} {b : β}
    (found : (m.erase k).lookup j = some b) : m.lookup j = some b := by
  by_cases same : j = k
  · rw [same, Finmap.lookup_erase] at found
    cases found
  · rwa [Finmap.lookup_erase_ne same] at found

/-- Where one quantity is below another and their totals agree, they agree on every entry. -/
theorem eq_of_sumOf_eq {f g : κ → β → ℕ} {m : Dict κ β}
    (below : ∀ k b, m.lookup k = some b → f k b ≤ g k b) (equal : sumOf f m = sumOf g m)
    {k : κ} {b : β} (found : m.lookup k = some b) : f k b = g k b := by
  have rest : sumOf f (m.erase k) ≤ sumOf g (m.erase k) :=
    sumOf_le_sumOf fun j c found' => below j c (lookup_of_lookup_erase found')
  have entry := below k b found
  rw [sumOf_of_lookup f found, sumOf_of_lookup g found] at equal
  omega

/-! ## Bulk operations -/

def mapValues (f : κ → β → γ) (m : Dict κ β) : Dict κ γ where
  entries := m.entries.map fun entry => ⟨entry.1, f entry.1 entry.2⟩
  nodupKeys := by
    rw [← Multiset.nodup_keys, Multiset.keys, Multiset.map_map]
    exact Multiset.nodup_keys.mpr m.nodupKeys

@[simp] theorem lookup_mapValues (f : κ → β → γ) (m : Dict κ β) (k : κ) :
    (mapValues f m).lookup k = (m.lookup k).map (f k) := by
  cases found : m.lookup k with
  | some b =>
    rw [Option.map_some, Finmap.lookup_eq_some_iff]
    exact Multiset.mem_map.mpr ⟨⟨k, b⟩, mem_entries.mpr found, rfl⟩
  | none =>
    rw [Option.map_none, Option.eq_none_iff_forall_ne_some]
    intro c image
    obtain ⟨⟨j, b⟩, member, equal⟩ := Multiset.mem_map.mp (Finmap.lookup_eq_some_iff.mp image)
    obtain ⟨rfl, _⟩ := Sigma.mk.inj equal
    rw [mem_entries.mp member] at found
    cases found

omit [DecidableEq κ] in
def retain (p : κ → Bool) (m : Dict κ β) : Dict κ β where
  entries := m.entries.filter fun entry => p entry.1
  nodupKeys := by
    rw [← Multiset.nodup_keys]
    exact Multiset.nodup_of_le (Multiset.map_le_map (Multiset.filter_le _ _))
      (Multiset.nodup_keys.mpr m.nodupKeys)

theorem lookup_retain (p : κ → Bool) (m : Dict κ β) (k : κ) :
    (retain p m).lookup k = if p k then m.lookup k else none := by
  apply Option.ext
  intro b
  have filtered : (retain p m).lookup k = some b ↔ (⟨k, b⟩ : Sigma fun _ : κ => β) ∈
      m.entries.filter fun entry => p entry.1 := Finmap.lookup_eq_some_iff
  rw [filtered, Multiset.mem_filter, mem_entries]
  by_cases kept : p k = true
  · simp [kept]
  · simp [kept]

/-! ## Insertion seen from any key -/

theorem lookup_insert_eq_ite (m : Dict κ β) (j k : κ) (b : β) :
    (m.insert k b).lookup j = if j = k then some b else m.lookup j := by
  split_ifs with same
  · subst same; exact Finmap.lookup_insert m
  · exact Finmap.lookup_insert_of_ne m same

/-- How a part of the entries reads after an insertion, with a default where there is no entry. -/
theorem getD_map_insert {γ : Type*} (f : β → γ) (d : γ) (m : Dict κ β) (j k : κ) (b : β) :
    (((m.insert k b).lookup j).map f).getD d =
      if j = k then f b else ((m.lookup j).map f).getD d := by
  rw [lookup_insert_eq_ite]
  split_ifs <;> rfl

theorem lookup_erase_eq_ite (m : Dict κ β) (j k : κ) :
    (m.erase k).lookup j = if j = k then none else m.lookup j := by
  split_ifs with same
  · subst same; exact Finmap.lookup_erase j m
  · exact Finmap.lookup_erase_ne same

/-! ## Maps of positive totals -/

section Positive

variable {α : Type*} [AddCommGroup α] [LinearOrder α]

/-- Adds to the value of a key, which is dropped unless it is positive then. -/
def bump (m : Dict κ α) (k : κ) (a : α) : Dict κ α :=
  if 0 < (m.lookup k).getD 0 + a then m.insert k ((m.lookup k).getD 0 + a) else m.erase k

def ifPositive (a : α) : Option α := if 0 < a then some a else none

/-- The positive totals are stored, and nothing else. -/
def Stores (m : Dict κ α) (total : κ → α) : Prop := ∀ k, m.lookup k = ifPositive (total k)

variable {m m' : Dict κ α} {total : κ → α}

theorem Stores.unique (stores : Stores m total) (stores' : Stores m' total) : m = m' :=
  Finmap.ext_lookup fun k => (stores k).trans (stores' k).symm

theorem Stores.getD (stores : Stores m total) {k : κ} (nonneg : 0 ≤ total k) :
    (m.lookup k).getD 0 = total k := by
  rw [stores k, ifPositive]
  split_ifs with positive
  · rfl
  · exact nonneg.antisymm (not_lt.mp positive)

/-- A total that was not negative moves as it should. -/
theorem Stores.bump (stores : Stores m total) {k : κ} (nonneg : 0 ≤ total k) (a : α) :
    Stores (m.bump k a) fun j => total j + if j = k then a else 0 := by
  intro j
  unfold Dict.bump
  rw [stores.getD nonneg]
  beta_reduce
  by_cases same : j = k
  · subst same
    rw [if_pos rfl, ifPositive]
    split_ifs with positive
    · exact Finmap.lookup_insert m
    · exact Finmap.lookup_erase j m
  · rw [if_neg same, add_zero, ← stores j]
    split_ifs
    · exact Finmap.lookup_insert_of_ne m same
    · exact Finmap.lookup_erase_ne same

theorem Stores.insert (stores : Stores m total) {k : κ} (fresh : total k = 0) {a : α}
    (positive : 0 < a) : Stores (m.insert k a) fun j => total j + if j = k then a else 0 := by
  have bumped := stores.bump fresh.ge a
  rwa [Dict.bump, stores.getD fresh.ge, fresh, zero_add, if_pos positive] at bumped

end Positive

end Dict

end KalshiMm.Lib
