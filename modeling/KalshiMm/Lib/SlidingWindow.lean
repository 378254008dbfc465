import Mathlib.Order.Lattice
import Mathlib.Data.List.Induction

/-!
# A sliding window over a log

Entries are stamped and arrive in the order of their stamps.  `expire` drops the stale ones from the
front, `since` selects the others wherever they stand.  A list that `Retains` a log has lost nothing
that a later window could show, so that expiring it shows what the whole log would.
-/

namespace KalshiMm.Lib

variable {α τ : Type*} [LinearOrder τ] (stamp : α → τ)

def expire (cut : τ) (log : List α) : List α := log.dropWhile fun x => decide (stamp x < cut)

def since (cut : τ) (log : List α) : List α := log.filter fun x => decide (cut ≤ stamp x)

variable {stamp}

theorem expire_eq_since {log : List α} (ordered : log.Pairwise fun x y => stamp x ≤ stamp y)
    (cut : τ) : expire stamp cut log = since stamp cut log := by
  induction log with
  | nil => rfl
  | cons x log inductionHypothesis =>
    obtain ⟨first, rest⟩ := List.pairwise_cons.mp ordered
    by_cases stale : stamp x < cut
    · rw [expire, List.dropWhile_cons_of_pos (by simp [stale]), since,
        List.filter_cons_of_neg (by simp [stale])]
      exact inductionHypothesis rest
    · -- nothing behind an entry that stays is older
      have fresh : ∀ y ∈ x :: log, decide (cut ≤ stamp y) = true := by
        rw [List.forall_mem_cons]
        exact ⟨decide_eq_true (not_lt.mp stale),
          fun y member => decide_eq_true ((not_lt.mp stale).trans (first y member))⟩
      rw [expire, List.dropWhile_cons_of_neg (by simp [stale]), since, List.filter_eq_self.mpr fresh]

theorem since_since {cut cut' : τ} (le : cut ≤ cut') (log : List α) :
    since stamp cut' (since stamp cut log) = since stamp cut' log := by
  unfold since
  rw [List.filter_filter]
  refine List.filter_congr fun x _ => ?_
  by_cases fresh : cut' ≤ stamp x
  · simp [fresh, le.trans fresh]
  · simp [fresh]

theorem since_append (cut : τ) (first second : List α) :
    since stamp cut (first ++ second) = since stamp cut first ++ since stamp cut second :=
  List.filter_append ..

/-- The last entry that is stamped no later than this. -/
def lastUpTo (stamp : α → τ) (upTo : τ) (log : List α) : Option α :=
  log.reverse.find? fun x => decide (stamp x ≤ upTo)

theorem lastUpTo_concat (upTo : τ) (log : List α) (x : α) :
    lastUpTo stamp upTo (log ++ [x]) =
      if stamp x ≤ upTo then some x else lastUpTo stamp upTo log := by
  unfold lastUpTo
  rw [List.reverse_append, List.reverse_singleton, List.singleton_append, List.find?_cons]
  split_ifs with upToNow <;> simp [upToNow]

/-- The window shows the last entry up to a time if that is in the window, and nothing otherwise. -/
theorem lastUpTo_since {log : List α} (ordered : log.Pairwise fun x y => stamp x ≤ stamp y)
    (cut upTo : τ) : lastUpTo stamp upTo (since stamp cut log) =
      (lastUpTo stamp upTo log).filter fun x => decide (cut ≤ stamp x) := by
  induction log using List.reverseRecOn with
  | nil => rfl
  | append_singleton log x inductionHypothesis =>
    obtain ⟨earlier, _, before⟩ := List.pairwise_append.mp ordered
    have rest := inductionHypothesis earlier
    rw [since_append, lastUpTo_concat]
    by_cases fresh : cut ≤ stamp x
    · have shown : since stamp cut [x] = [x] := by simp [since, fresh]
      rw [shown, lastUpTo_concat]
      split_ifs
      · rw [Option.filter_some_pos (by simpa using fresh)]
      · exact rest
    · -- nothing before a stale entry is in the window
      have hidden : since stamp cut [x] = [] := by simp [since, fresh]
      have stale : since stamp cut log = [] := List.filter_eq_nil_iff.mpr fun y member within =>
        fresh ((of_decide_eq_true within).trans (before y member x (List.mem_singleton_self x)))
      rw [hidden, List.append_nil]
      split_ifs
      · rw [stale, Option.filter_some_neg (by simpa using fresh)]
        rfl
      · exact rest

/-- Nothing of the log since the cut is lost, and nothing is stamped later than now. -/
structure Retains (stamp : α → τ) (kept log : List α) (now cut : τ) : Prop where
  ordered : kept.Pairwise fun x y => stamp x ≤ stamp y
  past : ∀ x ∈ kept, stamp x ≤ now
  same : ∀ cut', cut ≤ cut' → since stamp cut' kept = since stamp cut' log

namespace Retains

variable {kept log : List α} {now cut : τ}

theorem nil (now cut : τ) : Retains stamp [] [] now cut :=
  ⟨List.Pairwise.nil, nofun, fun _ _ => rfl⟩

theorem later (retains : Retains stamp kept log now cut) {now' cut' : τ} (le : now ≤ now')
    (cutLe : cut ≤ cut') : Retains stamp kept log now' cut' :=
  ⟨retains.ordered, fun x member => (retains.past x member).trans le,
    fun cut'' after => retains.same cut'' (cutLe.trans after)⟩

/-- What expires is what the whole log would not show. -/
theorem expire_eq (retains : Retains stamp kept log now cut) :
    expire stamp cut kept = since stamp cut log :=
  (expire_eq_since retains.ordered cut).trans (retains.same cut le_rfl)

theorem expired (retains : Retains stamp kept log now cut) :
    Retains stamp (expire stamp cut kept) log now cut := by
  refine ⟨retains.ordered.sublist (List.dropWhile_sublist _), fun x member => ?_, fun cut' after => ?_⟩
  · exact retains.past x ((List.dropWhile_sublist _).mem member)
  · rw [retains.expire_eq, since_since after]

theorem concat (retains : Retains stamp kept log now cut) {x : α} (stamped : stamp x = now) :
    Retains stamp (kept ++ [x]) (log ++ [x]) now cut := by
  refine ⟨?_, ?_, fun cut' after => ?_⟩
  · refine List.pairwise_append.mpr ⟨retains.ordered, List.pairwise_singleton _ _, ?_⟩
    intro y member z last
    obtain rfl := List.mem_singleton.mp last
    exact stamped ▸ retains.past y member
  · intro y member
    obtain old | last := List.mem_append.mp member
    · exact retains.past y old
    · obtain rfl := List.mem_singleton.mp last
      exact stamped.le
  · rw [since_append, since_append, retains.same cut' after]

end Retains

end KalshiMm.Lib
