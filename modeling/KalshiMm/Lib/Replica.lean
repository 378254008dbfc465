import Mathlib.Data.List.Basic
import Mathlib.Tactic.Common

/-!
# Replicas fed by a queue of messages

A replica folds the messages of a queue into its copy of a source's state.  The source appends a
message for each change it makes, so that folding the whole queue brings an up-to-date copy to the
source's state.  A message that resets makes the copy it is folded into irrelevant: once one is
waiting in the queue, any copy at all ends up in the source's state.

`Follows` is the invariant of such a replica, with a rule for each thing that can happen to it: a
change at the source, the receipt of a message, a new copy.  `Trails` says how far a copy lags: it is
the source as it was before the changes that the queue still holds.
-/

namespace KalshiMm.Lib

variable {σ μ : Type*} (apply : σ → μ → σ)

/-- The copy after all messages of the queue. -/
def replay (copy : σ) (queue : List μ) : σ := queue.foldl apply copy

@[simp] theorem replay_nil (copy : σ) : replay apply copy [] = copy := rfl

@[simp] theorem replay_cons (copy : σ) (m : μ) (queue : List μ) :
    replay apply copy (m :: queue) = replay apply (apply copy m) queue := rfl

theorem replay_append (copy : σ) (first second : List μ) :
    replay apply copy (first ++ second) = replay apply (replay apply copy first) second :=
  List.foldl_append

theorem replay_concat (copy : σ) (queue : List μ) (m : μ) :
    replay apply copy (queue ++ [m]) = apply (replay apply copy queue) m :=
  replay_append apply copy queue [m]

/-- The message leaves nothing of the copy it is folded into. -/
def Resets (m : μ) : Prop := ∀ copy other, apply copy m = apply other m

/-- From every reset in the queue on, its messages lead to the source's state. -/
def Refreshes (source : σ) (queue : List μ) : Prop :=
  ∀ before m after, queue = before ++ m :: after → Resets apply m →
    ∀ copy, replay apply copy (m :: after) = source

namespace Refreshes

variable {apply} {source : σ} {queue : List μ} {m : μ}

theorem nil (source : σ) : Refreshes apply source [] := by
  intro before m after split
  exact absurd split.symm (List.append_ne_nil_of_right_ne_nil _ (List.cons_ne_nil m after))

/-- The source goes on to `apply source m` and sends `m`. -/
theorem concat (refreshes : Refreshes apply source queue) :
    Refreshes apply (apply source m) (queue ++ [m]) := by
  intro before reset after split resets copy
  obtain rfl | ⟨later, last, rfl⟩ := List.eq_nil_or_concat after
  · -- the message just sent is itself the reset
    obtain ⟨_, same⟩ := List.append_inj' split rfl
    cases same
    exact resets copy source
  · rw [List.concat_eq_append, ← List.cons_append, ← List.append_assoc] at split
    obtain ⟨earlier, same⟩ := List.append_inj' split rfl
    cases same
    rw [List.concat_eq_append, ← List.cons_append, replay_concat,
      refreshes before reset later earlier resets copy]

theorem tail (refreshes : Refreshes apply source (m :: queue)) : Refreshes apply source queue :=
  fun before reset after split resets =>
    refreshes (m :: before) reset after (congrArg (m :: ·) split) resets

/-- With a reset in the queue, every copy is brought to the source's state. -/
theorem replay (refreshes : Refreshes apply source queue) (reset : ∃ m ∈ queue, Resets apply m)
    (copy : σ) : Lib.replay apply copy queue = source := by
  obtain ⟨m, member, resets⟩ := reset
  obtain ⟨before, after, split⟩ := List.append_of_mem member
  rw [split, replay_append]
  exact refreshes before m after split resets _

end Refreshes

/-- The replica's invariant: the resets in the queue lead to the source's state, and so does the
    whole queue from the copy, if that is current. -/
structure Follows (source copy : σ) (queue : List μ) (current : Prop) : Prop where
  refreshes : Refreshes apply source queue
  leads : current → replay apply copy queue = source

namespace Follows

variable {apply} {source copy : σ} {queue : List μ} {m : μ} {current : Prop}

/-- The source sends each change it makes. -/
theorem send (follows : Follows apply source copy queue current) :
    Follows apply (apply source m) copy (queue ++ [m]) current where
  refreshes := follows.refreshes.concat
  leads isCurrent := by rw [replay_concat, follows.leads isCurrent]

/-- The source sends the whole of its state: whatever copy there is, and whatever is queued, it leads
    to that. -/
theorem restart (whole : ∀ copy, apply copy m = source) (copy : σ) (queue : List μ) :
    Follows apply source copy (queue ++ [m]) True where
  refreshes := by
    intro before reset after split _ other
    obtain rfl | ⟨later, last, rfl⟩ := List.eq_nil_or_concat after
    · obtain ⟨_, same⟩ := List.append_inj' split rfl
      cases same
      exact whole other
    · rw [List.concat_eq_append, ← List.cons_append, ← List.append_assoc] at split
      obtain ⟨_, same⟩ := List.append_inj' split rfl
      cases same
      rw [List.concat_eq_append, ← List.cons_append, replay_concat, whole]
  leads _ := by rw [replay_concat, whole]

/-- A copy that folds in the next message stays current, and becomes so with a reset. -/
theorem receive (follows : Follows apply source copy (m :: queue) current) :
    Follows apply source (apply copy m) queue (current ∨ Resets apply m) where
  refreshes := follows.refreshes.tail
  leads
    | Or.inl isCurrent => follows.leads isCurrent
    | Or.inr resets => follows.refreshes [] m queue rfl resets copy

/-- Without a current copy, messages can be dropped. -/
theorem drop (follows : Follows apply source copy (m :: queue) current) :
    Follows apply source copy queue False :=
  ⟨follows.refreshes.tail, False.elim⟩

/-- A new copy is current behind a reset, or where it is the source's state and nothing waits. -/
theorem renew (follows : Follows apply source copy queue current) {copy' : σ}
    (fits : (∃ m ∈ queue, Resets apply m) ∨ copy' = source ∧ queue = []) :
    Follows apply source copy' queue True where
  refreshes := follows.refreshes
  leads _ := by
    rcases fits with reset | ⟨rfl, rfl⟩
    · exact follows.refreshes.replay reset copy'
    · rfl

theorem weaken (follows : Follows apply source copy queue current) {less : Prop}
    (less_current : less → current) : Follows apply source copy queue less :=
  ⟨follows.refreshes, fun isLess => follows.leads (less_current isLess)⟩

/-- Once the queue is drained, a current copy is the source's state. -/
theorem drained (follows : Follows apply source copy [] current) (isCurrent : current) :
    copy = source := follows.leads isCurrent

end Follows

/-! ## Lag -/

/-- Behind the last mark in the queue, the copy passes through the source's states, which are listed
    latest first. -/
def Trails (marks : μ → Prop) (past : List σ) (copy : σ) (queue : List μ) : Prop :=
  ∀ before after, queue = before ++ after → (∀ m ∈ after, ¬ marks m) →
    past[after.length]? = some (replay apply copy before)

namespace Trails

variable {apply} {marks : μ → Prop} {source copy : σ} {past : List σ} {queue : List μ} {m : μ}

/-- The source sends the change that it makes. -/
theorem send (trails : Trails apply marks past copy queue) (leads : replay apply copy queue = source) :
    Trails apply marks (apply source m :: past) copy (queue ++ [m]) := by
  intro before after split unmarked
  obtain rfl | ⟨later, last, rfl⟩ := List.eq_nil_or_concat after
  · rw [List.append_nil] at split
    rw [← split, replay_concat, leads]
    rfl
  · rw [List.concat_eq_append, ← List.append_assoc] at split
    obtain ⟨earlier, -⟩ := List.append_inj' split rfl
    rw [List.length_concat, List.getElem?_cons_succ]
    refine trails before later earlier fun m member => unmarked m ?_
    rw [List.concat_eq_append]
    exact List.mem_append_left _ member

theorem receive (trails : Trails apply marks past copy (m :: queue)) :
    Trails apply marks past (apply copy m) queue :=
  fun before after split unmarked =>
    trails (m :: before) after (congrArg (m :: ·) split) unmarked

/-- A mark is sent that leads to the source's state: the states before it do not matter. -/
theorem restart (marked : marks m) (leads : replay apply copy (queue ++ [m]) = source) :
    Trails apply marks [source] copy (queue ++ [m]) := by
  intro before after split unmarked
  obtain rfl | ⟨later, last, rfl⟩ := List.eq_nil_or_concat after
  · rw [List.append_nil] at split
    rw [← split, leads]
    rfl
  · rw [List.concat_eq_append, ← List.append_assoc] at split
    obtain ⟨-, same⟩ := List.append_inj' split rfl
    cases same
    exact absurd marked (unmarked m (by rw [List.concat_eq_append]; exact List.mem_concat_self))

/-- With no mark in the queue, the copy is as many changes behind as there are messages in it. -/
theorem current (trails : Trails apply marks past copy queue) (unmarked : ∀ m ∈ queue, ¬ marks m) :
    past[queue.length]? = some copy := trails [] queue rfl unmarked

end Trails

end KalshiMm.Lib
