import Mathlib.Data.List.Basic
import Mathlib.Tactic.Common

/-!
# Bounded channels

A first-in-first-out channel of bounded capacity with two kinds of senders.  One waits for room, with
its value parked and a place reserved for it; the other drops its value when there is no place left.

`pending` is what has been sent and not received.  Each operation has a rule for what it does to the
part of it that a predicate picks out; the values that `trySend` puts in front of a parked one are
why a rule speaks of a part.
-/

namespace KalshiMm.Lib

structure Channel (α : Type*) (capacity : ℕ) where
  queue : List α := []
  parked : Option α := none
  bounded : queue.length ≤ capacity := by simp

namespace Channel

variable {α : Type*} {capacity : ℕ}

/-- What is sent and not received, in the order in which it will be. -/
def pending (ch : Channel α capacity) : List α := ch.queue ++ ch.parked.toList

/-- A value goes to the end of a queue that has room for it. -/
def put (ch : Channel α capacity) (a : α) (room : ch.queue.length < capacity) :
    Channel α capacity :=
  { ch with
    queue := ch.queue ++ [a]
    bounded := by rw [List.length_append]; exact room }

/-- Send, and wait for room if there is none.  A sender that waits sends nothing else. -/
def send (ch : Channel α capacity) (a : α) : Channel α capacity :=
  if ch.parked.isSome then ch
  else if room : ch.queue.length < capacity then ch.put a room
  else { ch with parked := some a }

/-- The waiting sender gets its place. -/
def resume (ch : Channel α capacity) : Channel α capacity :=
  match ch.parked with
  | none => ch
  | some a =>
    if room : ch.queue.length < capacity then { ch.put a room with parked := none } else ch

/-- Is there a place that no sender waits for? -/
def Room (ch : Channel α capacity) : Prop := ch.queue.length + ch.parked.toList.length < capacity

instance (ch : Channel α capacity) : Decidable ch.Room := inferInstanceAs (Decidable (_ < _))

/-- Send, and drop the value if there is no room. -/
def trySend (ch : Channel α capacity) (a : α) : Channel α capacity :=
  if room : ch.Room then ch.put a (Nat.lt_of_le_of_lt (Nat.le_add_right _ _) room) else ch

/-- Receive what was sent first. -/
def receive (ch : Channel α capacity) : Option (α × Channel α capacity) :=
  match waiting : ch.queue with
  | [] => none
  | a :: rest => some (a, { ch with
      queue := rest
      bounded := by
        have bounded := ch.bounded
        rw [waiting, List.length_cons] at bounded
        omega })

/-! ## What is pending -/

section Pending

variable {ch : Channel α capacity} {a : α}

theorem queue_of_receive {rest : Channel α capacity} (received : ch.receive = some (a, rest)) :
    ch.queue = a :: rest.queue ∧ rest.parked = ch.parked := by
  unfold receive at received
  split at received
  · cases received
  next waiting =>
    cases received
    exact ⟨waiting, rfl⟩

theorem pending_receive {rest : Channel α capacity} (received : ch.receive = some (a, rest)) :
    ch.pending = a :: rest.pending := by
  obtain ⟨queue, parked⟩ := queue_of_receive received
  rw [pending, pending, queue, parked, List.cons_append]

theorem pending_send (free : ch.parked = none) (a : α) :
    (ch.send a).pending = ch.pending ++ [a] := by
  unfold send
  rw [if_neg (by simp [free])]
  split_ifs
  · simp [pending, put, free]
  · simp [pending, free]

@[simp] theorem pending_resume (ch : Channel α capacity) : ch.resume.pending = ch.pending := by
  unfold resume
  split
  · rfl
  next parked =>
    split_ifs
    · simp [pending, put, parked]
    · rfl

theorem pending_trySend_of_room (room : ch.Room) (a : α) :
    (ch.trySend a).pending = ch.queue ++ a :: ch.parked.toList := by
  rw [trySend, dif_pos room]
  simp [pending, put]

theorem trySend_of_full (full : ¬ ch.Room) (a : α) : ch.trySend a = ch := dif_neg full

theorem mem_pending_trySend {b : α} (member : b ∈ (ch.trySend a).pending) :
    b = a ∨ b ∈ ch.pending := by
  by_cases room : ch.Room
  · rw [pending_trySend_of_room room, List.mem_append, List.mem_cons] at member
    rw [pending, List.mem_append]
    tauto
  · exact Or.inr (trySend_of_full room a ▸ member)

/-- What a predicate picks out of the pending values does not see a value it does not pick. -/
theorem filterMap_pending_trySend {β : Type*} {pick : α → Option β} (unpicked : pick a = none)
    (ch : Channel α capacity) :
    (ch.trySend a).pending.filterMap pick = ch.pending.filterMap pick := by
  by_cases room : ch.Room
  · rw [pending_trySend_of_room room, pending, List.filterMap_append, List.filterMap_append,
      List.filterMap_cons_none unpicked]
  · rw [trySend_of_full room]

/-- If nothing of the part is parked, a value of the part is its last. -/
theorem filterMap_pending_trySend_of_room {β : Type*} {pick : α → Option β}
    (unparked : ∀ b ∈ ch.parked, pick b = none) (room : ch.Room) (a : α) :
    (ch.trySend a).pending.filterMap pick = ch.pending.filterMap pick ++ (pick a).toList := by
  have nothing : ch.parked.toList.filterMap pick = [] :=
    List.filterMap_eq_nil_iff.mpr fun b member => unparked b (Option.mem_toList.mp member)
  rw [pending_trySend_of_room room, pending, List.filterMap_append, List.filterMap_append, nothing,
    List.append_nil, ← List.singleton_append, List.filterMap_append, nothing, List.append_nil]
  cases picked : pick a <;> simp [picked]

end Pending

/-- The waiting sender keeps what it waits with until it is resumed. -/
@[simp] theorem parked_trySend (ch : Channel α capacity) (a : α) :
    (ch.trySend a).parked = ch.parked := by
  unfold trySend
  split_ifs <;> rfl

theorem parked_send {ch : Channel α capacity} {a b : α} (waits : b ∈ (ch.send a).parked) :
    b = a ∨ b ∈ ch.parked := by
  unfold send at waits
  split_ifs at waits
  · exact Or.inr waits
  · exact Or.inr waits
  · exact Or.inl (Option.mem_some.mp waits).symm

theorem parked_resume {ch : Channel α capacity} {b : α} (waits : b ∈ ch.resume.parked) :
    b ∈ ch.parked := by
  unfold resume at waits
  split at waits
  · exact waits
  · split_ifs at waits
    · cases waits
    · exact waits

end Channel

end KalshiMm.Lib
