import Mathlib.Data.Finset.Card
import Mathlib.Data.List.DropRight
import KalshiMm.Lib.Run

/-!
# A bounded memory

A memory of capacity `cap` records what it does not hold and forgets its oldest entry when it
overflows.  It then holds the last `cap` entries of everything it ever recorded.  Among inputs
whose repetitions come before `cap` others have been recorded, it recognises every repetition.
-/

namespace KalshiMm.Lib

variable {α : Type*}

/-- The latest of the latest ones are the latest. -/
theorem rtake_rtake_of_le {m n : ℕ} (le : n ≤ m) (log : List α) :
    (log.rtake m).rtake n = log.rtake n := by
  unfold List.rtake
  rw [List.drop_drop, List.length_drop]
  congr 1
  omega

/-- Drop the oldest entry over the capacity. -/
def trim (cap : ℕ) (held : List α) : List α := if cap < held.length then held.tail else held

theorem trim_rtake_concat (cap : ℕ) (log : List α) (x : α) :
    trim cap (log.rtake cap ++ [x]) = (log ++ [x]).rtake cap := by
  have room : (log.rtake cap).length = min cap log.length := by
    rw [List.rtake, List.length_drop]
    omega
  have kept : log.rtake cap ++ [x] = (log ++ [x]).drop (log.length - cap) := by
    rw [List.drop_append_of_le_length (Nat.sub_le _ _)]
    rfl
  rw [trim, List.length_append, room, List.length_singleton, kept, List.rtake, List.length_append,
    List.length_singleton]
  split_ifs with full
  · rw [← List.drop_one, List.drop_drop, show log.length - cap + 1 = log.length + 1 - cap by omega]
  · rw [show log.length - cap = log.length + 1 - cap by omega]

/-- Of two memories, one may hold the latest part of what the other does; both drop entries. -/
theorem trim_suffix {cap : ℕ} {late early : List α} (suffix : late <:+ early) :
    trim cap late <:+ trim cap early := by
  have kept (held : List α) : trim cap held <:+ held := by
    unfold trim
    split_ifs
    · exact List.tail_suffix held
    · exact List.suffix_rfl
  have length (held : List α) : (trim cap held).length =
      if cap < held.length then held.length - 1 else held.length := by
    unfold trim
    split_ifs
    · exact List.length_tail
    · rfl
  refine List.suffix_of_suffix_length_le ((kept late).trans suffix) (kept early) ?_
  have shorter := suffix.length_le
  rw [length, length]
  split_ifs <;> omega

/-- What is among the last `cap` entries, by where it stands. -/
theorem mem_rtake {cap : ℕ} {log : List α} {x : α} :
    x ∈ log.rtake cap ↔ ∃ before after, log = before ++ x :: after ∧ after.length < cap := by
  constructor
  · intro member
    obtain ⟨before, after, split⟩ := List.append_of_mem member
    refine ⟨log.take (log.length - cap) ++ before, after, ?_, ?_⟩
    · rw [List.append_assoc, ← split]
      exact (List.take_append_drop _ _).symm
    · have length := congrArg List.length split
      rw [List.rtake, List.length_drop, List.length_append, List.length_cons] at length
      omega
  · rintro ⟨before, after, rfl, short⟩
    have within : (before ++ x :: after).length - cap ≤ before.length := by
      rw [List.length_append, List.length_cons]
      omega
    rw [List.rtake, List.drop_append_of_le_length within]
    exact List.mem_append_right _ List.mem_cons_self

variable [DecidableEq α] {cap : ℕ}

/-- What the memory holds after one more input. -/
def remember (cap : ℕ) (held : List α) (x : α) : List α :=
  if x ∈ held then held else trim cap (held ++ [x])

/-- A memory that began later holds the latest part of what an earlier one does. -/
theorem remember_suffix {late early : List α} (suffix : late <:+ early) {x : α} (fresh : x ∉ early) :
    remember cap late x <:+ remember cap early x := by
  have fresh' : x ∉ late := fun member => fresh (suffix.mem member)
  rw [remember, remember, if_neg fresh', if_neg fresh]
  obtain ⟨before, rfl⟩ := suffix
  exact trim_suffix ⟨before, (List.append_assoc before late [x]).symm⟩

theorem mem_remember {held : List α} {x y : α} (member : y ∈ remember cap held x) :
    y ∈ held ∨ y = x := by
  unfold remember trim at member
  split_ifs at member
  · exact Or.inl member
  · simpa using List.mem_of_mem_tail member
  · simpa using member

/-- What one input adds to the record. -/
def recorded (held : List α) (x : α) : List α := if x ∈ held then [] else [x]

/-- Everything a memory records over a list of inputs, oldest first. -/
def record (cap : ℕ) (held inputs : List α) : List α :=
  outputs (remember cap) recorded held inputs

theorem record_append (held first second : List α) : record cap held (first ++ second) =
    record cap held first ++ record cap (run (remember cap) held first) second :=
  outputs_append ..

theorem record_concat (held inputs : List α) (x : α) : record cap held (inputs ++ [x]) =
    record cap held inputs ++ recorded (run (remember cap) held inputs) x := by
  rw [record_append]
  exact congrArg _ (List.append_nil _)

/-- A memory that started empty holds the latest entries of its record. -/
theorem run_remember (inputs : List α) :
    run (remember cap) [] inputs = (record cap [] inputs).rtake cap := by
  induction inputs using List.reverseRecOn with
  | nil => exact (List.rtake_nil cap).symm
  | append_singleton inputs x inductionHypothesis =>
    rw [run_concat, record_concat, inductionHypothesis, recorded, remember]
    split_ifs with held
    · rw [List.append_nil]
    · exact trim_rtake_concat cap _ x

theorem mem_record (inputs : List α) (x : α) : x ∈ record cap [] inputs ↔ x ∈ inputs := by
  induction inputs using List.reverseRecOn with
  | nil => exact Iff.rfl
  | append_singleton inputs y inductionHypothesis =>
    rw [record_concat, List.mem_append, List.mem_append, inductionHypothesis, recorded]
    split_ifs with held
    · -- what is held has been an input
      rw [run_remember] at held
      have earlier : y ∈ record cap [] inputs := List.mem_of_mem_drop held
      simp only [List.not_mem_nil, or_false, List.mem_singleton, iff_self_or]
      rintro rfl
      exact inductionHypothesis.mp earlier
    · exact Iff.rfl

/-! ## Repetitions -/

/-- Between any two equal inputs fewer than `cap` distinct entries are recorded. -/
def Spaced (cap : ℕ) (inputs : List α) : Prop :=
  ∀ before x between after, inputs = before ++ x :: between ++ x :: after →
    (record cap (run (remember cap) [] (before ++ [x])) between).toFinset.card < cap

theorem Spaced.of_append {first second : List α} (spaced : Spaced cap (first ++ second)) :
    Spaced cap first := by
  rintro before x between after rfl
  exact spaced before x between (after ++ second) (by simp)

theorem repetition_held {inputs : List α} {x : α} (spaced : Spaced cap (inputs ++ [x]))
    (once : (record cap [] inputs).Nodup) (repeated : x ∈ inputs) :
    x ∈ run (remember cap) [] inputs := by
  -- since its first occurrence, which was recorded, fewer than `cap` entries have followed
  obtain ⟨before, between, rfl, first⟩ := List.eq_append_cons_of_mem repeated
  have fresh : x ∉ run (remember cap) [] before := by
    rw [run_remember]
    intro held
    exact first ((mem_record before x).mp (List.mem_of_mem_drop held))
  have split : record cap [] (before ++ x :: between) =
      record cap [] before ++ x :: record cap (run (remember cap) [] (before ++ [x])) between := by
    rw [List.append_cons, record_append, record_concat, recorded, if_neg fresh, List.append_assoc,
      List.singleton_append]
  have few := spaced before x between [] (by simp)
  rw [split] at once
  have nodup : (record cap (run (remember cap) [] (before ++ [x])) between).Nodup :=
    (List.nodup_cons.mp (List.nodup_append.mp once).2.1).2
  rw [List.toFinset_card_of_nodup nodup] at few
  rw [run_remember, mem_rtake]
  exact ⟨_, _, split, few⟩

theorem record_nodup {inputs : List α} (spaced : Spaced cap inputs) :
    (record cap [] inputs).Nodup := by
  induction inputs using List.reverseRecOn with
  | nil => exact List.nodup_nil
  | append_singleton inputs x inductionHypothesis =>
    have once := inductionHypothesis spaced.of_append
    rw [record_concat, recorded]
    split_ifs with held
    · rwa [List.append_nil]
    · have new : x ∉ record cap [] inputs := fun earlier =>
        held (repetition_held spaced once ((mem_record inputs x).mp earlier))
      exact List.concat_eq_append ▸ once.concat new

/-- Where repetitions are spaced, the memory recognises every one of them. -/
theorem held_iff_repeated {inputs : List α} {x : α} (spaced : Spaced cap (inputs ++ [x])) :
    x ∈ run (remember cap) [] inputs ↔ x ∈ inputs := by
  constructor
  · intro held
    rw [run_remember] at held
    exact (mem_record inputs x).mp (List.mem_of_mem_drop held)
  · exact repetition_held spaced (record_nodup spaced.of_append)

end KalshiMm.Lib
