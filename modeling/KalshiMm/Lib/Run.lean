import Mathlib.Data.List.Induction
import Mathlib.Tactic.Common

/-!
# Runs of a deterministic machine

A machine is a step function `σ → ε → σ`; everything that is not determined by its state is
carried by the event.  `run` folds a list of events, `Throughout` speaks of every state a run
reaches, and `Along` of every step it takes.

The rules: `run_induct` carries an invariant along a run, `throughout_of_along` does so under a
condition on the steps, and `throughout_iff_along` characterises the runs that keep a property
when one step keeps it exactly under the condition.
-/

namespace KalshiMm.Lib

variable {σ ε ω : Type*} (step : σ → ε → σ)

/-- The state after a list of events. -/
def run (s : σ) (events : List ε) : σ := events.foldl step s

@[simp] theorem run_nil (s : σ) : run step s [] = s := rfl

@[simp] theorem run_cons (s : σ) (e : ε) (events : List ε) :
    run step s (e :: events) = run step (step s e) events := rfl

theorem run_append (s : σ) (first second : List ε) :
    run step s (first ++ second) = run step (run step s first) second :=
  List.foldl_append

theorem run_concat (s : σ) (events : List ε) (e : ε) :
    run step s (events ++ [e]) = step (run step s events) e := by
  rw [run_append]; rfl

/-- `P` holds at every step of the run, of the state before the step and its event. -/
def Along (P : σ → ε → Prop) : σ → List ε → Prop
  | _, [] => True
  | s, e :: events => P s e ∧ Along P (step s e) events

/-- `I` holds in every state the run reaches, its first one included. -/
def Throughout (I : σ → Prop) : σ → List ε → Prop
  | s, [] => I s
  | s, e :: events => I s ∧ Throughout I (step s e) events

instance decidableAlong (P : σ → ε → Prop) [∀ s e, Decidable (P s e)] :
    (s : σ) → (events : List ε) → Decidable (Along step P s events)
  | _, [] => isTrue trivial
  | s, e :: events =>
    have := decidableAlong P (step s e) events
    inferInstanceAs (Decidable (P s e ∧ Along step P (step s e) events))

instance decidableThroughout (I : σ → Prop) [DecidablePred I] :
    (s : σ) → (events : List ε) → Decidable (Throughout step I s events)
  | s, [] => inferInstanceAs (Decidable (I s))
  | s, e :: events =>
    have := decidableThroughout I (step s e) events
    inferInstanceAs (Decidable (I s ∧ Throughout step I (step s e) events))

section Rules

variable {step} {I J : σ → Prop} {P Q : σ → ε → Prop} {s : σ} {events : List ε}

theorem Along.and : ∀ {s : σ} {events : List ε}, Along step P s events → Along step Q s events →
    Along step (fun s e => P s e ∧ Q s e) s events
  | _, [], _, _ => trivial
  | _, _ :: _, ⟨leftHead, leftTail⟩, ⟨rightHead, rightTail⟩ =>
    ⟨⟨leftHead, rightHead⟩, leftTail.and rightTail⟩

theorem along_true : ∀ (s : σ) (events : List ε), Along step (fun _ _ => True) s events
  | _, [] => trivial
  | _, _ :: events => ⟨trivial, along_true _ events⟩

theorem along_of_always (always : ∀ s e, P s e) : ∀ (s : σ) (events : List ε), Along step P s events
  | _, [] => trivial
  | _, _ :: events => ⟨always _ _, along_of_always always _ events⟩

theorem Along.imp (weaken : ∀ s e, P s e → Q s e) : ∀ {s : σ} {events : List ε},
    Along step P s events → Along step Q s events
  | _, [], _ => trivial
  | _, _ :: _, ⟨head, tail⟩ => ⟨weaken _ _ head, tail.imp weaken⟩

theorem along_congr (same : ∀ s e, P s e ↔ Q s e) : ∀ (s : σ) (events : List ε),
    Along step P s events ↔ Along step Q s events
  | _, [] => Iff.rfl
  | s, e :: events => and_congr (same s e) (along_congr same (step s e) events)

/-- Under an invariant of the run, equivalent conditions on its steps. -/
theorem along_congr_of_step (keeps : ∀ s e, I s → I (step s e))
    (same : ∀ s e, I s → (P s e ↔ Q s e)) (start : I s) :
    Along step P s events ↔ Along step Q s events := by
  induction events generalizing s with
  | nil => exact Iff.rfl
  | cons e events inductionHypothesis =>
    exact and_congr (same s e start) (inductionHypothesis (keeps s e start))

theorem along_of_forall {Q : ε → Prop} (all : ∀ e ∈ events, Q e) :
    Along step (fun _ e => Q e) s events := by
  induction events generalizing s with
  | nil => trivial
  | cons e events inductionHypothesis =>
    obtain ⟨head, tail⟩ := List.forall_mem_cons.mp all
    exact ⟨head, inductionHypothesis tail⟩

theorem along_append {first second : List ε} : Along step P s (first ++ second) ↔
    Along step P s first ∧ Along step P (run step s first) second := by
  induction first generalizing s with
  | nil => simp [Along]
  | cons e first inductionHypothesis => simp [Along, inductionHypothesis, and_assoc]

theorem Throughout.head (holds : Throughout step I s events) : I s := by
  cases events with
  | nil => exact holds
  | cons e events => exact holds.1

theorem Throughout.along : ∀ {s : σ} {events : List ε}, Throughout step I s events →
    Along step (fun s _ => I s) s events
  | _, [], _ => trivial
  | _, _ :: _, ⟨head, tail⟩ => ⟨head, tail.along⟩

theorem Throughout.last (holds : Throughout step I s events) : I (run step s events) := by
  induction events generalizing s with
  | nil => exact holds
  | cons e events inductionHypothesis => exact inductionHypothesis holds.2

theorem Throughout.imp (weaken : ∀ s, I s → J s) : ∀ {s : σ} {events : List ε},
    Throughout step I s events → Throughout step J s events
  | _, [], holds => weaken _ holds
  | _, _ :: _, ⟨head, tail⟩ => ⟨weaken _ head, tail.imp weaken⟩

/-- An invariant kept by every step that meets the condition holds throughout every run whose
    steps all meet it. -/
theorem throughout_of_along (keeps : ∀ s e, I s → P s e → I (step s e)) (start : I s)
    (condition : Along step P s events) : Throughout step I s events := by
  induction events generalizing s with
  | nil => exact start
  | cons e events inductionHypothesis =>
    exact ⟨start, inductionHypothesis (keeps s e start condition.1) condition.2⟩

/-- What the invariant and the condition give at one step, they give at every step of a run whose
    steps all meet the condition. -/
theorem along_of_along {R : σ → ε → Prop} (keeps : ∀ s e, I s → P s e → I (step s e))
    (gives : ∀ s e, I s → P s e → R s e) (start : I s) (condition : Along step P s events) :
    Along step R s events := by
  induction events generalizing s with
  | nil => trivial
  | cons e events inductionHypothesis =>
    exact ⟨gives s e start condition.1,
      inductionHypothesis (keeps s e start condition.1) condition.2⟩

theorem throughout_of_step (keeps : ∀ s e, I s → I (step s e)) (start : I s) :
    Throughout step I s events := by
  induction events generalizing s with
  | nil => exact start
  | cons e events inductionHypothesis => exact ⟨start, inductionHypothesis (keeps s e start)⟩

/-- What one step of a run establishes and all later steps keep holds at its end. -/
theorem holds_after {I : σ → Prop} {P : ε → Prop} (keeps : ∀ s e, I s → P e → I (step s e)) {s : σ}
    {before after : List ε} {e : ε} (established : I (step (run step s before) e))
    (later : ∀ e ∈ after, P e) : I (run step s (before ++ e :: after)) := by
  rw [run_append, run_cons]
  exact (throughout_of_along keeps established (along_of_forall later)).last

theorem run_induct (keeps : ∀ s e, I s → I (step s e)) (start : I s) : I (run step s events) :=
  (throughout_of_step keeps start).last

/-- A preorder that every step stays within relates the ends of every run. -/
theorem run_related {R : σ → σ → Prop} (refl : ∀ s, R s s) (trans : ∀ a b c, R a b → R b c → R a c)
    (related : ∀ s e, R s (step s e)) (s : σ) (events : List ε) : R s (run step s events) :=
  run_induct (I := R s) (fun t e before => trans s t _ before (related t e)) (refl s)

/-- A run that does not meet an event stays within a preorder that all other events stay within. -/
theorem run_unvisited {R : σ → σ → Prop} (refl : ∀ s, R s s)
    (trans : ∀ a b c, R a b → R b c → R a c) {e : ε}
    (elsewhere : ∀ s other, other ≠ e → R s (step s other)) {events : List ε} (absent : e ∉ events)
    (s : σ) : R s (run step s events) := by
  induction events generalizing s with
  | nil => exact refl s
  | cons other events inductionHypothesis =>
    have differs : other ≠ e := fun same => absent (same ▸ List.mem_cons_self)
    have rest : e ∉ events := fun member => absent (List.mem_cons_of_mem _ member)
    exact trans _ _ _ (elsewhere s other differs) (inductionHypothesis rest _)

/-- A run without repetitions meets each of its events once, in a state that only the others have
    worked on. -/
theorem run_visited {R : σ → σ → Prop} (refl : ∀ s, R s s)
    (trans : ∀ a b c, R a b → R b c → R a c) {e : ε}
    (elsewhere : ∀ s other, other ≠ e → R s (step s other)) {events : List ε}
    (nodup : events.Nodup) (member : e ∈ events) (s : σ) :
    ∃ reached, R s reached ∧ R (step reached e) (run step s events) := by
  induction events generalizing s with
  | nil => cases member
  | cons other events inductionHypothesis =>
    obtain ⟨fresh, nodup⟩ := List.nodup_cons.mp nodup
    by_cases same : other = e
    · subst same
      exact ⟨s, refl s, run_unvisited refl trans elsewhere fresh _⟩
    · have later := (List.mem_cons.mp member).resolve_left (Ne.symm same)
      obtain ⟨reached, before, after⟩ := inductionHypothesis nodup later (step s other)
      exact ⟨reached, trans _ _ _ (elsewhere s other same) before, after⟩

/-- Where, under a standing invariant, one step keeps a property exactly when it meets the
    condition, a run keeps it throughout exactly when all its steps do. -/
theorem throughout_iff_along (standing : ∀ s e, J s → Q s e → J (step s e))
    (exactly : ∀ s e, J s → Q s e → I s → (I (step s e) ↔ P s e))
    (startJ : J s) (startI : I s) (assumed : Along step Q s events) :
    Throughout step I s events ↔ Along step P s events := by
  induction events generalizing s with
  | nil => exact ⟨fun _ => trivial, fun _ => startI⟩
  | cons e events inductionHypothesis =>
    -- both directions need the property before the rest of the run: throughout gives it, and so does
    -- the condition at this step
    have next := standing s e startJ assumed.1
    have one := exactly s e startJ assumed.1 startI
    constructor
    · rintro ⟨_, tail⟩
      have kept := tail.head
      exact ⟨one.mp kept, (inductionHypothesis next kept assumed.2).mp tail⟩
    · rintro ⟨condition, tail⟩
      have kept := one.mpr condition
      exact ⟨startI, (inductionHypothesis next kept assumed.2).mpr tail⟩

/-- Where one step keeps a property and satisfies a relation exactly when it meets the condition, a
    run does both throughout exactly when all its steps do. -/
theorem throughout_and_along_iff {R : σ → ε → Prop}
    (exactly : ∀ s e, I s → (I (step s e) ∧ R s e ↔ P s e)) (start : I s) :
    Throughout step I s events ∧ Along step R s events ↔ Along step P s events := by
  induction events generalizing s with
  | nil => exact ⟨fun _ => trivial, fun _ => ⟨start, trivial⟩⟩
  | cons e events inductionHypothesis =>
    constructor
    · rintro ⟨⟨_, kept⟩, related, rest⟩
      exact ⟨(exactly s e start).mp ⟨kept.head, related⟩,
        (inductionHypothesis kept.head).mp ⟨kept, rest⟩⟩
    · rintro ⟨condition, rest⟩
      obtain ⟨next, related⟩ := (exactly s e start).mpr condition
      obtain ⟨kept, relatedRest⟩ := (inductionHypothesis next).mpr rest
      exact ⟨⟨start, kept⟩, related, relatedRest⟩

/-- Where the steps on some events are matched by the same step of another run, and the others
    are hidden from it, the run stays related to the one without the hidden events. -/
theorem run_filter_related {R : σ → σ → Prop} {shown : ε → Bool}
    (matched : ∀ s t e, R s t → P s e → shown e = true → R (step s e) (step t e))
    (hidden : ∀ s t e, R s t → P s e → shown e = false → R (step s e) t) {t : σ} (start : R s t)
    (condition : Along step P s events) :
    R (run step s events) (run step t (events.filter shown)) := by
  induction events generalizing s t with
  | nil => exact start
  | cons e events inductionHypothesis =>
    cases visible : shown e with
    | true =>
      rw [List.filter_cons_of_pos visible]
      exact inductionHypothesis (matched s t e start condition.1 visible) condition.2
    | false =>
      rw [List.filter_cons_of_neg (Bool.eq_false_iff.mp visible)]
      exact inductionHypothesis (hidden s t e start condition.1 visible) condition.2

/-- Where any two of the events still to come commute, a run ends the same in every order of its
    events.  `J` speaks of the state and of the events to come. -/
theorem run_perm {J : σ → List ε → Prop}
    (next : ∀ s e events, J s (e :: events) → J (step s e) events)
    (reorder : ∀ s first second, List.Perm first second → J s first → J s second)
    (commute : ∀ s d e events, J s (d :: e :: events) →
      step (step s d) e = step (step s e) d) {first second : List ε}
    (same : first.Perm second) {s : σ} (start : J s first) :
    run step s first = run step s second := by
  induction same generalizing s with
  | nil => rfl
  | cons e _ inductionHypothesis => exact inductionHypothesis (next s e _ start)
  | swap d e events =>
    rw [run_cons, run_cons, run_cons, run_cons, commute s e d events start]
  | trans perm _ firstHypothesis secondHypothesis =>
    exact (firstHypothesis start).trans (secondHypothesis (reorder s _ _ perm start))

end Rules

/-! ## Ghost state -/

/-- The machine with a ghost beside it, which sees the state before each step. -/
def withGhost {γ : Type*} (ghost : σ → γ → ε → γ) (s : σ × γ) (e : ε) : σ × γ :=
  (step s.1 e, ghost s.1 s.2 e)

theorem run_withGhost_fst {γ : Type*} (ghost : σ → γ → ε → γ) (s : σ × γ) (events : List ε) :
    (run (withGhost step ghost) s events).1 = run step s.1 events := by
  induction events generalizing s with
  | nil => rfl
  | cons e events inductionHypothesis => exact inductionHypothesis _

theorem along_withGhost {γ : Type*} {ghost : σ → γ → ε → γ} {P : σ → ε → Prop} {s : σ × γ}
    {events : List ε} (condition : Along step P s.1 events) :
    Along (withGhost step ghost) (fun s e => P s.1 e) s events := by
  induction events generalizing s with
  | nil => trivial
  | cons e events inductionHypothesis => exact ⟨condition.1, inductionHypothesis condition.2⟩

theorem throughout_of_withGhost {γ : Type*} {ghost : σ → γ → ε → γ} {I : σ → Prop} {s : σ × γ}
    {events : List ε} (holds : Throughout (withGhost step ghost) (fun s => I s.1) s events) :
    Throughout step I s.1 events := by
  induction events generalizing s with
  | nil => exact holds
  | cons e events inductionHypothesis => exact ⟨holds.1, inductionHypothesis holds.2⟩

/-! ## Output -/

/-- The outputs of the steps of a run, in order. -/
def outputs (out : σ → ε → List ω) : σ → List ε → List ω
  | _, [] => []
  | s, e :: events => out s e ++ outputs out (step s e) events

theorem outputs_append (out : σ → ε → List ω) (s : σ) (first second : List ε) :
    outputs step out s (first ++ second) =
      outputs step out s first ++ outputs step out (run step s first) second := by
  induction first generalizing s with
  | nil => rfl
  | cons e first inductionHypothesis =>
    rw [List.cons_append, outputs, outputs, inductionHypothesis, List.append_assoc, run_cons]

/-- The steps of a run, each with the state it starts from. -/
def steps (s : σ) (events : List ε) : List (σ × ε) := outputs step (fun s e => [(s, e)]) s events

variable {step} in
theorem mem_steps {s : σ} {events : List ε} {taken : σ × ε} (member : taken ∈ steps step s events) :
    ∃ before after, events = before ++ taken.2 :: after ∧ taken.1 = run step s before := by
  induction events generalizing s with
  | nil => cases member
  | cons e events inductionHypothesis =>
    rcases List.mem_append.mp member with first | later
    · rw [List.mem_singleton.mp first]
      exact ⟨[], events, rfl, rfl⟩
    · obtain ⟨before, after, rfl, reached⟩ := inductionHypothesis later
      exact ⟨e :: before, after, rfl, reached⟩

/-- An invariant of the state and of the outputs so far, kept by every step that meets the
    condition, holds at the end of every run whose steps all meet it. -/
theorem outputs_induct {out : σ → ε → List ω} {I : σ → List ω → Prop} {P : σ → ε → Prop}
    (keeps : ∀ s e log, I s log → P s e → I (step s e) (log ++ out s e)) {s : σ}
    (start : I s []) {events : List ε} (condition : Along step P s events) :
    I (run step s events) (outputs step out s events) := by
  induction events using List.reverseRecOn with
  | nil => exact start
  | append_singleton events e inductionHypothesis =>
    obtain ⟨earlier, last, _⟩ := along_append.mp condition
    rw [run_concat, outputs_append]
    have kept := keeps _ e _ (inductionHypothesis earlier) last
    rwa [outputs, outputs, List.append_nil]

theorem outputs_length_le {out : σ → ε → List ω} (each : ∀ s e, (out s e).length ≤ 1) (s : σ)
    (events : List ε) : (outputs step out s events).length ≤ events.length := by
  induction events generalizing s with
  | nil => exact Nat.le_refl 0
  | cons e events inductionHypothesis =>
    have first := each s e
    have rest := inductionHypothesis (step s e)
    rw [outputs, List.length_append, List.length_cons]
    omega

/-- A monitor that follows a machine's output accepts all of it, if it accepts each step's output
    and the two states stay related. -/
theorem along_outputs {μ : Type*} {watch : μ → ω → μ} {Accepts : μ → ω → Prop} {out : σ → ε → List ω}
    {R : σ → μ → Prop} {P : σ → ε → Prop}
    (each : ∀ s e m, R s m → P s e → Along watch Accepts m (out s e) ∧
      R (step s e) (run watch m (out s e)))
    {s : σ} {m : μ} (start : R s m) {events : List ε} (condition : Along step P s events) :
    Along watch Accepts m (outputs step out s events) := by
  induction events generalizing s m with
  | nil => trivial
  | cons e events inductionHypothesis =>
    obtain ⟨accepted, related⟩ := each s e m start condition.1
    exact along_append.mpr ⟨accepted, inductionHypothesis related condition.2⟩

end KalshiMm.Lib
