/-
  ChessEval.Proofs.Line.Course — what can be seen of a line while calls are made to it.

  A line shows the phase in force, the ply, the last depth at which the phase was asked
  for, the advantage at the root, and the slot at the cursor (`View`); the rest of the
  stack it keeps to itself. The `Course` of a list of calls tells after each call what
  was answered and what the line then shows, and the fault at which the calls end, if one
  does. Two lines with the same course cannot be told apart by those calls.

  - `course_simulates`: if a relation of lines fixes what is seen and every call keeps it,
    related lines have related courses, for any number of calls.
  - `course_fault`: if no divisor is zero, nothing but the two ends of the stack stops the
    calls; so every position that is to be scored before that is.
-/

import ChessEval.Proofs.Line.Slots

namespace ChessEval

/-- All that a line shows of itself. -/
structure View where
  phase : Phase
  ply : Nat
  lastDepth : Option Int
  rootAdvantage : Int
  accumulator : Accumulator
  /-- The phase whose network built the accumulator. -/
  builtBy : Phase
  deriving DecidableEq

structure Course where
  /-- After each call its answer, and what the line then shows. -/
  seen : List (Option Trace × View)
  /-- The fault of the call after the last one seen. -/
  fault : Option Fault
  deriving DecidableEq

/-- The course with every view changed. -/
def Course.mapView (f : View → View) (c : Course) : Course := { c with seen := c.seen.map fun x => (x.1, f x.2) }

theorem Course.mapView_id (c : Course) : c.mapView id = c := by simp [mapView]

namespace Line

def view (l : Line) : View :=
  ⟨l.phase, l.ply, l.watch.lastDepth, l.rootAdvantage, l.accumulator, l.stack.current.phase⟩

def course (l : Line) : List Call → Course
  | [] => ⟨[], none⟩
  | c :: cs =>
    match l.call c with
    | .error f => ⟨[], some f⟩
    | .ok (answer, l) => { l.course cs with seen := (answer, l.view) :: (l.course cs).seen }

/-- The same fault, or the same answer and related lines. -/
def Alike (R : Line → Line → Prop) : Except Fault (Option Trace × Line) → Except Fault (Option Trace × Line) → Prop
  | .error f, .error f' => f = f'
  | .ok (answer, l), .ok (answer', l') => answer = answer' ∧ R l l'
  | _, _ => False

/-- Lines that are related, and stay so whatever is called, are seen alike all along. -/
theorem course_simulates {R : Line → Line → Prop} {f : Call → Call} {g : View → View}
    (hview : ∀ l l', R l l' → l'.view = g l.view) (hcall : ∀ l l' c, R l l' → Alike R (l.call c) (l'.call (f c)))
    {l l' : Line} (h : R l l') (calls : List Call) : l'.course (calls.map f) = (l.course calls).mapView g := by
  induction calls generalizing l l' with
  | nil => rfl
  | cons c calls ih =>
    have halike := hcall l l' c h
    rw [List.map_cons, course, course]
    cases hl : l.call c with
    | error e =>
      cases hl' : l'.call (f c) with
      | error e' =>
        rw [hl, hl'] at halike
        rw [show e = e' from halike]
        rfl
      | ok r =>
        rw [hl, hl'] at halike
        exact halike.elim
    | ok r =>
      cases hl' : l'.call (f c) with
      | error e' =>
        rw [hl, hl'] at halike
        exact halike.elim
      | ok r' =>
        rw [hl, hl'] at halike
        obtain ⟨hanswer, hrel⟩ := halike
        simp only [ih hrel, hview _ _ hrel, hanswer]
        rfl

variable {l l' : Line}

/-! ## What the watch finds -/

section Detect

variable {pos : Position} {depth : Int} {phase : Phase} {watch : PhaseWatch}

theorem detect_of_unasked (h : Id.run (l.watch.detect depth l.tuning (l.rawScore pos)) = (none, watch)) :
    l.detect pos depth = { l with watch } := by
  rw [detect, h]

theorem detect_of_kept (h : Id.run (l.watch.detect depth l.tuning (l.rawScore pos)) = (some l.phase, watch)) :
    l.detect pos depth = { l with watch } := by
  rw [detect, h]
  exact if_pos rfl

theorem detect_of_switch (h : Id.run (l.watch.detect depth l.tuning (l.rawScore pos)) = (some phase, watch))
    (hne : phase ≠ l.phase) :
    l.detect pos depth = { l with watch, phase, stack := l.stack.rebuild l.networks pos phase } := by
  rw [detect, h]
  exact if_neg hne

end Detect

/-! ## Faults -/

theorem call_tuning {c : Call} {answer : Option Trace} (h : l.call c = .ok (answer, l')) : l'.tuning = l.tuning := by
  cases c with
  | push pos c =>
    obtain ⟨l₁, hpush, hmap⟩ := of_map_eq_ok h
    obtain ⟨-, stack, rfl⟩ := push_cases hpush
    cases hmap
    rfl
  | pop =>
    obtain ⟨l₁, hpop, hmap⟩ := of_map_eq_ok h
    obtain ⟨-, stack, rfl⟩ := pop_cases hpop
    cases hmap
    rfl
  | evaluate pos depth ply =>
    obtain ⟨tr, -, hmap⟩ := of_map_eq_ok h
    cases hmap
    exact (l.evaluate_kept pos depth ply).tuning
  | restart pos =>
    cases h
    rfl

theorem call_fault {c : Call} {f : Fault} (ht : l.tuning.NonzeroDivisors) (h : l.call c = .error f) :
    f = .stackFull ∨ f = .stackAtRoot := by
  cases c with
  | push pos c =>
    rw [call, push_eq_advance, PlyStack.advance] at h
    split at h
    · cases h
    · cases h
      exact Or.inl rfl
  | pop =>
    rw [call, pop, PlyStack.pop] at h
    split at h
    · cases h
    · cases h
      exact Or.inr rfl
  | evaluate pos depth ply =>
    obtain ⟨tr, htr⟩ := evaluate_ok ht pos depth ply
    rw [call_evaluate htr] at h
    cases h
  | restart pos => cases h

/-- If no divisor is zero, calls come to an end only at the deepest ply or at the root. -/
theorem course_fault {f : Fault} (ht : l.tuning.NonzeroDivisors) {calls : List Call}
    (h : (l.course calls).fault = some f) : f = .stackFull ∨ f = .stackAtRoot := by
  induction calls generalizing l with
  | nil => cases h
  | cons c calls ih =>
    rw [course] at h
    cases hl : l.call c with
    | error e =>
      rw [hl] at h
      cases h
      exact call_fault ht hl
    | ok r =>
      rw [hl] at h
      exact ih (call_tuning hl ▸ ht) h

end Line

end ChessEval
