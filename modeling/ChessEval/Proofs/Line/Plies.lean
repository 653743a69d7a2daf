/-
  ChessEval.Proofs.Line.Plies — what is done deeper in a line leaves its earlier plies alone.

  An operation on a stack (`Operation`) goes a ply on, with the present slot carried on or a
  new one built, goes a ply back, or builds the slot at the cursor anew. A list of
  operations spares ply `k` (`Spares`) if the cursor never goes above `k` towards the root
  and the slot at `k` is never built anew. An operation that faults leaves the stack as it
  is, and the list goes on.

  - `perform_cases`: what an operation does, kind by kind.
  - `perform_eq_error_iff`: going on faults exactly at the deepest ply, going back exactly at
    the root.
  - `Effect.run_perform`: so it is on a stack that is changed in place, cursor first: the
    cursor is checked before it is moved, and nothing is written before that.
  - `deeper_plies_leave_the_line_alone`: from a cursor at `k`, operations that spare it keep
    every slot up to it, and the cursor counts those that went on and those that went back.
-/

import ChessEval.Proofs.Line.Slots

namespace ChessEval

namespace PlyStack

/-- What a stack can be asked to do, under the networks given for it. -/
inductive Operation where
  | push (n : PhaseNetworks) (c : Change)
  | pushRebuilt (n : PhaseNetworks) (pos : Position) (phase : Phase)
  | rebuild (n : PhaseNetworks) (pos : Position) (phase : Phase)
  | pop
  deriving DecidableEq

namespace Operation

/-- It goes a ply on. -/
def isPush : Operation → Bool
  | push .. | pushRebuilt .. => true
  | rebuild .. | pop => false

def isRebuild : Operation → Bool
  | rebuild .. => true
  | push .. | pushRebuilt .. | pop => false

/-- It goes a ply back. -/
def isPop : Operation → Bool
  | pop => true
  | push .. | pushRebuilt .. | rebuild .. => false

def perform (s : PlyStack) : Operation → Except Fault PlyStack
  | push n c => s.push n c
  | pushRebuilt n pos phase => s.pushRebuilt n pos phase
  | rebuild n pos phase => .ok (s.rebuild n pos phase)
  | pop => s.pop

end Operation

variable {s s' : PlyStack} {op : Operation}

/-! ## One operation -/

/-- Which slots an operation leaves, and where the cursor goes. -/
theorem perform_cases (h : op.perform s = .ok s') :
    (op.isPush ∧ s'.ply = s.ply + 1 ∧ ∀ j ≤ s.ply, s'.slots[j]? = s.slots[j]?) ∨
      (op.isRebuild ∧ s'.ply = s.ply ∧ ∀ j ≠ s.ply, s'.slots[j]? = s.slots[j]?) ∨
      (op.isPop ∧ s'.ply + 1 = s.ply ∧ s'.slots = s.slots) := by
  cases op with
  | push n c => exact Or.inl ⟨rfl, advance_cases h⟩
  | pushRebuilt n pos phase => exact Or.inl ⟨rfl, advance_cases h⟩
  | rebuild n pos phase =>
    cases h
    exact Or.inr (Or.inl ⟨rfl, rfl, fun j hj => replace_getElem?_of_ne hj⟩)
  | pop => exact Or.inr (Or.inr ⟨rfl, pop_cases h⟩)

theorem advance_eq_error_iff {slot : Slot} {f : Fault} :
    s.advance slot = .error f ↔ s.ply = maxPly ∧ f = .stackFull := by
  have htop : s.ply < maxPly + 1 := s.top.isLt
  by_cases hroom : s.ply < maxPly
  · obtain ⟨t, ht, -⟩ := advance_of_lt hroom slot
    rw [ht]
    constructor
    · intro h
      cases h
    · intro h
      omega
  · rw [advance_of_not_lt hroom slot]
    constructor
    · intro h
      cases h
      exact ⟨by omega, rfl⟩
    · intro h
      rw [h.2]

theorem pop_eq_error_iff {f : Fault} : s.pop = .error f ↔ s.ply = 0 ∧ f = .stackAtRoot := by
  by_cases hpos : 0 < s.ply
  · obtain ⟨t, ht, -⟩ := pop_of_pos hpos
    rw [ht]
    constructor
    · intro h
      cases h
    · intro h
      omega
  · rw [show s.pop = .error .stackAtRoot from if_neg hpos]
    constructor
    · intro h
      cases h
      exact ⟨by omega, rfl⟩
    · intro h
      rw [h.2]

theorem perform_eq_error_iff {f : Fault} :
    op.perform s = .error f ↔
      (op.isPush ∧ s.ply = maxPly ∧ f = .stackFull) ∨ (op.isPop ∧ s.ply = 0 ∧ f = .stackAtRoot) := by
  cases op with
  | push n c => exact advance_eq_error_iff.trans (by simp [Operation.isPush, Operation.isPop])
  | pushRebuilt n pos phase => exact advance_eq_error_iff.trans (by simp [Operation.isPush, Operation.isPop])
  | rebuild n pos phase => simp [Operation.perform, Operation.isPush, Operation.isPop]
  | pop => exact pop_eq_error_iff.trans (by simp [Operation.isPush, Operation.isPop])

theorem perform_ply (h : op.perform s = .ok s') :
    s'.ply + (if op.isPop then 1 else 0) = s.ply + (if op.isPush then 1 else 0) := by
  cases op with
  | push n c => exact (advance_cases h).1
  | pushRebuilt n pos phase => exact (advance_cases h).1
  | rebuild n pos phase =>
    cases h
    rfl
  | pop => exact (pop_cases h).1

/-! ## In place -/

theorem pred_top_lt (s : PlyStack) : s.top.val - 1 < slotCount := Nat.lt_of_le_of_lt (Nat.pred_le _) s.top.isLt

/-- Work on a stack in place, which may fault. What was written before a fault stays written. -/
abbrev Effect := EStateM Fault PlyStack

namespace Effect

/-- Moves the cursor a ply on, if there is one. -/
def advance : Effect Unit := do
  let s ← get
  if h : s.top + 1 < slotCount then set { s with top := ⟨s.top + 1, h⟩ } else throw .stackFull

/-- Moves the cursor a ply back, if there is one. -/
def retreat : Effect Unit := do
  let s ← get
  if 0 < s.top.val then set { s with top := ⟨s.top - 1, s.pred_top_lt⟩ } else throw .stackAtRoot

/-- Copies the slot before the cursor to the cursor. -/
def copy : Effect Unit := modify fun s => s.replace (s.slots.get ⟨s.top - 1, s.pred_top_lt⟩)

/-- Applies a change to the slot at the cursor, under the network that built it. -/
def apply (n : PhaseNetworks) (c : Change) : Effect Unit := modify fun s =>
  s.replace { s.current with accumulator := s.current.accumulator.apply (n.get s.current.phase) c }

def rebuild (n : PhaseNetworks) (pos : Position) (phase : Phase) : Effect Unit :=
  modify fun s => s.rebuild n pos phase

def perform : Operation → Effect Unit
  | .push n c => do
    advance
    copy
    apply n c
  | .pushRebuilt n pos phase => do
    advance
    rebuild n pos phase
  | .rebuild n pos phase => rebuild n pos phase
  | .pop => retreat

theorem run_advance_of_not_lt (h : ¬ s.ply < maxPly) : advance.run s = .error .stackFull s := by
  have hroom : ¬ s.top + 1 < slotCount := fun h' => h (Nat.lt_of_succ_lt_succ h')
  simp only [advance, EStateM.run_bind, EStateM.run_get]
  rw [dif_neg hroom]
  rfl

/-- Once the cursor has moved on, writing the slot there is all there is to advancing. -/
theorem run_advance_of_lt (h : s.ply < maxPly) :
    ∃ t, advance.run s = .ok () t ∧ t.slots.get ⟨t.top - 1, t.pred_top_lt⟩ = s.current ∧
      ∀ slot, s.advance slot = .ok (t.replace slot) := by
  have hroom : s.top + 1 < slotCount := Nat.succ_lt_succ h
  refine ⟨{ s with top := ⟨s.top + 1, hroom⟩ }, ?_, rfl, fun slot => ?_⟩
  · simp only [advance, EStateM.run_bind, EStateM.run_get]
    rw [dif_pos hroom]
    rfl
  · rw [PlyStack.advance, dif_pos hroom]
    rfl

/-- Going on and then writing the new slot comes to advancing with that slot. -/
theorem run_advance_write {write : Effect Unit} {slot : Slot}
    (hwrite : ∀ t : PlyStack, t.slots.get ⟨t.top - 1, t.pred_top_lt⟩ = s.current →
      write.run t = .ok () (t.replace slot)) :
    (do advance; write : Effect Unit).run s = match s.advance slot with
      | .ok s' => .ok () s'
      | .error f => .error f s := by
  rw [EStateM.run_bind]
  by_cases hroom : s.ply < maxPly
  · obtain ⟨t, hrun, hbefore, hadvance⟩ := run_advance_of_lt hroom
    simp only [hrun, hadvance]
    exact hwrite t hbefore
  · simp only [run_advance_of_not_lt hroom, advance_of_not_lt hroom]

theorem run_copy_apply (t : PlyStack) (n : PhaseNetworks) (c : Change) :
    let slot := t.slots.get ⟨t.top - 1, t.pred_top_lt⟩
    (do copy; apply n c : Effect Unit).run t =
      .ok () (t.replace { slot with accumulator := slot.accumulator.apply (n.get slot.phase) c }) := by
  intro slot
  have htwice (x y : Slot) : (t.replace x).replace y = t.replace y := by simp [replace]
  simp only [copy, apply, EStateM.run_bind, EStateM.run_modify, replace_current, htwice]
  rfl

theorem run_retreat (s : PlyStack) :
    retreat.run s = match s.pop with
      | .ok s' => .ok () s'
      | .error f => .error f s := by
  simp only [retreat, pop, EStateM.run_bind, EStateM.run_get]
  split <;> rfl

/-- In place an operation comes to the same, and one that faults has changed nothing. -/
theorem run_perform (s : PlyStack) (op : Operation) :
    (perform op).run s = match op.perform s with
      | .ok s' => .ok () s'
      | .error f => .error f s := by
  cases op with
  | push n c =>
    apply run_advance_write
    intro t hbefore
    have hcopy := run_copy_apply t n c
    rw [hbefore] at hcopy
    exact hcopy
  | pushRebuilt n pos phase =>
    apply run_advance_write
    intro t _
    rfl
  | rebuild n pos phase => rfl
  | pop => exact run_retreat s

end Effect

/-! ## Operations in a row -/

/-- The stack after an operation, as it is if that faults. -/
def next (s : PlyStack) (op : Operation) : PlyStack :=
  match op.perform s with
  | .ok s' => s'
  | .error _ => s

def after (s : PlyStack) (ops : List Operation) : PlyStack := ops.foldl next s

/-- The operations of a list that do not fault when performed one after the other. -/
def answered (s : PlyStack) : List Operation → List Operation
  | [] => []
  | op :: ops =>
    match op.perform s with
    | .ok s' => op :: s'.answered ops
    | .error _ => s.answered ops

/-- The cursor stays at ply `k` or beyond, and the slot at `k` is never built anew. -/
def Spares (k : Nat) (s : PlyStack) : List Operation → Prop
  | [] => True
  | op :: ops => (op.isRebuild → s.ply ≠ k) ∧ k ≤ (s.next op).ply ∧ Spares k (s.next op) ops

/-- An operation that spares a ply leaves the slots up to it. -/
theorem next_keeps {k : Nat} (hk : k ≤ s.ply) (hrebuild : op.isRebuild → s.ply ≠ k) :
    ∀ j ≤ k, (s.next op).slots[j]? = s.slots[j]? := by
  intro j hj
  unfold next
  cases hop : op.perform s with
  | error f => rfl
  | ok s' =>
    rcases perform_cases hop with ⟨-, -, hslots⟩ | ⟨hr, -, hslots⟩ | ⟨-, -, hslots⟩
    · exact hslots j (by omega)
    · have hne := hrebuild hr
      exact hslots j (by omega)
    · simp only [hslots]

theorem after_keeps {k : Nat} {ops : List Operation} (hk : k ≤ s.ply) (h : Spares k s ops) :
    ∀ j ≤ k, (s.after ops).slots[j]? = s.slots[j]? := by
  induction ops generalizing s with
  | nil =>
    intro j _
    rfl
  | cons op ops ih =>
    obtain ⟨hrebuild, hnext, hops⟩ := h
    intro j hj
    exact (ih hnext hops j hj).trans (next_keeps hk hrebuild j hj)

/-- The cursor counts the operations answered: a ply more for each that goes on, one less for
    each that goes back. -/
theorem after_ply (s : PlyStack) (ops : List Operation) :
    (s.after ops).ply + (s.answered ops).countP Operation.isPop =
      s.ply + (s.answered ops).countP Operation.isPush := by
  induction ops generalizing s with
  | nil => rfl
  | cons op ops ih =>
    show ((s.next op).after ops).ply + _ = _
    unfold answered next
    cases hop : op.perform s with
    | error f => exact ih s
    | ok s' =>
      have hops := ih s'
      have hply := perform_ply hop
      simp only [List.countP_cons]
      omega

/-- From a cursor at some ply, operations that spare that ply leave every slot up to it with its
    accumulator and its tag; the cursor counts those that went on less those that went back,
    and once it is back the current slot is what it was. Going on faults exactly at the deepest
    ply and going back exactly at the root; in place too, and with nothing changed. -/
theorem deeper_plies_leave_the_line_alone (s : PlyStack) :
    (∀ ops, Spares s.ply s ops →
      (∀ j ≤ s.ply, (s.after ops).slots[j]? = s.slots[j]?) ∧
      (s.after ops).ply + (s.answered ops).countP Operation.isPop =
        s.ply + (s.answered ops).countP Operation.isPush ∧
      ((s.after ops).ply = s.ply → (s.after ops).current = s.current)) ∧
    ∀ op : Operation,
      (∀ f, op.perform s = .error f ↔
        (op.isPush ∧ s.ply = maxPly ∧ f = .stackFull) ∨ (op.isPop ∧ s.ply = 0 ∧ f = .stackAtRoot)) ∧
      (Effect.perform op).run s = match op.perform s with
        | .ok s' => .ok () s'
        | .error f => .error f s := by
  refine ⟨fun ops hops => ?_, fun op => ⟨fun f => perform_eq_error_iff, Effect.run_perform s op⟩⟩
  have hkept := after_keeps (Nat.le_refl _) hops
  refine ⟨hkept, after_ply s ops, fun hback => ?_⟩
  have hslot := hkept s.ply (Nat.le_refl _)
  rw [s.getElem?_ply, ← hback, (s.after ops).getElem?_ply] at hslot
  exact Option.some.inj hslot

/-- At the last ply but one: on to the last, where a rebuilt push faults and the slot is built
    anew, and back; then on again with a slot of another phase, and back. -/
theorem deeper_plies_leave_the_line_alone_at_the_end :
    let s : PlyStack := { ofRoot ⟨.zero, .middlegame⟩ with top := ⟨255, by decide⟩ }
    let pos : Position := Board.start.toPosition
    let ops : List Operation :=
      [.push .zero .empty, .pushRebuilt .zero pos .endgame, .rebuild .zero pos .sacrifice, .pop,
       .pushRebuilt .zero pos .endgame, .pop]
    Spares 255 s ops ∧ (s.answered ops).length = 5 ∧ (s.after ops).ply = 255 ∧ (s.after ops).current = s.current ∧
      ∀ j ≤ 255, (s.after ops).slots[j]? = s.slots[j]? := by
  intro s pos ops
  have hops : Spares 255 s ops := by
    refine ⟨?_, ?_, ?_, ?_, ?_, ?_, ?_, ?_, ?_, ?_, ?_, ?_, trivial⟩ <;> decide
  obtain ⟨hkept, -, hback⟩ := (deeper_plies_leave_the_line_alone s).1 ops hops
  exact ⟨hops, by decide, by decide, hback (by decide), hkept⟩

end PlyStack

end ChessEval
