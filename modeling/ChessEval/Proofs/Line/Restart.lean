/-
  ChessEval.Proofs.Line.Restart — a line begun again is as good as a new one.

  Beginning again writes the root's slot and moves the cursor there; the slots above keep
  what earlier plies left in them, under whatever tags. Two stacks agree up to the cursor
  (`PlyStack.SameSlots`) if their cursors are at the same ply and no slot up to it differs.
  Every operation reads at the cursor only, and one that moves the cursor up
  writes the slot, accumulator and tag, before anything can read it.

  - `call_sameInUse`: lines whose stacks agree up to the cursor fault alike at a call, or answer
    alike and agree again.
  - `restart_as_new`: so no calls tell a line begun again, from any state, from a new
    one, and none tells what the slots above the cursor hold.
-/

import ChessEval.Proofs.Line.Course

namespace ChessEval

/-! ## The stack -/

namespace PlyStack

/-- The cursors are at the same ply, and so far the slots are the same. -/
structure SameSlots (s s' : PlyStack) : Prop where
  top : s'.top = s.top
  slots : ∀ k ≤ s.ply, s'.slots[k]? = s.slots[k]?

variable {s s' : PlyStack}

theorem SameSlots.ply (h : s.SameSlots s') : s'.ply = s.ply := congrArg Fin.val h.top

theorem SameSlots.current (h : s.SameSlots s') : s'.current = s.current := by
  have hslots := h.slots s.ply (Nat.le_refl _)
  rw [s.getElem?_ply, ← h.ply, s'.getElem?_ply] at hslots
  exact Option.some.inj hslots

theorem SameSlots.replace (h : s.SameSlots s') (slot : Slot) : (s.replace slot).SameSlots (s'.replace slot) where
  top := h.top
  slots k hk := by
    by_cases hply : k = s.ply
    · subst hply
      have hcursor := (s'.replace slot).getElem?_ply
      rw [show (s'.replace slot).ply = s.ply from h.ply, replace_current] at hcursor
      rw [hcursor, show s.ply = (s.replace slot).ply from rfl, (s.replace slot).getElem?_ply, replace_current]
    · rw [replace_getElem?_of_ne hply, replace_getElem?_of_ne (by rwa [h.ply])]
      exact h.slots k hk

/-- The slot above the cursor is written, so it does not matter what was in it. -/
theorem SameSlots.advance (h : s.SameSlots s') (slot : Slot) :
    (∃ f, s.advance slot = .error f ∧ s'.advance slot = .error f) ∨
      ∃ t t', s.advance slot = .ok t ∧ s'.advance slot = .ok t' ∧ t.SameSlots t' := by
  by_cases hroom : s.ply < maxPly
  · obtain ⟨t, ht, hply, hcurrent, hbelow⟩ := advance_of_lt hroom slot
    obtain ⟨t', ht', hply', hcurrent', hbelow'⟩ := advance_of_lt (by rwa [h.ply]) slot
    rw [h.ply] at hply' hbelow'
    refine Or.inr ⟨t, t', ht, ht', Fin.ext (hply'.trans hply.symm), fun k hk => ?_⟩
    -- below the new cursor nothing changed, and at it both have `slot`
    by_cases hle : k ≤ s.ply
    · rw [hbelow k hle, hbelow' k hle]
      exact h.slots k hle
    · have hk : k = t.ply := by omega
      rw [hk, t.getElem?_ply, hply, ← hply', t'.getElem?_ply, hcurrent, hcurrent']
  · exact Or.inl ⟨_, advance_of_not_lt hroom slot, advance_of_not_lt (by rwa [h.ply]) slot⟩

theorem SameSlots.pop (h : s.SameSlots s') :
    (∃ f, s.pop = .error f ∧ s'.pop = .error f) ∨ ∃ t t', s.pop = .ok t ∧ s'.pop = .ok t' ∧ t.SameSlots t' := by
  by_cases hpos : 0 < s.ply
  · obtain ⟨t, ht, hply, hslots⟩ := pop_of_pos hpos
    obtain ⟨t', ht', hply', hslots'⟩ := pop_of_pos (s := s') (by rwa [h.ply])
    rw [h.ply] at hply'
    refine Or.inr ⟨t, t', ht, ht', Fin.ext (show t'.ply = t.ply by omega), fun k hk => ?_⟩
    rw [hslots, hslots']
    exact h.slots k (by omega)
  · have hroot' : ¬ 0 < s'.ply := by rwa [h.ply]
    exact Or.inl ⟨_, if_neg hpos, if_neg hroot'⟩

/-- The root's slot is all there is of a stack begun again. -/
theorem sameSlots_of_root {root : Slot} (hply : s.ply = 0) (hply' : s'.ply = 0) (h : s.current = root)
    (h' : s'.current = root) : s.SameSlots s' where
  top := Fin.ext (hply'.trans hply.symm)
  slots k hk := by
    have hk : k = s.ply := by omega
    rw [hk, s.getElem?_ply, hply, ← hply', s'.getElem?_ply, h, h']

theorem reset_sameSlots (s s' : PlyStack) (root : Slot) : (s.reset root).SameSlots (s'.reset root) :=
  sameSlots_of_root rfl rfl (reset_current s root) (reset_current s' root)

/-- The stack with other contents above the cursor. -/
def litter (s : PlyStack) (junk : Vector Slot slotCount) : PlyStack :=
  { s with slots := .ofFn fun k => if k.val ≤ s.ply then s.slots[k] else junk[k] }

theorem litter_top (s : PlyStack) (junk : Vector Slot slotCount) : (s.litter junk).top = s.top := by
  unfold litter
  rfl

theorem litter_getElem? (s : PlyStack) (junk : Vector Slot slotCount) {k : Nat} (hk : k ≤ s.ply) :
    (s.litter junk).slots[k]? = s.slots[k]? := by
  have hk' : k < slotCount := Nat.lt_of_le_of_lt hk s.top.isLt
  rw [litter, Vector.getElem?_ofFn]
  simp only [dif_pos hk', if_pos hk]
  exact (Vector.getElem?_eq_getElem hk').symm

theorem sameSlots_litter (s : PlyStack) (junk : Vector Slot slotCount) : s.SameSlots (s.litter junk) where
  top := litter_top s junk
  slots _ hk := litter_getElem? s junk hk

end PlyStack

/-! ## The line -/

namespace Line

/-- The line with another stack. -/
def withStack (l : Line) (stack : PlyStack) : Line := { l with stack }

/-- The lines differ above the cursor only. -/
def SameInUse (l l' : Line) : Prop := ∃ s, l.stack.SameSlots s ∧ l' = l.withStack s

variable {l l' : Line} {s : PlyStack} {pos : Position}

theorem SameInUse.view (h : l.SameInUse l') : l'.view = l.view := by
  obtain ⟨s, hs, rfl⟩ := h
  have hply : (l.withStack s).ply = l.ply := hs.ply
  have hcurrent : (l.withStack s).stack.current = l.stack.current := hs.current
  rw [Line.view, accumulator, hply, hcurrent]
  rfl

theorem pushed_withStack (h : l.stack.SameSlots s) (pos : Position) (c : Change) :
    (l.withStack s).pushed pos c = l.pushed pos c := by
  simp only [pushed, withStack, h.current]

theorem rawScore_withStack (h : l.stack.SameSlots s) (pos : Position) :
    (l.withStack s).rawScore pos = l.rawScore pos := by
  simp only [rawScore, accumulator, withStack, h.current]

theorem sync_sameInUse (h : l.stack.SameSlots s) (pos : Position) : (l.sync pos).SameInUse ((l.withStack s).sync pos) := by
  simp only [sync, withStack, h.current]
  split
  · exact ⟨s, h, rfl⟩
  · exact ⟨_, h.replace _, rfl⟩

theorem detect_sameInUse (h : l.stack.SameSlots s) (pos : Position) (depth : Int) :
    (l.detect pos depth).SameInUse ((l.withStack s).detect pos depth) := by
  have hwatch : Id.run ((l.withStack s).watch.detect depth (l.withStack s).tuning ((l.withStack s).rawScore pos)) =
      Id.run (l.watch.detect depth l.tuning (l.rawScore pos)) := by
    rw [rawScore_withStack h]
    rfl
  rcases hasked : Id.run (l.watch.detect depth l.tuning (l.rawScore pos)) with ⟨_ | phase, watch⟩
  · rw [detect_of_unasked hasked, detect_of_unasked (hwatch.trans hasked)]
    exact ⟨s, h, rfl⟩
  · by_cases hphase : phase = l.phase
    · subst hphase
      rw [detect_of_kept hasked, detect_of_kept (hwatch.trans hasked)]
      exact ⟨s, h, rfl⟩
    · rw [detect_of_switch hasked hphase, detect_of_switch (hwatch.trans hasked) hphase]
      exact ⟨_, h.replace _, rfl⟩

theorem evaluate_sameInUse (h : l.SameInUse l') (pos : Position) (depth : Int) (ply : Nat) :
    (l'.evaluate pos depth ply).1 = (l.evaluate pos depth ply).1 ∧
      (l.evaluate pos depth ply).2.SameInUse (l'.evaluate pos depth ply).2 := by
  obtain ⟨s, hs, rfl⟩ := h
  obtain ⟨s₁, hs₁, hsync⟩ := sync_sameInUse hs pos
  obtain ⟨s₂, hs₂, hdetect⟩ := detect_sameInUse hs₁ pos depth
  rw [← hsync] at hdetect
  refine ⟨?_, s₂, hs₂, hdetect⟩
  simp only [evaluate, hdetect, rawScore_withStack hs₂]
  rfl

/-! ## Calls -/

theorem call_sameInUse (h : l.SameInUse l') (c : Call) : Alike SameInUse (l.call c) (l'.call c) := by
  cases c with
  | push pos c =>
    obtain ⟨s, hs, rfl⟩ := h
    simp only [call, push_eq_advance, pushed_withStack hs]
    rcases hs.advance (l.pushed pos c) with ⟨f, hf, hf'⟩ | ⟨t, t', ht, ht', hsame⟩
    · simp only [withStack, hf, hf']
      rfl
    · simp only [withStack, ht, ht']
      exact ⟨rfl, t', hsame, rfl⟩
  | pop =>
    obtain ⟨s, hs, rfl⟩ := h
    rcases hs.pop with ⟨f, hf, hf'⟩ | ⟨t, t', ht, ht', hsame⟩
    · simp only [call, pop, withStack, hf, hf']
      rfl
    · simp only [call, pop, withStack, ht, ht']
      exact ⟨rfl, t', hsame, rfl⟩
  | evaluate pos depth ply =>
    obtain ⟨htrace, hsame⟩ := evaluate_sameInUse h pos depth ply
    simp only [call, htrace]
    cases (l.evaluate pos depth ply).1 with
    | error f => exact rfl
    | ok tr => exact ⟨rfl, hsame⟩
  | restart pos =>
    obtain ⟨s, hs, rfl⟩ := h
    exact ⟨rfl, _, PlyStack.reset_sameSlots l.stack s _, rfl⟩

theorem course_sameInUse (h : l.SameInUse l') (calls : List Call) : l'.course calls = l.course calls := by
  have hcourse := course_simulates (f := id) (g := id) (fun _ _ h => h.view) (fun _ _ c h => call_sameInUse h c) h calls
  rwa [List.map_id, Course.mapView_id] at hcourse

theorem start_sameInUse_restart (l : Line) (pos : Position) :
    (start l.networks pos l.tuning).SameInUse (l.restart pos) :=
  ⟨_, PlyStack.sameSlots_of_root rfl rfl (PlyStack.ofRoot_current _) (PlyStack.reset_current l.stack _), rfl⟩

/-- Whatever state a line is in, once begun again it looks like a new one, and goes on like
    one under all calls: the same answers, the same views, the same fault at the same call. And
    at any time the contents of the slots above the cursor make no difference. -/
theorem restart_as_new (l : Line) (calls : List Call) :
    (∀ pos, (l.restart pos).view = (start l.networks pos l.tuning).view ∧
      (l.restart pos).course calls = (start l.networks pos l.tuning).course calls) ∧
    ∀ junk, (l.withStack (l.stack.litter junk)).course calls = l.course calls := by
  refine ⟨fun pos => ?_, fun junk => ?_⟩
  · have hsame := start_sameInUse_restart l pos
    exact ⟨hsame.view, course_sameInUse hsame calls⟩
  · exact course_sameInUse ⟨_, PlyStack.sameSlots_litter l.stack junk, rfl⟩ calls

end Line

end ChessEval
