/-
  ChessEval.Proofs.Line.Slots — what the slots of a line hold.

  A slot is built from a position (`Slot.Built`) if its accumulator is the one that the
  network of its own tag makes of the position. A line tracks a walk (`Line.Tracks`) if
  the slot at every ply up to the cursor is built from the board that the walk had at that
  ply; the tags may be of different phases, and the slots above the cursor are free.

  - `push_cases`, `pop_cases`: a move moves the cursor by one ply and changes the stack only.
  - `evaluate_kept`: an evaluation changes nothing but the phase, the watch and the slot at the
    cursor, whatever the line holds.
  - `call_tracks`: every call that a walk makes is answered, and the line goes on
    tracking it. A push on a slot of the phase in force carries the accumulator on, which
    is right since moves report balanced changes; a push on a stale slot builds anew.
  - `slots_track_boards`: so it is after every walk from every board. Besides, the cursor
    counts the moves pending, and the slot at the cursor is of the phase in force unless
    the last step took a move back.
-/

import ChessEval.Proofs.Line.Walk
import ChessEval.Proofs.Network.Sums
import ChessEval.Proofs.Score.Divisors

namespace ChessEval

/-- The accumulator is the one that the slot's own network makes of the position. -/
def Slot.Built (n : PhaseNetworks) (pos : Position) (s : Slot) : Prop := s.accumulator = .ofPosition (n.get s.phase) pos

theorem Slot.Built.eq_slotOf {n : PhaseNetworks} {pos : Position} {s : Slot} (h : s.Built n pos) :
    s = PlyStack.slotOf n pos s.phase := by
  obtain ⟨a, phase⟩ := s
  unfold Built at h
  simp only at h
  rw [h]
  rfl

theorem Slot.built_slotOf (n : PhaseNetworks) (pos : Position) (phase : Phase) :
    (PlyStack.slotOf n pos phase).Built n pos := rfl

/-! ## The stack -/

namespace PlyStack

variable {s s' : PlyStack} {slot : Slot}

theorem getElem?_ply (s : PlyStack) : s.slots[s.ply]? = some s.current := by
  simp [ply, current, s.top.isLt]

/-- Going on a ply writes the slot above the cursor and no other. -/
theorem advance_of_lt (h : s.ply < maxPly) (slot : Slot) :
    ∃ s', s.advance slot = .ok s' ∧ s'.ply = s.ply + 1 ∧ s'.current = slot ∧
      ∀ k ≤ s.ply, s'.slots[k]? = s.slots[k]? := by
  have hroom : s.top + 1 < slotCount := Nat.succ_lt_succ h
  refine ⟨_, by rw [advance, dif_pos hroom], rfl, by simp [current], fun k hk => ?_⟩
  have hne : (s.top : Nat) + 1 ≠ k := by
    unfold ply at hk
    omega
  simp [hne]

theorem advance_of_not_lt (h : ¬ s.ply < maxPly) (slot : Slot) : s.advance slot = .error .stackFull :=
  dif_neg fun hroom => h (Nat.lt_of_succ_lt_succ hroom)

theorem advance_cases (h : s.advance slot = .ok s') :
    s'.ply = s.ply + 1 ∧ ∀ j ≤ s.ply, s'.slots[j]? = s.slots[j]? := by
  by_cases hroom : s.ply < maxPly
  · obtain ⟨t, ht, hply, -, hslots⟩ := advance_of_lt hroom slot
    cases ht.symm.trans h
    exact ⟨hply, hslots⟩
  · cases (advance_of_not_lt hroom slot).symm.trans h

theorem replace_current (s : PlyStack) (slot : Slot) : (s.replace slot).current = slot := by
  simp [replace, current]

theorem replace_getElem?_of_ne {k : Nat} (h : k ≠ s.ply) : (s.replace slot).slots[k]? = s.slots[k]? := by
  simp [replace, show (s.top : Nat) ≠ k from Ne.symm h]

theorem ofRoot_current (root : Slot) : (ofRoot root).current = root := by
  simp [ofRoot, current]

theorem reset_current (s : PlyStack) (root : Slot) : (s.reset root).current = root := by
  simp [reset, current]

theorem pop_of_pos (h : 0 < s.ply) : ∃ s', s.pop = .ok s' ∧ s'.ply + 1 = s.ply ∧ s'.slots = s.slots := by
  have htop : 0 < s.top.val := h
  refine ⟨⟨s.slots, ⟨s.top - 1, by omega⟩⟩, by rw [pop, if_pos htop], ?_, rfl⟩
  show s.top.val - 1 + 1 = s.top.val
  omega

theorem pop_cases (h : s.pop = .ok s') : s'.ply + 1 = s.ply ∧ s'.slots = s.slots := by
  by_cases hpos : 0 < s.ply
  · obtain ⟨t, ht, hply, hslots⟩ := pop_of_pos hpos
    cases ht.symm.trans h
    exact ⟨hply, hslots⟩
  · cases (if_neg hpos : s.pop = _).symm.trans h

end PlyStack

/-! ## The line -/

namespace Line

variable {l l' l'' : Line} {pos : Position}

/-- The slot that a push writes: the present one carried on, or one built anew. -/
def pushed (l : Line) (pos : Position) (c : Change) : Slot :=
  if l.stack.current.phase = l.phase then
    { l.stack.current with accumulator := l.stack.current.accumulator.apply (l.networks.get l.stack.current.phase) c }
  else PlyStack.slotOf l.networks pos l.phase

theorem push_eq_advance (l : Line) (pos : Position) (c : Change) :
    l.push pos c = (l.stack.advance (l.pushed pos c)).map fun stack => { l with stack } := by
  unfold push pushed
  split
  · rfl
  · rfl

theorem push_of_lt (h : l.ply < maxPly) (pos : Position) (c : Change) :
    ∃ l', l.push pos c = .ok l' ∧ l'.ply = l.ply + 1 := by
  obtain ⟨stack, hstack, hply, -⟩ := PlyStack.advance_of_lt h (l.pushed pos c)
  exact ⟨{ l with stack }, by rw [push_eq_advance, hstack]; rfl, hply⟩

theorem push_cases {c : Change} (h : l.push pos c = .ok l') :
    l'.ply = l.ply + 1 ∧ ∃ stack, l' = { l with stack } := by
  rw [push_eq_advance] at h
  obtain ⟨stack, hstack, rfl⟩ := of_map_eq_ok h
  exact ⟨(PlyStack.advance_cases hstack).1, stack, rfl⟩

theorem pop_cases (h : l.pop = .ok l') : l'.ply + 1 = l.ply ∧ ∃ stack, l' = { l with stack } := by
  obtain ⟨stack, hstack, rfl⟩ := of_map_eq_ok (show l.stack.pop.map _ = .ok l' from h)
  exact ⟨(PlyStack.pop_cases hstack).1, stack, rfl⟩

theorem pushed_phase (l : Line) (pos : Position) (c : Change) : (l.pushed pos c).phase = l.phase := by
  unfold pushed
  split
  · assumption
  · rfl

theorem pushed_built {c : Change} {before : Position} (hb : l.stack.current.Built l.networks before)
    (hc : c.Balances before pos) : (l.pushed pos c).Built l.networks pos := by
  unfold pushed
  split
  · show l.stack.current.accumulator.apply _ c = _
    rw [show l.stack.current.accumulator = _ from hb]
    exact Accumulator.apply_ofPosition _ hc
  · exact Slot.built_slotOf _ _ _

/-! ## What an evaluation leaves alone -/

/-- The lines differ at most in the phase, the watch and the slot at the cursor. -/
structure Kept (l l' : Line) : Prop where
  networks : l'.networks = l.networks
  tuning : l'.tuning = l.tuning
  rootAdvantage : l'.rootAdvantage = l.rootAdvantage
  top : l'.stack.top = l.stack.top
  others : ∀ k ≠ l.ply, l'.stack.slots[k]? = l.stack.slots[k]?

theorem Kept.ply (h : Kept l l') : l'.ply = l.ply := congrArg Fin.val h.top

theorem Kept.trans (h : Kept l l') (h' : Kept l' l'') : Kept l l'' where
  networks := h'.networks.trans h.networks
  tuning := h'.tuning.trans h.tuning
  rootAdvantage := h'.rootAdvantage.trans h.rootAdvantage
  top := h'.top.trans h.top
  others k hk := (h'.others k (by rwa [h.ply])).trans (h.others k hk)

theorem kept_watch (l : Line) (watch : PhaseWatch) : Kept l { l with watch } := ⟨rfl, rfl, rfl, rfl, fun _ _ => rfl⟩

theorem kept_rebuild (l : Line) (pos : Position) (phase : Phase) (watch : PhaseWatch) :
    Kept l { l with watch, phase, stack := l.stack.rebuild l.networks pos phase } :=
  ⟨rfl, rfl, rfl, rfl, fun _ hk => PlyStack.replace_getElem?_of_ne hk⟩

theorem sync_kept (l : Line) (pos : Position) : Kept l (l.sync pos) := by
  unfold sync
  split
  · exact kept_watch l l.watch
  · exact kept_rebuild l pos l.phase l.watch

theorem detect_kept (l : Line) (pos : Position) (depth : Int) : Kept l (l.detect pos depth) := by
  unfold detect
  split
  · split
    · exact kept_watch l _
    · exact kept_rebuild l pos _ _
  · exact kept_watch l _

theorem evaluate_kept (l : Line) (pos : Position) (depth : Int) (ply : Nat) : Kept l (l.evaluate pos depth ply).2 :=
  (sync_kept l pos).trans (detect_kept _ pos depth)

theorem evaluate_eq_trace (l : Line) (pos : Position) (depth : Int) (ply : Nat) :
    (l.evaluate pos depth ply).1 =
      Score.trace ((l.evaluate pos depth ply).2.rawScore pos) (.ofPosition pos ply l.rootAdvantage) l.tuning := by
  have hkept := evaluate_kept l pos depth ply
  rw [← hkept.rootAdvantage, ← hkept.tuning]
  rfl

/-! ## What it leaves at the cursor -/

/-- What an evaluation leaves of a line: only the slot at the cursor is new, built for the
    phase now in force. -/
structure Refreshed (pos : Position) (l l' : Line) : Prop where
  networks : l'.networks = l.networks
  tuning : l'.tuning = l.tuning
  rootAdvantage : l'.rootAdvantage = l.rootAdvantage
  ply : l'.ply = l.ply
  others : ∀ k ≠ l.ply, l'.stack.slots[k]? = l.stack.slots[k]?
  current : l'.stack.current = PlyStack.slotOf l.networks pos l'.phase

theorem Refreshed.of_kept (h : Kept l l') (hcurrent : l'.stack.current = PlyStack.slotOf l.networks pos l'.phase) :
    Refreshed pos l l' :=
  ⟨h.networks, h.tuning, h.rootAdvantage, h.ply, h.others, hcurrent⟩

theorem Refreshed.in_force (h : Refreshed pos l l') :
    l'.stack.current = PlyStack.slotOf l'.networks pos l'.phase := by
  rw [h.current, h.networks]

theorem sync_refreshed (h : l.stack.current.Built l.networks pos) : Refreshed pos l (l.sync pos) := by
  refine .of_kept (sync_kept l pos) ?_
  unfold sync
  split
  · rename_i hphase
    exact hphase ▸ h.eq_slotOf
  · exact PlyStack.replace_current _ _

theorem sync_phase (l : Line) (pos : Position) : (l.sync pos).phase = l.phase := by
  unfold sync
  split <;> rfl

theorem sync_watch (l : Line) (pos : Position) : (l.sync pos).watch = l.watch := by
  unfold sync
  split <;> rfl

theorem detect_refreshed (depth : Int) (h : l.stack.current = PlyStack.slotOf l.networks pos l.phase) :
    Refreshed pos l (l.detect pos depth) := by
  refine .of_kept (detect_kept l pos depth) ?_
  unfold detect
  split
  · split
    · exact h
    · exact PlyStack.replace_current _ _
  · exact h

theorem evaluate_refreshed (depth : Int) (ply : Nat) (h : l.stack.current.Built l.networks pos) :
    Refreshed pos l (l.evaluate pos depth ply).2 := by
  have hsync : Refreshed pos l (l.sync pos) := sync_refreshed h
  refine .of_kept (evaluate_kept l pos depth ply) ?_
  rw [← hsync.networks]
  exact (detect_refreshed depth hsync.in_force).current

theorem evaluate_ok (ht : l.tuning.NonzeroDivisors) (pos : Position) (depth : Int) (ply : Nat) :
    ∃ tr, (l.evaluate pos depth ply).1 = .ok tr := by
  rw [evaluate_eq_trace]
  exact Score.trace_ok ht _ _

/-! ## Tracking a walk -/

/-- The slots up to the cursor are built from the boards of the walk, each under its own tag. -/
structure Tracks (n : PhaseNetworks) (t : Tuning) (w : Walk) (l : Line) : Prop where
  networks : l.networks = n
  tuning : l.tuning = t
  ply : l.ply = w.past.length
  earlier : ∀ (k : Nat) (b : Board), w.earlier[k]? = some b →
    ∃ slot : Slot, l.stack.slots[k]? = some slot ∧ slot.Built n b.toPosition
  current : l.stack.current.Built n w.board.toPosition

variable {n : PhaseNetworks} {t : Tuning} {w w' : Walk} {c : Call}

theorem Tracks.built (h : Tracks n t w l) : l.stack.current.Built l.networks w.board.toPosition := by
  rw [h.networks]
  exact h.current

theorem Tracks.length_earlier (h : Tracks n t w l) : w.earlier.length = l.ply := by
  rw [h.ply, Walk.earlier, List.length_reverse, List.length_map]

theorem Tracks.boards (h : Tracks n t w l) {k : Nat} (hk : k ≤ l.ply) :
    ∃ (b : Board) (slot : Slot), w.boards[k]? = some b ∧ l.stack.slots[k]? = some slot ∧ slot.Built n b.toPosition := by
  have hlength := h.length_earlier
  by_cases hlt : k < l.ply
  · obtain ⟨slot, hslot, hbuilt⟩ := h.earlier k w.earlier[k] (List.getElem?_eq_getElem (by omega))
    refine ⟨_, slot, ?_, hslot, hbuilt⟩
    rw [Walk.boards, List.getElem?_append_left (by omega)]
    exact List.getElem?_eq_getElem (by omega)
  · have hkl : k = l.ply := by omega
    subst hkl
    refine ⟨w.board, l.stack.current, ?_, l.stack.getElem?_ply, h.current⟩
    rw [Walk.boards, ← hlength]
    exact List.getElem?_concat_length

theorem start_tracks (n : PhaseNetworks) (b : Board) (t : Tuning) : Tracks n t (.start b) (start n b.toPosition t) where
  networks := rfl
  tuning := rfl
  ply := rfl
  earlier k b' h := by cases h
  current := by
    show (PlyStack.ofRoot _).current.Built n _
    rw [PlyStack.ofRoot_current]
    exact Slot.built_slotOf _ _ _

theorem restart_tracks (h : Tracks n t w l) : Tracks n t ⟨w.board, []⟩ (l.restart w.board.toPosition) where
  networks := h.networks
  tuning := h.tuning
  ply := rfl
  earlier k b' hb := by cases hb
  current := by
    show (l.stack.reset _).current.Built n _
    rw [PlyStack.reset_current, h.networks]
    exact Slot.built_slotOf _ _ _

theorem Refreshed.tracks {l' : Line} (h : Tracks n t w l) (hr : Refreshed w.board.toPosition l l') :
    Tracks n t w l' where
  networks := hr.networks.trans h.networks
  tuning := hr.tuning.trans h.tuning
  ply := hr.ply.trans h.ply
  earlier k b hb := by
    have hk : k < w.earlier.length := (List.getElem?_eq_some_iff.mp hb).1
    have hne : k ≠ l.ply := by
      rw [h.length_earlier] at hk
      omega
    rw [hr.others k hne]
    exact h.earlier k b hb
  current := by
    rw [hr.current, h.networks]
    exact Slot.built_slotOf _ _ _

theorem push_tracks (h : Tracks n t w l) {m : Move} {p : Played} (hp : w.board.play m = .ok p)
    (hne : m.origin ≠ m.target) (hlt : w.past.length < maxPly) :
    ∃ l', l.push p.board.toPosition p.change = .ok l' ∧ Tracks n t ⟨p.board, (w.board, p.undo) :: w.past⟩ l' ∧
      l'.stack.current.phase = l'.phase := by
  have hroom : l.ply < maxPly := by
    rw [h.ply]
    exact hlt
  obtain ⟨s', hs, hply, hcurrent, hbelow⟩ := PlyStack.advance_of_lt hroom (l.pushed p.board.toPosition p.change)
  refine ⟨{ l with stack := s' }, by rw [push_eq_advance, hs]; rfl, ?_, ?_⟩
  · refine ⟨h.networks, h.tuning, hply.trans (congrArg (· + 1) h.ply), fun k b hb => ?_, ?_⟩
    · have hboards : Walk.earlier ⟨p.board, (w.board, p.undo) :: w.past⟩ = w.boards := by
        simp [Walk.earlier, Walk.boards]
      rw [hboards] at hb
      have hk : k < w.boards.length := (List.getElem?_eq_some_iff.mp hb).1
      have hkl : k ≤ l.ply := by
        rw [Walk.boards, List.length_append, h.length_earlier, List.length_singleton] at hk
        omega
      obtain ⟨b', slot, hb', hslot, hbuilt⟩ := h.boards hkl
      rw [hb] at hb'
      cases hb'
      exact ⟨slot, (hbelow k hkl).trans hslot, hbuilt⟩
    · show s'.current.Built n _
      rw [hcurrent, ← h.networks]
      exact pushed_built h.built (Board.play_balances hp hne)
  · show s'.current.phase = l.phase
    rw [hcurrent]
    exact pushed_phase _ _ _

theorem pop_tracks (h : Tracks n t w l) {before : Board} {u : Undo} {past : List (Board × Undo)}
    (hpast : w.past = (before, u) :: past) : ∃ l', l.pop = .ok l' ∧ Tracks n t ⟨before, past⟩ l' := by
  have hpos : 0 < l.ply := by
    rw [h.ply, hpast]
    exact Nat.succ_pos _
  obtain ⟨s', hs, hply, hslots⟩ := PlyStack.pop_of_pos hpos
  have hearlier : w.earlier = Walk.boards ⟨before, past⟩ := by
    simp [Walk.earlier, Walk.boards, hpast]
  have hlength : s'.ply = (Walk.earlier ⟨before, past⟩).length := by
    have hl := h.length_earlier
    rw [hearlier, Walk.boards, List.length_append, List.length_singleton] at hl
    have hplyl : s'.ply + 1 = l.ply := hply
    omega
  refine ⟨{ l with stack := s' }, by rw [pop, hs]; rfl, h.networks, h.tuning, ?_, fun k b hb => ?_, ?_⟩
  · show s'.ply = past.length
    rw [hlength, Walk.earlier, List.length_reverse, List.length_map]
  · show ∃ slot : Slot, s'.slots[k]? = some slot ∧ _
    rw [hslots]
    apply h.earlier
    rw [hearlier, Walk.boards, List.getElem?_append_left (List.getElem?_eq_some_iff.mp hb).1]
    exact hb
  · obtain ⟨slot, hslot, hbuilt⟩ := h.earlier s'.ply before (by
      rw [hearlier, Walk.boards, hlength]
      exact List.getElem?_concat_length)
    rw [← hslots, s'.getElem?_ply] at hslot
    cases hslot
    exact hbuilt

/-- A step of the walk is answered, and the line tracks the walk it leads to. -/
theorem call_tracks {s : Step} (ht : t.NonzeroDivisors) (hl : Tracks n t w l) (hw : Walk.Unwinds w.board w.past)
    (h : w.next? s = some (w', c)) :
    ∃ answer l', l.call c = .ok (answer, l') ∧ Tracks n t w' l' ∧
      (s ≠ .takeBack → l'.stack.current.phase = l'.phase) := by
  cases s with
  | play m =>
    obtain ⟨p, hp, hne, hlt, rfl, rfl⟩ := Walk.next?_play h
    obtain ⟨l', hl', htracks, hphase⟩ := push_tracks hl hp hne hlt
    exact ⟨none, l', by rw [call, hl']; rfl, htracks, fun _ => hphase⟩
  | takeBack =>
    obtain ⟨before, u, past, hpast, rfl, rfl⟩ := Walk.next?_takeBack h
    obtain ⟨l', hl', htracks⟩ := pop_tracks hl hpast
    rw [hpast] at hw
    refine ⟨none, l', by rw [call, hl']; rfl, ?_, fun hs => absurd rfl hs⟩
    rw [hw.1]
    exact htracks
  | evaluate depth ply =>
    cases h
    have hr := evaluate_refreshed depth ply hl.built
    obtain ⟨tr, htr⟩ := evaluate_ok (hl.tuning ▸ ht) w.board.toPosition depth ply
    exact ⟨some tr, _, call_evaluate htr, hr.tracks hl, fun _ => by rw [hr.current]; rfl⟩
  | restart =>
    cases h
    refine ⟨none, _, rfl, restart_tracks hl, fun _ => ?_⟩
    show (l.stack.reset _).current.phase = Phase.initial
    rw [PlyStack.reset_current]
    rfl

theorem run_tracks {steps : List Step} {calls : List Call} (ht : t.NonzeroDivisors) (hl : Tracks n t w l)
    (hw : Walk.Unwinds w.board w.past) (h : w.run? steps = some (w', calls)) :
    ∃ answers l', runCalls call l calls = .ok (answers, l') ∧ Tracks n t w' l' ∧
      ((steps = [] → l.stack.current.phase = l.phase) → steps.getLast? ≠ some .takeBack →
        l'.stack.current.phase = l'.phase) := by
  induction steps generalizing w l calls with
  | nil =>
    cases h
    exact ⟨[], l, rfl, hl, fun hnil _ => hnil rfl⟩
  | cons s steps ih =>
    obtain ⟨w₁, c, cs, hs, hrest, rfl⟩ := Walk.run?_cons h
    obtain ⟨answer, l₁, hcall, htracks, hphase⟩ := call_tracks ht hl hw hs
    obtain ⟨answers, l', hcalls, htracks', hphase'⟩ := ih htracks (Walk.next?_unwinds hw hs) hrest
    refine ⟨answer :: answers, l', runCalls_cons hcall hcalls, htracks', fun _ hlast => hphase' (fun hnil => ?_) ?_⟩
    · subst hnil
      exact hphase fun hs => hlast (congrArg some hs)
    · cases steps with
      | nil => exact fun hnone => by cases hnone
      | cons s' steps => exact hlast

/-- After every walk from every board, each slot up to the cursor holds the accumulator of the
    board at its ply, under the network of its own tag. -/
theorem slots_track_boards (n : PhaseNetworks) (t : Tuning) (b : Board) (steps : List Step) (w : Walk)
    (calls : List Call) (ht : t.NonzeroDivisors) (h : (Walk.start b).run? steps = some (w, calls)) :
    ∃ answers l, runCalls call (start n b.toPosition t) calls = .ok (answers, l) ∧
      (∀ k ≤ l.ply, ∃ (bk : Board) (slot : Slot), w.boards[k]? = some bk ∧ l.stack.slots[k]? = some slot ∧
        slot.accumulator = .ofPosition (n.get slot.phase) bk.toPosition) ∧
      (steps.getLast? ≠ some .takeBack → l.stack.current.phase = l.phase) ∧
      l.ply = steps.foldl Step.pending 0 := by
  obtain ⟨answers, l, hcalls, htracks, hphase⟩ := run_tracks ht (start_tracks n b t) trivial h
  refine ⟨answers, l, hcalls, fun k hk => htracks.boards hk, hphase fun _ => ?_, ?_⟩
  · rw [(start_tracks n b t).current.eq_slotOf]
    show (PlyStack.ofRoot _).current.phase = Phase.initial
    rw [PlyStack.ofRoot_current]
    rfl
  · rw [htracks.ply, Walk.run?_length h]
    rfl

/-- With a margin below zero an even score speaks for the sacrifice network: the line switches
    above a parent that stays as it was, and comes back to it. -/
theorem slots_track_over_a_stale_parent :
    let t : Tuning := { sacrificeMargin := -1 }
    let e4 : Move := ⟨.ofCoords 1 4, .ofCoords 3 4, none⟩
    let e5 : Move := ⟨.ofCoords 6 4, .ofCoords 4 4, none⟩
    let steps : List Step := [.play e4, .evaluate 6 1, .play e5, .takeBack, .takeBack, .evaluate 5 0]
    t.NonzeroDivisors ∧ ∃ w calls, (Walk.start .start).run? steps = some (w, calls) ∧
      ∃ answers l, runCalls call (start .zero Board.start.toPosition t) calls = .ok (answers, l) ∧
        (∀ k ≤ l.ply, ∃ (bk : Board) (slot : Slot), w.boards[k]? = some bk ∧ l.stack.slots[k]? = some slot ∧
          slot.accumulator = .ofPosition (PhaseNetworks.zero.get slot.phase) bk.toPosition) ∧
        (steps.getLast? ≠ some .takeBack → l.stack.current.phase = l.phase) ∧
        l.ply = steps.foldl Step.pending 0 := by
  intro t e4 e5 steps
  have ht : t.NonzeroDivisors := ⟨by decide, by decide, by decide⟩
  have hsome : ((Walk.start .start).run? steps).isSome := by decide
  obtain ⟨⟨w, calls⟩, h⟩ := Option.isSome_iff_exists.mp hsome
  exact ⟨ht, w, calls, h, slots_track_boards .zero t .start steps w calls ht h⟩

end Line

end ChessEval
