/-
  ChessEval.Proofs.Board.MoveText — which texts are moves, which move each of them is, and what is
  reported of the others.

  The text of a move is the names of two squares, and perhaps a letter for a knight, bishop, rook or
  queen in either case (`Spelled`). Any other text is refused, for its length before its squares,
  and for its squares before its letter (`Refuses`).
  - `Reading`: what reading a text comes to, and that it always does (`reading_ofText`). What is
    accepted is spelled as a move (`Reading.isOk_iff`), and written again it is the text with its
    fifth letter in lower case (`Reading.text_eq`); what is refused is refused for its first fault
    (`Reading.error_iff`).
  - `ofText_text`: a move that may be asked for is read back as it was written.
  - `StoredMove.ofText?_eq`: a host reads the same by cutting the text at bytes and judging the bytes.
    The length is judged first, so it never cuts within a character, or past the end.
-/

import ChessEval.Board.Move
import ChessEval.Proofs.SquareBytes

namespace ChessEval

namespace Move

/-! ## The language -/

/-- A file and a rank. -/
def IsSquareName (cs : List Char) : Prop := ∃ f r, cs = [f, r] ∧ ('a' ≤ f ∧ f ≤ 'h') ∧ '1' ≤ r ∧ r ≤ '8'

def promotionLetters : List Char := ['n', 'b', 'r', 'q', 'N', 'B', 'R', 'Q']

/-- ASCII, of four or five bytes. -/
def Measured (text : String) : Prop :=
  (∀ c ∈ text.toList, Text.IsAscii c) ∧ 4 ≤ text.utf8ByteSize ∧ text.utf8ByteSize ≤ 5

/-- The names of two squares come first. -/
def NamesSquares (cs : List Char) : Prop := IsSquareName (cs.take 2) ∧ IsSquareName ((cs.drop 2).take 2)

/-- The names of two squares, then nothing or a letter to promote to. -/
def Spelled (cs : List Char) : Prop := NamesSquares cs ∧ (cs.drop 4 = [] ∨ ∃ c ∈ promotionLetters, cs.drop 4 = [c])

/-- Why a text is no move. -/
inductive Refuses (text : String) : MoveTextError → Prop
  | length (h : ¬ Measured text) : Refuses text (.length text.utf8ByteSize)
  | square (h : Measured text) (hsquares : ¬ NamesSquares text.toList) : Refuses text (.square text)
  | promotion {c : Char} (h : Measured text) (hsquares : NamesSquares text.toList) (hc : text.toList.drop 4 = [c])
      (hletter : c ∉ promotionLetters) : Refuses text (.promotion c)

/-- What reading a text comes to. -/
inductive Reading (text : String) : Except MoveTextError Move → Prop
  | refused {e : MoveTextError} (h : Refuses text e) : Reading text (.error e)
  | plain {origin target : Square} (hcs : text.toList = origin.letters ++ target.letters) :
      Reading text (.ok ⟨origin, target, none⟩)
  | promoting {origin target : Square} {c : Char} {k : Kind} (hcs : text.toList = origin.letters ++ target.letters ++ [c])
      (hk : promotionOf? c = some k) : Reading text (.ok ⟨origin, target, some k⟩)

/-- The characters with the fifth in lower case. -/
def lowered (cs : List Char) : List Char := cs.take 4 ++ (cs.drop 4).map Char.toLower

/-! ## Squares and letters -/

/-- A file and a rank in order are the name of the square where they meet. -/
theorem isSquareName_iff {cs : List Char} : IsSquareName cs ↔ ∃ s : Square, cs = s.letters := by
  constructor
  · rintro ⟨f, r, rfl, ⟨hf, hf'⟩, hr, hr'⟩
    have hfile : f.toNat - 97 < 8 := by
      have : f.toNat ≤ 104 := hf'
      omega
    have hrank : r.toNat - 49 < 8 := by
      have : r.toNat ≤ 56 := hr'
      omega
    refine ⟨.ofCoords ⟨_, hrank⟩ ⟨_, hfile⟩, Fen.ofLetters?_eq_some_iff.mp ?_⟩
    simp only [Square.ofLetters?, Square.ofCoords?, hf, hr, hfile, hrank, and_self, if_true, dif_pos]
  · rintro ⟨⟨i⟩, rfl⟩
    refine ⟨_, _, rfl, ?_⟩
    revert i
    decide

/-- A letter that may be asked for is one of eight, and stands for the kind with that letter in lower case. -/
theorem mem_of_promotionOf? {c : Char} {k : Kind} (h : promotionOf? c = some k) :
    c ∈ promotionLetters ∧ k.letter = c.toLower := by
  obtain ⟨hletter, hpromotion⟩ := Option.filter_eq_some_iff.mp h
  unfold Kind.ofLetter? at hletter
  split at hletter <;> cases hletter <;> revert hpromotion <;> decide

theorem promotionOf?_eq_none_iff {c : Char} : promotionOf? c = none ↔ c ∉ promotionLetters := by
  have hall : promotionLetters.all (fun c => (promotionOf? c).isSome) = true := by decide
  constructor
  · intro h hmem
    have hsome := List.all_eq_true.mp hall c hmem
    rw [h] at hsome
    cases hsome
  · intro h
    cases hk : promotionOf? c with
    | none => rfl
    | some k => exact absurd (mem_of_promotionOf? hk).1 h

theorem promotionOf?_letter {k : Kind} (h : k.isPromotion) : promotionOf? k.letter = some k := by
  rw [promotionOf?, Kind.ofLetter?_letter]
  exact Option.filter_some_pos h

/-! ## Reading -/

theorem measured_iff {text : String} :
    Measured text ↔ (∀ c ∈ text.toList, Text.IsAscii c) ∧ 4 ≤ text.toList.length ∧ text.toList.length ≤ 5 := by
  refine and_congr_right fun h => ?_
  rw [← Text.length_bytes_toList, Text.length_bytes_of_ascii h]

theorem Measured.fifth {text : String} (h : Measured text) : text.toList.drop 4 = [] ∨ ∃ c, text.toList.drop 4 = [c] := by
  obtain ⟨-, -, hlength⟩ := measured_iff.mp h
  rw [← List.length_eq_one_iff, ← List.length_eq_zero_iff, List.length_drop]
  omega

theorem unmeasured_iff {text : String} :
    (text.toList.any (128 ≤ ·.toNat) || text.toList.length < 4 || 5 < text.toList.length) = true ↔ ¬ Measured text := by
  simp only [measured_iff, Text.IsAscii, Bool.or_eq_true, List.any_eq_true, decide_eq_true_eq, not_and_or, not_forall,
    Nat.not_lt, Nat.not_le, or_assoc, exists_prop]

section

variable {text : String}

theorem ofText_of_not_measured (h : ¬ Measured text) : ofText text = .error (.length text.utf8ByteSize) :=
  if_pos (unmeasured_iff.mpr h)

theorem ofText_of_measured (h : Measured text) :
    ofText text = match Square.ofLetters? (text.toList.take 2), Square.ofLetters? ((text.toList.drop 2).take 2) with
      | some origin, some target =>
        match text.toList.drop 4 with
        | [] => .ok ⟨origin, target, none⟩
        | c :: _ =>
          match promotionOf? c with
          | some k => .ok ⟨origin, target, some k⟩
          | none => .error (.promotion c)
      | _, _ => .error (.square text) :=
  if_neg (mt unmeasured_iff.mp (not_not.mpr h))

theorem ofText_of_not_namesSquares (h : Measured text) (hsquares : ¬ NamesSquares text.toList) :
    ofText text = .error (.square text) := by
  rw [ofText_of_measured h]
  split
  · rename_i origin target horigin htarget
    have horigin := Fen.ofLetters?_eq_some_iff.mp horigin
    have htarget := Fen.ofLetters?_eq_some_iff.mp htarget
    exact absurd ⟨isSquareName_iff.mpr ⟨origin, horigin⟩, isSquareName_iff.mpr ⟨target, htarget⟩⟩ hsquares
  · rfl

theorem namesSquares_letters (origin target : Square) (rest : List Char) :
    NamesSquares (origin.letters ++ target.letters ++ rest) :=
  ⟨isSquareName_iff.mpr ⟨origin, rfl⟩, isSquareName_iff.mpr ⟨target, rfl⟩⟩

theorem NamesSquares.eq_letters {cs : List Char} (h : NamesSquares cs) :
    ∃ origin target : Square, cs = origin.letters ++ target.letters ++ cs.drop 4 := by
  obtain ⟨⟨origin, horigin⟩, target, htarget⟩ := h.imp isSquareName_iff.mp isSquareName_iff.mp
  refine ⟨origin, target, ?_⟩
  rw [← horigin, ← htarget, ← List.take_add, List.take_append_drop]

/-- After the squares there is at most one character, which decides. -/
theorem reading_of_namesSquares (h : Measured text) (hsquares : NamesSquares text.toList) : Reading text (ofText text) := by
  obtain ⟨origin, target, hsplit⟩ := hsquares.eq_letters
  have horigin : text.toList.take 2 = origin.letters := by
    rw [hsplit]
    rfl
  have htarget : (text.toList.drop 2).take 2 = target.letters := by
    rw [hsplit]
    rfl
  rw [ofText_of_measured h, horigin, htarget, Square.ofLetters?_letters, Square.ofLetters?_letters]
  rcases h.fifth with hend | ⟨c, hc⟩
  · rw [hend] at hsplit ⊢
    exact .plain (hsplit.trans (List.append_nil _))
  · rw [hc] at hsplit ⊢
    simp only
    cases hk : promotionOf? c with
    | none => exact .refused (.promotion h hsquares hc (promotionOf?_eq_none_iff.mp hk))
    | some k => exact .promoting hsplit hk

theorem reading_ofText (text : String) : Reading text (ofText text) := by
  by_cases h : Measured text
  · by_cases hsquares : NamesSquares text.toList
    · exact reading_of_namesSquares h hsquares
    · rw [ofText_of_not_namesSquares h hsquares]
      exact .refused (.square h hsquares)
  · rw [ofText_of_not_measured h]
    exact .refused (.length h)

/-! ## The language and its faults -/

/-- The first fault is one. -/
theorem Refuses.unique {e e' : MoveTextError} (h : Refuses text e) (h' : Refuses text e') : e = e' := by
  cases h with
  | length h =>
    cases h' with
    | length => rfl
    | square h' => exact absurd h' h
    | promotion h' => exact absurd h' h
  | square h hsquares =>
    cases h' with
    | length h' => exact absurd h h'
    | square => rfl
    | promotion _ hsquares' => exact absurd hsquares' hsquares
  | promotion h hsquares hc =>
    cases h' with
    | length h' => exact absurd h h'
    | square _ hsquares' => exact absurd hsquares hsquares'
    | promotion _ _ hc' =>
      cases hc.symm.trans hc'
      rfl

theorem ascii_of_all {cs : List Char} (h : cs.all (·.toNat < 128) = true) : ∀ c ∈ cs, Text.IsAscii c :=
  fun c hc => of_decide_eq_true (List.all_eq_true.mp h c hc)

theorem ascii_of_mem_letters (s : Square) : ∀ c ∈ s.letters, Text.IsAscii c := by
  apply ascii_of_all
  obtain ⟨i⟩ := s
  revert i
  decide

theorem ascii_of_mem_promotionLetters : ∀ c ∈ promotionLetters, Text.IsAscii c := ascii_of_all (by decide)

theorem Spelled.measured (h : Spelled text.toList) : Measured text := by
  obtain ⟨hsquares, hrest⟩ := h
  obtain ⟨origin, target, hsplit⟩ := hsquares.eq_letters
  have hlast : (∀ c ∈ text.toList.drop 4, Text.IsAscii c) ∧ (text.toList.drop 4).length ≤ 1 := by
    rcases hrest with hend | ⟨c, hmem, hc⟩
    · rw [hend]
      exact ⟨fun c hc => (nomatch hc), Nat.zero_le 1⟩
    · rw [hc]
      exact ⟨List.forall_mem_singleton.mpr (ascii_of_mem_promotionLetters c hmem), Nat.le_refl 1⟩
  have hlength : (origin.letters ++ target.letters ++ text.toList.drop 4).length = 4 + (text.toList.drop 4).length :=
    List.length_append
  rw [measured_iff, hsplit, hlength]
  refine ⟨fun c hc => ?_, by omega, by omega⟩
  rcases List.mem_append.mp hc with hc | hc
  · exact (List.mem_append.mp hc).elim (ascii_of_mem_letters origin c) (ascii_of_mem_letters target c)
  · exact hlast.1 c hc

theorem Refuses.not_spelled {e : MoveTextError} (h : Refuses text e) : ¬ Spelled text.toList := by
  intro hspelled
  cases h with
  | length h => exact h hspelled.measured
  | square _ h => exact h hspelled.1
  | promotion _ _ hc hletter =>
    rcases hspelled.2 with hend | ⟨c', hmem, hc'⟩
    · cases hend.symm.trans hc
    · cases hc.symm.trans hc'
      exact hletter hmem

namespace Reading

theorem spelled {m : Move} (h : Reading text (.ok m)) : Spelled text.toList := by
  cases h with
  | plain hcs =>
    rw [hcs, ← List.append_nil (_ ++ _)]
    exact ⟨namesSquares_letters _ _ [], .inl rfl⟩
  | @promoting _ _ c _ hcs hk =>
    rw [hcs]
    exact ⟨namesSquares_letters _ _ [c], .inr ⟨c, (mem_of_promotionOf? hk).1, rfl⟩⟩

theorem text_eq {m : Move} (h : Reading text (.ok m)) : m.text = String.ofList (lowered text.toList) := by
  cases h with
  | plain hcs =>
    rw [hcs]
    rfl
  | promoting hcs hk =>
    rw [hcs, Move.text, letters, Option.map_some, (mem_of_promotionOf? hk).2]
    rfl

theorem error_iff {r : Except MoveTextError Move} (h : Reading text r) {e : MoveTextError} :
    r = .error e ↔ Refuses text e := by
  constructor
  · rintro rfl
    cases h with
    | refused h => exact h
  · intro he
    cases r with
    | ok m => exact absurd h.spelled he.not_spelled
    | error e' =>
      cases h with
      | refused h => rw [h.unique he]

theorem isOk_iff {r : Except MoveTextError Move} (h : Reading text r) : (∃ m, r = .ok m) ↔ Spelled text.toList := by
  constructor
  · rintro ⟨m, rfl⟩
    exact h.spelled
  · intro hspelled
    cases r with
    | ok m => exact ⟨m, rfl⟩
    | error e =>
      cases h with
      | refused h => exact absurd hspelled h.not_spelled

end Reading

end

/-! ## Writing -/

theorem spelled_letters {m : Move} (h : ∀ k ∈ m.promotion, k.isPromotion) : Spelled m.letters := by
  refine ⟨namesSquares_letters _ _ _, ?_⟩
  cases hk : m.promotion with
  | none => exact .inl (congrArg (fun p => (Option.map Kind.letter p).toList) hk)
  | some k =>
    have hletter := mem_of_promotionOf? (promotionOf?_letter (h k hk))
    exact .inr ⟨k.letter, hletter.1, congrArg (fun p => (Option.map Kind.letter p).toList) hk⟩

/-- A move that may be asked for is read back as it was written. -/
theorem ofText_text {m : Move} (h : ∀ k ∈ m.promotion, k.isPromotion) : ofText m.text = .ok m := by
  have hletters : m.text.toList = m.letters := String.toList_ofList
  have hspelled : Spelled m.text.toList := hletters.symm ▸ spelled_letters h
  have horigin : m.letters.take 2 = m.origin.letters := rfl
  have htarget : (m.letters.drop 2).take 2 = m.target.letters := rfl
  have hrest : m.letters.drop 4 = (m.promotion.map Kind.letter).toList := rfl
  rw [ofText_of_measured hspelled.measured, hletters, horigin, htarget, hrest, Square.ofLetters?_letters,
    Square.ofLetters?_letters]
  obtain ⟨origin, target, promotion⟩ := m
  cases promotion with
  | none => rfl
  | some k => simp only [Option.map_some, Option.toList_some, promotionOf?_letter (h k rfl)]

end Move

/-! ## Reading by bytes -/

namespace Stored

/-- A move whose squares are kept as bytes. -/
abbrev StoredMove := Move StoredSquare

namespace StoredMove

def ofMove (m : Move) : StoredMove := ⟨.ofSquare m.origin, .ofSquare m.target, m.promotion⟩

/-- Reads a move from the bytes of a text. There is no answer where the text would be cut within a
    character, or past its end. -/
def ofText? (text : String) : Option (Except MoveTextError StoredMove) :=
  let cs := text.toList
  let size := (Text.bytes cs).length
  if (∃ b ∈ Text.bytes cs, 128 ≤ b) ∨ size < 4 ∨ 5 < size then some (.error (.length size))
  else do
    match StoredSquare.ofLetters? (← Text.slice? 0 2 cs) with
    | none => return .error (.square text)
    | some origin =>
      match StoredSquare.ofLetters? (← Text.slice? 2 4 cs) with
      | none => return .error (.square text)
      | some target =>
        match ← Text.slice? 4 size cs with
        | [] => return .ok ⟨origin, target, none⟩
        | c :: _ =>
          match Move.promotionOf? c with
          | some k => return .ok ⟨origin, target, some k⟩
          | none => return .error (.promotion c)

theorem unmeasured_bytes_iff {text : String} :
    (∃ b ∈ Text.bytes text.toList, 128 ≤ b) ∨ (Text.bytes text.toList).length < 4 ∨ 5 < (Text.bytes text.toList).length ↔
      ¬ Move.Measured text := by
  rw [Move.Measured, ← Text.all_bytes_lt_iff, Text.length_bytes_toList]
  simp only [not_and_or, not_forall, UInt8.not_lt, Nat.not_le, exists_prop]

/-- Every text has an answer, and it is the move's. -/
theorem ofText?_eq (text : String) : ofText? text = some ((Move.ofText text).map ofMove) := by
  unfold ofText?
  by_cases h : Move.Measured text
  · obtain ⟨hascii, hlow, -⟩ := Move.measured_iff.mp h
    have hfirst : Text.slice? 0 2 text.toList = some (text.toList.take 2) :=
      Text.slice?_of_ascii hascii (by omega) (by omega)
    have hsecond : Text.slice? 2 4 text.toList = some ((text.toList.drop 2).take 2) := by
      rw [Text.slice?_of_ascii hascii (by omega) hlow, List.drop_take]
    have hrest : Text.slice? 4 text.toList.length text.toList = some (text.toList.drop 4) := by
      rw [Text.slice?_of_ascii hascii hlow (Nat.le_refl _), List.take_length]
    rw [if_neg (mt unmeasured_bytes_iff.mp (not_not.mpr h)), Text.length_bytes_of_ascii hascii, Move.ofText_of_measured h,
      hfirst, hsecond, hrest]
    simp only [Option.bind_eq_bind, Option.bind_some, StoredSquare.ofLetters?_eq]
    cases Square.ofLetters? (text.toList.take 2) with
    | none => rfl
    | some origin =>
      cases Square.ofLetters? ((text.toList.drop 2).take 2) with
      | none => rfl
      | some target =>
        cases text.toList.drop 4 with
        | nil => rfl
        | cons c _ =>
          cases hk : Move.promotionOf? c <;> simp only [Option.map_some, hk] <;> rfl
  · rw [if_pos (unmeasured_bytes_iff.mpr h), Move.ofText_of_not_measured h, Text.length_bytes_toList]
    rfl

end StoredMove

end Stored

/-- Move text is exact both ways: what is read is what is spelled as a move and is written back but for the case of its
    fifth letter, every move that may be asked for is read back as itself, and any other text is refused for its first
    fault. Reading it by bytes comes to the same, and never cuts a character. -/
theorem Move.move_text_exact :
    (∀ text, (∃ m, ofText text = .ok m) ↔ Spelled text.toList) ∧
    (∀ text m, ofText text = .ok m → m.text = String.ofList (lowered text.toList)) ∧
    (∀ m : Move, (∀ k ∈ m.promotion, k.isPromotion) → ofText m.text = .ok m) ∧
    (∀ text e, ofText text = .error e ↔ Refuses text e) ∧
    ∀ text, Stored.StoredMove.ofText? text = some ((ofText text).map Stored.StoredMove.ofMove) := by
  refine ⟨fun text => (reading_ofText text).isOk_iff, fun text m h => ?_, fun m => ofText_text,
    fun text e => (reading_ofText text).error_iff, Stored.StoredMove.ofText?_eq⟩
  exact (h ▸ reading_ofText text).text_eq

end ChessEval
