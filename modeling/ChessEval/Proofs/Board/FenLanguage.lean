/-
  ChessEval.Proofs.Board.FenLanguage — which texts are boards, which board each of them is, and what
  is reported of the others.

  The language is said without the reader: a row is digits and piece letters, at most eight files
  wide in all (`IsRow`), and a piece stands at the width before its letter (`Stands`); the other
  fields alike (`Accepts`, `Denotes`). A text outside it has a first fault (`Fails`).
  - `Reads`: what is shown of each reader. A text in order is read, as what it denotes; every fault
    is reported; and a text that is not in order has one.
  - `readRow_fits`: characters that each have room are read, and put the pieces at their widths.
  - `readRow_reads`: so the two tests for width, at a letter and at the end, are one test of the row.
  - `readRows_append`, `readPlacement_reads`: rows that are in order fill their ranks.
  - `Reads.bind`: one field after the other, the first fault being the one reported.
  - `ofFen_language`: hence the texts accepted are the language, each read as its one board, and
    the error is the first fault.
-/

import ChessEval.Proofs.Board.FenRoundTrip

namespace ChessEval.Fen

/-! ## The language -/

/-- A digit, or the letter of a piece. -/
def IsRowChar (c : Char) : Prop := c.isDigit = true ∨ ∃ p : Piece, c = p.letter

/-- The files that a character of a row takes up. -/
def charWidth (c : Char) : Nat := if c.isDigit then c.toNat - 48 else 1

def width : List Char → Nat
  | [] => 0
  | c :: cs => charWidth c + width cs

structure IsRow (cs : List Char) : Prop where
  chars : ∀ c ∈ cs, IsRowChar c
  width_le : width cs ≤ 8

/-- The piece has a letter among these characters, which are read from a width on, and this file is
    the width before the letter. -/
def Stands (start : Nat) (cs : List Char) (file : Nat) (p : Piece) : Prop :=
  ∃ before after, cs = before ++ p.letter :: after ∧ file = start + width before

/-- The rows of a placement, the eighth rank first. -/
def rowsOf (placement : List Char) : List (List Char) := placement.splitOnP (· == '/')

structure IsPlacement (rows : List (List Char)) : Prop where
  length_le : rows.length ≤ 8
  row : ∀ cs ∈ rows, IsRow cs

def IsSide (field : List Char) : Prop := ∃ c, field = [sideLetter c]

def rightLetter : Color → Wing → Char
  | .white, .king => 'K'
  | .white, .queen => 'Q'
  | .black, .king => 'k'
  | .black, .queen => 'q'

def IsCastlingChar (c : Char) : Prop := c = '-' ∨ ∃ color wing, c = rightLetter color wing

def IsTarget (field : List Char) : Prop := field = ['-'] ∨ ∃ s : Square, field = s.letters

/-- The field is a number of 32 bits: digits, at least one, after a plus sign or none. -/
def Numeral (field : List Char) (n : Nat) : Prop :=
  n < UInt32.size ∧ ∃ ds, (field = ds ∨ field = '+' :: ds) ∧ ds ≠ [] ∧ (∀ c ∈ ds, c.isDigit = true) ∧ Text.digitsValue ds = n

/-- The fields are those of a board; of the fields after the side to move any may be missing. -/
structure Accepts (placement side : List Char) (rest : List (List Char)) : Prop where
  placement : IsPlacement (rowsOf placement)
  side : IsSide side
  castling : ∀ field ∈ rest[0]?, ∀ c ∈ field, IsCastlingChar c
  enPassant : ∀ field ∈ rest[1]?, IsTarget field
  clock : ∀ field ∈ rest[2]?, ∃ n, Numeral field n

/-- The board is the one that the fields describe: row `i` is the rank `7 - i`, and what is not
    there is none, 0 or, for the number of the move, 1. -/
structure Denotes (placement side : List Char) (rest : List (List Char)) (b : Board) : Prop where
  pieces : ∀ s p, b.pieceOn s = some p ↔
    ∃ i row, (rowsOf placement)[i]? = some row ∧ s.rank.val + i = 7 ∧ Stands 0 row s.file p
  side : side = [sideLetter b.sideToMove]
  castling : ∀ c w, b.castling.has c w = true ↔ ∃ field ∈ rest[0]?, rightLetter c w ∈ field
  enPassant : ∀ s, b.enPassant = some s ↔ rest[1]? = some s.letters
  clock : (∀ field ∈ rest[2]?, Numeral field b.halfmoveClock.toNat) ∧ (rest[2]? = none → b.halfmoveClock = 0)
  number : (∀ field ∈ rest[3]?, ∀ n, Numeral field n → b.fullmoveNumber.toNat = n) ∧
    ((¬ ∃ field ∈ rest[3]?, ∃ n, Numeral field n) → b.fullmoveNumber = 1)

/-! ## Faults -/

/-- The characters, read from a width on, are such as a row may have, and each piece has a file. -/
structure Fits (start : Nat) (cs : List Char) : Prop where
  chars : ∀ c ∈ cs, IsRowChar c
  room : ∀ {file p}, Stands start cs file p → file < 8

/-- The first fault of row `i`. A letter that names no piece is one at whatever width it stands; the
    width that is reported is counted to 255. -/
inductive RowFails (i : Nat) : List Char → FenError → Prop
  | letter {before c after} : Fits 0 before → ¬ IsRowChar c → RowFails i (before ++ c :: after) (.badPiece c)
  | crowded {before after} {p : Piece} : Fits 0 before → 8 ≤ width before →
      RowFails i (before ++ p.letter :: after) (.tooManyFiles i (min 255 (width before) + 1))
  | wide {cs} : Fits 0 cs → 8 < width cs → RowFails i cs (.tooManyFiles i (min 255 (width cs)))

/-- The first fault of the rows; a ninth is one whatever it contains. -/
inductive PlacementFails : List (List Char) → FenError → Prop
  | row {before cs after e} : before.length < 8 → (∀ r ∈ before, IsRow r) → RowFails before.length cs e →
      PlacementFails (before ++ cs :: after) e
  | ninth {before cs after} : before.length = 8 → (∀ r ∈ before, IsRow r) →
      PlacementFails (before ++ cs :: after) (.tooManyRows 8)

/-- The first fault of the fields. -/
inductive Fails : List (List Char) → FenError → Prop
  | few {fields} : fields.length < 2 → Fails fields (.tooFewFields fields.length)
  | placement {placement side rest e} : PlacementFails (rowsOf placement) e → Fails (placement :: side :: rest) e
  | side {placement side rest} : IsPlacement (rowsOf placement) → ¬ IsSide side →
      Fails (placement :: side :: rest) (.badSide (String.ofList side))
  | castling {placement side rest before c after} : IsPlacement (rowsOf placement) → IsSide side →
      rest[0]? = some (before ++ c :: after) → (∀ b ∈ before, IsCastlingChar b) → ¬ IsCastlingChar c →
      Fails (placement :: side :: rest) (.badCastling c)
  | enPassant {placement side rest field} : IsPlacement (rowsOf placement) → IsSide side →
      (∀ field ∈ rest[0]?, ∀ c ∈ field, IsCastlingChar c) → rest[1]? = some field → ¬ IsTarget field →
      Fails (placement :: side :: rest) (.badEnPassant (String.ofList field))
  | clock {placement side rest field} : IsPlacement (rowsOf placement) → IsSide side →
      (∀ field ∈ rest[0]?, ∀ c ∈ field, IsCastlingChar c) → (∀ field ∈ rest[1]?, IsTarget field) →
      rest[2]? = some field → (¬ ∃ n, Numeral field n) →
      Fails (placement :: side :: rest) (.badClock (String.ofList field))

/-! ## Readers -/

/-- What a reader answers: to a text in order something that it denotes, to any other its fault. -/
structure Reads {α : Type} (answer : Except FenError α) (ok : Prop) (denotes : α → Prop)
    (fails : FenError → Prop) : Prop where
  value : ok → ∃ a, answer = .ok a ∧ denotes a
  fault : ∀ e, fails e → answer = .error e
  complete : ok ∨ ∃ e, fails e

namespace Reads

variable {α β : Type} {answer : Except FenError α} {ok ok' : Prop} {denotes : α → Prop} {fails fails' : FenError → Prop}

theorem error_iff (h : Reads answer ok denotes fails) {e : FenError} : answer = .error e ↔ fails e := by
  refine ⟨fun he => ?_, h.fault e⟩
  rcases h.complete with hok | ⟨e', he'⟩
  · obtain ⟨a, ha, -⟩ := h.value hok
    rw [ha] at he
    cases he
  · have hanswer := h.fault e' he'
    rw [he] at hanswer
    cases hanswer
    exact he'

theorem isOk_iff (h : Reads answer ok denotes fails) : (∃ a, answer = .ok a) ↔ ok := by
  constructor
  · rintro ⟨a, ha⟩
    rcases h.complete with hok | ⟨e, he⟩
    · exact hok
    · have hanswer := h.fault e he
      rw [ha] at hanswer
      cases hanswer
  · intro hok
    obtain ⟨a, ha, -⟩ := h.value hok
    exact ⟨a, ha⟩

/-- Where a text denotes one thing only, that is what is read. -/
theorem ok_iff (h : Reads answer ok denotes fails) (hone : ∀ a a', denotes a → denotes a' → a = a') {a : α} :
    answer = .ok a ↔ ok ∧ denotes a := by
  constructor
  · intro ha
    have hok := h.isOk_iff.mp ⟨a, ha⟩
    obtain ⟨a', ha', hd⟩ := h.value hok
    rw [ha] at ha'
    cases ha'
    exact ⟨hok, hd⟩
  · rintro ⟨hok, hd⟩
    obtain ⟨a', ha', hd'⟩ := h.value hok
    rw [ha', hone a a' hd hd']

/-- One reader after another: the second is asked only if the first has found no fault. -/
theorem bind {next : α → Except FenError β} {final : β → Prop} (h : Reads answer ok denotes fails)
    (hnext : ∀ a, denotes a → Reads (next a) ok' final fails') :
    Reads (answer >>= next) (ok ∧ ok') final (fun e => fails e ∨ ok ∧ fails' e) where
  value := by
    rintro ⟨hok, hok'⟩
    obtain ⟨a, rfl, hd⟩ := h.value hok
    exact (hnext a hd).value hok'
  fault := by
    rintro e (he | ⟨hok, he⟩)
    · rw [h.fault e he]
      rfl
    · obtain ⟨a, rfl, hd⟩ := h.value hok
      exact (hnext a hd).fault e he
  complete := by
    rcases h.complete with hok | ⟨e, he⟩
    · obtain ⟨a, -, hd⟩ := h.value hok
      exact (hnext a hd).complete.imp (⟨hok, ·⟩) fun ⟨e, he⟩ => ⟨e, Or.inr ⟨hok, he⟩⟩
    · exact Or.inr ⟨e, Or.inl he⟩

theorem done {a : α} (h : denotes a) : Reads (.ok a) True denotes fun _ => False :=
  ⟨fun _ => ⟨a, rfl, h⟩, nofun, Or.inl trivial⟩

theorem congr (h : Reads answer ok denotes fails) (hok : ok ↔ ok') (hfails : ∀ e, fails e ↔ fails' e) :
    Reads answer ok' denotes fails' where
  value hok' := h.value (hok.mpr hok')
  fault e he := h.fault e ((hfails e).mpr he)
  complete := h.complete.imp hok.mp fun ⟨e, he⟩ => ⟨e, (hfails e).mp he⟩

end Reads

/-- The first member of a list that is not as the others should be. -/
theorem all_or_first {α : Type} (P : α → Prop) (as : List α) :
    (∀ a ∈ as, P a) ∨ ∃ before a after, as = before ++ a :: after ∧ (∀ b ∈ before, P b) ∧ ¬ P a := by
  induction as with
  | nil => exact Or.inl fun a ha => (nomatch ha)
  | cons a as ih =>
    by_cases ha : P a
    · rcases ih with hall | ⟨before, c, after, rfl, hbefore, hc⟩
      · exact Or.inl (List.forall_mem_cons.mpr ⟨ha, hall⟩)
      · exact Or.inr ⟨a :: before, c, after, rfl, List.forall_mem_cons.mpr ⟨ha, hbefore⟩, hc⟩
    · exact Or.inr ⟨[], a, as, rfl, fun b hb => (nomatch hb), ha⟩

/-! ## Rows -/

theorem ofLetter?_eq_some_iff {c : Char} {p : Piece} : Piece.ofLetter? c = some p ↔ c = p.letter := by
  constructor
  · intro h
    obtain ⟨k, hk, rfl⟩ := Option.map_eq_some_iff.mp h
    unfold Kind.ofLetter? at hk
    split at hk <;> cases hk <;> rfl
  · rintro rfl
    exact Piece.ofLetter?_letter p

theorem charWidth_letter (p : Piece) : charWidth p.letter = 1 := by
  rw [charWidth, letter_isDigit]
  rfl

theorem width_cons (c : Char) (cs : List Char) : width (c :: cs) = charWidth c + width cs := rfl

theorem width_append (cs ds : List Char) : width (cs ++ ds) = width cs + width ds := by
  induction cs with
  | nil => exact (Nat.zero_add _).symm
  | cons c cs ih => rw [List.cons_append, width_cons, width_cons, ih, Nat.add_assoc]

theorem stands_cons {w : Nat} {c : Char} {cs : List Char} {file : Nat} {p : Piece} :
    Stands w (c :: cs) file p ↔ c = p.letter ∧ file = w ∨ Stands (w + charWidth c) cs file p := by
  constructor
  · rintro ⟨_ | ⟨b, before⟩, after, h, rfl⟩
    · injection h with hc _
      exact Or.inl ⟨hc, rfl⟩
    · injection h with hc hcs
      exact Or.inr ⟨before, after, hcs, by rw [width_cons, hc, Nat.add_assoc]⟩
  · rintro (⟨rfl, rfl⟩ | ⟨before, after, rfl, rfl⟩)
    · exact ⟨[], cs, rfl, rfl⟩
    · exact ⟨c :: before, after, rfl, by rw [width_cons, Nat.add_assoc]⟩

theorem Stands.bounds {w : Nat} {cs : List Char} {file : Nat} {p : Piece} (h : Stands w cs file p) :
    w ≤ file ∧ file < w + width cs := by
  obtain ⟨before, after, rfl, rfl⟩ := h
  rw [width_append, width_cons, charWidth_letter]
  omega

theorem fits_cons {w : Nat} {c : Char} {cs : List Char} :
    Fits w (c :: cs) ↔ IsRowChar c ∧ (∀ p : Piece, c = p.letter → w < 8) ∧ Fits (w + charWidth c) cs := by
  constructor
  · rintro ⟨hchars, hroom⟩
    obtain ⟨hc, hcs⟩ := List.forall_mem_cons.mp hchars
    exact ⟨hc, fun p hp => hroom (stands_cons.mpr (Or.inl ⟨hp, rfl⟩)), hcs, fun h => hroom (stands_cons.mpr (Or.inr h))⟩
  · rintro ⟨hc, hletter, hcs, hroom⟩
    refine ⟨List.forall_mem_cons.mpr ⟨hc, hcs⟩, fun h => ?_⟩
    rcases stands_cons.mp h with ⟨hp, rfl⟩ | h
    · exact hletter _ hp
    · exact hroom h

/-- A row that is in order has a file for each piece: the width before it is less than that of the row. -/
theorem IsRow.fits {cs : List Char} (h : IsRow cs) : Fits 0 cs :=
  ⟨h.chars, fun hs => by have := hs.bounds; have := h.width_le; omega⟩

/-- Characters fit, or there is a first that does not. -/
theorem fits_or_first (w : Nat) (cs : List Char) :
    Fits w cs ∨ ∃ before c after, cs = before ++ c :: after ∧ Fits w before ∧
      (¬ IsRowChar c ∨ (∃ p : Piece, c = p.letter) ∧ 8 ≤ w + width before) := by
  have hnil (w : Nat) : Fits w [] := ⟨fun c hc => (nomatch hc), fun ⟨_, _, h, _⟩ => by simp at h⟩
  induction cs generalizing w with
  | nil => exact Or.inl (hnil w)
  | cons c cs ih =>
    by_cases hc : IsRowChar c
    · by_cases hfull : (∃ p : Piece, c = p.letter) ∧ 8 ≤ w
      · exact Or.inr ⟨[], c, cs, rfl, hnil w, Or.inr hfull⟩
      · have hletter (p : Piece) (hp : c = p.letter) : w < 8 := Nat.lt_of_not_le fun hw => hfull ⟨⟨p, hp⟩, hw⟩
        rcases ih (w + charWidth c) with hfits | ⟨before, d, after, rfl, hbefore, hd⟩
        · exact Or.inl (fits_cons.mpr ⟨hc, hletter, hfits⟩)
        · refine Or.inr ⟨c :: before, d, after, rfl, fits_cons.mpr ⟨hc, hletter, hbefore⟩, ?_⟩
          rwa [width_cons, ← Nat.add_assoc]
    · exact Or.inr ⟨[], c, cs, rfl, hnil w, Or.inl hc⟩

theorem letter_inj {p q : Piece} : p.letter = q.letter ↔ p = q := by
  constructor
  · intro h
    simpa using congrArg Piece.ofLetter? h
  · exact congrArg Piece.letter

theorem letter_ne_of_isDigit {c : Char} (h : c.isDigit = true) (p : Piece) : c ≠ p.letter := by
  intro hc
  rw [hc, letter_isDigit] at h
  cases h

theorem readRow_digit (row : Fin 8) (cells : Placement) (w : Nat) {c : Char} (h : c.isDigit = true) (cs : List Char) :
    readRow row cells (min 255 w) (c :: cs) = readRow row cells (min 255 (w + charWidth c)) cs := by
  have hwidth : charWidth c = c.toNat - 48 := if_pos h
  have hsum : min 255 (min 255 w + (c.toNat - 48)) = min 255 (w + charWidth c) := by omega
  rw [readRow, if_pos h, hsum]

theorem readRow_letter (row : Fin 8) (cells : Placement) {w : Nat} (hw : w < 8) (p : Piece) (cs : List Char) :
    readRow row cells (min 255 w) (p.letter :: cs) =
      readRow row (cells.set (.ofCoords row.rev ⟨w, hw⟩) (some p)) (min 255 (w + 1)) cs := by
  have hcoords : Square.ofCoords? row.rev w = some (.ofCoords row.rev ⟨w, hw⟩) := dif_pos ⟨row.rev.isLt, hw⟩
  rw [Nat.min_eq_right (by omega), Nat.min_eq_right (by omega), readRow, if_neg (by simp [letter_isDigit])]
  simp only [Piece.ofLetter?_letter, hcoords]

theorem ofCoords_rev_eq_iff {row file : Fin 8} {s : Square} :
    Square.ofCoords row.rev file = s ↔ s.rank.val + row.val = 7 ∧ s.file.val = file.val := by
  have hrank : s.rank = row.rev ↔ s.rank.val + row.val = 7 := by
    rw [Fin.ext_iff, Fin.val_rev]
    omega
  rw [← hrank]
  constructor
  · intro h
    rw [← h]
    simp
  · intro ⟨hr, hf⟩
    rw [← Square.ofCoords_rank_file s, hr, Fin.ext hf]

/-- A piece put on a free square is added to the others. -/
theorem get_set_eq_some {cells : Placement} {t : Square} (hfree : cells.get t = none) (p : Piece) {s : Square} {q : Piece} :
    (cells.set t (some p)).get s = some q ↔ cells.get s = some q ∨ t = s ∧ p = q := by
  rw [Placement.get_set]
  by_cases hs : t = s
  · rw [if_pos hs, ← hs, hfree]
    simp
  · rw [if_neg hs]
    simp [hs]

/-- Characters that fit are read to the last, from any width on at which the rank is still free;
    they put their pieces and nothing else. -/
theorem readRow_fits {row : Fin 8} {w : Nat} {cs : List Char} (hfits : Fits w cs) {cells : Placement}
    (hfree : ∀ s, s.rank.val + row.val = 7 → w ≤ s.file → cells.get s = none) :
    ∃ cells', (∀ rest, readRow row cells (min 255 w) (cs ++ rest) = readRow row cells' (min 255 (w + width cs)) rest) ∧
      ∀ s p, cells'.get s = some p ↔ cells.get s = some p ∨ s.rank.val + row.val = 7 ∧ Stands w cs s.file p := by
  -- on the characters, as the reader goes: a digit moves the width, a letter also fills the square at it
  induction cs generalizing w cells with
  | nil =>
    have hnone (file : Nat) (p : Piece) : ¬ Stands w [] file p := by
      intro h
      have hbounds := h.bounds
      rw [width] at hbounds
      omega
    exact ⟨cells, fun rest => rfl, fun s p => by simp [hnone]⟩
  | cons c cs ih =>
    obtain ⟨hc, hletter, hrest⟩ := fits_cons.mp hfits
    rcases hc with hdigit | ⟨p, rfl⟩
    · obtain ⟨cells', hread, hget⟩ := ih hrest fun s hr hf => hfree s hr (by omega)
      refine ⟨cells', fun rest => ?_, fun s p => ?_⟩
      · rw [List.cons_append, readRow_digit row cells w hdigit, hread, width_cons, Nat.add_assoc]
      · have hnot : ¬ (c = p.letter ∧ s.file.val = w) := fun h => letter_ne_of_isDigit hdigit p h.1
        rw [hget, stands_cons, or_iff_right hnot]
    · have hw := hletter p rfl
      have hsquare : cells.get (.ofCoords row.rev ⟨w, hw⟩) = none := by
        obtain ⟨hr, hf⟩ := ofCoords_rev_eq_iff.mp (rfl : Square.ofCoords row.rev ⟨w, hw⟩ = _)
        exact hfree _ hr (Nat.le_of_eq hf.symm)
      have hfree' (s : Square) (hr : s.rank.val + row.val = 7) (hf : w + 1 ≤ s.file.val) :
          (cells.set (.ofCoords row.rev ⟨w, hw⟩) (some p)).get s = none := by
        have hne : Square.ofCoords row.rev ⟨w, hw⟩ ≠ s := by
          intro h
          have hw' : s.file.val = w := (ofCoords_rev_eq_iff.mp h).2
          omega
        rw [Placement.get_set, if_neg hne]
        exact hfree s hr (by omega)
      rw [charWidth_letter] at hrest
      obtain ⟨cells', hread, hget⟩ := ih hrest hfree'
      refine ⟨cells', fun rest => ?_, fun s q => ?_⟩
      · rw [List.cons_append, readRow_letter row cells hw, hread, width_cons, charWidth_letter, Nat.add_assoc]
      · rw [hget, get_set_eq_some hsquare, ofCoords_rev_eq_iff, stands_cons, charWidth_letter, letter_inj, or_assoc,
          and_assoc, ← and_or_left, and_comm (a := s.file.val = w)]

/-- One row, read into cells whose rank is free. -/
theorem readRow_reads (row : Fin 8) {cells : Placement} (cs : List Char)
    (hfree : ∀ s, s.rank.val + row.val = 7 → cells.get s = none) :
    Reads (readRow row cells 0 cs) (IsRow cs)
      (fun cells' => ∀ s p, cells'.get s = some p ↔ cells.get s = some p ∨ s.rank.val + row.val = 7 ∧ Stands 0 cs s.file p)
      (RowFails row cs) where
  value h := by
    obtain ⟨cells', hread, hget⟩ := readRow_fits h.fits fun s hr _ => hfree s hr
    have hend := hread []
    have hle := h.width_le
    rw [List.append_nil, Nat.zero_add, Nat.min_eq_right (by omega : width cs ≤ 255), readRow, if_neg (by omega)] at hend
    exact ⟨cells', hend, hget⟩
  fault e h := by
    have hreach {before : List Char} (hfits : Fits 0 before) : ∃ cells', ∀ rest,
        readRow row cells 0 (before ++ rest) = readRow row cells' (min 255 (width before)) rest := by
      obtain ⟨cells', hread, -⟩ := readRow_fits hfits fun s hr _ => hfree s hr
      rw [Nat.zero_add] at hread
      exact ⟨cells', hread⟩
    cases h with
    | @letter before c after hfits hc =>
      obtain ⟨cells', hread⟩ := hreach hfits
      have hdigit : ¬ c.isDigit = true := fun h => hc (Or.inl h)
      have hnone : Piece.ofLetter? c = none :=
        Option.eq_none_iff_forall_ne_some.mpr fun p hp => hc (Or.inr ⟨p, ofLetter?_eq_some_iff.mp hp⟩)
      rw [hread, readRow, if_neg hdigit]
      simp only [hnone]
    | @crowded before after p hfits hfull =>
      obtain ⟨cells', hread⟩ := hreach hfits
      have hcoords : Square.ofCoords? row.rev (min 255 (width before)) = none := dif_neg (by omega)
      rw [hread, readRow, if_neg (by simp [letter_isDigit])]
      simp only [Piece.ofLetter?_letter, hcoords]
    | wide hfits hwide =>
      obtain ⟨cells', hread⟩ := hreach hfits
      have hend := hread []
      rw [List.append_nil, readRow, if_pos (by omega)] at hend
      exact hend
  complete := by
    rcases fits_or_first 0 cs with hfits | ⟨before, c, after, rfl, hfits, hc | ⟨⟨p, rfl⟩, hfull⟩⟩
    · by_cases hle : width cs ≤ 8
      · exact Or.inl ⟨hfits.chars, hle⟩
      · exact Or.inr ⟨_, .wide hfits (by omega)⟩
    · exact Or.inr ⟨_, .letter hfits hc⟩
    · exact Or.inr ⟨_, .crowded hfits (by omega)⟩

/-! ## Placements -/

theorem exists_getElem?_cons {α : Type} {P : Nat → α → Prop} {a : α} {as : List α} :
    (∃ i b, (a :: as)[i]? = some b ∧ P i b) ↔ P 0 a ∨ ∃ i b, as[i]? = some b ∧ P (i + 1) b := by
  constructor
  · rintro ⟨_ | i, b, hb, h⟩
    · rw [List.getElem?_cons_zero, Option.some.injEq] at hb
      exact Or.inl (hb ▸ h)
    · exact Or.inr ⟨i, b, hb, h⟩
  · rintro (h | ⟨i, b, hb, h⟩)
    · exact ⟨0, a, rfl, h⟩
    · exact ⟨i + 1, b, hb, h⟩

/-- Rows that are in order, read into cells free from their first rank down, fill their ranks. -/
theorem readRows_append (row : Nat) {before : List (List Char)} (hrows : ∀ cs ∈ before, IsRow cs)
    (hle : row + before.length ≤ 8) {cells : Placement} (hfree : ∀ s, s.rank.val + row ≤ 7 → cells.get s = none) :
    ∃ cells', (∀ after, readRows row cells (before ++ after) = readRows (row + before.length) cells' after) ∧
      ∀ s p, cells'.get s = some p ↔ cells.get s = some p ∨
        ∃ i cs, before[i]? = some cs ∧ s.rank.val + (row + i) = 7 ∧ Stands 0 cs s.file p := by
  induction before generalizing row cells with
  | nil => exact ⟨cells, fun after => rfl, fun s p => by simp⟩
  | cons cs before ih =>
    obtain ⟨hcs, hbefore⟩ := List.forall_mem_cons.mp hrows
    rw [List.length_cons] at hle
    have hrow : row < 8 := by omega
    obtain ⟨cells₁, hread₁, hget₁⟩ :=
      (readRow_reads ⟨row, hrow⟩ cs fun s hr => hfree s (Nat.le_of_eq hr)).value hcs
    have hfree₁ (s : Square) (hs : s.rank.val + (row + 1) ≤ 7) : cells₁.get s = none := by
      refine Option.eq_none_iff_forall_ne_some.mpr fun p hp => ?_
      rcases (hget₁ s p).mp hp with hp | ⟨hr, -⟩
      · rw [hfree s (by omega)] at hp
        cases hp
      · exact absurd hr (by simp only; omega)
    obtain ⟨cells', hread, hget⟩ := ih (row + 1) hbefore (by omega) hfree₁
    refine ⟨cells', fun after => ?_, fun s p => ?_⟩
    · rw [List.cons_append, readRows, dif_pos hrow, hread₁, List.length_cons]
      simp only [hread]
      rw [Nat.add_right_comm, Nat.add_assoc]
    · rw [hget, hget₁, exists_getElem?_cons, or_assoc]
      simp only [Nat.add_zero, Nat.add_right_comm row 1, ← Nat.add_assoc]

theorem readPlacement_reads (placement : List Char) :
    Reads (readPlacement placement) (IsPlacement (rowsOf placement))
      (fun cells => ∀ s p, cells.get s = some p ↔
        ∃ i row, (rowsOf placement)[i]? = some row ∧ s.rank.val + i = 7 ∧ Stands 0 row s.file p)
      (PlacementFails (rowsOf placement)) := by
  show Reads (readRows 0 .empty (rowsOf placement)) _ _ _
  generalize rowsOf placement = rows
  have hprefix {before : List (List Char)} (hrows : ∀ cs ∈ before, IsRow cs) (hle : before.length ≤ 8) :=
    readRows_append 0 hrows (by omega) fun s _ => Placement.get_empty s
  constructor
  case value =>
    rintro ⟨hle, hrows⟩
    obtain ⟨cells, hread, hget⟩ := hprefix hrows hle
    have hend := hread []
    rw [List.append_nil] at hend
    exact ⟨cells, hend, fun s p => by simp [hget]⟩
  case fault =>
    rintro e (@⟨before, cs, after, e, hlt, hrows, hfails⟩ | @⟨before, cs, after, height, hrows⟩)
    · obtain ⟨cells, hread, hget⟩ := hprefix hrows (Nat.le_of_lt hlt)
      have hfree (s : Square) (hr : s.rank.val + before.length = 7) : cells.get s = none := by
        refine Option.eq_none_iff_forall_ne_some.mpr fun p hp => ?_
        rcases (hget s p).mp hp with hp | ⟨i, row, hi, hr', -⟩
        · cases (Placement.get_empty s).symm.trans hp
        · obtain ⟨hi, -⟩ := List.getElem?_eq_some_iff.mp hi
          omega
      rw [hread, Nat.zero_add, readRows, dif_pos hlt,
        (readRow_reads ⟨before.length, hlt⟩ cs hfree).fault e hfails]
    · obtain ⟨cells, hread, -⟩ := hprefix hrows (Nat.le_of_eq height)
      rw [hread, Nat.zero_add, height, readRows, dif_neg (by decide)]
  case complete =>
    have hfirst {before : List (List Char)} {cs : List Char} {after : List (List Char)} (hrows : ∀ r ∈ before, IsRow r)
        (hlt : before.length < 8) (hcs : ¬ IsRow cs) : ∃ e, PlacementFails (before ++ cs :: after) e := by
      have hfree (s : Square) (_ : s.rank.val + before.length = 7) := Placement.get_empty s
      obtain ⟨e, he⟩ := (readRow_reads ⟨before.length, hlt⟩ cs hfree).complete.resolve_left hcs
      exact ⟨e, .row hlt hrows he⟩
    rw [← List.take_append_drop 8 rows]
    rcases all_or_first IsRow (rows.take 8) with hrows | ⟨before, cs, after, hbefore, hrows, hcs⟩
    · cases hdrop : rows.drop 8 with
      | nil =>
        rw [List.append_nil]
        exact Or.inl ⟨List.length_take_le 8 rows, hrows⟩
      | cons cs after =>
        have hlength : (rows.take 8).length = 8 := by
          have := congrArg List.length hdrop
          rw [List.length_drop, List.length_cons] at this
          rw [List.length_take]
          omega
        exact Or.inr ⟨_, .ninth hlength hrows⟩
    · have hlength := congrArg List.length hbefore
      rw [List.length_append, List.length_cons] at hlength
      have := List.length_take_le 8 rows
      rw [hbefore, List.append_assoc, List.cons_append]
      exact Or.inr (hfirst hrows (by omega) hcs)

/-! ## The other fields -/

theorem readSide_reads (field : List Char) :
    Reads (readSide field) (IsSide field) (fun c => field = [sideLetter c])
      (fun e => ¬ IsSide field ∧ e = .badSide (String.ofList field)) where
  value := by
    rintro ⟨c, rfl⟩
    exact ⟨c, readSide_sideLetter c, rfl⟩
  fault := by
    rintro e ⟨hside, rfl⟩
    unfold readSide
    split
    · exact absurd ⟨.white, rfl⟩ hside
    · exact absurd ⟨.black, rfl⟩ hside
    · rfl
  complete := (Classical.em _).imp_right fun hside => ⟨_, hside, rfl⟩

theorem rightLetter_inj {c c' : Color} {w w' : Wing} : rightLetter c w = rightLetter c' w' ↔ c = c' ∧ w = w' := by
  cases c <;> cases w <;> cases c' <;> cases w' <;> decide

theorem rightLetter_ne_dash (c : Color) (w : Wing) : rightLetter c w ≠ '-' := by
  cases c <;> cases w <;> decide

theorem readCastling_letter (rights : CastlingRights) (c : Color) (w : Wing) (cs : List Char) :
    readCastling rights (rightLetter c w :: cs) = readCastling (rights.grant c w) cs := by
  cases c <;> cases w <;> rfl

theorem readCastling_other (rights : CastlingRights) {c : Char} (hc : ¬ IsCastlingChar c) (cs : List Char) :
    readCastling rights (c :: cs) = .error (.badCastling c) := by
  have hletter (color : Color) (wing : Wing) : c ≠ rightLetter color wing := fun h => hc (Or.inr ⟨color, wing, h⟩)
  have hdash : c ≠ '-' := fun h => hc (Or.inl h)
  rw [readCastling]
  · exact hletter .white .king
  · exact hletter .white .queen
  · exact hletter .black .king
  · exact hletter .black .queen
  · exact hdash

/-- Letters of rights are added to the rights, in whatever order and however often they stand. -/
theorem readCastling_append {before : List Char} (hbefore : ∀ b ∈ before, IsCastlingChar b) (rights : CastlingRights) :
    ∃ rights', (∀ after, readCastling rights (before ++ after) = readCastling rights' after) ∧
      ∀ c w, rights'.has c w = true ↔ rights.has c w = true ∨ rightLetter c w ∈ before := by
  induction before generalizing rights with
  | nil => exact ⟨rights, fun after => rfl, by simp⟩
  | cons b before ih =>
    obtain ⟨hb, hrest⟩ := List.forall_mem_cons.mp hbefore
    rcases hb with rfl | ⟨c, w, rfl⟩
    · obtain ⟨rights', hread, hhas⟩ := ih hrest rights
      exact ⟨rights', hread, fun c w => by rw [hhas, List.mem_cons, or_iff_right (rightLetter_ne_dash c w)]⟩
    · obtain ⟨rights', hread, hhas⟩ := ih hrest (rights.grant c w)
      refine ⟨rights', fun after => ?_, fun c' w' => ?_⟩
      · rw [List.cons_append, readCastling_letter, hread]
      · rw [hhas, List.mem_cons, rightLetter_inj, ← or_assoc]
        simp [CastlingRights.grant]

theorem readCastling_reads (field : Option (List Char)) :
    Reads (readCastling .none (field.getD ['-'])) (∀ f ∈ field, ∀ c ∈ f, IsCastlingChar c)
      (fun r => ∀ c w, r.has c w = true ↔ ∃ f ∈ field, rightLetter c w ∈ f)
      (fun e => ∃ before c after, field = some (before ++ c :: after) ∧ (∀ b ∈ before, IsCastlingChar b) ∧
        ¬ IsCastlingChar c ∧ e = .badCastling c) := by
  cases field with
  | none =>
    have hnone (c : Color) (w : Wing) : ¬ CastlingRights.none.has c w = true := by simp [CastlingRights.none]
    exact ⟨fun _ => ⟨.none, rfl, by simp [hnone]⟩, by simp, Or.inl (by simp)⟩
  | some f =>
    constructor
    case value =>
      intro hchars
      obtain ⟨rights, hread, hhas⟩ := readCastling_append (hchars f rfl) .none
      have hend := hread []
      rw [List.append_nil] at hend
      exact ⟨rights, hend, by simp [hhas, CastlingRights.none]⟩
    case fault =>
      rintro e ⟨before, c, after, hf, hbefore, hc, rfl⟩
      cases hf
      obtain ⟨rights, hread, -⟩ := readCastling_append hbefore .none
      exact (hread (c :: after)).trans (readCastling_other rights hc after)
    case complete =>
      rcases all_or_first IsCastlingChar f with hchars | ⟨before, c, after, rfl, hbefore, hc⟩
      · exact Or.inl (by simpa using hchars)
      · exact Or.inr ⟨_, before, c, after, rfl, hbefore, hc, rfl⟩

theorem ofLetters?_eq_some_iff {field : List Char} {s : Square} :
    Square.ofLetters? field = some s ↔ field = s.letters := by
  constructor
  · intro h
    unfold Square.ofLetters? at h
    split at h
    · rename_i f r
      split at h
      · rename_i hle
        have hf : 97 ≤ f.toNat := hle.1
        have hr : 49 ≤ r.toNat := hle.2
        unfold Square.ofCoords? at h
        split at h
        · cases h
          simp [Square.letters, Nat.add_sub_cancel' hf, Nat.add_sub_cancel' hr]
        · cases h
      · cases h
    · cases h
  · rintro rfl
    exact Square.ofLetters?_letters s

theorem readEnPassant_reads (field : Option (List Char)) :
    Reads (readEnPassant (field.getD ['-'])) (∀ f ∈ field, IsTarget f)
      (fun t => ∀ s, t = some s ↔ field = some s.letters)
      (fun e => ∃ f, field = some f ∧ ¬ IsTarget f ∧ e = .badEnPassant (String.ofList f)) := by
  cases field with
  | none => exact ⟨fun _ => ⟨none, rfl, by simp⟩, by simp, Or.inl (by simp)⟩
  | some f =>
    constructor
    case value =>
      intro hf
      rcases hf f rfl with rfl | ⟨s, rfl⟩
      · refine ⟨none, rfl, fun s => ?_⟩
        constructor
        · intro h
          cases h
        · intro h
          cases congrArg (Option.map List.length) h
      · refine ⟨some s, readEnPassant_enPassantField (some s), fun t => ?_⟩
        rw [Option.some.injEq, Option.some.injEq, ← ofLetters?_eq_some_iff, Square.ofLetters?_letters, Option.some.injEq]
    case fault =>
      rintro e ⟨_, ⟨⟩, htarget, rfl⟩
      show readEnPassant f = _
      unfold readEnPassant
      split
      · exact absurd (Or.inl rfl) htarget
      · split
        · rename_i s hs
          exact absurd (Or.inr ⟨s, ofLetters?_eq_some_iff.mp hs⟩) htarget
        · rfl
    case complete =>
      by_cases htarget : IsTarget f
      · exact Or.inl (by simpa using htarget)
      · exact Or.inr ⟨_, f, rfl, htarget, rfl⟩

theorem natural?_eq_some_iff {cs : List Char} {n : Nat} :
    Text.natural? cs = some n ↔ cs ≠ [] ∧ (∀ c ∈ cs, c.isDigit = true) ∧ Text.digitsValue cs = n := by
  simp [Text.natural?, and_assoc]

theorem unsigned?_eq_some_iff {field : List Char} {n : Nat} : Text.unsigned? 32 field = some n ↔ Numeral field n := by
  unfold Text.unsigned? Numeral
  rw [Option.filter_eq_some_iff, and_comm, show (1 : Nat) <<< 32 = UInt32.size from rfl, decide_eq_true_iff]
  refine and_congr_right fun _ => ?_
  split
  · rename_i r
    rw [natural?_eq_some_iff]
    constructor
    · intro h
      exact ⟨r, Or.inr rfl, h⟩
    · rintro ⟨ds, rfl | hds, h⟩
      · -- a plus sign is no digit
        cases h.2.1 '+' List.mem_cons_self
      · cases hds
        exact h
  · rename_i hplus
    rw [natural?_eq_some_iff]
    constructor
    · intro h
      exact ⟨field, Or.inl rfl, h⟩
    · rintro ⟨ds, rfl | hds, h⟩
      · exact h
      · exact absurd hds (hplus ds)

theorem Numeral.eq {field : List Char} {m n : Nat} (hm : Numeral field m) (hn : Numeral field n) : m = n := by
  have h := unsigned?_eq_some_iff.mpr hm
  rw [unsigned?_eq_some_iff.mpr hn] at h
  exact (Option.some.inj h).symm

theorem readClock_reads (field : Option (List Char)) :
    Reads (readClock field) (∀ f ∈ field, ∃ n, Numeral f n)
      (fun c => (∀ f ∈ field, Numeral f c.toNat) ∧ (field = none → c = 0))
      (fun e => ∃ f, field = some f ∧ (¬ ∃ n, Numeral f n) ∧ e = .badClock (String.ofList f)) := by
  cases field with
  | none => exact ⟨fun _ => ⟨0, rfl, by simp⟩, by simp, Or.inl (by simp)⟩
  | some f =>
    constructor
    case value =>
      intro hf
      obtain ⟨n, hn⟩ := hf f rfl
      refine ⟨.ofNat n, by rw [readClock, unsigned?_eq_some_iff.mpr hn], ?_, nofun⟩
      rintro _ ⟨⟩
      rwa [UInt32.toNat_ofNat_of_lt' hn.1]
    case fault =>
      rintro e ⟨_, ⟨⟩, hnone, rfl⟩
      have hread : Text.unsigned? 32 f = none :=
        Option.eq_none_iff_forall_ne_some.mpr fun n hn => hnone ⟨n, unsigned?_eq_some_iff.mp hn⟩
      rw [readClock, hread]
    case complete =>
      by_cases hf : ∃ n, Numeral f n
      · exact Or.inl (by simpa using hf)
      · exact Or.inr ⟨_, f, rfl, hf, rfl⟩

theorem readNumber_spec (field : Option (List Char)) :
    (∀ f ∈ field, ∀ n, Numeral f n → (readNumber field).toNat = n) ∧
      ((¬ ∃ f ∈ field, ∃ n, Numeral f n) → readNumber field = 1) := by
  constructor
  · rintro f rfl n hn
    rw [readNumber, Option.bind_some, unsigned?_eq_some_iff.mpr hn]
    exact UInt32.toNat_ofNat_of_lt' hn.1
  · intro hnone
    have hread : field.bind (Text.unsigned? 32) = none := by
      refine Option.bind_eq_none_iff.mpr fun f hf => Option.eq_none_iff_forall_ne_some.mpr fun n hn => ?_
      exact hnone ⟨f, hf, n, unsigned?_eq_some_iff.mp hn⟩
    rw [readNumber, hread]
    rfl

/-! ## Boards -/

theorem readFields_reads (placement side : List Char) (rest : List (List Char)) :
    Reads (readFields (placement :: side :: rest)) (Accepts placement side rest) (Denotes placement side rest)
      (Fails (placement :: side :: rest)) := by
  show Reads (readPlacement placement >>= fun cells => readSide side >>= fun c =>
    readCastling .none (rest[0]?.getD ['-']) >>= fun rights => readEnPassant (rest[1]?.getD ['-']) >>= fun target =>
    readClock rest[2]? >>= fun clock => .ok (⟨⟨cells, c, clock⟩, target, rights, readNumber rest[3]?⟩ : Board)) _ _ _
  refine ((readPlacement_reads placement).bind fun cells hcells => (readSide_reads side).bind fun c hside =>
    (readCastling_reads rest[0]?).bind fun rights hrights => (readEnPassant_reads rest[1]?).bind fun target htarget =>
    (readClock_reads rest[2]?).bind fun clock hclock =>
    .done ⟨hcells, hside, hrights, htarget, hclock, readNumber_spec rest[3]?⟩).congr ?accepts fun e => ⟨?fails, ?reports⟩
  case accepts =>
    constructor
    · rintro ⟨hplacement, hside, hcastling, htarget, hclock, -⟩
      exact ⟨hplacement, hside, hcastling, htarget, hclock⟩
    · rintro ⟨hplacement, hside, hcastling, htarget, hclock⟩
      exact ⟨hplacement, hside, hcastling, htarget, hclock, trivial⟩
  case fails =>
    rintro (h | ⟨hplacement, ⟨h, rfl⟩ | ⟨hside, ⟨before, c, after, hfield, hbefore, hc, rfl⟩ | ⟨hcastling,
      ⟨field, hfield, h, rfl⟩ | ⟨htarget, ⟨field, hfield, h, rfl⟩ | ⟨-, ⟨⟩⟩⟩⟩⟩⟩)
    · exact .placement h
    · exact .side hplacement h
    · exact .castling hplacement hside hfield hbefore hc
    · exact .enPassant hplacement hside hcastling hfield h
    · exact .clock hplacement hside hcastling htarget hfield h
  case reports =>
    intro h
    cases h with
    | few h => exact absurd h (by simp)
    | placement h => exact Or.inl h
    | side hplacement h => exact Or.inr ⟨hplacement, Or.inl ⟨h, rfl⟩⟩
    | castling hplacement hside hfield hbefore hc =>
      exact Or.inr ⟨hplacement, Or.inr ⟨hside, Or.inl ⟨_, _, _, hfield, hbefore, hc, rfl⟩⟩⟩
    | enPassant hplacement hside hcastling hfield h =>
      exact Or.inr ⟨hplacement, Or.inr ⟨hside, Or.inr ⟨hcastling, Or.inl ⟨_, hfield, h, rfl⟩⟩⟩⟩
    | clock hplacement hside hcastling htarget hfield h =>
      exact Or.inr ⟨hplacement, Or.inr ⟨hside, Or.inr ⟨hcastling, Or.inr ⟨htarget, Or.inl ⟨_, hfield, h, rfl⟩⟩⟩⟩⟩

theorem sideLetter_inj {c c' : Color} (h : sideLetter c = sideLetter c') : c = c' := by
  revert h
  cases c <;> cases c' <;> decide

/-- The fields describe one board. -/
theorem Denotes.unique {placement side : List Char} {rest : List (List Char)} {b b' : Board}
    (h : Denotes placement side rest b) (h' : Denotes placement side rest b') : b = b' := by
  have hcells : b.placement = b'.placement := Placement.ext fun s => Option.ext fun p => (h.pieces s p).trans (h'.pieces s p).symm
  have hside : b.sideToMove = b'.sideToMove := sideLetter_inj (List.cons.inj (h.side.symm.trans h'.side)).1
  have hcastling : b.castling = b'.castling :=
    CastlingRights.ext fun c w => Bool.eq_iff_iff.mpr ((h.castling c w).trans (h'.castling c w).symm)
  have htarget : b.enPassant = b'.enPassant := Option.ext fun s => (h.enPassant s).trans (h'.enPassant s).symm
  have hclock : b.halfmoveClock = b'.halfmoveClock := by
    cases hfield : rest[2]? with
    | none => rw [h.clock.2 hfield, h'.clock.2 hfield]
    | some field => exact UInt32.toNat.inj ((h.clock.1 field hfield).eq (h'.clock.1 field hfield))
  have hnumber : b.fullmoveNumber = b'.fullmoveNumber := by
    by_cases hfield : ∃ field ∈ rest[3]?, ∃ n, Numeral field n
    · obtain ⟨field, hfield, n, hn⟩ := hfield
      exact UInt32.toNat.inj ((h.number.1 field hfield n hn).trans (h'.number.1 field hfield n hn).symm)
    · rw [h.number.2 hfield, h'.number.2 hfield]
  obtain ⟨⟨cells, c, clock⟩, target, rights, number⟩ := b
  obtain ⟨⟨cells', c', clock'⟩, target', rights', number'⟩ := b'
  cases hcells
  cases hside
  cases hcastling
  cases htarget
  cases hclock
  cases hnumber
  rfl

end ChessEval.Fen

namespace ChessEval.Board

open Fen

theorem ofFen_reads (text : String) :
    Reads (ofFen text)
      (∃ placement side rest, Text.fields text.toList = placement :: side :: rest ∧ Accepts placement side rest)
      (fun b => ∃ placement side rest, Text.fields text.toList = placement :: side :: rest ∧
        Accepts placement side rest ∧ Denotes placement side rest b)
      (Fails (Text.fields text.toList)) := by
  rw [ofFen]
  generalize Text.fields text.toList = fields
  rcases fields with _ | ⟨placement, _ | ⟨side, rest⟩⟩
  -- no field, or one
  iterate 2
    refine ⟨?_, fun e h => ?_, Or.inr ⟨_, .few (by simp)⟩⟩
    · rintro ⟨_, _, _, ⟨⟩, -⟩
    · cases h
      rfl
  · have hreads := readFields_reads placement side rest
    constructor
    case value =>
      rintro ⟨_, _, _, ⟨⟩, h⟩
      obtain ⟨b, hb, hdenotes⟩ := hreads.value h
      exact ⟨b, hb, placement, side, rest, rfl, h, hdenotes⟩
    case fault => exact hreads.fault
    case complete => exact hreads.complete.imp_left fun h => ⟨placement, side, rest, rfl, h⟩

/-- Every text is either a board, and then one board only, or reported by its first fault: the texts
    accepted are those in the language, read as what their fields describe, and the errors are the
    faults that the others have. -/
theorem ofFen_language (text : String) :
    ((∃ b, ofFen text = .ok b) ↔
      ∃ placement side rest, Text.fields text.toList = placement :: side :: rest ∧ Accepts placement side rest) ∧
    (∀ b, ofFen text = .ok b ↔
      ∃ placement side rest, Text.fields text.toList = placement :: side :: rest ∧
        Accepts placement side rest ∧ Denotes placement side rest b) ∧
    ∀ e, ofFen text = .error e ↔ Fails (Text.fields text.toList) e := by
  have hreads := ofFen_reads text
  refine ⟨hreads.isOk_iff, fun b => ?_, fun e => hreads.error_iff⟩
  rw [hreads.ok_iff ?unique, and_iff_right_of_imp ?accepted]
  case unique =>
    rintro b b' ⟨_, _, _, hfields, -, h⟩ ⟨_, _, _, hfields', -, h'⟩
    cases hfields.symm.trans hfields'
    exact h.unique h'
  case accepted =>
    rintro ⟨placement, side, rest, hfields, haccepts, -⟩
    exact ⟨placement, side, rest, hfields, haccepts⟩

/-- The row is already too wide, but its letter is looked at first. -/
example : ofFen "99x w" = .error (.badPiece 'x') := rfl

example : ofFen "99p w" = .error (.tooManyFiles 0 19) := rfl

end ChessEval.Board
