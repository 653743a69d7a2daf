/-
  ChessEval.Proofs.Board.FenRoundTrip — a board is read back from its own text.

  - `fields_joined`: fields, joined by single spaces, are the fields of the text.
  - `readRow_rowLetters`: the letters of a row, read on from a width at which empty squares
    are still to be counted, put each of the row's pieces on its file and nothing else.
  - `readRows_placementRows`: the rows from one on, read into cells that are free there,
    put every piece of those ranks on its square.
  - `ofFen_fen`: so every board is read back from its text, in all of its fields.
  - `fen_faithful`: hence the text tells boards apart, and a text that was read and
    written once is not changed by being read and written again.
-/

import ChessEval.Board.Fen

namespace ChessEval

/-! ## Fields -/

namespace Text

/-- Something to read, with no blank in it. -/
def IsField (cs : List Char) : Prop := cs ≠ [] ∧ ∀ c ∈ cs, isBlank c = false

/-- For a text that is written out, the check can be run. -/
theorem isField_of_all {cs : List Char} (h : (!cs.isEmpty && cs.all (!isBlank ·)) = true) : IsField cs := by
  simpa [IsField] using h

theorem fields_of_isField {cs : List Char} (h : IsField cs) : fields cs = [cs] := by
  simp [fields, List.splitOnP_eq_singleton h.2, h.1]

theorem fields_append_blank (xs ys : List Char) {c : Char} (hc : isBlank c = true) :
    fields (xs ++ c :: ys) = fields xs ++ fields ys := by
  simp [fields, List.splitOnP_append_cons xs ys hc]

/-- Fields joined by single spaces are the fields of the text. -/
theorem fields_joined {fs : List (List Char)} (h : ∀ f ∈ fs, IsField f) : fields ([' '].intercalate fs) = fs := by
  induction fs with
  | nil => rfl
  | cons f fs ih =>
    have hf := fields_of_isField (h f List.mem_cons_self)
    have ih := ih fun g hg => h g (List.mem_cons_of_mem f hg)
    cases fs with
    | nil => simpa using hf
    | cons g fs =>
      rw [List.intercalate_cons_cons, List.append_assoc, List.singleton_append,
        fields_append_blank f _ (by decide), hf, ih]
      rfl

theorem mem_joined {c sep : Char} {fs : List (List Char)} (h : c ∈ [sep].intercalate fs) :
    c = sep ∨ ∃ f ∈ fs, c ∈ f := by
  induction fs with
  | nil => cases h
  | cons f fs ih =>
    cases fs with
    | nil => exact Or.inr ⟨f, List.mem_cons_self, by simpa using h⟩
    | cons g fs =>
      rw [List.intercalate_cons_cons, List.append_assoc, List.singleton_append] at h
      rcases List.mem_append.mp h with h | h
      · exact Or.inr ⟨f, List.mem_cons_self, h⟩
      · rcases List.mem_cons.mp h with rfl | h
        · exact Or.inl rfl
        · exact (ih h).imp_right fun ⟨f', hf', hc⟩ => ⟨f', List.mem_cons_of_mem f hf', hc⟩

theorem isBlank_of_isDigit {c : Char} (h : c.isDigit = true) : isBlank c = false := by
  simp only [Char.isDigit, Bool.and_eq_true, decide_eq_true_eq, ge_iff_le, UInt32.le_iff_toNat_le] at h
  have hc : 48 ≤ c.toNat ∧ c.toNat ≤ 57 := h
  simp only [isBlank, inRanges, blankRanges, List.any_cons, List.any_nil, Bool.or_false, Bool.or_eq_false_iff,
    Bool.and_eq_false_iff, decide_eq_false_iff_not]
  omega

theorem isField_digits (n : Nat) : IsField (digits n) :=
  ⟨digits_ne_nil n, fun _ hc => isBlank_of_isDigit (List.all_eq_true.mp (digits_all n) _ hc)⟩

theorem unsigned?_digits {bits n : Nat} (h : n < 1 <<< bits) : unsigned? bits (digits n) = some n := by
  have hbody : unsigned? bits (digits n) = (natural? (digits n)).filter (· < 1 <<< bits) := by
    unfold unsigned?
    split
    · rename_i r hr
      have hall := digits_all n
      rw [hr] at hall
      simp at hall
    · rfl
  rw [hbody, natural?_digits]
  simp [h]

end Text

namespace Fen

/-! ## Rows -/

theorem mem_rowLetters {c : Char} {run : Nat} {os : List (Option Piece)} (h : c ∈ rowLetters run os) :
    c.isDigit = true ∨ ∃ p : Piece, c = p.letter := by
  have hrun : ∀ {n : Nat}, c ∈ (if n = 0 then [] else Text.digits n) → c.isDigit = true := by
    intro n hc
    split at hc
    · cases hc
    · exact List.all_eq_true.mp (Text.digits_all n) c hc
  fun_induction rowLetters run os with
  | case1 => simp at h
  | case2 run hne => exact Or.inl (List.all_eq_true.mp (Text.digits_all run) c h)
  | case3 run os ih => exact ih h
  | case4 run p os ih =>
    rcases List.mem_append.mp h with h | h
    · exact Or.inl (hrun h)
    · rcases List.mem_cons.mp h with rfl | h
      · exact Or.inr ⟨p, rfl⟩
      · exact ih h

theorem letter_isDigit (p : Piece) : p.letter.isDigit = false := by
  obtain ⟨c, k⟩ := p
  cases c <;> cases k <;> rfl

/-- The piece that a row puts on a square, if its pieces stand from a width on. -/
def rowPiece (row : Fin 8) (width : Nat) (os : List (Option Piece)) (s : Square) : Option Piece :=
  if s.rank = row.rev ∧ width ≤ s.file then os[s.file - width]?.join else none

theorem readRow_digits (row : Fin 8) (cells : Placement) {width run : Nat} (h : width + run ≤ 8) (cs : List Char) :
    readRow row cells width ((if run = 0 then [] else Text.digits run) ++ cs) = readRow row cells (width + run) cs := by
  split
  · rename_i hrun
    subst hrun
    rfl
  · have hrun : run < 10 := by omega
    obtain ⟨hdigit, hvalue⟩ := Text.digit_isDigit hrun
    rw [Text.digits, if_pos hrun, List.singleton_append, readRow, if_pos hdigit, hvalue, Nat.min_eq_right (by omega)]

theorem rowPiece_of_lt {row : Fin 8} {width : Nat} {os : List (Option Piece)} {s : Square} (h : s.file < width) :
    rowPiece row width os s = none := by
  have hpast : ¬ width ≤ s.file := by omega
  simp [rowPiece, hpast]

/-- A row's first piece stands at the width reached, the others from the next file on. -/
theorem rowPiece_cons (row : Fin 8) (width : Nat) (o : Option Piece) (os : List (Option Piece)) (s : Square) :
    rowPiece row width (o :: os) s =
      if s.rank = row.rev ∧ s.file.val = width then o else rowPiece row (width + 1) os s := by
  unfold rowPiece
  by_cases hrank : s.rank = row.rev
  · by_cases hfile : s.file.val = width
    · simp [hrank, hfile]
    · by_cases hle : width ≤ s.file
      · have hsub : s.file - width = (s.file - (width + 1)) + 1 := by omega
        have hle' : width + 1 ≤ s.file := by omega
        simp [hrank, hfile, hle, hle', hsub]
      · have hle' : ¬ width + 1 ≤ s.file := by omega
        simp [hrank, hfile, hle, hle']
  · simp [hrank]

/-- The letters of a row, read from a width at which `run` empty squares are still to be counted,
    put the row's pieces on their files. -/
theorem readRow_rowLetters (row : Fin 8) (os : List (Option Piece)) (cells : Placement) (width run : Nat)
    (h : width + run + os.length = 8) :
    ∃ cells', readRow row cells width (rowLetters run os) = .ok cells' ∧
      ∀ s, cells'.get s = (rowPiece row (width + run) os s).or (cells.get s) := by
  -- on the squares still to come: a piece moves the width past the run, an empty square makes the run longer
  induction os generalizing cells width run with
  | nil =>
    have hwidth : width + run = 8 := h
    refine ⟨cells, ?_, fun s => by simp [rowPiece]⟩
    have hread := readRow_digits row cells (Nat.le_of_eq hwidth) []
    rw [List.append_nil] at hread
    rw [rowLetters, hread, readRow, if_neg (by omega)]
  | cons o os ih =>
    rw [List.length_cons] at h
    cases o with
    | none =>
      obtain ⟨cells', hread, hget⟩ := ih cells width (run + 1) (by omega)
      refine ⟨cells', hread, fun s => ?_⟩
      rw [hget, rowPiece_cons, ← Nat.add_assoc]
      split
      · rename_i hs
        rw [rowPiece_of_lt (by omega)]
      · rfl
    | some p =>
      have hfile : width + run < 8 := by omega
      let s₀ := Square.ofCoords row.rev ⟨width + run, hfile⟩
      obtain ⟨cells', hread, hget⟩ := ih (cells.set s₀ (some p)) (width + run + 1) 0 (by omega)
      refine ⟨cells', ?_, fun s => ?_⟩
      · rw [rowLetters, readRow_digits row cells (by omega), readRow, if_neg (by simp [letter_isDigit])]
        have hcoords : Square.ofCoords? row.rev (width + run) = some s₀ := dif_pos ⟨row.rev.isLt, hfile⟩
        simp only [Piece.ofLetter?_letter, hcoords]
        exact hread
      · have hs₀ : s₀ = s ↔ s.rank = row.rev ∧ s.file.val = width + run := by
          constructor
          · rintro rfl
            simp [s₀]
          · rintro ⟨hr, hf⟩
            rw [← Square.ofCoords_rank_file s, hr]
            exact congrArg (Square.ofCoords row.rev) (Fin.ext hf.symm)
        rw [hget, Placement.get_set, rowPiece_cons, Nat.add_zero]
        by_cases hs : s.rank = row.rev ∧ s.file.val = width + run
        · rw [if_pos hs, if_pos (hs₀.mpr hs), rowPiece_of_lt (by omega)]
          rfl
        · rw [if_neg hs, if_neg (mt hs₀.mp hs)]

/-! ## Placements -/

theorem getElem_placementRows (p : Placement) {n : Nat} (h : n < (placementRows p).length) (row : Fin 8)
    (hn : row.val = n) : (placementRows p)[n] = rowLetters 0 ((rankSquares row.rev).map p.get) := by
  subst hn
  simp [placementRows]

theorem length_placementRows (p : Placement) : (placementRows p).length = 8 := by simp [placementRows]

theorem rowPiece_rankSquares (row : Fin 8) (p : Placement) (s : Square) :
    rowPiece row 0 ((rankSquares row.rev).map p.get) s = if s.rank = row.rev then p.get s else none := by
  by_cases hrank : s.rank = row.rev
  · have hget : ((rankSquares row.rev).map p.get)[s.file.val]? = some (p.get (Square.ofCoords row.rev s.file)) := by
      simp [rankSquares]
    rw [rowPiece, if_pos ⟨hrank, Nat.zero_le _⟩, if_pos hrank, Nat.sub_zero, hget, ← hrank, Square.ofCoords_rank_file]
    rfl
  · rw [rowPiece, if_neg (fun h => hrank h.1), if_neg hrank]

/-- The rows from number `row` on put the pieces of their ranks into cells that are free there. -/
theorem readRows_placementRows (p : Placement) (row left : Nat) (hrow : row + left = 8) (cells : Placement) :
    ∃ cells', readRows row cells ((placementRows p).drop row) = .ok cells' ∧
      ∀ s, cells'.get s = (if row ≤ s.rank.rev then p.get s else none).or (cells.get s) := by
  induction left generalizing row cells with
  | zero =>
    refine ⟨cells, ?_, fun s => ?_⟩
    · rw [List.drop_of_length_le (by rw [length_placementRows]; omega)]
      rfl
    · rw [if_neg (by omega), Option.none_or]
  | succ left ih =>
    have hlt : row < 8 := by omega
    have hlength : row < (placementRows p).length := by rw [length_placementRows]; exact hlt
    obtain ⟨cells₁, hread₁, hget₁⟩ := readRow_rowLetters ⟨row, hlt⟩ ((rankSquares (Fin.rev ⟨row, hlt⟩)).map p.get)
      cells 0 0 (by simp [rankSquares])
    obtain ⟨cells', hread, hget⟩ := ih (row + 1) (by omega) cells₁
    refine ⟨cells', ?_, fun s => ?_⟩
    · rw [List.drop_eq_getElem_cons hlength, getElem_placementRows p hlength ⟨row, hlt⟩ rfl, readRows, dif_pos hlt, hread₁]
      exact hread
    · have hrank : s.rank = Fin.rev ⟨row, hlt⟩ ↔ s.rank.rev.val = row := by
        constructor
        · intro h
          rw [h, Fin.rev_rev]
        · intro h
          rw [← Fin.rev_rev s.rank, show s.rank.rev = ⟨row, hlt⟩ from Fin.ext h]
      rw [hget, hget₁, rowPiece_rankSquares]
      by_cases hs : s.rank.rev.val = row
      · rw [if_neg (by omega), if_pos (hrank.mpr hs), if_pos (by omega), Option.none_or]
      · rw [if_neg (mt hrank.mp hs), Option.none_or]
        by_cases hle : row ≤ s.rank.rev
        · rw [if_pos (by omega), if_pos hle]
        · rw [if_neg (by omega), if_neg hle]

theorem letter_ne_slash (p : Piece) : p.letter ≠ '/' := by
  obtain ⟨c, k⟩ := p
  cases c <;> cases k <;> decide

theorem letter_isBlank (p : Piece) : Text.isBlank p.letter = false := by
  obtain ⟨c, k⟩ := p
  cases c <;> cases k <;> decide

theorem slash_not_mem_row {row : List Char} {p : Placement} (h : row ∈ placementRows p) : '/' ∉ row := by
  intro hslash
  obtain ⟨r, -, rfl⟩ := List.mem_map.mp h
  rcases mem_rowLetters hslash with hdigit | ⟨q, hq⟩
  · cases hdigit
  · exact letter_ne_slash q hq.symm

theorem splitOnP_placementRows (p : Placement) :
    (['/'].intercalate (placementRows p)).splitOnP (· == '/') = placementRows p := by
  have hne : placementRows p ≠ [] := List.ne_nil_of_length_pos (by rw [length_placementRows]; decide)
  rw [← List.splitOn_eq_splitOnP]
  exact List.splitOn_intercalate '/' (fun row hrow => slash_not_mem_row hrow) hne

theorem readPlacement_placementRows (p : Placement) :
    readPlacement (['/'].intercalate (placementRows p)) = .ok p := by
  obtain ⟨cells, hread, hget⟩ := readRows_placementRows p 0 8 rfl .empty
  have hcells : cells = p := by
    ext1 s
    rw [hget, if_pos (Nat.zero_le _), Placement.get_empty, Option.or_none]
  rw [List.drop_zero, hcells] at hread
  rw [readPlacement, splitOnP_placementRows, hread]

/-! ## The other fields -/

theorem readSide_sideLetter (c : Color) : readSide [sideLetter c] = .ok c := by
  cases c <;> rfl

theorem readCastling_castlingField (r : CastlingRights) : readCastling .none (castlingField r) = .ok r := by
  obtain ⟨wk, wq, bk, bq⟩ := r
  cases wk <;> cases wq <;> cases bk <;> cases bq <;> rfl

theorem readEnPassant_enPassantField (s : Option Square) : readEnPassant (enPassantField s) = .ok s := by
  cases s with
  | none => rfl
  | some s =>
    show readEnPassant s.letters = _
    unfold readEnPassant
    split
    · rename_i h
      cases congrArg List.length h
    · rw [Square.ofLetters?_letters]

theorem readClock_digits (n : UInt32) : readClock (some (Text.digits n.toNat)) = .ok n := by
  simp [readClock, Text.unsigned?_digits (show n.toNat < 1 <<< 32 from n.toNat_lt)]

theorem readNumber_digits (n : UInt32) : readNumber (some (Text.digits n.toNat)) = n := by
  simp [readNumber, Text.unsigned?_digits (show n.toNat < 1 <<< 32 from n.toNat_lt)]

/-! ## Boards -/

theorem readFields_writtenFields (b : Board) : readFields (writtenFields b) = .ok b := by
  simp only [writtenFields, readFields, readPlacement_placementRows, readSide_sideLetter, List.getElem?_cons_zero,
    List.getElem?_cons_succ, Option.getD_some, readCastling_castlingField, readEnPassant_enPassantField,
    readClock_digits, readNumber_digits]
  rfl

theorem isBlank_of_mem_row {c : Char} {row : List Char} {p : Placement} (h : row ∈ placementRows p) (hc : c ∈ row) :
    Text.isBlank c = false := by
  obtain ⟨r, -, rfl⟩ := List.mem_map.mp h
  rcases mem_rowLetters hc with hdigit | ⟨q, rfl⟩
  · exact Text.isBlank_of_isDigit hdigit
  · exact letter_isBlank q

theorem isField_placement (p : Placement) : Text.IsField (['/'].intercalate (placementRows p)) := by
  constructor
  · intro hnil
    have hlength := congrArg List.length (splitOnP_placementRows p)
    rw [hnil, length_placementRows] at hlength
    cases hlength
  · intro c hc
    rcases Text.mem_joined hc with rfl | ⟨row, hrow, hc⟩
    · decide
    · exact isBlank_of_mem_row hrow hc

theorem isField_castlingField (r : CastlingRights) : Text.IsField (castlingField r) := by
  obtain ⟨wk, wq, bk, bq⟩ := r
  cases wk <;> cases wq <;> cases bk <;> cases bq <;> exact Text.isField_of_all (by decide)

theorem isField_enPassantField (s : Option Square) : Text.IsField (enPassantField s) := by
  cases s with
  | none => exact Text.isField_of_all (by decide)
  | some s =>
    refine Text.isField_of_all ?_
    obtain ⟨i⟩ := s
    revert i
    decide

theorem isField_of_mem_writtenFields {b : Board} {f : List Char} (h : f ∈ writtenFields b) : Text.IsField f := by
  simp only [writtenFields, List.mem_cons, List.not_mem_nil, or_false] at h
  rcases h with rfl | rfl | rfl | rfl | rfl | rfl
  · exact isField_placement b.placement
  · cases b.sideToMove <;> exact Text.isField_of_all (by decide)
  · exact isField_castlingField b.castling
  · exact isField_enPassantField b.enPassant
  · exact Text.isField_digits _
  · exact Text.isField_digits _

end Fen

namespace Board

/-- Every board is read back from its text. -/
theorem ofFen_fen (b : Board) : ofFen b.fen = .ok b := by
  rw [ofFen, fen, String.toList_ofList, Text.fields_joined fun _ hf => Fen.isField_of_mem_writtenFields hf]
  exact Fen.readFields_writtenFields b

/-- The text of the board that a text is read as. -/
def reprint (text : String) : Except FenError String := (ofFen text).map fen

/-- Every board, in whatever way it came about, is read back from its text in all of its fields.
    Hence boards with the same text are equal, and a text that is accepted is brought by
    one reading and writing to a form that a second leaves as it is. -/
theorem fen_faithful :
    (∀ b : Board, ofFen b.fen = .ok b) ∧ Function.Injective fen ∧ ∀ text, (reprint text).bind reprint = reprint text := by
  refine ⟨ofFen_fen, fun b b' h => ?_, fun text => ?_⟩
  · have hread := ofFen_fen b
    rw [h, ofFen_fen b'] at hread
    injection hread with hread
    exact hread.symm
  · cases h : ofFen text with
    | error e => simp only [reprint, h, Except.map, Except.bind]
    | ok b => simp only [reprint, h, Except.map, Except.bind, ofFen_fen]

example : start.fen = "rnbqkbnr/pppppppp/8/8/8/8/PPPPPPPP/RNBQKBNR w KQkq - 0 1" := by decide +kernel

end Board

end ChessEval
