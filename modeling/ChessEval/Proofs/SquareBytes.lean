/-
  ChessEval.Proofs.SquareBytes — squares kept in one byte.

  A host keeps a square as a byte (`StoredSquare`), and only the bytes below 64 are numbers of
  squares (`OnBoard`). Squares are made from coordinates, from the two bytes of a name, by a step
  and by a flip, all of it arithmetic of bytes.
  - `onBoard_iff`: the bytes on the board are those of the 64 squares.
  - `ofCoords?_eq`, `ofLetters?_eq`, `shift?_ofSquare`, `flip_ofSquare`: bytes are made and changed as
    squares are.
  - `locate`: an array of 64 is accessed by a byte, which may be too large (`locate_of_not_onBoard`).
-/

import ChessEval.Proofs.Text.Bytes
import ChessEval.Proofs.Board.FenLanguage
import ChessEval.Proofs.Board.Playing
import ChessEval.Stored

namespace ChessEval.Stored.StoredSquare

/-- The byte is the number of a square. -/
def OnBoard (x : StoredSquare) : Prop := x.number < 64

instance : DecidablePred OnBoard := fun x => inferInstanceAs (Decidable (x.number < 64))

@[simp] theorem number_ofSquare (s : Square) : (ofSquare s).number.toNat = s.index := by
  have hs := s.index.isLt
  rw [ofSquare, UInt8.toNat_ofNat']
  omega

@[ext] theorem ext {x y : StoredSquare} (h : x.number = y.number) : x = y := by
  cases x
  cases y
  exact congrArg mk h

theorem ofSquare_inj {s t : Square} : ofSquare s = ofSquare t ↔ s = t := by
  constructor
  · intro h
    apply Square.ext
    rw [← number_ofSquare s, ← number_ofSquare t, h]
  · exact congrArg ofSquare

theorem map_ofSquare_eq_some {o : Option Square} {s : Square} : o.map ofSquare = some (ofSquare s) ↔ o = some s := by
  cases o with
  | none => exact iff_of_false (fun h => nomatch h) fun h => nomatch h
  | some t => simp only [Option.map_some, Option.some.injEq, ofSquare_inj]

theorem onBoard_ofSquare (s : Square) : (ofSquare s).OnBoard := by
  rw [OnBoard, UInt8.lt_iff_toNat_lt, number_ofSquare]
  exact s.index.isLt

theorem onBoard_iff {x : StoredSquare} : x.OnBoard ↔ ∃ s, x = ofSquare s := by
  constructor
  · intro h
    have hx : x.number.toNat < 64 := UInt8.lt_iff_toNat_lt.mp h
    refine ⟨⟨⟨x.number.toNat, hx⟩⟩, ext ?_⟩
    rw [← UInt8.toNat_inj, number_ofSquare]
  · rintro ⟨s, rfl⟩
    exact onBoard_ofSquare s

/-! ## Access -/

/-- The square that an array of 64 is accessed at, which there may not be. -/
def locate (x : StoredSquare) : Except Fault Square :=
  match x.square? with
  | some s => .ok s
  | none => .error (.noSuchRow x.number.toNat 64)

@[simp] theorem locate_ofSquare (s : Square) : (ofSquare s).locate = .ok s := by
  have hlt : (ofSquare s).number.toNat < 64 := UInt8.lt_iff_toNat_lt.mp (onBoard_ofSquare s)
  have hs : (ofSquare s).square? = some s := (dif_pos hlt).trans (congrArg some (Square.ext (number_ofSquare s)))
  rw [locate, hs]

theorem locate_of_not_onBoard {x : StoredSquare} (h : ¬ x.OnBoard) : x.locate = .error (.noSuchRow x.number.toNat 64) := by
  have hx : x.square? = none := dif_neg fun hlt => h (UInt8.lt_iff_toNat_lt.mpr hlt)
  rw [locate, hx]

/-! ## Making squares -/

def ofCoords? (rank file : UInt8) : Option StoredSquare := if rank < 8 ∧ file < 8 then some ⟨rank * 8 + file⟩ else none

/-- All squares, in the order of their numbers. -/
def all : List StoredSquare := (List.range 64).map fun n => ⟨.ofNat n⟩

def rank (x : StoredSquare) : UInt8 := x.number / 8

def file (x : StoredSquare) : UInt8 := x.number % 8

def flip (x : StoredSquare) : StoredSquare := ⟨x.number ^^^ 56⟩

/-- A step in square numbers, taken in 16 bits, that has to stay on the board. -/
def shift? (x : StoredSquare) (d : Int8) : Option StoredSquare :=
  let n := Int16.ofNat x.number.toNat + d.toInt16
  if 0 ≤ n ∧ n < 64 then some ⟨.ofNat n.toNatClampNeg⟩ else none

/-- The two bytes of a name. -/
def ofBytes? : List UInt8 → Option StoredSquare
  | [f, r] =>
    if 97 ≤ f ∧ f ≤ 104 then
      if 49 ≤ r ∧ r ≤ 56 then some ⟨(r - 49) * 8 + (f - 97)⟩ else none
    else none
  | _ => none

def ofLetters? (cs : List Char) : Option StoredSquare := ofBytes? (Text.bytes cs)

/-- A byte can stand for a square where a move is played. -/
instance : SquareName StoredSquare where
  rank x := x.rank.toNat
  file x := x.file.toNat
  number x := x.number.toNat
  ofCoords? rank file := ofCoords? (.ofNat rank) (.ofNat file)
  shift? x d := x.shift? (.ofInt d)

theorem ofCoords?_eq (rank file : UInt8) :
    ofCoords? rank file = (Square.ofCoords? rank.toNat file.toNat).map ofSquare := by
  have hcond : (rank < 8 ∧ file < 8) ↔ (rank.toNat < 8 ∧ file.toNat < 8) :=
    and_congr UInt8.lt_iff_toNat_lt UInt8.lt_iff_toNat_lt
  unfold ofCoords? Square.ofCoords?
  by_cases h : rank < 8 ∧ file < 8
  · have h' := hcond.mp h
    rw [if_pos h, dif_pos h']
    refine congrArg some (ext (UInt8.toNat_inj.mp ?_))
    rw [number_ofSquare, UInt8.toNat_add, UInt8.toNat_mul]
    simp only [Square.ofCoords, UInt8.reduceToNat]
    omega
  · rw [if_neg h, dif_neg (mt hcond.mpr h)]
    rfl

theorem all_eq : all = Square.all.map ofSquare := by decide

theorem rank_ofSquare (s : Square) : (ofSquare s).rank.toNat = s.rank := by
  rw [rank, UInt8.toNat_div, number_ofSquare]
  rfl

theorem file_ofSquare (s : Square) : (ofSquare s).file.toNat = s.file := by
  rw [file, UInt8.toNat_mod, number_ofSquare]
  rfl

theorem file_ofSquare_inj {s t : Square} : (ofSquare s).file = (ofSquare t).file ↔ s.file = t.file := by
  rw [← UInt8.toNat_inj, file_ofSquare, file_ofSquare, Fin.val_inj]

theorem flip_ofSquare (s : Square) : (ofSquare s).flip = ofSquare s.flip := by
  rcases s with ⟨i⟩
  revert i
  decide

theorem toInt_stepped (x : StoredSquare) (d : Int8) :
    (Int16.ofNat x.number.toNat + d.toInt16).toInt = x.number.toNat + d.toInt := by
  have hx : x.number.toNat < 256 := x.number.toNat_lt
  have hlow := d.le_toInt
  have hhigh := d.toInt_lt
  rw [Int16.toInt_add, Int8.toInt_toInt16, Int16.toInt_ofNat_of_lt (by omega)]
  exact Int.bmod_eq_of_le_mul_two (by omega) (by omega)

theorem shift?_eq_some_iff {x y : StoredSquare} {d : Int8} :
    x.shift? d = some y ↔ y.OnBoard ∧ (y.number.toNat : Int) = x.number.toNat + d.toInt := by
  have hn := toInt_stepped x d
  have hnat : (Int16.ofNat x.number.toNat + d.toInt16).toNatClampNeg = (x.number.toNat + d.toInt).toNat := by
    rw [← hn]
    rfl
  unfold shift? OnBoard
  simp only [Int16.le_iff_toInt_le, Int16.lt_iff_toInt_lt, UInt8.lt_iff_toNat_lt, hn, hnat, Int16.reduceToInt,
    UInt8.reduceToNat]
  split
  case isTrue h =>
    have hsquare : ((x.number.toNat + d.toInt).toNat : Int) = x.number.toNat + d.toInt := Int.toNat_of_nonneg h.1
    rw [Option.some.injEq]
    constructor
    · rintro rfl
      rw [UInt8.toNat_ofNat']
      omega
    · rintro ⟨-, hy⟩
      apply ext
      rw [← UInt8.toNat_inj, UInt8.toNat_ofNat']
      omega
  case isFalse h =>
    constructor
    · exact fun he => nomatch he
    · rintro ⟨hlt, hy⟩
      exact absurd ⟨by omega, by omega⟩ h

theorem shift?_ofSquare (s : Square) (d : Int8) : (ofSquare s).shift? d = (s.shift? d.toInt).map ofSquare := by
  apply Option.ext
  intro y
  rw [shift?_eq_some_iff, Option.map_eq_some_iff, onBoard_iff]
  constructor
  · rintro ⟨⟨t, rfl⟩, h⟩
    rw [number_ofSquare, number_ofSquare] at h
    exact ⟨t, Square.shift?_eq_some_iff.mpr h, rfl⟩
  · rintro ⟨t, h, rfl⟩
    rw [number_ofSquare, number_ofSquare]
    exact ⟨⟨t, rfl⟩, Square.shift?_eq_some_iff.mp h⟩

/-- A byte of a run of eight is the first of them and up to seven more. -/
theorem exists_offset {first last b : UInt8} (h : last.toNat = first.toNat + 7) (hfirst : first ≤ b) (hlast : b ≤ last) :
    ∃ i : Fin 8, b = .ofNat (first.toNat + i) := by
  rw [UInt8.le_iff_toNat_le] at hfirst hlast
  refine ⟨⟨b.toNat - first.toNat, by omega⟩, ?_⟩
  rw [← UInt8.toNat_inj, UInt8.toNat_ofNat']
  have hb := b.toNat_lt
  simp only
  omega

/-- The bytes that are read as a square are those of its name. -/
theorem ofBytes?_eq_some_iff {bs : List UInt8} {x : StoredSquare} :
    ofBytes? bs = some x ↔ ∃ s : Square, bs = Text.bytes s.letters ∧ x = ofSquare s := by
  constructor
  · intro h
    unfold ofBytes? at h
    split at h
    · rename_i f r
      split at h
      · split at h
        · rename_i hf hr
          cases h
          obtain ⟨i, rfl⟩ := exists_offset (by decide) hf.1 hf.2
          obtain ⟨j, rfl⟩ := exists_offset (by decide) hr.1 hr.2
          refine ⟨.ofCoords j i, ?_⟩
          revert i j
          decide
        · cases h
      · cases h
    · cases h
  · rintro ⟨⟨i⟩, rfl, rfl⟩
    revert i
    decide

theorem ofLetters?_eq (cs : List Char) : ofLetters? cs = (Square.ofLetters? cs).map ofSquare := by
  apply Option.ext
  intro x
  rw [ofLetters?, ofBytes?_eq_some_iff, Option.map_eq_some_iff]
  simp only [Text.bytes_inj, Fen.ofLetters?_eq_some_iff, eq_comm (a := x)]

end ChessEval.Stored.StoredSquare
