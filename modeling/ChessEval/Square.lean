/-
  ChessEval.Square — the 64 squares, numbered a1 = 0, b1 = 1, …, h8 = 63.

  - `name` / `ofName?`: a file letter a … h and a rank digit 1 … 8, nothing else.
  - `flip`: the square seen from the other side of the board.
  - `shift?`: a step in square numbers that has to stay on the board.
  - `SquareName`: what else can stand for squares has to offer this much.
-/

namespace ChessEval

structure Square where
  index : Fin 64
  deriving DecidableEq, Repr

namespace Square

/-- The squares in the order of their numbers. -/
def all : List Square := (List.finRange 64).map Square.mk

def ofCoords (rank file : Fin 8) : Square := ⟨⟨rank * 8 + file, by omega⟩⟩

def ofCoords? (rank file : Nat) : Option Square :=
  if h : rank < 8 ∧ file < 8 then some (ofCoords ⟨rank, h.1⟩ ⟨file, h.2⟩) else none

/-- The rank, 0 for the first. -/
def rank (s : Square) : Fin 8 := ⟨s.index / 8, by omega⟩

/-- The file, 0 for the a-file. -/
def file (s : Square) : Fin 8 := ⟨s.index % 8, by omega⟩

/-- The same file on the rank counted from the other end. -/
def flip (s : Square) : Square := ofCoords s.rank.rev s.file

def shift? (s : Square) (d : Int) : Option Square :=
  if h : 0 ≤ s.index + d ∧ s.index + d < 64 then some ⟨⟨(s.index + d).toNat, by omega⟩⟩ else none

@[ext] theorem ext {s t : Square} (h : s.index.val = t.index.val) : s = t := by
  cases s; cases t; simp only [mk.injEq]; exact Fin.ext h

@[simp] theorem rank_ofCoords (r f : Fin 8) : (ofCoords r f).rank = r := by
  apply Fin.ext; simp only [rank, ofCoords]; omega

@[simp] theorem file_ofCoords (r f : Fin 8) : (ofCoords r f).file = f := by
  apply Fin.ext; simp only [file, ofCoords]; omega

@[simp] theorem ofCoords_rank_file (s : Square) : ofCoords s.rank s.file = s := by
  apply ext; simp only [rank, file, ofCoords]; omega

@[simp] theorem flip_flip (s : Square) : s.flip.flip = s := by simp [flip]

theorem mem_all (s : Square) : s ∈ all := List.mem_map.mpr ⟨s.index, List.mem_finRange _, rfl⟩

/-! ## Names -/

def letters (s : Square) : List Char := [Char.ofNat (97 + s.file), Char.ofNat (49 + s.rank)]

def name (s : Square) : String := String.ofList s.letters

def ofLetters? : List Char → Option Square
  | [f, r] => if 'a' ≤ f ∧ '1' ≤ r then ofCoords? (r.toNat - 49) (f.toNat - 97) else none
  | _ => none

def ofName? (text : String) : Option Square := ofLetters? text.toList

@[simp] theorem ofLetters?_letters (s : Square) : ofLetters? s.letters = some s := by
  rcases s with ⟨i⟩
  revert i
  decide

end Square

/-- What is asked of a square by those who do not look into it. -/
class SquareName (α : Type) where
  rank : α → Nat
  file : α → Nat
  number : α → Nat
  ofCoords? : Nat → Nat → Option α
  shift? : α → Int → Option α

instance : SquareName Square where
  rank s := s.rank
  file s := s.file
  number s := s.index
  ofCoords? := Square.ofCoords?
  shift? := Square.shift?

/-- The text is not the name of a square. -/
structure SquareError where
  text : String
  deriving DecidableEq, Repr

def SquareError.message (e : SquareError) : String := s!"Invalid square notation '{e.text}'"

def Square.ofName (text : String) : Except SquareError Square :=
  match Square.ofName? text with
  | some s => .ok s
  | none => .error ⟨text⟩

end ChessEval
