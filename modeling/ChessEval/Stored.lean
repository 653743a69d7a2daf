/-
  ChessEval.Stored — the stored form of tuning values and of the small types.

  A stored value is a tree of nulls, truth values, numbers, text, lists and records.
  - Tuning: a record of integers by key, absent keys having the default and others being
    ignored; or a list of the integers in the order of the keys, which may stop early.
    An integer has to fit in 32 bits, the horizon without sign.
  - Phase, colour and kind: the name as text, or a record of that one name with null.
  - Square: its number. Reading takes any byte; whether it is a square is not checked,
    so `StoredSquare.square?` has to be asked.
-/

import ChessEval.Phase.Basic
import ChessEval.Piece
import ChessEval.Score.Tuning
import ChessEval.Square

namespace ChessEval

namespace Stored

inductive Value where
  | null
  | bool (b : Bool)
  | integer (n : Int)
  /-- A number that is not written as an integer. -/
  | fraction
  | text (s : String)
  | list (items : List Value)
  | record (entries : List (String × Value))
  deriving Inhabited

def Value.integerWithin? (low high : Int) : Value → Option Int
  | .integer n => if low ≤ n ∧ n ≤ high then some n else none
  | _ => none

/-! ## Tuning -/

/-- One key of the stored tuning. -/
structure Setting where
  key : String
  low : Int
  high : Int
  get : Tuning → Int
  set : Tuning → Int → Tuning

def Setting.signed (key : String) (get : Tuning → Int) (set : Tuning → Int → Tuning) : Setting :=
  ⟨key, Int32.minValue.toInt, Int32.maxValue.toInt, get, set⟩

def settings : List Setting :=
  [.signed "phase_check_depth" (·.phaseCheckDepth) fun t n => { t with phaseCheckDepth := n },
   .signed "endgame_margin" (·.endgameMargin) fun t n => { t with endgameMargin := n },
   .signed "sacrifice_margin" (·.sacrificeMargin) fun t n => { t with sacrificeMargin := n },
   .signed "better_than_material_threshold" (·.excessThreshold) fun t n => { t with excessThreshold := n },
   .signed "better_than_material_base" (·.excessBase) fun t n => { t with excessBase := n },
   .signed "better_than_material_divisor" (·.excessDivisor) fun t n => { t with excessDivisor := n },
   .signed "sacrifice_material_floor" (·.sacrificeFloor) fun t n => { t with sacrificeFloor := n },
   .signed "sacrifice_trigger" (·.sacrificeTrigger) fun t n => { t with sacrificeTrigger := n },
   .signed "sacrifice_bonus_winning" (·.sacrificeBonusWinning) fun t n => { t with sacrificeBonusWinning := n },
   .signed "sacrifice_bonus_ahead" (·.sacrificeBonusAhead) fun t n => { t with sacrificeBonusAhead := n },
   .signed "sacrifice_winning_margin" (·.sacrificeWinningMargin) fun t n => { t with sacrificeWinningMargin := n },
   .signed "scaling_base" (·.scalingBase) fun t n => { t with scalingBase := n },
   .signed "scaling_material_divisor" (·.scalingMaterialDivisor) fun t n => { t with scalingMaterialDivisor := n },
   .signed "scaling_denominator" (·.scalingDenominator) fun t n => { t with scalingDenominator := n },
   ⟨"fifty_move_horizon", 0, UInt32.size - 1, fun t => t.fiftyMoveHorizon, fun t n => { t with fiftyMoveHorizon := n.toNat }⟩,
   .signed "contempt" (·.contempt) fun t n => { t with contempt := n }]

def Setting.read (s : Setting) (t : Tuning) (v : Value) : Option Tuning :=
  (v.integerWithin? s.low s.high).map (s.set t)

def readTuning : Value → Option Tuning
  | .record entries =>
    settings.foldlM (fun t s => match entries.lookup s.key with | some v => s.read t v | none => some t) {}
  | .list items =>
    if items.length ≤ settings.length then (settings.zip items).foldlM (fun t (s, v) => s.read t v) {} else none
  | _ => none

def writeTuning (t : Tuning) : Value := .record (settings.map fun s => (s.key, .integer (s.get t)))

/-! ## Names -/

def readName {α : Type} (names : List (String × α)) : Value → Option α
  | .text s => names.lookup s
  | .record [(s, .null)] => names.lookup s
  | _ => none

def phaseNames : List (String × Phase) :=
  [("Middlegame", .middlegame), ("Endgame", .endgame), ("Sacrifice", .sacrifice)]

def colorNames : List (String × Color) := [("White", .white), ("Black", .black)]

def kindNames : List (String × Kind) :=
  [("Pawn", .pawn), ("Knight", .knight), ("Bishop", .bishop), ("Rook", .rook), ("Queen", .queen), ("King", .king)]

/-- The name of a value of an enumeration. -/
def writeName {α : Type} [DecidableEq α] (names : List (String × α)) (a : α) : Value :=
  match names.find? (·.2 = a) with
  | some (s, _) => .text s
  | none => .null

/-! ## Squares -/

/-- A square as it is stored: one byte, which need not be the number of a square. -/
structure StoredSquare where
  number : UInt8
  deriving DecidableEq, Repr

def StoredSquare.ofSquare (s : Square) : StoredSquare := ⟨.ofNat s.index⟩

def StoredSquare.square? (s : StoredSquare) : Option Square :=
  if h : s.number.toNat < 64 then some ⟨⟨s.number.toNat, h⟩⟩ else none

def readSquare (v : Value) : Option StoredSquare := (v.integerWithin? 0 255).map fun n => ⟨.ofNat n.toNat⟩

def writeSquare (s : StoredSquare) : Value := .integer s.number.toNat

end Stored

end ChessEval
