/-
  ChessEval.CommandLine — one evaluation from the command line.

  The arguments are three network files, then options and moves in any order. Options
  are read first, in order: `--fen` and `--depth` take the next argument, and the last
  of each counts. The moves are then played from the position, each followed on the
  line, and the position reached is scored at that depth. The report lists the stages.
  Exit codes: 0 for a report, 1 if a network cannot be had, 2 for arguments or moves that
  make no sense, 101 for a line deeper than the stack.
-/

import ChessEval.Board.Fen
import ChessEval.Board.Play
import ChessEval.Line.Basic

namespace ChessEval.CommandLine

structure Outcome where
  exit : Nat
  out : List String
  err : List String
  deriving DecidableEq, Repr

def Outcome.failure (exit : Nat) (message : String) : Outcome := ⟨exit, [], [message]⟩

def usage : String :=
  "usage: evalpos <middlegame.nnue> <endgame.nnue> <sacrifice.nnue> [--fen <fen>] [--depth <n>] [moves...]"

/-- What the arguments after the files ask for. -/
structure Request where
  board : Board
  depth : Int
  moves : List String
  deriving DecidableEq, Repr

inductive ArgumentError where
  | noFen
  | badFen (error : FenError)
  | badDepth
  deriving DecidableEq, Repr

def ArgumentError.message : ArgumentError → String
  | noFen => "--fen needs a value"
  | badFen e => s!"bad fen: {e.message}"
  | badDepth => "--depth needs an integer"

def scan (r : Request) : List String → Except ArgumentError Request
  | [] => .ok r
  | "--fen" :: fen :: rest =>
    match Board.ofFen fen with
    | .ok board => scan { r with board } rest
    | .error e => .error (.badFen e)
  | "--fen" :: [] => .error .noFen
  | "--depth" :: n :: rest =>
    match Text.signed? 32 n.toList with
    | some depth => scan { r with depth } rest
    | none => .error .badDepth
  | "--depth" :: [] => .error .badDepth
  | move :: rest => scan { r with moves := r.moves ++ [move] } rest

/-- The request of no arguments: the initial position at depth 0. -/
def Request.initial : Request := ⟨.start, 0, []⟩

/-- Why a list of moves was not played to its end. -/
inductive Stop where
  | rejected (move reason : String)
  | fault (f : Fault)
  deriving DecidableEq, Repr

def Stop.outcome : Stop → Outcome
  | rejected move reason => .failure 2 s!"cannot play {move}: {reason}"
  | fault f => .failure 101 f.message

/-- Reads a move and plays it. -/
def playText (b : Board) (text : String) : Except String Played :=
  match Move.ofText text with
  | .error e => .error e.message
  | .ok m =>
    match b.play m with
    | .error e => .error e.message
    | .ok played => .ok played

/-- Plays the moves, each followed on the line. -/
def follow (l : Line) (b : Board) : List String → Except Stop (Line × Board)
  | [] => .ok (l, b)
  | text :: rest =>
    match playText b text with
    | .error reason => .error (.rejected text reason)
    | .ok played =>
      match l.push played.board.toPosition played.change with
      | .error f => .error (.fault f)
      | .ok l => follow l played.board rest

def sideName : Color → String
  | .white => "white"
  | .black => "black"

def report (b : Board) (phase : Phase) (t : Trace) : List String :=
  [s!"fen: {b.fen}", s!"side_to_move: {sideName b.sideToMove}", s!"phase: {phase.name}", s!"raw: {t.raw}"] ++
  (if t.bypassed then ["decisive score, modifiers skipped"]
   else [s!"better_than_material: {t.excess}", s!"sacrifice_bonus: {t.sacrifice}", s!"scaled: {t.scaled}",
     s!"contempt: {t.contempt}"]) ++
  [s!"final: {t.final}"]

def evaluateRequest (networks : PhaseNetworks) (r : Request) : Outcome :=
  match follow (Line.start networks r.board.toPosition {}) r.board r.moves with
  | .error stop => stop.outcome
  | .ok (l, b) =>
    match l.evaluate b.toPosition r.depth l.ply with
    | (.ok t, l) => ⟨0, report b l.phase t, []⟩
    | (.error f, _) => .failure 101 f.message

/-- The whole command: `read` gives what came of reading a file. -/
def run (read : String → FileRead) : List String → Outcome
  | middlegame :: endgame :: sacrifice :: rest =>
    match PhaseNetworks.loadEach (read middlegame) (read endgame) (read sacrifice) with
    | (networks, true) =>
      match scan .initial rest with
      | .ok r => evaluateRequest networks r
      | .error e => .failure 2 e.message
    | (_, false) => .failure 1 "failed to load networks"
  | _ => .failure 2 usage

end ChessEval.CommandLine
