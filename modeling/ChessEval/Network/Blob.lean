/-
  ChessEval.Network.Blob — the stored form of a network.

  A blob is a run of 16-bit words, low byte first, without a header: the rows of weights
  in order, the hidden bias, the output weights of the side to move and of its opponent,
  and the output bias. Bytes after the last word are ignored; a shorter blob is refused.
-/

import ChessEval.Network.Basic

namespace ChessEval

inductive NetworkError where
  | unreadable (path reason : String)
  | truncated (expected found : Nat)
  deriving DecidableEq, Repr

namespace NetworkError

/-- The name under which the error is reported. -/
def label : NetworkError → String
  | unreadable .. => "Io"
  | truncated .. => "Truncated"

def message : NetworkError → String
  | unreadable path reason => s!"Failed to read network file '{path}': {reason}"
  | truncated expected found => s!"Network data truncated: expected {expected} bytes, found {found}"

/-- What the operating system said, where it was the cause. -/
def reason? : NetworkError → Option String
  | unreadable _ reason => some reason
  | truncated .. => none

end NetworkError

namespace Network

/-- Words in a blob. -/
def blobWords : Nat := inputSize * hiddenSize + hiddenSize + 2 * hiddenSize + 1

/-- Bytes in a blob. -/
def blobSize : Nat := 2 * blobWords

/-- The byte at `i`, zero past the end. -/
def byteAt (data : ByteArray) (i : Nat) : UInt8 := if h : i < data.size then data[i] else 0

/-- The word at place `k` of the run of words. -/
def wordAt (data : ByteArray) (k : Nat) : Int16 :=
  ((byteAt data (2 * k)).toUInt16 ||| (byteAt data (2 * k + 1)).toUInt16 <<< 8).toInt16

/-! A blob is read from its first word on, in one go: the state is the place of the next word. -/

def nextWord (data : ByteArray) : StateM Nat Int16 := modifyGet fun k => (wordAt data k, k + 1)

/-- As many words as there are lanes, none of them skipped before or after. -/
def nextLanes (data : ByteArray) : StateM Nat Lanes := Vector.ofFnM fun _ => nextWord data

def nextNetwork (data : ByteArray) : StateM Nat Network := do
  let rows ← Vector.ofFnM fun _ => nextLanes data
  let hiddenBias ← nextLanes data
  let own ← nextLanes data
  let other ← nextLanes data
  let outputBias ← nextWord data
  return { rows, hiddenBias, own, other, outputBias }

def ofBlob (data : ByteArray) : Except NetworkError Network :=
  if data.size < blobSize then .error (.truncated blobSize data.size)
  else .ok ((nextNetwork data).run 0).1

def pushWord (data : ByteArray) (w : Int16) : ByteArray :=
  (data.push w.toUInt16.toUInt8).push (w.toUInt16 >>> 8).toUInt8

def pushLanes (data : ByteArray) (x : Lanes) : ByteArray := x.foldl pushWord data

def toBlob (net : Network) : ByteArray :=
  let data := net.rows.foldl pushLanes (.emptyWithCapacity blobSize)
  pushWord (pushLanes (pushLanes (pushLanes data net.hiddenBias) net.own) net.other) net.outputBias

end Network

/-- What came of reading a file: its bytes, or why they could not be had. -/
structure FileRead where
  path : String
  outcome : Except String ByteArray

def Network.load (file : FileRead) : Except NetworkError Network :=
  match file.outcome with
  | .ok data => ofBlob data
  | .error reason => .error (.unreadable file.path reason)

end ChessEval
