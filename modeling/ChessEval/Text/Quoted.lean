/-
  ChessEval.Text.Quoted — characters and text in quotes.

  Inside quotes the backslash, the quote in use, and the characters for tab, line feed,
  carriage return and zero are written with a backslash; other unprintable characters
  as their code point in hexadecimal, in braces after a backslash and a `u`.
-/

import ChessEval.Text.Unprintable

namespace ChessEval.Text

def escape (quote c : Char) : List Char :=
  if c = '\t' then ['\\', 't']
  else if c = '\n' then ['\\', 'n']
  else if c = '\r' then ['\\', 'r']
  else if c = '\x00' then ['\\', '0']
  else if c = '\\' ∨ c = quote then ['\\', c]
  else if isUnprintable c then ['\\', 'u', '\x7b'] ++ Nat.toDigits 16 c.toNat ++ ['\x7d']
  else [c]

def quoted (quote : Char) (cs : List Char) : List Char := quote :: cs.flatMap (escape quote) ++ [quote]

def quotedChar (c : Char) : String := String.ofList (quoted '\'' [c])

def quotedText (text : String) : String := String.ofList (quoted '"' text.toList)

example : quoted '"' ['a', '"', '\'', '\u200b'] =
    ['"', 'a', '\\', '"', '\'', '\\', 'u', '\x7b', '2', '0', '0', 'b', '\x7d', '"'] := by decide +kernel

end ChessEval.Text
