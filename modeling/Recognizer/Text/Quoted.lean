import Recognizer.Text.CombiningMark
import Recognizer.Text.DefaultIgnorable
import Recognizer.Text.Unprintable

/-!
# Quoted texts

A text in quotes on one line, in which every character can be seen: quotes and backslashes are
escaped, and so are the characters that show nothing or change the one before them.
-/

namespace Recognizer.Text

/-- Is a code point in one of the ranges? -/
def inRanges (ranges : List (Nat × Nat)) (n : Nat) : Bool :=
  ranges.any fun (first, last) => first ≤ n && n ≤ last

/-- Is `c` written as itself, quotes and backslashes apart? -/
def isShown (c : Char) : Bool :=
  if c.toNat < 0x7F then 0x20 ≤ c.toNat
  else !(inRanges combiningMarkRanges c.toNat || inRanges defaultIgnorableRanges c.toNat ||
    inRanges unprintableRanges c.toNat)

/-- The number of a character in lower-case hexadecimal digits, in braces. -/
def codePoint (c : Char) : List Char :=
  ['\\', 'u', '\x7b'] ++ Nat.toDigits 16 c.toNat ++ ['\x7d']

/-- How a character is written between quotes. -/
def escapeChar (c : Char) : List Char :=
  if c = '"' then ['\\', '"']
  else if c = '\\' then ['\\', '\\']
  else if c = '\x00' then ['\\', '0']
  else if c = '\t' then ['\\', 't']
  else if c = '\r' then ['\\', 'r']
  else if c = '\n' then ['\\', 'n']
  else if isShown c then [c]
  else codePoint c

/-- A text in quotes. -/
def quoteChars (cs : List Char) : List Char :=
  '"' :: cs.flatMap escapeChar ++ ['"']

/-- A text in quotes. -/
def quote (s : String) : String :=
  String.ofList (quoteChars s.toList)

end Recognizer.Text
