/-!
# Character classes

Named sets of characters. All but the complements of the quote and the backslash are sets of ASCII
characters; no class follows Unicode properties.
-/

namespace Recognizer

/-- A named set of characters. -/
inductive CharClass where
  /-- `0` to `9`. -/
  | digit
  /-- `1` to `9`. -/
  | nonzeroDigit
  /-- `0` to `9`, `a` to `f` and `A` to `F`. -/
  | hexDigit
  /-- The ASCII letters. -/
  | letter
  /-- Space, tab, line feed and carriage return. -/
  | whitespace
  /-- All but the quote and the backslash. -/
  | plain
  /-- The plain characters above U+001F. -/
  | unescaped
  /-- The characters that name an escape by themselves, after a backslash. -/
  | escapeLetter
  /-- All characters. -/
  | any
  deriving DecidableEq

namespace CharClass

/-- Is `c` in the class? -/
def accepts : CharClass → Char → Bool
  | digit, c => '0' ≤ c && c ≤ '9'
  | nonzeroDigit, c => '1' ≤ c && c ≤ '9'
  | hexDigit, c =>
    ('0' ≤ c && c ≤ '9') || ('a' ≤ c && c ≤ 'f') || ('A' ≤ c && c ≤ 'F')
  | letter, c => ('a' ≤ c && c ≤ 'z') || ('A' ≤ c && c ≤ 'Z')
  | whitespace, c => c == ' ' || c == '\t' || c == '\n' || c == '\r'
  | plain, c => c != '"' && c != '\\'
  | unescaped, c => c != '"' && c != '\\' && '\x1f' < c
  | escapeLetter, c =>
    c == '"' || c == '\\' || c == '/' || c == 'b' || c == 'f' || c == 'n' || c == 'r' || c == 't'
  | any, _ => true

end CharClass

end Recognizer
