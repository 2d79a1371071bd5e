import Recognizer.Pattern.Basic

/-!
# Numbers, strings and whitespace

The parts of JSON that refer to no rules.
-/

namespace Recognizer.Json

variable {ρ : Type}

/-- Any run of spaces, tabs, line feeds and carriage returns. -/
def whitespace : Pattern ρ :=
  (Pattern.ofClass .whitespace).many

/-- One digit or more. -/
def digits : Pattern ρ :=
  (Pattern.ofClass .digit).many1

/-- A minus sign or none, and `0` or digits that start with another one. -/
def integer : Pattern ρ :=
  .concat [.optional (.char '-'),
    .firstOf [.char '0', .concat [.ofClass .nonzeroDigit, (Pattern.ofClass .digit).many]]]

/-- A point calls for digits. -/
def fraction : Pattern ρ :=
  .implies (.char '.') digits

/-- An exponent mark calls for a sign or none and digits. -/
def exponent : Pattern ρ :=
  .implies (.firstOf [.char 'e', .char 'E'])
    (.concat [.optional (.firstOf [.char '+', .char '-']), digits])

/-- A number. A point or an exponent mark without digits behind it rejects the whole. -/
def number : Pattern ρ :=
  .context (.concat [integer, fraction, exponent]) "number"

/-- A backslash and what it escapes. -/
def escape : Pattern ρ :=
  .concat [.char '\\',
    .label
      (.firstOf [.ofClass .escapeLetter,
        .concat [.char 'u', (Pattern.ofClass .hexDigit).exactly 4]])
      "invalid escape sequence"]

/-- A string whose unescaped characters are of class `unquoted`, up to the first unescaped quote. -/
def stringOf (unquoted : CharClass) : Pattern ρ :=
  .context
    (.concat [.char '"', .scan (.char '"') (.firstOf [.ofClass unquoted, escape])])
    "string"

/-- A string with any raw characters but quotes and backslashes. -/
def string : Pattern ρ :=
  stringOf .plain

/-- A string without raw characters up to U+001F. -/
def strictString : Pattern ρ :=
  stringOf .unescaped

end Recognizer.Json
