import LabelBasic.Text.Visible

/-!
# Quoted texts

Listings and messages show a text between double quotes and a single character between single
quotes. The quote itself, the backslash and the usual controls are written with a backslash; what
is not visible is written by its code point in braces, in lower-case hexadecimal.
-/
namespace LabelBasic

/-- A code point in braces, such as `\u{7f}`. -/
def codePointEscape (c : Char) : List Char :=
  ['\\', 'u', '\x7b'] ++ Nat.toDigits 16 c.toNat ++ ['\x7d']

/-- How a character is written inside quotes of the kind `quote`. -/
def escapeIn (quote c : Char) : List Char :=
  if c = '\x00' then ['\\', '0']
  else if c = '\t' then ['\\', 't']
  else if c = '\r' then ['\\', 'r']
  else if c = '\n' then ['\\', 'n']
  else if c = '\\' ∨ c = quote then ['\\', c]
  else if isVisible c then [c]
  else codePointEscape c

/-- A character between single quotes. -/
def quoteChar (c : Char) : String :=
  String.ofList ('\'' :: escapeIn '\'' c ++ ['\''])

/-- A text between double quotes. -/
def quoteText (s : String) : String :=
  String.ofList ('"' :: s.toList.flatMap (escapeIn '"') ++ ['"'])

end LabelBasic
