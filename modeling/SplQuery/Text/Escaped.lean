import SplQuery.Text.Printable

/-!
# Texts as they are shown

A text is shown between double quotes. Quotes and backslashes have a backslash before them, line
breaks, tabs and zeros have a name, and other characters that are not shown as they are have their
code point in hexadecimal.
-/

namespace SplQuery.Text

/-- A number in hexadecimal, in lower case. -/
def hex (n : Nat) : String := String.ofList (Nat.toDigits 16 n)

/-- A character of a text as it is shown. -/
def showChar (c : Char) : String :=
  if c = '"' then "\\\""
  else if c = '\\' then "\\\\"
  else if c = '\n' then "\\n"
  else if c = '\r' then "\\r"
  else if c = '\t' then "\\t"
  else if c = '\x00' then "\\0"
  else if isShown c then c.toString
  else "\\u\x7b" ++ hex c.toNat ++ "\x7d"

/-- A text as it is shown, between double quotes. -/
def shown (s : String) : String := "\"" ++ String.join (s.toList.map showChar) ++ "\""

end SplQuery.Text
