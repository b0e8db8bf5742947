import TypedConfig.Text.Extending
import TypedConfig.Text.Printable

/-!
# Quoted text

The form in which messages show a text: between double quotes, with a backslash before quotes and
backslashes, letters for the common control characters, and code points for whatever would not
show by itself.
-/

namespace TypedConfig.Text

/-- The lower-case hexadecimal numeral of a number. -/
def hexadecimal (n : Nat) : List Char := Nat.toDigits 16 n

/-- A character as it stands between the quotes. -/
def quotedChar (c : Char) : List Char :=
  if c = '"' then ['\\', '"']
  else if c = '\\' then ['\\', '\\']
  else if c = '\n' then ['\\', 'n']
  else if c = '\r' then ['\\', 'r']
  else if c = '\t' then ['\\', 't']
  else if c.toNat = 0 then ['\\', '0']
  else if isExtending c || !isPrintable c then
    '\\' :: 'u' :: '\x7b' :: (hexadecimal c.toNat ++ ['\x7d'])
  else [c]

/-- The quoted form of a text. -/
def quoted (s : String) : String :=
  String.ofList ('"' :: (s.toList.flatMap quotedChar ++ ['"']))

end TypedConfig.Text
