import DialogueScript.Text.Basic

/-!
Text between double quotes, with everything that would break a line or the quotes written as an
escape.
-/

namespace DialogueScript

namespace Text

/-- A number in lower-case hexadecimal, without leading zeros. -/
def hex (n : Nat) : Text := Nat.toDigits 16 n

/-- How a single character stands between the quotes. -/
def escape (c : Char) : Text :=
  if c = '"' then "\\\"".toList
  else if c = '\\' then "\\\\".toList
  else if c = '\n' then "\\n".toList
  else if c = '\r' then "\\r".toList
  else if c = '\t' then "\\t".toList
  else if c.toNat = 0 then "\\0".toList
  else if c.toNat < 0x20 || c.toNat = 0x7f then "\\u\x7b".toList ++ hex c.toNat ++ "\x7d".toList
  else [c]

def quoted (t : Text) : Text := "\"".toList ++ t.flatMap escape ++ "\"".toList

end Text

end DialogueScript
