import WireCall.Text.Visible

namespace WireCall

/-!
# Quoted texts

`quoted s` writes a text between double quotes for a message that a person reads: quotes and
backslashes are escaped, the common controls have a letter, and a character that cannot be shown
as itself is written by its number.
-/

namespace Text

/-- The digits of `n` in base 16, lower case, without leading zeros. -/
def hexadecimal (n : Nat) : String := String.ofList (Nat.toDigits 16 n)

/-- A character inside double quotes. -/
def escapeChar (c : Char) : String :=
  if c = '\x00' then "\\0"
  else if c = '\t' then "\\t"
  else if c = '\r' then "\\r"
  else if c = '\n' then "\\n"
  else if c = '\x22' then "\\\x22"
  else if c = '\\' then "\\\\"
  else if Visible.shown c then String.singleton c
  else "\\u\x7b" ++ hexadecimal c.toNat ++ "\x7d"

/-- The text between double quotes. -/
def quoted (s : String) : String :=
  "\x22" ++ s.toList.foldl (fun acc c => acc ++ escapeChar c) "" ++ "\x22"

end Text
end WireCall
