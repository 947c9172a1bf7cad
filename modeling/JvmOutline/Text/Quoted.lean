/-!
# Quoted text

A text is quoted between double quotes.  Inside, a quote and a backslash are preceded by a
backslash, tab, line feed, carriage return and NUL have short names, and every other control
character is given by its code point in hexadecimal.  All other characters stand for themselves.
-/

namespace JvmOutline

/-- A number in hexadecimal, in lower case. -/
def hexLower (n : Nat) : String := String.ofList (Nat.toDigits 16 n)

/-- A number in hexadecimal, in upper case. -/
def hexUpper (n : Nat) : String := String.ofList ((Nat.toDigits 16 n).map Char.toUpper)

namespace Quoted

/-- The control characters: those below the blank, and those from delete to the end of the second
control block. -/
def isControl (c : Char) : Bool := c.toNat < 0x20 || (0x7F ≤ c.toNat && c.toNat < 0xA0)

/-- One character as it stands between the quotes. -/
def escape (c : Char) : List Char :=
  if c = '"' then ['\\', '"']
  else if c = '\\' then ['\\', '\\']
  else if c = '\n' then ['\\', 'n']
  else if c = '\t' then ['\\', 't']
  else if c = '\r' then ['\\', 'r']
  else if c.toNat = 0 then ['\\', '0']
  else if isControl c then '\\' :: 'u' :: '{' :: (Nat.toDigits 16 c.toNat ++ ['}'])
  else [c]

end Quoted

/-- A text between double quotes. -/
def quoted (text : String) : String :=
  String.ofList ('"' :: (text.toList.flatMap Quoted.escape ++ ['"']))

end JvmOutline
