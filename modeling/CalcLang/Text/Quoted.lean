import CalcLang.Text.Unprintable

/-!
# Quoted text

A log line may write the value of a field in quotes, with quotes, backslashes and the characters
that do not print replaced by escapes. A character that stands alone is written likewise, between
apostrophes.
-/

namespace CalcLang.Text

/-- The hexadecimal digits of a number, without leading zeros. -/
def hexDigits (n : Nat) : List Char := Nat.toDigits 16 n

/-- A character of a quoted text. -/
def quotedChar (c : Char) : List Char :=
  if c = '"' then ['\\', '"']
  else if c = '\\' then ['\\', '\\']
  else if c = '\t' then ['\\', 't']
  else if c = '\n' then ['\\', 'n']
  else if c = '\r' then ['\\', 'r']
  else if c.toNat = 0 then ['\\', '0']
  else if c.toNat < 0x20 || isUnprintable c then
    '\\' :: 'u' :: '\x7b' :: (hexDigits c.toNat ++ ['\x7d'])
  else [c]

/-- A text in quotes. -/
def quoted (s : String) : String :=
  String.ofList ('"' :: (s.toList.flatMap quotedChar ++ ['"']))

/-- A character that stands alone, between apostrophes. Here an apostrophe is escaped, and a quote
is not. -/
def quotedAlone (c : Char) : String :=
  let cs := if c = '\'' then ['\\', c] else if c = '"' then [c] else quotedChar c
  String.ofList ('\'' :: (cs ++ ['\'']))

end CalcLang.Text
