import QuasiNewton.Text.Hidden

/-!
# Quoted text

A text is shown in quotes, with a backslash before a quote or a backslash and with hidden characters
spelled out by their code points. Single quotes are used unless only double quotes need no escape.
-/

namespace QuasiNewton.Text

/-- A number in hexadecimal with at least the given number of digits. -/
private def hexadecimal (width n : Nat) : String :=
  let ds := Nat.toDigits 16 n
  String.ofList (List.replicate (width - ds.length) '0' ++ ds)

/-- A hidden character spelled out with two, four or eight digits. -/
def spelled (c : Char) : String :=
  if c.toNat < 0x100 then "\\x" ++ hexadecimal 2 c.toNat
  else if c.toNat < 0x10000 then "\\u" ++ hexadecimal 4 c.toNat
  else "\\U" ++ hexadecimal 8 c.toNat

/-- A character inside quotes. -/
def quotedChar (quote c : Char) : String :=
  if c == quote || c == '\\' then String.ofList ['\\', c]
  else if c == '\n' then "\\n"
  else if c == '\r' then "\\r"
  else if c == '\t' then "\\t"
  else if isHidden c then spelled c
  else String.ofList [c]

/-- The quote that a text is shown in. -/
def quoteFor (s : String) : Char :=
  if s.toList.contains '\'' && !s.toList.contains '"' then '"' else '\''

/-- A text in quotes. -/
def quoted (s : String) : String :=
  let quote := quoteFor s
  String.ofList [quote] ++ String.join (s.toList.map (quotedChar quote)) ++ String.ofList [quote]

end QuasiNewton.Text
