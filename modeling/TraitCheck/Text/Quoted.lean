import TraitCheck.Text.Printable
import TraitCheck.Text.Utf8

/-!
# Quoted text

A text between double quotes, on one line and with printable characters only. The quote and the
backslash are escaped, control characters have short escapes where there are any, and everything
else that is not printable is written by its number, also the bytes that belong to no character.
-/

namespace TraitCheck.Text

def hexPadded (width number : Nat) : String :=
  let digits := Nat.toDigits 16 number
  .ofList (List.replicate (width - digits.length) '0' ++ digits)

def escapeHidden (char : Char) : String :=
  match char.toNat with
  | 7 => "\\a"
  | 8 => "\\b"
  | 9 => "\\t"
  | 10 => "\\n"
  | 11 => "\\v"
  | 12 => "\\f"
  | 13 => "\\r"
  | number =>
    if number < 0x20 ∨ number = 0x7F then "\\x" ++ hexPadded 2 number
    else if number < 0x10000 then "\\u" ++ hexPadded 4 number
    else "\\U" ++ hexPadded 8 number

def escape (char : Char) : String :=
  if char = '"' ∨ char = '\\' then "\\" ++ char.toString
  else if isPrintable char then char.toString
  else escapeHidden char

def quoted (text : String) : String :=
  "\"" ++ String.join (text.toList.map escape) ++ "\""

def escapeRune : Utf8.Rune → String
  | .char char => escape char
  | .invalid byte => "\\x" ++ hexPadded 2 byte.toNat

def quotedBytes (bytes : Bytes) : String :=
  "\"" ++ String.join ((Utf8.runes bytes).map escapeRune) ++ "\""

end TraitCheck.Text
