import TraitCheck.Text.Utf8

/-!
# Bytes in base 64

Four characters stand for three bytes. The last group may be padded, and then stands for one or two
bytes. Line breaks do not count.
-/

namespace TraitCheck.Document.Base64

def value? (char : Char) : Option Nat :=
  if 'A' ≤ char ∧ char ≤ 'Z' then some (char.toNat - 65)
  else if 'a' ≤ char ∧ char ≤ 'z' then some (char.toNat - 71)
  else if '0' ≤ char ∧ char ≤ '9' then some (char.toNat + 4)
  else if char = '+' then some 62
  else if char = '/' then some 63
  else none

def groups? : List Char → Option Bytes
  | [] => some []
  | [a, b, '=', '='] => do
    let first ← value? a
    let second ← value? b
    some [(first * 4 + second / 16).toUInt8]
  | [a, b, c, '='] => do
    let first ← value? a
    let second ← value? b
    let third ← value? c
    some [(first * 4 + second / 16).toUInt8, (second % 16 * 16 + third / 4).toUInt8]
  | a :: b :: c :: d :: rest => do
    let first ← value? a
    let second ← value? b
    let third ← value? c
    let fourth ← value? d
    let bytes ← groups? rest
    some ((first * 4 + second / 16).toUInt8 :: (second % 16 * 16 + third / 4).toUInt8 ::
      (third % 4 * 64 + fourth).toUInt8 :: bytes)
  | _ => none

def decode? (text : String) : Option Bytes :=
  groups? (text.toList.filter fun char => char ≠ '\n' ∧ char ≠ '\r')

end TraitCheck.Document.Base64
