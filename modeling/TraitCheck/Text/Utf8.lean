/-!
# Bytes as text

Source files are byte strings that need not be well formed. `Utf8.runes` reads them as a sequence
of runes: a well-formed UTF-8 sequence gives its character, and a byte that starts none stands for
itself.
-/

namespace TraitCheck

/-- The contents of a file, or a piece of output. -/
abbrev Bytes := List UInt8

namespace Utf8

def encode (text : String) : Bytes := text.toList.flatMap String.utf8EncodeChar

/-- A unit of text: a character, or a byte that belongs to no character. -/
inductive Rune where
  | char (char : Char)
  | invalid (byte : UInt8)
  deriving DecidableEq, Repr, Inhabited

def isContinuation (byte : UInt8) : Bool := 0x80 ≤ byte && byte ≤ 0xBF

def payload (byte : UInt8) : Nat := byte.toNat % 64

/-- Whether the second byte of a sequence of three or four fits its first byte: overlong forms,
surrogates and numbers past the last character are excluded here. -/
def secondFits (lead second : UInt8) : Bool :=
  if lead = 0xE0 then 0xA0 ≤ second && second ≤ 0xBF
  else if lead = 0xED then 0x80 ≤ second && second ≤ 0x9F
  else if lead = 0xF0 then 0x90 ≤ second && second ≤ 0xBF
  else if lead = 0xF4 then 0x80 ≤ second && second ≤ 0x8F
  else isContinuation second

/-- The rune that a non-empty byte string starts with, and the number of bytes after its first. -/
def leading (lead : UInt8) (rest : Bytes) : Rune × Nat :=
  if lead < 0x80 then (.char (Char.ofNat lead.toNat), 0)
  else if 0xC2 ≤ lead && lead ≤ 0xDF then
    match rest with
    | second :: _ =>
      if isContinuation second then
        (.char (Char.ofNat ((lead.toNat % 32) * 64 + payload second)), 1)
      else (.invalid lead, 0)
    | [] => (.invalid lead, 0)
  else if 0xE0 ≤ lead && lead ≤ 0xEF then
    match rest with
    | second :: third :: _ =>
      if secondFits lead second && isContinuation third then
        (.char (Char.ofNat ((lead.toNat % 16) * 4096 + payload second * 64 + payload third)), 2)
      else (.invalid lead, 0)
    | _ => (.invalid lead, 0)
  else if 0xF0 ≤ lead && lead ≤ 0xF4 then
    match rest with
    | second :: third :: fourth :: _ =>
      if secondFits lead second && isContinuation third && isContinuation fourth then
        (.char (Char.ofNat ((lead.toNat % 8) * 262144 + payload second * 4096 +
          payload third * 64 + payload fourth)), 3)
      else (.invalid lead, 0)
    | _ => (.invalid lead, 0)
  else (.invalid lead, 0)

/-- The runes of a byte string from which the first `skip` bytes are left out. -/
def runesAfter : (skip : Nat) → Bytes → List Rune
  | _, [] => []
  | skip + 1, _ :: rest => runesAfter skip rest
  | 0, lead :: rest =>
    let (rune, length) := leading lead rest
    rune :: runesAfter length rest

def runes (bytes : Bytes) : List Rune := runesAfter 0 bytes

def text (bytes : Bytes) : String :=
  .ofList ((runes bytes).map fun
    | .char char => char
    | .invalid _ => '\ufffd')

end Utf8

end TraitCheck
