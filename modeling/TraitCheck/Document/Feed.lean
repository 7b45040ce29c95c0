import TraitCheck.Text.Utf8

/-!
# The characters of a document

A document arrives as bytes, in portions of at most `Feed.portion`. A portion is decoded as soon as
it arrives: a byte sequence that encodes no character, or a character that no document may hold,
makes the whole document unreadable. A character that is cut off at the end of a portion waits for
the next one, and is at fault only if the end of the document comes first.

The encoding is UTF-8, unless the document starts with the byte order mark of UTF-16.
-/

namespace TraitCheck.Document

inductive Encoding where
  | utf8
  | utf16 (bigEndian : Bool)
  deriving DecidableEq, Repr

inductive Lead where
  | char (char : Char) (width : Nat)
  | incomplete
  | malformed
  deriving Repr

/-- Whether the character with a number may stand in a document. -/
def isAllowed (number : Nat) : Bool :=
  number = 0x09 || number = 0x0A || number = 0x0D || (0x20 ≤ number && number ≤ 0x7E) ||
    number = 0x85 || (0xA0 ≤ number && number ≤ 0xD7FF) ||
    (0xE000 ≤ number && number ≤ 0xFFFD) || (0x10000 ≤ number && number ≤ 0x10FFFF)

namespace Lead

def ofNumber (number width : Nat) : Lead :=
  if isAllowed number then .char (Char.ofNat number) width else .malformed

/-- How many bytes a UTF-8 sequence has, by its first byte. -/
def utf8Width? (lead : UInt8) : Option Nat :=
  if lead < 0x80 then some 1
  else if lead < 0xC0 then none
  else if lead < 0xE0 then some 2
  else if lead < 0xF0 then some 3
  else if lead < 0xF8 then some 4
  else none

def utf8 (bytes : Bytes) : Lead :=
  match bytes with
  | [] => .incomplete
  | lead :: rest =>
    match utf8Width? lead with
    | none => .malformed
    | some width =>
      if rest.length + 1 < width then .incomplete
      else
        match Utf8.leading lead rest with
        | (.char decoded, _) => ofNumber decoded.toNat width
        | (.invalid _, _) => .malformed

def unit (bigEndian : Bool) (first second : UInt8) : Nat :=
  if bigEndian then first.toNat * 256 + second.toNat else second.toNat * 256 + first.toNat

def utf16 (bigEndian : Bool) (bytes : Bytes) : Lead :=
  match bytes with
  | first :: second :: rest =>
    let high := unit bigEndian first second
    if 0xDC00 ≤ high ∧ high ≤ 0xDFFF then .malformed
    else if 0xD800 ≤ high ∧ high ≤ 0xDBFF then
      match rest with
      | third :: fourth :: _ =>
        let low := unit bigEndian third fourth
        if 0xDC00 ≤ low ∧ low ≤ 0xDFFF then
          ofNumber (0x10000 + (high - 0xD800) * 0x400 + (low - 0xDC00)) 4
        else .malformed
      | _ => .incomplete
    else ofNumber high 2
  | _ => .incomplete

end Lead

def Encoding.lead : Encoding → Bytes → Lead
  | .utf8 => Lead.utf8
  | .utf16 bigEndian => Lead.utf16 bigEndian

/-- Decodes bytes up to an incomplete character. Returns the characters and the bytes left. -/
def Encoding.decode? (encoding : Encoding) : (limit : Nat) → Bytes → Option (List Char × Bytes)
  | 0, bytes => some ([], bytes)
  | limit + 1, bytes =>
    match encoding.lead bytes with
    | .malformed => none
    | .incomplete => some ([], bytes)
    | .char char width => do
      let (chars, rest) ← encoding.decode? limit (bytes.drop width)
      some (char :: chars, rest)

def Encoding.detect : Bytes → Encoding × Bytes
  | 0xFF :: 0xFE :: rest => (.utf16 false, rest)
  | 0xFE :: 0xFF :: rest => (.utf16 true, rest)
  | 0xEF :: 0xBB :: 0xBF :: rest => (.utf8, rest)
  | bytes => (.utf8, bytes)

structure Feed where
  encoding : Encoding := .utf8
  /-- The start of a character that was cut off. -/
  held : Bytes := []
  coming : Bytes := []
  ended : Bool := true
  deriving Repr, Inhabited

namespace Feed

def portion : Nat := 512

/-- The characters among the bytes at hand. At the end of the document none may be cut off. -/
def decoded? (feed : Feed) (bytes : Bytes) : Option (List Char × Feed) := do
  let (chars, held) ← feed.encoding.decode? bytes.length bytes
  if feed.ended && !held.isEmpty then none else some (chars, { feed with held })

def start? (bytes : Bytes) : Option (List Char × Feed) :=
  let (encoding, first) := Encoding.detect (bytes.take portion)
  decoded? { encoding, coming := bytes.drop portion, ended := bytes.length < 3 } first

def next? (feed : Feed) : Option (List Char × Feed) :=
  if feed.coming.isEmpty then decoded? { feed with ended := true } feed.held
  else
    let room := portion - feed.held.length
    decoded? { feed with coming := feed.coming.drop room } (feed.held ++ feed.coming.take room)

end Feed

end TraitCheck.Document
