import TraitCheck.Document.Base64
import TraitCheck.Document.Timestamp

/-!
# What scalars stand for

A scalar stands for nothing, a truth value, a number, a moment, bytes, or just its text. Without a
tag the text decides; with a tag of the notation the text has to be one of that kind.
-/

namespace TraitCheck.Document

inductive Value where
  | null
  | bool (value : Bool)
  | int (value : Int)
  | float (value : Float)
  | moment
  | text (value : String)
  | binary (bytes : Bytes)
  deriving Inhabited

def textTag : String := "!!str"

def binaryTag : String := "!!binary"

def mergeTag : String := "!!merge"

def sequenceTag : String := "!!seq"

def mappingTag : String := "!!map"

def Value.tag : Value → String
  | .null => "!!null"
  | .bool _ => "!!bool"
  | .int _ => "!!int"
  | .float _ => "!!float"
  | .moment => "!!timestamp"
  | .text _ => textTag
  | .binary _ => binaryTag

def digitValue? (base : Nat) (char : Char) : Option Nat :=
  let value :=
    if '0' ≤ char ∧ char ≤ '9' then char.toNat - 48
    else if 'a' ≤ char ∧ char ≤ 'z' then char.toNat - 87
    else if 'A' ≤ char ∧ char ≤ 'Z' then char.toNat - 55
    else base
  if value < base then some value else none

def digits? (base : Nat) (digits : List Char) : Option Nat := do
  if digits.isEmpty then none
  let values ← digits.mapM (digitValue? base)
  some (values.foldl (fun number digit => number * base + digit) 0)

/-- A number without sign. Its base is given by its first characters: `0x`, `0b`, `0o`, or `0` for
octal. -/
def magnitude? : List Char → Option Nat
  | '0' :: 'x' :: digits | '0' :: 'X' :: digits => digits? 16 digits
  | '0' :: 'b' :: digits | '0' :: 'B' :: digits => digits? 2 digits
  | '0' :: 'o' :: digits | '0' :: 'O' :: digits => digits? 8 digits
  | ['0'] => some 0
  | '0' :: digits => digits? 8 digits
  | digits => digits? 10 digits

def signed? (read? : List Char → Option Nat) (chars : List Char) : Option Int :=
  match chars with
  | '-' :: rest =>
    (read? rest).bind fun number => if number ≤ Nat.pow 2 63 then some (-(number : Int)) else none
  | '+' :: rest =>
    (read? rest).bind fun number => if number < Nat.pow 2 63 then some (number : Int) else none
  | rest =>
    (read? rest).bind fun number => if number < Nat.pow 2 64 then some (number : Int) else none

/-- A number whose sign stands behind the mark of its base, or in front of it without a second one
behind. -/
def markedInteger? (chars : List Char) : Option Int :=
  match chars with
  | '0' :: 'b' :: rest => signed? (digits? 2) rest
  | '-' :: '0' :: 'b' :: rest => signed? (digits? 2) ('-' :: rest)
  | '0' :: 'o' :: rest => signed? (digits? 8) rest
  | '-' :: '0' :: 'o' :: rest => signed? (digits? 8) ('-' :: rest)
  | _ => none

def splitSign : List Char → Bool × List Char
  | '-' :: rest => (true, rest)
  | '+' :: rest => (false, rest)
  | rest => (false, rest)

def exponent? : List Char → Option Int
  | [] => some 0
  | mark :: rest =>
    if mark = 'e' ∨ mark = 'E' then
      let (negative, digits) := splitSign rest
      (digits? 10 digits).map fun number => if negative then -(number : Int) else number
    else none

/-- A decimal number with a fraction or an exponent. Numbers out of range are none. -/
def decimal? (chars : List Char) : Option Float := do
  let (negative, chars) := splitSign chars
  let whole := chars.takeWhile Char.isDigit
  let rest := chars.drop whole.length
  let (fraction, rest) := match rest with
    | '.' :: rest =>
      let fraction := rest.takeWhile Char.isDigit
      (fraction, rest.drop fraction.length)
    | rest => ([], rest)
  if whole.isEmpty ∧ fraction.isEmpty then none
  let exponent ← exponent? rest
  let digits := whole ++ fraction
  let mantissa ← digits? 10 digits
  let scale := exponent - fraction.length
  let size :=
    if scale + digits.length < -400 then 0.0
    else if scale < 0 then Float.ofScientific mantissa true scale.natAbs
    else if 400 < scale ∧ 0 < mantissa then 1.0 / 0.0
    else Float.ofScientific mantissa false (min scale.natAbs 400)
  if size.isInf then none else some (if negative then -size else size)

/-- Whether each underscore stands between two digits. -/
def separatesDigits : (afterDigit : Bool) → List Char → Bool
  | _, [] => true
  | afterDigit, '_' :: rest =>
    afterDigit && rest.head?.any Char.isDigit && separatesDigits false rest
  | _, char :: rest => separatesDigits char.isDigit rest

def Value.ofNumeric (text : String) : Value :=
  let chars := text.toList.filter (· ≠ '_')
  match signed? magnitude? chars, decimal? chars, markedInteger? chars with
  | some number, _, _ => .int number
  | none, some number, _ => .float number
  | none, none, some number => .int number
  | none, none, none => .text text

def Value.ofFraction (text : String) : Value :=
  match decimal? (text.toList.filter (· ≠ '_')) with
  | some number => if separatesDigits false text.toList then .float number else .text text
  | none => .text text

/-- What a text stands for. A moment is recognised where `moments` says so. -/
def Value.ofText (moments : Bool) (text : String) : Value :=
  if ["", "~", "null", "Null", "NULL"].contains text then .null
  else if ["true", "True", "TRUE"].contains text then .bool true
  else if ["false", "False", "FALSE"].contains text then .bool false
  else if [".nan", ".NaN", ".NAN"].contains text then .float (0.0 / 0.0)
  else if [".inf", ".Inf", ".INF", "+.inf", "+.Inf", "+.INF"].contains text then .float (1.0 / 0.0)
  else if ["-.inf", "-.Inf", "-.INF"].contains text then .float (-1.0 / 0.0)
  else
    match text.toList with
    | '.' :: _ => ofFraction text
    | char :: _ =>
      if char.isDigit || char = '+' || char = '-' then
        if moments && Timestamp.isTimestamp text then .moment else ofNumeric text
      else .text text
    | [] => .null

def readableTags : List String :=
  ["!!bool", "!!int", "!!float", "!!null", "!!timestamp"]

/-- What a scalar with a tag stands for. There is nothing if the tag asks for another kind of value
than the text gives. Texts with tags that the notation does not know stand for themselves. -/
def Value.ofTagged? (tag text : String) : Option Value :=
  if readableTags.contains tag then
    match ofText (tag = "!!timestamp") text with
    | .int number =>
      if tag = "!!int" then some (.int number)
      else if tag = "!!float" ∧ number < Int.pow 2 63 then some (.float (Float.ofInt number))
      else none
    | value => if value.tag = tag then some value else none
  else if tag = binaryTag then (Base64.decode? text).map .binary
  else some (.text text)

end TraitCheck.Document
