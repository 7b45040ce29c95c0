/-!
# Timestamps

A scalar is a timestamp if it is a date with a year of four digits, possibly followed by a time of
day. A time behind the letter T names its distance from universal time, and one behind spaces does
not. Months, days, hours, minutes and seconds have one or two digits.
-/

namespace TraitCheck.Document.Timestamp

def digit? (char : Char) : Option Nat :=
  if '0' ≤ char ∧ char ≤ '9' then some (char.toNat - 48) else none

def number? : List Char → Option (Nat × List Char)
  | [] => none
  | first :: rest => do
    let high ← digit? first
    match rest with
    | [] => some (high, [])
    | second :: later =>
      match digit? second with
      | some low => some (high * 10 + low, later)
      | none => some (high, rest)

def numberIn? (least most : Nat) (chars : List Char) : Option (Nat × List Char) := do
  let (number, rest) ← number? chars
  if least ≤ number ∧ number ≤ most then some (number, rest) else none

def after? (expected : Char) : List Char → Option (List Char)
  | char :: rest => if char = expected then some rest else none
  | [] => none

def daysIn (year month : Nat) : Nat :=
  if month = 2 then
    if year % 4 = 0 ∧ (year % 100 ≠ 0 ∨ year % 400 = 0) then 29 else 28
  else if month = 4 ∨ month = 6 ∨ month = 9 ∨ month = 11 then 30
  else 31

def date? (chars : List Char) : Option (List Char) := do
  let digits ← (chars.take 4).mapM digit?
  if digits.length ≠ 4 then none
  let year := digits.foldl (fun year digit => year * 10 + digit) 0
  let (month, rest) ← numberIn? 1 12 (← after? '-' (chars.drop 4))
  let (_, rest) ← numberIn? 1 (daysIn year month) (← after? '-' rest)
  some rest

def fraction : List Char → List Char
  | mark :: digit :: rest =>
    if (mark = '.' ∨ mark = ',') ∧ digit.isDigit then rest.dropWhile Char.isDigit
    else mark :: digit :: rest
  | chars => chars

def time? (chars : List Char) : Option (List Char) := do
  let (_, rest) ← numberIn? 0 23 chars
  let (_, rest) ← numberIn? 0 59 (← after? ':' rest)
  let (_, rest) ← numberIn? 0 59 (← after? ':' rest)
  some (fraction rest)

def isZone (chars : List Char) : Bool :=
  match chars with
  | ['Z'] => true
  | [sign, h, h', ':', m, m'] =>
    (sign = '+' || sign = '-') && [h, h', m, m'].all Char.isDigit &&
      (numberIn? 0 24 [h, h']).isSome && (numberIn? 0 60 [m, m']).isSome
  | _ => false

def isTimestamp (text : String) : Bool :=
  match date? text.toList with
  | none => false
  | some [] => true
  | some (mark :: rest) =>
    if mark = 'T' ∨ mark = 't' then (time? rest).any isZone
    else if mark = ' ' then (time? (rest.dropWhile (· = ' '))) = some []
    else false

end TraitCheck.Document.Timestamp
