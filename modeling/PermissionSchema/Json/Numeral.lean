import PermissionSchema.Json.Reader
/-!
Numerals: reading their parts, and the number they stand for. A whole number that fits 64 bits is
exact. Any other number is taken from at most 64 bits of its leading digits and one power of ten.
-/
namespace PermissionSchema.Json

structure Numeral where
  negative : Bool
  whole : List Nat
  fraction : Option (List Nat)
  exponent : Option (Bool × List Nat)
  deriving DecidableEq, Repr

/-- Appends digits to a significand while it fits 64 bits: the significand and the number of digits
that no longer fit. -/
def appendDigits : Nat → List Nat → Nat × Nat
  | significand, [] => (significand, 0)
  | significand, digit :: rest =>
    if significand * 10 + digit < 0x10000000000000000 then
      appendDigits (significand * 10 + digit) rest
    else (significand, rest.length + 1)

/-- How many digits follow the first one with which an exponent no longer fits 31 bits, if there is
such a digit. -/
def exponentOverflow : Nat → List Nat → Option Nat
  | _, [] => none
  | value, digit :: rest =>
    if value * 10 + digit < 0x80000000 then exponentOverflow (value * 10 + digit) rest
    else some rest.length

def digitsValue (digits : List Nat) : Nat :=
  digits.foldl (fun value digit => value * 10 + digit) 0

/-- A value times a power of ten, with one multiplication or division for every 308 places; `none`
if it is out of range. -/
def timesPowerOfTen (value : Float) (exponent : Int) : Option Float :=
  if exponent.natAbs ≤ 308 then
    if 0 ≤ exponent then
      let product := value * Float.ofScientific 1 false exponent.natAbs
      if product.isInf then none else some product
    else some (value / Float.ofScientific 1 false exponent.natAbs)
  else if value == 0 then some value
  else if 0 ≤ exponent then none
  else timesPowerOfTen (value / Float.ofScientific 1 false 308) (exponent + 308)
termination_by exponent.natAbs
decreasing_by omega

def signed (negative : Bool) (value : Float) : Float :=
  if negative then -value else value

/-- The number a numeral stands for. If it is out of range: how many of its last digits need not
be read to know it. -/
def Numeral.number (n : Numeral) : Except Nat Number :=
  let (head, dropped) := appendDigits 0 n.whole
  match n.fraction, n.exponent with
  | none, none =>
    if dropped = 0 ∧ !n.negative then .ok (.integer head)
    else if dropped = 0 ∧ 0 < head ∧ head ≤ 0x8000000000000000 then .ok (.integer (-head))
    else finish head dropped
  | fraction, exponent =>
    let decimals := fraction.getD []
    let (significand, unused) := appendDigits head decimals
    let places : Int := Int.ofNat dropped - Int.ofNat (decimals.length - unused)
    match exponent with
    | none => finish significand places
    | some (negativeExponent, exponentDigits) =>
      match exponentOverflow 0 exponentDigits with
      | none =>
        let shift : Int := Int.ofNat (digitsValue exponentDigits)
        finish significand (if negativeExponent then places - shift else places + shift)
      | some unread =>
        if significand ≠ 0 ∧ !negativeExponent then .error unread
        else .ok (.real (signed n.negative 0))
where
  /-- The number with a significand of at most 64 bits and a power of ten. -/
  finish (significand : Nat) (exponent : Int) : Except Nat Number :=
    match timesPowerOfTen significand.toUInt64.toFloat exponent with
    | none => .error 0
    | some value => .ok (.real (signed n.negative value))

namespace Reader

def digits : Reader (List Nat) := fun input =>
  .ok ((input.takeWhile Octet.isDigit).map Octet.digitValue, input.dropWhile Octet.isDigit)

def digit (atEnd : Fault) : Reader Nat
  | [] => failHere atEnd []
  | octet :: rest =>
    if Octet.isDigit octet then .ok (Octet.digitValue octet, rest) else failHere .badNumber rest

def noDigitNext : Reader Unit
  | [] => .ok ((), [])
  | octet :: rest =>
    if Octet.isDigit octet then failNext .badNumber (octet :: rest) else .ok ((), octet :: rest)

def wholePart (atEnd : Fault) : Reader (List Nat) := do
  let first ← digit atEnd
  if first = 0 then
    noDigitNext
    pure [0]
  else
    let more ← digits
    pure (first :: more)

def fractionPart (atEnd : Fault) : Reader (Option (List Nat))
  | [] => .ok (none, [])
  | octet :: rest =>
    if octet = Octet.point then
      match rest with
      | [] => failNext atEnd []
      | next :: after =>
        if Octet.isDigit next then (some <$> digits) (next :: after)
        else failNext .badNumber (next :: after)
    else .ok (none, octet :: rest)

def exponentSign : Reader Bool
  | [] => .ok (false, [])
  | octet :: rest =>
    if octet = Octet.plus then .ok (false, rest)
    else if octet = Octet.minus then .ok (true, rest)
    else .ok (false, octet :: rest)

def exponentPart (atEnd : Fault) : Reader (Option (Bool × List Nat))
  | [] => .ok (none, [])
  | octet :: rest =>
    if octet = 0x65 || octet = 0x45 then
      (do
        let negative ← exponentSign
        let first ← digit atEnd
        let more ← digits
        pure (some (negative, first :: more)) : Reader _) rest
    else .ok (none, octet :: rest)

def minusSign : Reader Bool
  | [] => .ok (false, [])
  | octet :: rest =>
    if octet = Octet.minus then .ok (true, rest) else .ok (false, octet :: rest)

def numeral (atEnd : Fault) : Reader Numeral := do
  let negative ← minusSign
  let whole ← wholePart atEnd
  let fraction ← fractionPart atEnd
  let exponent ← exponentPart atEnd
  pure ⟨negative, whole, fraction, exponent⟩

def number : Reader Number := fun input =>
  match numeral .endInValue input with
  | .error failure => .error failure
  | .ok (read, rest) =>
    match read.number with
    | .ok value => .ok (value, rest)
    | .error unread => failHere .numberOutOfRange (input.drop (input.length - rest.length - unread))

end Reader

end PermissionSchema.Json
