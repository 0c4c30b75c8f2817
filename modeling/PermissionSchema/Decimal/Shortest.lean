/-!
Decimal text of binary floating-point values: the fewest digits that read back to the value, and of
those the nearest.
-/
namespace PermissionSchema.Decimal

/-- The magnitude of a finite value, `significand * 2 ^ exponent`. At a power of two the next value
below is only half as far as the next above. -/
structure Magnitude where
  significand : Nat
  exponent : Int
  halfBelow : Bool
  deriving DecidableEq, Repr

def Magnitude.ofBits (bits : Nat) : Magnitude :=
  let fraction : Nat := bits % 0x10000000000000
  let biased : Nat := bits / 0x10000000000000 % 0x800
  if biased = 0 then ⟨fraction, -1074, false⟩
  else ⟨fraction + 0x10000000000000, Int.ofNat biased - 1075, fraction = 0 && biased ≠ 1⟩

structure Ratio where
  numerator : Nat
  denominator : Nat
  deriving DecidableEq, Repr

def Ratio.scaled (count base : Nat) (exponent : Int) : Ratio :=
  ⟨count * base.pow exponent.toNat, base.pow (-exponent).toNat⟩

def Ratio.le (a b : Ratio) : Bool :=
  a.numerator * b.denominator ≤ b.numerator * a.denominator

/-- Strict order of ratios with positive `denominator`. -/
def Ratio.lt (a b : Ratio) : Bool :=
  a.numerator * b.denominator < b.numerator * a.denominator

/-- The value in quarters of its last place, so that the midpoints to its neighbours are whole. -/
def Magnitude.quarters (m : Magnitude) (count : Nat) : Ratio :=
  .scaled count 2 (m.exponent - 2)

def Magnitude.value (m : Magnitude) : Ratio :=
  m.quarters (4 * m.significand)

/-- Whether a ratio lies where everything rounds to the value. The ends belong to it if and only if
the significand is even. -/
def Magnitude.readsBack (m : Magnitude) (r : Ratio) : Bool :=
  let low := m.quarters (4 * m.significand - if m.halfBelow then 1 else 2)
  let high := m.quarters (4 * m.significand + 2)
  if m.significand % 2 = 0 then low.le r && r.le high else low.lt r && r.lt high

structure Scientific where
  coefficient : Nat
  exponent : Int
  deriving DecidableEq, Repr

def Scientific.ratio (d : Scientific) : Ratio :=
  .scaled d.coefficient 10 d.exponent

def Magnitude.leading (m : Magnitude) : Int :=
  let whole := m.value.numerator / m.value.denominator
  if whole ≠ 0 then (Nat.toDigits 10 whole).length - 1
  else
    let fits (places : Nat) : Bool := (Ratio.scaled 1 10 (-Int.ofNat places)).le m.value
    match (List.range 400).find? fits with
    | some places => -Int.ofNat places
    | none => 0

def Magnitude.prefersUpper (m : Magnitude) (below : Scientific) : Bool :=
  let middle := Ratio.scaled (2 * below.coefficient + 1) 10 below.exponent
  let twice : Ratio := ⟨2 * m.value.numerator, m.value.denominator⟩
  middle.lt twice || (middle.le twice && below.coefficient % 2 = 1)

/-- The neighbours of the value among the decimals with `digits` digits: the one that reads back,
of two the nearer. -/
def Magnitude.onGrid (m : Magnitude) (digits : Nat) : Option Scientific :=
  let exponent := m.leading + 1 - digits
  let unit := Ratio.scaled 1 10 exponent
  let units := m.value.numerator * unit.denominator / (m.value.denominator * unit.numerator)
  let below : Scientific := ⟨units, exponent⟩
  let above : Scientific := { below with coefficient := below.coefficient + 1 }
  match m.readsBack below.ratio, m.readsBack above.ratio with
  | true, true => some (if m.prefersUpper below then above else below)
  | true, false => some below
  | false, true => some above
  | false, false => none

/-- The first grid with a hit; seventeen digits always suffice. -/
def Magnitude.shortest (m : Magnitude) : Scientific :=
  match ((List.range 17).findSome? fun fewer => m.onGrid (fewer + 1)) with
  | some d => d
  | none => ⟨0, 0⟩

def Scientific.digits (d : Scientific) : List Char :=
  ((Nat.toDigits 10 d.coefficient).reverse.dropWhile (· == '0')).reverse

def Scientific.leading (d : Scientific) : Int :=
  d.exponent + (Nat.toDigits 10 d.coefficient).length - 1

def exponentText (exponent : Int) : List Char :=
  (if exponent < 0 then '-' else '+') :: Nat.toDigits 10 exponent.natAbs

/-- Positional from 0.00001 to below 10^16, with a digit on both sides of the point; otherwise one
digit, the others after a point, and the exponent. -/
def Scientific.text (d : Scientific) : List Char :=
  let digits := d.digits
  let leading := d.leading
  if leading < -5 ∨ 16 ≤ leading then
    digits.take 1 ++ (if digits.length ≤ 1 then [] else '.' :: digits.drop 1) ++
      'e' :: exponentText leading
  else if leading < 0 then
    ['0', '.'] ++ List.replicate (-leading - 1).toNat '0' ++ digits
  else
    let before := leading.toNat + 1
    if digits.length ≤ before then
      digits ++ List.replicate (before - digits.length) '0' ++ ['.', '0']
    else digits.take before ++ '.' :: digits.drop before

def shortestText (x : Float) : List Char :=
  let bits := x.toBits.toNat
  let m := Magnitude.ofBits bits
  (if bits < 0x8000000000000000 then [] else ['-']) ++
    if m.significand = 0 then ['0', '.', '0'] else m.shortest.text

end PermissionSchema.Decimal
