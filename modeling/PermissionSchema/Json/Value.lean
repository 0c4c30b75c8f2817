import PermissionSchema.Decimal.Shortest
/-!
JSON values. Objects keep the order of their members, and a name may occur more than once.
-/
namespace PermissionSchema

/-- A JSON number: whole numbers that fit 64 bits stay exact, all others are floating-point. -/
inductive Number where
  | integer (value : Int)
  | real (value : Float)

inductive Json where
  | null
  | boolean (value : Bool)
  | number (value : Number)
  | string (value : String)
  | array (items : List Json)
  | object (members : List (String × Json))
  deriving Inhabited

def Json.natural (value : Nat) : Json :=
  .number (.integer value)

def integerText (value : Int) : List Char :=
  if value < 0 then '-' :: Nat.toDigits 10 value.natAbs else Nat.toDigits 10 value.natAbs

/-- JSON has no spelling for infinities and for what is not a number; they are written `null`. -/
def Number.text : Number → List Char
  | .integer value => integerText value
  | .real value => if value.isFinite then Decimal.shortestText value else ['n', 'u', 'l', 'l']

def booleanText : Bool → List Char
  | true => ['t', 'r', 'u', 'e']
  | false => ['f', 'a', 'l', 's', 'e']

end PermissionSchema
