/-!
UTF-8. Octets are cut into characters and malformed pieces, a malformed piece being a maximal
beginning of some character's form; the three readings of octets (strict, lossy, and the length of
the part before the first malformed piece) are read off that one cut.
-/
namespace PermissionSchema.Text.Utf8

def encode (text : List Char) : List UInt8 :=
  text.flatMap String.utf8EncodeChar

/-- A cut of octets: a character, or octets that no character's form goes on from. -/
inductive Piece where
  | char (c : Char)
  | malformed (octets : Nat)
  deriving DecidableEq, Repr

/-- A character that has begun: its bits and octets so far, how many octets are still owed, and
between which bounds the next one must lie. -/
structure Begun where
  bits : Nat
  held : Nat
  owed : Nat
  low : Nat
  high : Nat
  deriving DecidableEq, Repr

/-- A whole character or a refused octet is a piece at once; else a character has begun. The bounds
on the second octet keep out overlong forms, surrogates and codes above 0x10ffff. -/
def start (octet : Nat) : List Piece × Option Begun :=
  if octet < 0x80 then ([.char (Char.ofNat octet)], none)
  else if octet < 0xc2 then ([.malformed 1], none)
  else if octet < 0xe0 then ([], some ⟨octet - 0xc0, 1, 1, 0x80, 0xbf⟩)
  else if octet = 0xe0 then ([], some ⟨0, 1, 2, 0xa0, 0xbf⟩)
  else if octet = 0xed then ([], some ⟨0xd, 1, 2, 0x80, 0x9f⟩)
  else if octet < 0xf0 then ([], some ⟨octet - 0xe0, 1, 2, 0x80, 0xbf⟩)
  else if octet = 0xf0 then ([], some ⟨0, 1, 3, 0x90, 0xbf⟩)
  else if octet < 0xf4 then ([], some ⟨octet - 0xf0, 1, 3, 0x80, 0xbf⟩)
  else if octet = 0xf4 then ([], some ⟨4, 1, 3, 0x80, 0x8f⟩)
  else ([.malformed 1], none)

def Begun.push (state : Begun) (octet : Nat) : Begun :=
  ⟨state.bits * 64 + (octet - 0x80), state.held + 1, state.owed - 1, 0x80, 0xbf⟩

/-- What follows from one more octet: a piece once nothing is owed. An octet outside the bounds ends
a malformed piece and is looked at afresh. -/
def Begun.take (state : Begun) (octet : Nat) : List Piece × Option Begun :=
  if state.low ≤ octet ∧ octet ≤ state.high then
    if state.owed = 1 then ([.char (Char.ofNat (state.push octet).bits)], none)
    else ([], some (state.push octet))
  else (.malformed state.held :: (start octet).1, (start octet).2)

def step : Option Begun → Nat → List Piece × Option Begun
  | none, octet => start octet
  | some state, octet => state.take octet

def piecesFrom : Option Begun → List UInt8 → List Piece
  | none, [] => []
  | some state, [] => [.malformed state.held]
  | state, octet :: rest =>
    (step state octet.toNat).1 ++ piecesFrom (step state octet.toNat).2 rest

def pieces (octets : List UInt8) : List Piece :=
  piecesFrom none octets

def Piece.lossy : Piece → Char
  | .char c => c
  | .malformed _ => Char.ofNat 0xfffd

def decodeLossy (octets : List UInt8) : List Char :=
  (pieces octets).map Piece.lossy

def characters? : List Piece → Option (List Char)
  | [] => some []
  | .char c :: rest => (characters? rest).map (c :: ·)
  | .malformed _ :: _ => none

def decode? (octets : List UInt8) : Option (List Char) :=
  characters? (pieces octets)

def soundLength : List Piece → Nat
  | .char c :: rest => c.utf8Size + soundLength rest
  | _ => 0

end PermissionSchema.Text.Utf8
