import PermissionSchema.Json.Print
import PermissionSchema.Json.Reader
/-!
How a JSON text spells values. A value is a list of tokens; a text spells tokens if it holds them in
order with any white space around them, the characters of strings escaped in any way. The compact
and the pretty text of a value spell the same tokens. What nobody reads for its meaning is a token
as it stands: any numeral, and whatever stands between the quotes of a string.
-/
namespace PermissionSchema.Json

inductive Token where
  | openList
  | closeList
  | openObject
  | closeObject
  | comma
  | colon
  | null
  | boolean (value : Bool)
  | number (value : Number)
  | string (value : String)
  | numeral (text : List Char)
  | literal (body : List Char)

def separator (atFirst : Bool) : List Token :=
  if atFirst then [] else [.comma]

def joined (atFirst : Bool) : List (List Token) → List Token
  | [] => []
  | first :: rest => separator atFirst ++ (first ++ joined false rest)

theorem length_le_joined (atFirst : Bool) {pieces : List (List Token)}
    (some : ∀ piece ∈ pieces, piece ≠ []) : pieces.length ≤ (joined atFirst pieces).length := by
  induction pieces generalizing atFirst with
  | nil => exact Nat.zero_le _
  | cons piece rest ih =>
    have first := List.length_pos_iff.mpr (some piece List.mem_cons_self)
    have later := ih false fun other member => some other (List.mem_cons_of_mem _ member)
    simp only [joined, List.length_cons, List.length_append]
    omega

mutual

def tokens : Json → List Token
  | .null => [.null]
  | .boolean value => [.boolean value]
  | .number value => [.number value]
  | .string value => [.string value]
  | .array items => .openList :: itemTokens true items ++ [.closeList]
  | .object members => .openObject :: memberTokens true members ++ [.closeObject]

def itemTokens (atFirst : Bool) : List Json → List Token
  | [] => []
  | item :: rest => separator atFirst ++ tokens item ++ itemTokens false rest

def memberTokens (atFirst : Bool) : List (String × Json) → List Token
  | [] => []
  | (name, value) :: rest =>
    separator atFirst ++ .string name :: .colon :: tokens value ++ memberTokens false rest

end

theorem tokens_array_append (items : List Json) (more : List Token) :
    (array items).tokens ++ more = .openList :: (itemTokens true items ++ .closeList :: more) := by
  simp [tokens]

theorem tokens_object_append (members : List (String × Json)) (more : List Token) :
    (object members).tokens ++ more =
      .openObject :: (memberTokens true members ++ .closeObject :: more) := by
  simp [tokens]

theorem itemTokens_eq (atFirst : Bool) (items : List Json) :
    itemTokens atFirst items = joined atFirst (items.map tokens) := by
  induction items generalizing atFirst with
  | nil => rfl
  | cons item rest ih => simp [itemTokens, joined, ih]

def memberPiece (member : String × Json) : List Token :=
  .string member.1 :: .colon :: member.2.tokens

theorem memberTokens_eq (atFirst : Bool) (members : List (String × Json)) :
    memberTokens atFirst members = joined atFirst (members.map memberPiece) := by
  induction members generalizing atFirst with
  | nil => rfl
  | cons member rest ih => simp [memberTokens, joined, memberPiece, ih]

inductive Exact : Json → Prop where
  | null : Exact .null
  | boolean (value : Bool) : Exact (.boolean value)
  | natural {value : Nat} (small : value < 0x10000000000000000) : Exact (.natural value)
  | string (value : String) : Exact (.string value)
  | array {items : List Json} (inside : ∀ item ∈ items, Exact item) : Exact (.array items)
  | object {members : List (String × Json)} (inside : ∀ member ∈ members, Exact member.2) :
      Exact (.object members)

theorem Exact.single {json : Json} (exact : json.Exact) (name : String) :
    (Json.object [(name, json)]).Exact :=
  object (List.forall_mem_singleton.mpr exact)

def letterEscapes : List (Char × Char) :=
  [('"', '"'), ('\\', '\\'), ('/', '/'), ('b', '\x08'), ('f', '\x0c'), ('n', '\n'), ('r', '\r'),
    ('t', '\t')]

def hexDigit? (c : Char) : Option Nat :=
  if c.toNat < 0x80 then Octet.hexValue? (UInt8.ofNat c.toNat) else none

inductive HexCode : List Char → Nat → Prop where
  | digits {a b c d : Char} {first second third fourth : Nat} (atFirst : hexDigit? a = some first)
      (atSecond : hexDigit? b = some second) (atThird : hexDigit? c = some third)
      (atFourth : hexDigit? d = some fourth) :
      HexCode [a, b, c, d] (((first * 16 + second) * 16 + third) * 16 + fourth)

/-- How a character may stand in a string: as itself, behind a backslash by its letter, by its code,
or by the two halves of its code. -/
inductive Escaped (c : Char) : List Char → Prop where
  | plain (quote : c ≠ '"') (backslash : c ≠ '\\') (visible : 0x20 ≤ c.toNat) : Escaped c [c]
  | letter {letter : Char} (stands : (letter, c) ∈ letterEscapes) : Escaped c ['\\', letter]
  | code {digits : List Char} (code : HexCode digits c.toNat) : Escaped c ('\\' :: 'u' :: digits)
  | halves {high low : List Char} {leading trailing : Nat} (first : HexCode high (0xd800 + leading))
      (second : HexCode low (0xdc00 + trailing)) (leads : leading < 0x400)
      (trails : trailing < 0x400) (code : c.toNat = 0x10000 + leading * 0x400 + trailing) :
      Escaped c ('\\' :: 'u' :: high ++ '\\' :: 'u' :: low)

inductive Literal : List Char → List Char → Prop where
  | empty : Literal [] []
  | more {c : Char} {text value rest : List Char} (escaped : Escaped c text)
      (later : Literal value rest) : Literal (c :: value) (text ++ rest)

/-- What may stand between the quotes of a string that nobody reads. Its codes need not make
characters: a surrogate may stand alone. -/
inductive LiteralText : List Char → Prop where
  | empty : LiteralText []
  | plain {c : Char} {rest : List Char} (quote : c ≠ '"') (backslash : c ≠ '\\')
      (visible : 0x20 ≤ c.toNat) (later : LiteralText rest) : LiteralText (c :: rest)
  | letter {letter c : Char} {rest : List Char} (stands : (letter, c) ∈ letterEscapes)
      (later : LiteralText rest) : LiteralText ('\\' :: letter :: rest)
  | code {digits rest : List Char} {value : Nat} (code : HexCode digits value)
      (later : LiteralText rest) : LiteralText ('\\' :: 'u' :: (digits ++ rest))

structure DigitsText (text : List Char) : Prop where
  some : text ≠ []
  all : ∀ c ∈ text, c.isDigit = true

inductive WholeText : List Char → Prop where
  | zero : WholeText ['0']
  | more {first : Char} {rest : List Char} (digit : first.isDigit = true) (nonzero : first ≠ '0')
      (digits : ∀ c ∈ rest, c.isDigit = true) : WholeText (first :: rest)

inductive FractionText : List Char → Prop where
  | none : FractionText []
  | point {text : List Char} (digits : DigitsText text) : FractionText ('.' :: text)

inductive ExponentText : List Char → Prop where
  | none : ExponentText []
  | power {mark : Char} {sign text : List Char} (marks : mark ∈ ['e', 'E'])
      (signs : sign ∈ [[], ['+'], ['-']]) (digits : DigitsText text) :
      ExponentText (mark :: (sign ++ text))

inductive NumeralText : List Char → Prop where
  | parts {sign whole fraction exponent : List Char} (signs : sign ∈ [[], ['-']])
      (before : WholeText whole) (behind : FractionText fraction) (power : ExponentText exponent) :
      NumeralText (sign ++ (whole ++ (fraction ++ exponent)))

theorem text_natural (value : Nat) : (Number.integer value).text = Nat.toDigits 10 value := by
  simp [Number.text, integerText]

theorem isDigit_of_mem_toDigits {value : Nat} {c : Char} (member : c ∈ Nat.toDigits 10 value) :
    c.isDigit = true :=
  Nat.isDigit_of_mem_toDigits (by decide) (by decide) member

/-- How a token may stand in a text. Of the numbers that are read only those that are exact are
spelled. -/
inductive Token.Spelled : Token → List Char → Prop where
  | openList : Spelled .openList ['[']
  | closeList : Spelled .closeList [']']
  | openObject : Spelled .openObject ['{']
  | closeObject : Spelled .closeObject ['}']
  | comma : Spelled .comma [',']
  | colon : Spelled .colon [':']
  | null : Spelled .null ['n', 'u', 'l', 'l']
  | boolean (value : Bool) : Spelled (.boolean value) (booleanText value)
  | natural {value : Nat} (small : value < 0x10000000000000000) :
      Spelled (.number (.integer value)) (Nat.toDigits 10 value)
  | string {value : String} {text : List Char} (literal : Literal value.toList text) :
      Spelled (.string value) ('"' :: text ++ ['"'])
  | numeral {text : List Char} (numeral : NumeralText text) : Spelled (.numeral text) text
  | literal {body : List Char} (literal : LiteralText body) :
      Spelled (.literal body) ('"' :: body ++ ['"'])

def isBlank (c : Char) : Bool :=
  c = ' ' || c = '\n' || c = '\t' || c = '\r'

theorem isBlank_nil : ∀ c ∈ [], isBlank c = true :=
  List.forall_mem_nil _

def extendsNumeral : List Char → Bool
  | [] => false
  | c :: _ => c.isDigit || c = '.' || c = 'e' || c = 'E'

def Token.Ends : Token → List Char → Prop
  | .number _, rest | .numeral _, rest => extendsNumeral rest = false
  | _, _ => True

/-- A text spells tokens, with any white space around them. -/
inductive Spells : List Token → List Char → Prop where
  | none {blanks : List Char} (white : ∀ c ∈ blanks, isBlank c = true) : Spells [] blanks
  | more {token : Token} {others : List Token} {blanks text rest : List Char}
      (white : ∀ c ∈ blanks, isBlank c = true) (spelled : token.Spelled text)
      (ends : token.Ends rest) (later : Spells others rest) :
      Spells (token :: others) (blanks ++ (text ++ rest))

def Stands (token : Token) (others : List Token) (text : List Char) : Prop :=
  ∃ spelling rest, text = spelling ++ rest ∧ token.Spelled spelling ∧ token.Ends rest ∧
    Spells others rest

end PermissionSchema.Json
