import PermissionSchema.Compiled.Metadata
import PermissionSchema.Text.WhiteSpace
/-!
Doc comments: taking them out of metadata and removing the marks of comment syntax.
-/
namespace PermissionSchema.Export

inductive Fragment where
  | kept (c : Char)
  | mark (text : List Char)
  deriving DecidableEq, Repr

/-- Cuts a comment into fragments. A mark is an opening of one or two stars, two slashes, a star
between or before spaces, or a closing with or without its star; a space next to a mark on its open
side belongs to it. The longest mark is taken where two begin alike. -/
def fragments : List Char → List Fragment
  | '/' :: '*' :: '*' :: ' ' :: rest => .mark ['/', '*', '*', ' '] :: fragments rest
  | '/' :: '*' :: '*' :: rest => .mark ['/', '*', '*'] :: fragments rest
  | '/' :: '*' :: ' ' :: rest => .mark ['/', '*', ' '] :: fragments rest
  | '/' :: '*' :: rest => .mark ['/', '*'] :: fragments rest
  | '/' :: '/' :: ' ' :: rest => .mark ['/', '/', ' '] :: fragments rest
  | '/' :: '/' :: rest => .mark ['/', '/'] :: fragments rest
  | ' ' :: '*' :: ' ' :: rest => .mark [' ', '*', ' '] :: fragments rest
  | '*' :: ' ' :: rest => .mark ['*', ' '] :: fragments rest
  | ' ' :: '*' :: '/' :: rest => .mark [' ', '*', '/'] :: fragments rest
  | '*' :: '/' :: rest => .mark ['*', '/'] :: fragments rest
  | ' ' :: '/' :: rest => .mark [' ', '/'] :: fragments rest
  | '/' :: rest => .mark ['/'] :: fragments rest
  | c :: rest => .kept c :: fragments rest
  | [] => []

def Fragment.text : Fragment → List Char
  | .kept c => [c]
  | .mark text => text

/-- Nothing of a comment is lost or moved by cutting it. -/
theorem flatMap_text_fragments (comment : List Char) :
    (fragments comment).flatMap Fragment.text = comment := by
  fun_induction fragments comment <;> simp_all [Fragment.text]

def Fragment.remains : Fragment → List Char
  | .kept c => [c]
  | .mark _ => []

def stripMarks (comment : List Char) : List Char :=
  (fragments comment).flatMap Fragment.remains

def framing : Nat := 2

/-- What a doc comment entry adds to the text: a line of its own, if its payload is long enough. -/
def commentLine (payload : List UInt8) : List Char :=
  if payload.length < framing then []
  else stripMarks (Text.Utf8.decodeLossy (payload.drop framing)) ++ ['\n']

def docComment (metadata : Compiled.Metadata) (typeUrl : String) : String :=
  String.ofList
    (Text.trim ((metadata.ofType typeUrl).flatMap fun entry => commentLine entry.value))

end PermissionSchema.Export
