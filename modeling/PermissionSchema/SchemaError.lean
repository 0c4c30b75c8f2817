import PermissionSchema.Json.Codec
import PermissionSchema.Text.Quoted
/-!
What can go wrong between the text of a schema and its exported document.
-/
namespace PermissionSchema

open PermissionSchema.Json

inductive SchemaError where
  | unclassified (definition relation : String)
  | unsupportedOperand (definition relation kind : String)
  | serialization (message : String)
  | write (message : String)
  | parse (message : String)
  | compile (message : String)
  | source (message : String)
  | format (message : String)
  deriving DecidableEq, Repr, Inhabited

namespace SchemaError

inductive Kind where
  | unclassified
  | unsupportedOperand
  | serialization
  | write
  | parse
  | compile
  | source
  | format
  deriving DecidableEq, Repr

def Kind.all : List Kind :=
  [.unclassified, .unsupportedOperand, .serialization, .write, .parse, .compile, .source, .format]

def Kind.name : Kind → String
  | .unclassified => "ClassificationError"
  | .unsupportedOperand => "UnsupportedChild"
  | .serialization => "SerializationError"
  | .write => "WriteError"
  | .parse => "ParseError"
  | .compile => "CompileError"
  | .source => "SourceError"
  | .format => "InvalidFormat"

def kind : SchemaError → Kind
  | .unclassified .. => .unclassified
  | .unsupportedOperand .. => .unsupportedOperand
  | .serialization _ => .serialization
  | .write _ => .write
  | .parse _ => .parse
  | .compile _ => .compile
  | .source _ => .source
  | .format _ => .format

def shown (name : String) : String :=
  String.ofList (Text.quoted name.toList)

def message : SchemaError → String
  | .unclassified definition relation =>
    "failed to export " ++ shown definition ++ ": unexpected relation " ++ shown relation ++
      ", neither permission nor relation"
  | .unsupportedOperand definition relation kind =>
    "failed to export " ++ shown definition ++ ": permission " ++ shown relation ++
      " has an unsupported userset child (" ++ kind ++ ")"
  | .serialization text => "unable to serialize schema for export: " ++ text
  | .write text => "unable to write schema for export: " ++ text
  | .parse text => "failed to parse compiled schema: " ++ text
  | .compile text => "failed to compile schema: " ++ text
  | .source text => "failed to read schema source: " ++ text
  | .format text => "Invalid format: " ++ text

def unclassifiedCodec : Codec (String × String) := .record
  { label := "struct variant SchemaError::ClassificationError"
    blank := ("", "")
    fields := [
      .required "definition" .string (·.1) fun definition names => (definition, names.2),
      .required "relation" .string (·.2) fun relation names => (names.1, relation)] }

def unsupportedCodec : Codec (String × String × String) := .record
  { label := "struct variant SchemaError::UnsupportedChild"
    blank := ("", "", "")
    fields := [
      .required "definition" .string (·.1)
        fun definition names => (definition, names.2.1, names.2.2),
      .required "relation" .string (·.2.1) fun relation names => (names.1, relation, names.2.2),
      .required "kind" .string (·.2.2) fun kind names => (names.1, names.2.1, kind)] }

def payload : SchemaError → Json
  | .unclassified definition relation => unclassifiedCodec.write (definition, relation)
  | .unsupportedOperand definition relation kind =>
    unsupportedCodec.write (definition, relation, kind)
  | .serialization text | .write text | .parse text | .compile text | .source text
  | .format text => .string text

def variants : Reader.Variants Kind SchemaError where
  tags := Kind.all
  name := Kind.name
  bare
    | .unclassified | .unsupportedOperand => .error "struct variant"
    | _ => .error "newtype variant"

def readPayload (depth : Nat) : Kind → Reader SchemaError
  | .unclassified => (fun names => .unclassified names.1 names.2) <$> unclassifiedCodec.read depth
  | .unsupportedOperand =>
    (fun names => .unsupportedOperand names.1 names.2.1 names.2.2) <$> unsupportedCodec.read depth
  | .serialization => .serialization <$> Reader.string
  | .write => .write <$> Reader.string
  | .parse => .parse <$> Reader.string
  | .compile => .compile <$> Reader.string
  | .source => .source <$> Reader.string
  | .format => .format <$> Reader.string

def codec : Codec SchemaError where
  write error := .object [(error.kind.name, error.payload)]
  read depth := Reader.choice variants (Reader.inside readPayload depth)

end SchemaError

end PermissionSchema
