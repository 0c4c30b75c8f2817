import PermissionSchema.Compiled.Json
import PermissionSchema.Export.Emit
/-!
Compilers of schema texts, and exporting what they make of a source.
-/
namespace PermissionSchema

open Export

def Compiled.Schema.ofText (text : String) : Except SchemaError Compiled.Schema :=
  (Compiled.Schema.codec.ofText text).mapError .parse

/-- A compiler: from the text of a schema, and the name space for names without one, to a compiled
schema or the words of a failure. -/
abbrev Compiler : Type :=
  String → Option String → Except String Compiled.Schema

namespace Compiler

def run (compiler : Compiler) (source : Except SchemaError String)
    (defaultNameSpace : Option String) : Traced Compiled.Schema := do
  let text ← Traced.ofExcept source
  Traced.emit (.sourceRead text.utf8ByteSize defaultNameSpace)
  Traced.ofExcept ((compiler text defaultNameSpace).mapError .compile)

def exportText (compiler : Compiler) (source : Except SchemaError String)
    (defaultNameSpace : Option String) (options : Options) : Traced String := do
  let schema ← compiler.run source defaultNameSpace
  compactText options schema

end Compiler

end PermissionSchema
