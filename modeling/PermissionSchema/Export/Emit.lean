import PermissionSchema.Document.Json
import PermissionSchema.Export.Mapping
import PermissionSchema.Sink.Basic
/-!
Exported schemas as text, returned or written to a sink.
-/
namespace PermissionSchema.Export

def compactText (options : Options) (schema : Compiled.Schema) : Traced String := do
  let document ← mapSchema options schema
  pure (Document.Schema.codec.write document).text

def prettyText (options : Options) (schema : Compiled.Schema) : Traced String := do
  let document ← mapSchema options schema
  pure (Document.Schema.codec.write document).prettyText

structure Written (σ : Type) where
  calls : List Call
  result : Except SchemaError Unit
  state : σ

/-- Writes the compact text to a sink and flushes it. A schema that cannot be mapped leaves the sink
alone. -/
def writeTo {σ : Type} (sink : Sink σ) (state : σ) (options : Options) (schema : Compiled.Schema) :
    Written σ :=
  match (mapSchema options schema).result with
  | .error error => ⟨[], .error error, state⟩
  | .ok document =>
    let text := (Document.Schema.codec.write document).compact
    let delivery := sink.deliver state (Text.Utf8.encode text)
    ⟨delivery.calls, delivery.result.mapError .write, delivery.state⟩

end PermissionSchema.Export
