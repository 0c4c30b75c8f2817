import PermissionSchema.SchemaError
/-!
Reading a schema from a service: where to ask, and what comes back.
-/
namespace PermissionSchema.Service

open PermissionSchema.Json

def version : String := "0.2.2"

def defaultPath : String := "/v1/schema/read"

structure Endpoint where
  path : String := defaultPath
  deriving DecidableEq, Repr, Inhabited

namespace Endpoint

def codec : Codec Endpoint := .record
  { label := "struct ReadSchemaEndpoint"
    blank := {}
    fields := [.defaulted "path" .string (·.path) fun path endpoint => { endpoint with path }] }

/-- The address for a base: a base that ends in the path is complete, any other loses its slashes at
the end and gets the path. -/
def address (endpoint : Endpoint) (base : List Char) : List Char :=
  let path := endpoint.path.toList
  if path.isSuffixOf base then base
  else (base.reverse.dropWhile (· = '/')).reverse ++ path

end Endpoint

structure Response where
  schemaText : String
  deriving DecidableEq, Repr, Inhabited

namespace Response

def codec : Codec Response := .record
  { label := "struct SchemaResponse"
    blank := ⟨""⟩
    fields := [
      .required "schemaText" .string (·.schemaText)
        fun schemaText response => { response with schemaText }] }

def ofOctets (body : List UInt8) : Except SchemaError Response :=
  (codec.ofOctets body).mapError fun failure => .format (failure.message body)

end Response

end PermissionSchema.Service
