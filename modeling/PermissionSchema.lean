import PermissionSchema.Compiler
import PermissionSchema.Service
import PermissionSchema.Samples
import PermissionSchema.Proofs.Compiled.Walk
import PermissionSchema.Proofs.Compiled.Pruning
import PermissionSchema.Proofs.Export.Expression
import PermissionSchema.Proofs.Export.Declaration
import PermissionSchema.Proofs.Export.Refusal
import PermissionSchema.Proofs.Export.Strictness
import PermissionSchema.Proofs.Export.Recovery
import PermissionSchema.Proofs.Export.Events
import PermissionSchema.Proofs.Export.Noninterference
import PermissionSchema.Proofs.Export.Correspondence
import PermissionSchema.Proofs.Comment.Marks
import PermissionSchema.Proofs.Export.Meaning
import PermissionSchema.Proofs.Text.Trim
import PermissionSchema.Proofs.Text.Utf8
import PermissionSchema.Proofs.Wire.Varint
import PermissionSchema.Proofs.Comment.Framing
import PermissionSchema.Proofs.Comment.Length
import PermissionSchema.Proofs.Export.Writing
import PermissionSchema.Proofs.Json.Layout
import PermissionSchema.Proofs.Json.Nesting
import PermissionSchema.Proofs.Json.Reading
import PermissionSchema.Proofs.Json.Strings
import PermissionSchema.Proofs.Json.Naturals
import PermissionSchema.Proofs.Json.Taking
import PermissionSchema.Proofs.Json.Faithful
import PermissionSchema.Proofs.Compiled.RoundTrip
import PermissionSchema.Proofs.Document.RoundTrip
import PermissionSchema.Proofs.Json.Outcomes
import PermissionSchema.Proofs.Json.Depth
import PermissionSchema.Proofs.Json.Keeping
import PermissionSchema.Proofs.Json.Views
import PermissionSchema.Proofs.Compiled.Depth
import PermissionSchema.Proofs.Document.Depth
import PermissionSchema.Proofs.Document.Shapes
import PermissionSchema.Proofs.Document.QualifiedName
import PermissionSchema.Proofs.Export.Readable
import PermissionSchema.Proofs.Formats
import PermissionSchema.Proofs.Export.Texts
import PermissionSchema.Proofs.Comment.Prose
import PermissionSchema.Proofs.Text.Pattern
import PermissionSchema.Proofs.Comment.Scan
import PermissionSchema.Proofs.Comment.Layout
import PermissionSchema.Proofs.Json.Source
import PermissionSchema.Proofs.Json.Skipping
import PermissionSchema.Proofs.Json.Telling
import PermissionSchema.Proofs.Compiled.Telling
import PermissionSchema.Proofs.Export.Lookup
import PermissionSchema.Proofs.Export.Subject
import PermissionSchema.Proofs.Export.Building
import PermissionSchema.Proofs.Json.Keys
import PermissionSchema.Proofs.Export.Form
import PermissionSchema.Proofs.Comment.Content
import PermissionSchema.Proofs.Messages
import PermissionSchema.Proofs.Wire.Reading
import PermissionSchema.Proofs.Wire.Fields
import PermissionSchema.Proofs.Compiled.Payload
import PermissionSchema.Proofs.Export.Classification
import PermissionSchema.Proofs.Addresses
