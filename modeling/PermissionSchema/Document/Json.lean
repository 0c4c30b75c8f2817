import PermissionSchema.Document.Schema
/-!
The JSON form of exported schemas. Empty texts and lists are left out, but for those without which a
definition, a relation or a caveat would not say what it is.
-/
namespace PermissionSchema.Document

open PermissionSchema.Json

def SubjectType.codec : Codec SubjectType := .record
  { label := "struct RelationType"
    blank := ⟨"", "", ""⟩
    fields := [
      .required "type" .string (·.typeName) fun typeName subject => { subject with typeName },
      .textUnlessEmpty "relation" (·.relation) fun relation subject => { subject with relation },
      .textUnlessEmpty "caveat" (·.caveat) fun caveat subject => { subject with caveat }] }

def Relation.codec : Codec Relation := .record
  { label := "struct Relation"
    blank := ⟨"", [], ""⟩
    fields := [
      .required "name" .string (·.name) fun name relation => { relation with name },
      .required "types" (.list SubjectType.codec) (·.types)
        fun types relation => { relation with types },
      .textUnlessEmpty "comment" (·.comment) fun comment relation => { relation with comment }] }

def Permission.codec : Codec Permission := .record
  { label := "struct Permission"
    blank := ⟨"", none, ""⟩
    fields := [
      .required "name" .string (·.name) fun name permission => { permission with name },
      .nullable "userSet" (.optional UserSet.codec) (·.userSet)
        fun userSet permission => { permission with userSet },
      .textUnlessEmpty "comment" (·.comment)
        fun comment permission => { permission with comment }] }

def Definition.codec : Codec Definition := .record
  { label := "struct Definition"
    blank := ⟨"", "", [], [], ""⟩
    fields := [
      .required "name" .string (·.name) fun name definition => { definition with name },
      .textUnlessEmpty "namespace" (·.nameSpace)
        fun nameSpace definition => { definition with nameSpace },
      .listUnlessEmpty "relations" Relation.codec (·.relations)
        fun relations definition => { definition with relations },
      .listUnlessEmpty "permissions" Permission.codec (·.permissions)
        fun permissions definition => { definition with permissions },
      .textUnlessEmpty "comment" (·.comment)
        fun comment definition => { definition with comment }] }

def Caveat.codec : Codec Caveat := .record
  { label := "struct Caveat"
    blank := ⟨"", [], ""⟩
    fields := [
      .required "name" .string (·.name) fun name caveat => { caveat with name },
      .required "parameters" (.list .string) (·.parameters)
        fun parameters caveat => { caveat with parameters },
      .textUnlessEmpty "comment" (·.comment) fun comment caveat => { caveat with comment }] }

def Schema.codec : Codec Schema := .record
  { label := "struct Schema"
    blank := ⟨[], []⟩
    fields := [
      .required "definitions" (.list Definition.codec) (·.definitions)
        fun definitions schema => { schema with definitions },
      .listUnlessEmpty "caveats" Caveat.codec (·.caveats)
        fun caveats schema => { schema with caveats }] }

end PermissionSchema.Document
