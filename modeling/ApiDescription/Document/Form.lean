import ApiDescription.Declaration.Form
import ApiDescription.Document.Basic
import ApiDescription.Json.Reader

/-!
# Documents as JSON

Documents and handlers are objects, or arrays of their attributes in order with optional ones left off
the end. Keys without a meaning are skipped, whatever stands under them.
-/

namespace ApiDescription

namespace TypeContext

/-- The written form of a context. -/
def toJson (context : TypeContext) : Json :=
  Json.ofNameMap TypeRef.toJson context.bindings

/-- The context that an object of types reads as. -/
def ofJson? (value : Json) : Option TypeContext :=
  (⟨·⟩) <$> value.nameMap? TypeRef.ofJson?

end TypeContext

namespace Json

/-- The fields of a record: those of an object, or the items of an array under the record's keys. -/
def record? (keys : List String) : Json → Option (List (String × Json))
  | .obj fields => some fields
  | .arr items => if items.length ≤ keys.length then some (keys.zip items) else none
  | _ => none

end Json

namespace Handler

/-- The written form of a handler. -/
def toJson (handler : Handler) : Json :=
  .obj [("method", .nat handler.method), ("ancestors", .arr (handler.ancestors.map Json.nat)),
    ("type_variables", handler.context.toJson)]

/-- The handler that a value reads as. -/
def ofJson? (value : Json) : Option Handler := do
  let fields ← value.record? ["method", "ancestors", "type_variables"]
  return {
    method := ← Json.required? fields "method" Json.nat?
    ancestors := ← Json.optional? fields "ancestors" [] (Json.list? Json.nat?)
    context := ← Json.optional? fields "type_variables" ∅ TypeContext.ofJson? }

end Handler

namespace Document

/-- The written form of a document. -/
def toJson (document : Document) : Json :=
  .obj [("declarations", .arr (document.declarations.map Declaration.toJson)),
    ("handlers", .arr (document.handlers.map Handler.toJson))]

/-- The document that a value reads as. -/
def ofJson? (value : Json) : Option Document := do
  let fields ← value.record? ["declarations", "handlers"]
  return {
    declarations := ← Json.required? fields "declarations" (Json.list? Declaration.ofJson?)
    handlers := ← Json.optional? fields "handlers" [] (Json.list? Handler.ofJson?) }

/-- The document that a text of JSON holds. -/
def parse? (text : String) : Option Document := do
  ofJson? (← Json.parse? text)

end Document

end ApiDescription
