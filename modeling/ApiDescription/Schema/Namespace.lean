import ApiDescription.Schema.DataType

/-!
# Schema namespaces

The types of a schema grouped by the URI of their namespace, in the order of URIs. Types keep their
order within a namespace, and types without a namespace belong to that of the empty URI.
-/

namespace ApiDescription

/-- The schema types of one namespace. -/
structure SchemaNamespace where
  /-- Empty for the default namespace. -/
  uri : String
  types : List DataType

namespace SchemaNamespace

/-- The types that a facet shows. -/
def shownBy (space : SchemaNamespace) (facet : DataType → Bool) : List DataType :=
  space.types.filter facet

/-- The URI of the namespace that a declaration belongs to. -/
def uriOf (d : Declaration) : String :=
  (d.type?.bind (·.uri)).getD ""

/-- The URI and the data type of the type at a position. -/
def entry (filter : AccessorFilter) (model : Model) (id : DeclId) :
    Except ModelError (String × DataType) := do
  let type ← DataType.ofModel filter model id
  let d ← model.decl id
  return (uriOf d, type)

/-- The groups of a list of pairs with the same first part, each in the order of the list. -/
def group (entries : List (String × DataType)) : NameMap (List DataType) :=
  entries.foldl (fun groups (uri, type) => groups.push uri type) ∅

/-- The namespaces of the types at the given positions. The first position without a type makes the
whole fail. -/
def assemble (filter : AccessorFilter) (model : Model) (ids : List DeclId) :
    Except ModelError (List SchemaNamespace) := do
  let entries ← ids.mapM (entry filter model)
  return (group entries).toList.map fun (uri, types) => ⟨uri, types⟩

/-- Whether a type belongs to the schema: it has a binding tag and is not transient. -/
def isSchemaType (filter : AccessorFilter) (d : Declaration) : Bool :=
  !filter.isTransient d && d.tags.names.any filter.binding.isBindingTag

/-- The positions of the types of the schema. -/
def schemaTypes (filter : AccessorFilter) (model : Model) : List DeclId :=
  (model.types.filter fun (_, d) => isSchemaType filter d).map (·.1)

/-- The namespaces of the whole schema. -/
def assembleSchema (filter : AccessorFilter) (model : Model) :
    Except ModelError (List SchemaNamespace) :=
  assemble filter model (schemaTypes filter model)

end SchemaNamespace

end ApiDescription
