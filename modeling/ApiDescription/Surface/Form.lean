import ApiDescription.Surface.Basic
import ApiDescription.TypeRef.Form

/-!
# Surfaces as JSON

The written form of descriptors, data types and whole surfaces. They are only written, never read. The
keys stand in the order in which a document shows them.
-/

namespace ApiDescription

/-- The written form of a kind. -/
def ParameterKind.word : ParameterKind → String
  | .header => "HEADER"
  | .query => "QUERY"
  | .path => "PATH"
  | .entity => "ENTITY"
  | .matrix => "MATRIX"
  | .cookie => "COOKIE"
  | .form => "FORM"
  | .context => "CONTEXT"

/-- A kind as it is shown to people. -/
def ParameterKind.display (kind : ParameterKind) : String :=
  kind.word.map Char.toLower

/-- The written form of a request parameter. -/
def RequestParameter.toJson (p : RequestParameter) : Json :=
  .obj [("name", .str p.name), ("kind", .str p.kind.word), ("description", .str p.description),
    ("declaration", Json.ofOption Json.nat p.declaration),
    ("type_ref", Json.ofOption TypeRef.toJson p.type)]

/-- The written form of a code. -/
def ResponseCode.toJson (c : ResponseCode) : Json :=
  .obj [("code", .nat c.code.toNat), ("condition", Json.ofOption .str c.condition),
    ("type_ref", Json.ofOption TypeRef.toJson c.type),
    ("additional_headers", Json.ofNameMap .str c.headers)]

/-- The written form of a representation. -/
def Representation.toJson : Representation → Json
  | .void => .obj [("kind", .str "void")]
  | .body type doc =>
    .obj [("kind", .str "body"), ("ty", type.toJson), ("doc", Json.ofOption .str doc)]

/-- The written form of a note. -/
def Diagnostic.toJson (d : Diagnostic) : Json :=
  .obj [("declaration", .str d.declaration), ("message", .str d.message)]

/-- The written form of a descriptor. -/
def Descriptor.toJson (d : Descriptor) : Json :=
  .obj [("handler", .nat d.handler), ("name", .str d.name),
    ("entity_parameter", Json.ofOption RequestParameter.toJson d.entity),
    ("request_parameters", .arr (d.requestParameters.map RequestParameter.toJson)),
    ("status_codes", .arr (d.statusCodes.map ResponseCode.toJson)),
    ("warnings", .arr (d.warnings.map ResponseCode.toJson)),
    ("response_headers", Json.ofNameMap .str d.responseHeaders),
    ("representation", d.representation.toJson),
    ("diagnostics", .arr (d.diagnostics.map Diagnostic.toJson))]

/-- The written form of an accessor kind. -/
def AccessorKind.word : AccessorKind → String
  | .field => "field"
  | .property => "property"

/-- The written form of an accessor. -/
def Accessor.toJson (a : Accessor) : Json :=
  .obj [("name", .str a.name), ("declaration", .nat a.declaration), ("type_ref", a.type.toJson),
    ("kind", .str a.kind.word)]

/-- The word for the shape of a data type. -/
def DataType.Shape.word : Shape → String
  | .complex _ => "complex"
  | .enumeration _ _ => "enum"

/-- What only types of one shape have, in written form. -/
def DataType.Shape.toFields : Shape → List (String × Json)
  | .complex accessors => [("accessors", .arr (accessors.map Accessor.toJson))]
  | .enumeration values unknownValue =>
    [("values", Json.strings values), ("unknown_value", Json.ofOption .str unknownValue)]

/-- The written form of a data type. -/
def DataType.toJson (t : DataType) : Json :=
  .obj ([("kind", .str t.shape.word), ("declaration", .nat t.declaration),
    ("qualified_name", .str t.qualifiedName)] ++ t.shape.toFields)

/-- The written form of a namespace with those of its types that a facet shows. -/
def SchemaNamespace.toJson (facet : DataType → Bool) (space : SchemaNamespace) : Json :=
  .obj [("uri", .str space.uri), ("types", .arr ((space.shownBy facet).map DataType.toJson))]

/-- The document that shows a surface. -/
def ApiSurface.toJson (surface : ApiSurface) : Json :=
  .obj [("resource_methods", .arr (surface.report.descriptors.map Descriptor.toJson)),
    ("namespaces", .arr (surface.namespaces.map (SchemaNamespace.toJson fun _ => true))),
    ("diagnostics", .arr (surface.report.diagnostics.map Diagnostic.toJson)),
    ("failures", Json.strings (surface.report.failures.map SynthesisError.message))]

end ApiDescription
