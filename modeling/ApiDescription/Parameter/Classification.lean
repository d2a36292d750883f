import ApiDescription.Accessor
import ApiDescription.Descriptor.Basic
import ApiDescription.DocLine
import ApiDescription.Model.Subtyping
import ApiDescription.Route
import ApiDescription.TypeRef.Context

/-!
# Classification of parameters

Where each parameter of a handler is carried in a request. A tag of the framework decides first; a
model attribute is taken apart into the accessors of its type; any other parameter is supplied by the
framework if its type says so, a path segment if the route has a placeholder of its name, and a query
parameter otherwise.

* `classify_of_binding`: a parameter with a binding tag is classified as that tag says, whatever the
  route and its other tags.
-/

namespace ApiDescription

/-- What the classification of a parameter takes from its handler. -/
structure HandlerMetadata where
  route : Route := {}
  /-- The documented descriptions by declared parameter name. -/
  descriptions : NameMap String := ∅

namespace HandlerMetadata

/-- The descriptions of the parameters of a handler; the framework's documentation tag overrides the
general one. -/
def parameterDocs (names : DocTagNames) (handler : Declaration) : NameMap String :=
  NameMap.ofPairs (DocLine.named handler.docs names.param ++ DocLine.named handler.docs names.rsParam)

/-- The metadata of a handler with its ancestors. -/
def of (vocabulary : Vocabulary) (handler : Declaration) (ancestors : List Declaration) :
    HandlerMetadata where
  route := Route.of vocabulary.web handler ancestors
  descriptions := parameterDocs vocabulary.docs handler

/-- The description of a parameter by its declared name; empty where nothing is documented. -/
def description (metadata : HandlerMetadata) (name : String) : String :=
  metadata.descriptions.getD name ""

end HandlerMetadata

/-- Everything the classification of the parameters of one handler depends on. -/
structure Classification where
  model : Model
  vocabulary : Vocabulary := {}
  filter : AccessorFilter
  context : TypeContext := ∅
  metadata : HandlerMetadata := {}

namespace Classification

/-- The tags that say where a parameter is carried, in order of precedence. -/
def bindings (web : WebTags) : List (String × ParameterKind) :=
  [(web.requestParam, .query), (web.pathVariable, .path), (web.requestHeader, .header),
    (web.cookieValue, .cookie), (web.matrixVariable, .matrix), (web.requestPart, .form)]

/-- The name that a tag gives to the parameter that carries it, unless both its places are empty. -/
def nameOnWire (tag : Tag) (declared : String) : String :=
  ((["value", "name"].filterMap tag.str?).find? (· ≠ "")).getD declared

/-- The first of the binding tags that a parameter carries, with the kind it stands for. -/
def binding? (web : WebTags) (parameter : Declaration) : Option (Tag × ParameterKind) :=
  (bindings web).findSome? fun (tagName, kind) => (parameter.tags.first? tagName).map (·, kind)

/-- The request parameter that stands for a declared parameter as a whole. -/
def whole (c : Classification) (id : DeclId) (parameter : Declaration) (name : String)
    (kind : ParameterKind) : RequestParameter where
  name := name
  kind := kind
  description := c.metadata.description parameter.name
  declaration := some id
  type := some (c.context.resolve parameter.declaredType)

/-- The request parameters of a model attribute: one for each accessor of its type, or the attribute
itself if the model does not have its type. -/
def expand (c : Classification) (id : DeclId) (parameter : Declaration) : List RequestParameter :=
  match (c.context.resolve parameter.declaredType).qualifiedName?.bind c.model.findType? with
  | none => [c.whole id parameter parameter.name .query]
  | some (typeId, _) =>
    ((c.model.members typeId).filter fun (_, member) => c.filter.accepts c.model member).map
      fun (memberId, member) =>
        { name := member.name
          kind := .query
          description := ""
          declaration := some memberId
          type := some (c.context.resolve member.declaredType) }

/-- The kind of a parameter that no tag says anything about. -/
def plainKind (c : Classification) (parameter : Declaration) : ParameterKind :=
  if c.model.isInstanceOfAny (c.context.resolve parameter.declaredType)
      c.vocabulary.types.contextTypes then .context
  else if c.metadata.route.hasPlaceholder parameter.name then .path
  else .query

/-- The request parameters of a declared parameter that does not take the request body. -/
def classify (c : Classification) (id : DeclId) (parameter : Declaration) : List RequestParameter :=
  match binding? c.vocabulary.web parameter with
  | some (tag, kind) => [c.whole id parameter (nameOnWire tag parameter.name) kind]
  | none =>
    if parameter.tags.contains c.vocabulary.web.modelAttribute then c.expand id parameter
    else [c.whole id parameter parameter.name (c.plainKind parameter)]

theorem classify_of_binding {c : Classification} {parameter : Declaration} {tag : Tag}
    {kind : ParameterKind} (h : binding? c.vocabulary.web parameter = some (tag, kind))
    (id : DeclId) :
    c.classify id parameter = [c.whole id parameter (nameOnWire tag parameter.name) kind] := by
  simp [classify, h]

end Classification

end ApiDescription
