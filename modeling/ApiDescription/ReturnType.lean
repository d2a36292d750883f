import ApiDescription.Descriptor.Basic
import ApiDescription.Model.Subtyping
import ApiDescription.Text.Blank
import ApiDescription.TypeRef.Context
import ApiDescription.Vocabulary

/-!
# What a handler returns

The declared return type of a handler is not yet what it transports. A type hint replaces it
altogether. Otherwise an asynchronous wrapper and then a response envelope are peeled off, a type
without a body counts as unknown, a documented wrapped type replaces the result if the model has it,
and the type variables in force are filled in. Nothing here fails: what is not understood becomes the
unknown type.

* `representation_of_hint`: a hint that resolves makes everything else irrelevant but the vocabulary.
-/

namespace ApiDescription

/-- A return type with everything that has a say in what it stands for. -/
structure ReturnType where
  /-- The label of the handler, for notes. -/
  owner : String
  declared : TypeRef
  /-- The type hint tag of the handler. -/
  hint : Option Tag := none
  /-- Whether return values are response bodies. -/
  returnsBody : Bool := false
  /-- The documented name of the type that is really returned. -/
  wrapped : Option String := none
  context : TypeContext := ∅
  /-- What is documented about the return value. -/
  doc : Option String := none

namespace ReturnType

/-- What a type hint says. -/
inductive Hint where
  /-- Nothing. -/
  | absent
  /-- The value is of this type. -/
  | type (type : TypeRef)
  /-- The value is of a type of this name, which the model does not have. -/
  | unresolved (qualifiedName : String)

/-- What a type hint tag says: its type unless that is the literal for none, and otherwise the type of
the qualified name it gives. -/
def Hint.ofTag (model : Model) (types : WellKnownTypes) (tag : Tag) : Hint :=
  let byName : Hint := match tag.str? "qualifiedName" with
    | none | some "" => .absent
    | some name =>
      match model.findType? name with
      | some (_, d) => .type d.declaredType
      | none => .unresolved name
  match tag.type? "value" with
  | some given => if given.qualifiedName? = some types.typeHintNone then byName else .type given
  | none => byName

/-- The type inside a wrapper of one of several names; the unknown type if the wrapper does not have
exactly one type argument, and the type itself if it is no wrapper. -/
def peel (model : Model) (wrappers : List String) (type : TypeRef) : TypeRef :=
  if model.isInstanceOfAny type wrappers then
    match type.args with
    | [only] => only
    | _ => .unknown
  else type

/-- The declared type of the documented wrapped type, if the model has it. -/
def wrappedType? (model : Model) (wrapped : Option String) : Option TypeRef := do
  let name := Text.trim (← wrapped)
  if name = "" then none else (model.findType? name).map (·.2.declaredType)

/-- The type that is transported when no hint says so. -/
def unwrapped (model : Model) (types : WellKnownTypes) (r : ReturnType) : TypeRef :=
  let body :=
    if r.returnsBody then
      peel model types.responseEnvelopes (peel model types.asyncWrappers r.declared)
    else .unknown
  r.context.resolve ((wrappedType? model r.wrapped).getD body)

/-- Whether a type is one of no value. -/
def denotesVoid (types : WellKnownTypes) (type : TypeRef) : Bool :=
  type.isVoid || type.qualifiedName?.any types.voidTypes.contains

/-- The representation of values of a type. -/
def represent (types : WellKnownTypes) (doc : Option String) (type : TypeRef) : Representation :=
  if denotesVoid types type then .void else .body type doc

/-- The note that a hint names a type which is not there. -/
def unresolvedHint (owner qualifiedName : String) : Diagnostic where
  declaration := owner
  message := "type hint \x60" ++ qualifiedName ++ "\x60 does not resolve to a known type"

/-- The hint in force. -/
def hintInForce (model : Model) (types : WellKnownTypes) (r : ReturnType) : Hint :=
  (r.hint.map (Hint.ofTag model types)).getD .absent

/-- What the handler answers with, and the notes about it. -/
def representation (model : Model) (types : WellKnownTypes) (r : ReturnType) :
    Representation × List Diagnostic :=
  match r.hintInForce model types with
  | .type type => (represent types r.doc type, [])
  | .unresolved name => (represent types r.doc .unknown, [unresolvedHint r.owner name])
  | .absent => (represent types r.doc (r.unwrapped model types), [])

theorem representation_of_hint {model : Model} {types : WellKnownTypes} {r : ReturnType}
    {type : TypeRef} (h : r.hintInForce model types = .type type) :
    r.representation model types = (represent types r.doc type, []) := by
  simp [representation, h]

end ReturnType

end ApiDescription
