import ApiDescription.AccessPolicy
import ApiDescription.Model.Basic
import ApiDescription.Vocabulary

/-!
# Accessors

Which declarations take part in the schema of the type they are members of. A transient tag keeps a
member out, any other binding tag brings it in, and the access policy decides about the rest.
-/

namespace ApiDescription

/-- What decides about accessors. -/
structure AccessorFilter where
  policy : AccessPolicy
  binding : BindingTags := {}

namespace AccessorFilter

/-- Whether a declaration carries the transient tag. -/
def isTransient (filter : AccessorFilter) (d : Declaration) : Bool :=
  d.tags.contains filter.binding.transient

/-- Whether a declaration carries a binding tag other than the transient one. -/
def isExplicit (filter : AccessorFilter) (d : Declaration) : Bool :=
  d.tags.names.any fun name =>
    name ≠ filter.binding.transient && filter.binding.isBindingTag name

/-- Whether both accessor methods of a property are there and public. -/
def hasPublicAccessors (model : Model) (getter setter : Option DeclId) : Bool :=
  match getter.bind model.get?, setter.bind model.get? with
  | some getter, some setter => getter.isPublic && setter.isPublic
  | _, _ => false

/-- Whether the policy brings in a declaration that no tag decides about. -/
def acceptsByPolicy (filter : AccessorFilter) (model : Model) (d : Declaration) : Bool :=
  match d.kind with
  | .property getter setter =>
    hasPublicAccessors model getter setter &&
      match filter.policy with
      | .property | .publicMember => true
      | .tagged | .field => false
  | .field _ =>
    !d.modifiers.has .static && !d.modifiers.has .transient &&
      match filter.policy with
      | .field => true
      | .publicMember => d.isPublic
      | .tagged | .property => false
  | .type _ | .method _ | .parameter => false

/-- Whether a declaration is an accessor. -/
def accepts (filter : AccessorFilter) (model : Model) (d : Declaration) : Bool :=
  if filter.isTransient d then false
  else if filter.isExplicit d then true
  else filter.acceptsByPolicy model d

end AccessorFilter

end ApiDescription
