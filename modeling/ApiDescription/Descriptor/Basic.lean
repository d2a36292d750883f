import ApiDescription.Declaration.Basic

/-!
# Descriptors

What is told about one handler: where its input is carried, which codes and headers it answers with,
and what its output is. The request parameters of a descriptor are ordered by identity, that is by kind
and name, and no two have the same.
-/

namespace ApiDescription

/-- Where a request parameter is carried. -/
inductive ParameterKind where
  | header
  | query
  | path
  /-- The body of the request. -/
  | entity
  | matrix
  | cookie
  /-- A field or part of a form. -/
  | form
  /-- Supplied by the framework, not by the client. -/
  | context
deriving DecidableEq, Repr

/-- The position of a kind in the order of kinds. -/
def ParameterKind.rank : ParameterKind → Nat
  | .header => 0
  | .query => 1
  | .path => 2
  | .entity => 3
  | .matrix => 4
  | .cookie => 5
  | .form => 6
  | .context => 7

theorem ParameterKind.rank_injective {a b : ParameterKind} (h : a.rank = b.rank) : a = b := by
  cases a <;> cases b <;> first | rfl | cases h

/-- What tells request parameters apart. -/
structure ParameterIdentity where
  kind : ParameterKind
  name : String
deriving DecidableEq, Repr

namespace ParameterIdentity

/-- Identities are ordered by kind first and by name within a kind. -/
instance : Ord ParameterIdentity :=
  ⟨compareLex (compareOn (·.kind.rank)) (compareOn (·.name))⟩

instance : Std.TransOrd ParameterIdentity :=
  inferInstanceAs (Std.TransCmp
    (compareLex (compareOn (·.kind.rank)) (compareOn (·.name) : ParameterIdentity → _)))

theorem compare_eq (a b : ParameterIdentity) :
    compare a b = (compare a.kind.rank b.kind.rank).then (compare a.name b.name) :=
  rfl

instance : Std.LawfulEqOrd ParameterIdentity where
  eq_of_compare {a b} h := by
    rw [compare_eq, Ordering.then_eq_eq] at h
    have hk : a.kind = b.kind := ParameterKind.rank_injective (Std.LawfulEqOrd.eq_of_compare h.1)
    have hn : a.name = b.name := Std.LawfulEqOrd.eq_of_compare h.2
    cases a
    cases b
    simp_all

end ParameterIdentity

/-- One input of a handler. -/
structure RequestParameter where
  /-- The name on the wire. -/
  name : String
  kind : ParameterKind
  /-- Empty where nothing is documented. -/
  description : String
  /-- The declaration behind it; absent where it is only documented. -/
  declaration : Option DeclId := none
  /-- The type, where there is a declaration. -/
  type : Option TypeRef := none

namespace RequestParameter

/-- The kind and name of a parameter. -/
def identity (p : RequestParameter) : ParameterIdentity :=
  ⟨p.kind, p.name⟩

end RequestParameter

/-- A status code or warning that may be answered. -/
structure ResponseCode where
  code : UInt16
  /-- When it is answered. -/
  condition : Option String := none
  /-- The type of the body that comes with it. -/
  type : Option TypeRef := none
  /-- The headers that come with it, by name. -/
  headers : NameMap String := ∅

/-- A code with a condition, where an empty condition is none. -/
def ResponseCode.ofCondition (code : UInt16) (condition : String) : ResponseCode :=
  { code, condition := if condition = "" then none else some condition }

/-- What a handler answers with. -/
inductive Representation where
  /-- No value. -/
  | void
  /-- A body of a type, with what is documented about it. -/
  | body (type : TypeRef) (doc : Option String)

namespace Representation

/-- Whether no value is answered. -/
def isVoid : Representation → Bool
  | .void => true
  | .body _ _ => false

/-- The type of the body. -/
def type? : Representation → Option TypeRef
  | .void => none
  | .body type _ => some type

/-- What is documented about the body. -/
def doc? : Representation → Option String
  | .void => none
  | .body _ doc => doc

end Representation

/-- A note that something was not understood and a fallback was taken. -/
structure Diagnostic where
  /-- The label of the declaration it is about. -/
  declaration : String
  message : String
deriving DecidableEq, Repr

/-- The description of one handler. -/
structure Descriptor where
  handler : DeclId
  name : String
  /-- The parameter that takes the request body. -/
  entity : Option RequestParameter := none
  /-- The other parameters by identity. -/
  parameters : Std.ExtTreeMap ParameterIdentity RequestParameter := ∅
  statusCodes : List ResponseCode := []
  warnings : List ResponseCode := []
  responseHeaders : NameMap String := ∅
  representation : Representation := .void
  diagnostics : List Diagnostic := []

namespace Descriptor

/-- The request parameters in order of their identities. -/
def requestParameters (d : Descriptor) : List RequestParameter :=
  d.parameters.values

/-- Adds a parameter unless there is one with its identity. -/
def addParameter (d : Descriptor) (p : RequestParameter) : Descriptor :=
  { d with parameters := d.parameters.insertIfNew p.identity p }

/-- Adds parameters one by one. -/
def addParameters (d : Descriptor) (ps : List RequestParameter) : Descriptor :=
  ps.foldl addParameter d

end Descriptor

end ApiDescription
