import ApiDescription.TypeRef.Basic

/-!
# The order of types

Types are ordered by kind first (void, primitive, declared, array, variable, unknown) and then by
their parts from left to right, names by code point and argument lists lexicographically.
-/

namespace ApiDescription.TypeRef

/-- The position of a type's kind in the order. -/
def rank : TypeRef → Nat
  | .void => 0
  | .primitive _ => 1
  | .declared _ _ => 2
  | .array _ => 3
  | .var _ => 4
  | .unknown => 5

mutual

/-- Which of two types comes first. -/
def order : TypeRef → TypeRef → Ordering
  | .primitive a, .primitive b => compare a b
  | .declared a as, .declared b bs => (compare a b).then (orderAll as bs)
  | .array a, .array b => order a b
  | .var a, .var b => compare a b
  | a, b => compare a.rank b.rank

/-- Which of two argument lists comes first; a proper beginning of a list comes before it. -/
def orderAll : List TypeRef → List TypeRef → Ordering
  | [], [] => .eq
  | [], _ :: _ => .lt
  | _ :: _, [] => .gt
  | a :: as, b :: bs => (order a b).then (orderAll as bs)

end

instance : Ord TypeRef := ⟨order⟩

/-- The types in order. -/
def sort (types : List TypeRef) : List TypeRef :=
  types.mergeSort fun a b => (order a b).isLE

end ApiDescription.TypeRef
