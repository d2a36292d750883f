/-!
# Type references

A `TypeRef` is a type as a program writes it: on a field, a parameter, a return type or inside a tag.
Open type variables are filled in by `TypeRef.bind`, which replaces every variable by a type and keeps
everything else.

* `nestedInduction`: what holds of a type as soon as it holds of its parts holds of every type.
* `bind_var`: filling in variables by themselves changes nothing.
-/

namespace ApiDescription

/-- A type as written in the described program. -/
inductive TypeRef where
  /-- The type of no value. -/
  | void
  /-- A primitive such as `int`. -/
  | primitive (name : String)
  /-- A class, interface or enum with its type arguments. -/
  | declared (name : String) (args : List TypeRef)
  | array (element : TypeRef)
  /-- An open type variable such as `T`. -/
  | var (name : String)
  /-- A value whose shape is unknown. -/
  | unknown
deriving Repr

namespace TypeRef

instance : Inhabited TypeRef := ⟨.unknown⟩

/-- A declared type without type arguments. -/
def named (name : String) : TypeRef :=
  .declared name []

/-- Whether this is the type of no value. -/
def isVoid : TypeRef → Bool
  | .void => true
  | _ => false

/-- The qualified name of a declared type. -/
def qualifiedName? : TypeRef → Option String
  | .declared name _ => some name
  | _ => none

/-- The type arguments of a declared type; none for any other kind. -/
def args : TypeRef → List TypeRef
  | .declared _ args => args
  | _ => []

mutual

/-- The text of a type, as shown to people. -/
def display : TypeRef → String
  | .void => "void"
  | .primitive name | .var name => name
  | .declared name [] => name
  | .declared name (arg :: rest) => name ++ "<" ++ arg.display ++ displayRest rest ++ ">"
  | .array element => element.display ++ "[]"
  | .unknown => "?object"

/-- The type arguments after the first. -/
def displayRest : List TypeRef → String
  | [] => ""
  | arg :: rest => ", " ++ arg.display ++ displayRest rest

end

/-! ## Induction -/

section Induction

variable {P : TypeRef → Prop}

mutual

/-- Induction over a type: what holds of a type as soon as it holds of its arguments or its element
holds of every type. -/
@[elab_as_elim] theorem nestedInduction (void : P .void) (primitive : ∀ name, P (.primitive name))
    (declared : ∀ name args, (∀ a ∈ args, P a) → P (.declared name args))
    (array : ∀ element, P element → P (.array element)) (var : ∀ name, P (.var name))
    (unknown : P .unknown) : ∀ t, P t
  | .void => void
  | .primitive name => primitive name
  | .declared name args =>
    declared name args (args_induction void primitive declared array var unknown args)
  | .array element =>
    array element (nestedInduction void primitive declared array var unknown element)
  | .var name => var name
  | .unknown => unknown

theorem args_induction (void : P .void) (primitive : ∀ name, P (.primitive name))
    (declared : ∀ name args, (∀ a ∈ args, P a) → P (.declared name args))
    (array : ∀ element, P element → P (.array element)) (var : ∀ name, P (.var name))
    (unknown : P .unknown) : ∀ args : List TypeRef, ∀ a ∈ args, P a
  | [] => by simp
  | a :: rest => List.forall_mem_cons.mpr
      ⟨nestedInduction void primitive declared array var unknown a,
        args_induction void primitive declared array var unknown rest⟩

end

end Induction

/-! ## Filling in variables -/

mutual

/-- The type with every variable `x` replaced by `f x`. -/
def bind (f : String → TypeRef) : TypeRef → TypeRef
  | .void => .void
  | .primitive name => .primitive name
  | .declared name args => .declared name (bindAll f args)
  | .array element => .array (element.bind f)
  | .var name => f name
  | .unknown => .unknown

/-- Every type with every variable `x` replaced by `f x`. -/
def bindAll (f : String → TypeRef) : List TypeRef → List TypeRef
  | [] => []
  | arg :: rest => arg.bind f :: bindAll f rest

end

theorem bindAll_eq_map (f : String → TypeRef) (args : List TypeRef) :
    bindAll f args = args.map (bind f) := by
  induction args with
  | nil => rfl
  | cons arg rest ih => simp [bindAll, ih]

mutual

theorem bind_var : ∀ t : TypeRef, t.bind .var = t
  | .void | .primitive _ | .var _ | .unknown => by simp [bind]
  | .declared _ args => by simp [bind, bindAll_var args]
  | .array element => by simp [bind, bind_var element]

theorem bindAll_var : ∀ args : List TypeRef, bindAll .var args = args
  | [] => by simp [bindAll]
  | arg :: rest => by simp [bindAll, bind_var arg, bindAll_var rest]

end

end TypeRef

end ApiDescription
