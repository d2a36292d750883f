import ApiDescription.NameMap
import ApiDescription.TypeRef.Basic

/-!
# Type variables in force

A `TypeContext` binds the open variables of a generic scope. `resolve` replaces every bound variable
of a type by its binding, and then the variables of that binding, and so on. While the binding of a
variable is being followed the variable itself counts as open, so a circular binding ends at the
variable it comes back to. Each step forgets one binding, which is why following them ends.

* `lookup?_bind`: binding a variable changes what is bound to it and nothing else.
* `resolve_var`: what a variable resolves to.
* `resolve_declared`, `resolve_array`: resolution goes into arguments and elements.
* `resolve_of_isEmpty`: nothing is replaced where nothing is bound.
-/

namespace ApiDescription

/-- The types bound to the variables of a generic scope. -/
structure TypeContext where
  bindings : NameMap TypeRef := ∅

namespace TypeContext

instance : EmptyCollection TypeContext := ⟨{}⟩

/-- Binds a variable, replacing an earlier binding. -/
def bind (context : TypeContext) (name : String) (type : TypeRef) : TypeContext :=
  ⟨context.bindings.insert name type⟩

/-- The binding of a variable. -/
def lookup? (context : TypeContext) (name : String) : Option TypeRef :=
  context.bindings[name]?

/-- Whether no variable is bound. -/
def isEmpty (context : TypeContext) : Bool :=
  context.bindings.isEmpty

/-- The context in which one variable is open. -/
def free (context : TypeContext) (name : String) : TypeContext :=
  ⟨context.bindings.erase name⟩

@[simp] theorem lookup?_empty (name : String) : (∅ : TypeContext).lookup? name = none :=
  Std.ExtTreeMap.getElem?_empty

theorem lookup?_bind (context : TypeContext) (name : String) (type : TypeRef) (other : String) :
    (context.bind name type).lookup? other =
      if name = other then some type else context.lookup? other := by
  simp only [lookup?, bind, Std.ExtTreeMap.getElem?_insert, Std.LawfulEqCmp.compare_eq_iff_eq]

theorem size_free_lt {context : TypeContext} {name : String} {type : TypeRef}
    (h : context.lookup? name = some type) :
    (context.free name).bindings.size < context.bindings.size := by
  have hmem : context.bindings.contains name = true := by
    rw [Std.ExtTreeMap.contains_eq_isSome_getElem?]
    exact Option.isSome_iff_exists.2 ⟨type, h⟩
  have hsize : context.bindings.size ≠ 0 := fun hs => by
    rw [Std.ExtTreeMap.eq_empty_iff_size_eq_zero.2 hs] at hmem
    simp at hmem
  simp only [free, Std.ExtTreeMap.size_erase, hmem, if_true]
  omega

/-- The type with its bound variables replaced by what their bindings resolve to. -/
def resolve (context : TypeContext) (type : TypeRef) : TypeRef :=
  type.bind fun name =>
    match _h : context.lookup? name with
    | some bound => (context.free name).resolve bound
    | none => .var name
termination_by context.bindings.size
decreasing_by exact size_free_lt _h

theorem resolve_var (context : TypeContext) (name : String) :
    context.resolve (.var name) =
      match context.lookup? name with
      | some bound => (context.free name).resolve bound
      | none => .var name := by
  rw [resolve, TypeRef.bind]
  split <;> simp_all

theorem resolve_eq_bind (context : TypeContext) (type : TypeRef) :
    context.resolve type = type.bind fun name => context.resolve (.var name) := by
  have h : (fun name => context.resolve (.var name)) = fun name =>
      match context.lookup? name with
      | some bound => (context.free name).resolve bound
      | none => .var name := funext (resolve_var context)
  rw [h, resolve]
  congr 1
  funext name
  split <;> simp_all

theorem resolve_declared (context : TypeContext) (name : String) (args : List TypeRef) :
    context.resolve (.declared name args) = .declared name (args.map context.resolve) := by
  rw [resolve_eq_bind, TypeRef.bind, TypeRef.bindAll_eq_map]
  exact congrArg (TypeRef.declared name)
    (List.map_congr_left fun arg _ => (resolve_eq_bind context arg).symm)

theorem resolve_array (context : TypeContext) (element : TypeRef) :
    context.resolve (.array element) = .array (context.resolve element) := by
  rw [resolve_eq_bind, TypeRef.bind, ← resolve_eq_bind]

theorem resolve_of_isEmpty {context : TypeContext} (h : ∀ name, context.lookup? name = none)
    (type : TypeRef) : context.resolve type = type := by
  rw [resolve_eq_bind]
  have hv : (fun name => context.resolve (.var name)) = TypeRef.var := by
    funext name
    rw [resolve_var, h name]
  rw [hv, TypeRef.bind_var]

end TypeContext

end ApiDescription
