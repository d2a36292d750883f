import ApiDescription.Model.Basic

/-!
# Subtypes

`Model.isInstanceOf` tells whether a declared type has a given name or inherits, directly or not, from
a type of that name. Names are compared before the model is asked, so a type outside the model is an
instance of itself.

* `reaches_nil`, `reaches_cons`: the search takes one name at a time. The table of supertypes loses
  the entry of every name it has passed, so circular supertypes end too.
-/

namespace ApiDescription

namespace Subtyping

theorem size_erase_lt {table : NameMap (List String)} {name : String} {names : List String}
    (h : table[name]? = some names) : (table.erase name).size < table.size := by
  have hmem : table.contains name = true := by
    rw [Std.ExtTreeMap.contains_eq_isSome_getElem?, h]
    rfl
  have hsize : table.size ≠ 0 := fun hs => by
    rw [Std.ExtTreeMap.eq_empty_iff_size_eq_zero.2 hs] at hmem
    simp at hmem
  simp only [Std.ExtTreeMap.size_erase, hmem, if_true]
  omega

/-- Whether `target` is one of the pending names or is reached from one of them through the supertypes
in the table. -/
def reaches (table : NameMap (List String)) (target : String) (pending : List String) : Bool :=
  match pending with
  | [] => false
  | name :: rest =>
    if name = target then true
    else
      match _h : table[name]? with
      | some supertypes => reaches (table.erase name) target (supertypes ++ rest)
      | none => reaches table target rest
termination_by (table.size, pending.length)
decreasing_by
  · exact Prod.Lex.left _ _ (size_erase_lt _h)
  · exact Prod.Lex.right _ (Nat.lt_succ_self _)

theorem reaches_nil (table : NameMap (List String)) (target : String) :
    reaches table target [] = false := by
  rw [reaches]

theorem reaches_cons (table : NameMap (List String)) (target name : String) (rest : List String) :
    reaches table target (name :: rest) =
      if name = target then true
      else match table[name]? with
        | some supertypes => reaches (table.erase name) target (supertypes ++ rest)
        | none => reaches table target rest := by
  rw [reaches]
  split
  · rfl
  · split <;> simp_all

end Subtyping

namespace Model

/-- The names of the direct supertypes of every type of the model. -/
def supertypeNames (model : Model) : NameMap (List String) :=
  NameMap.ofPairs <| model.decls.filterMap fun d =>
    d.type?.map fun info => (info.qualifiedName, info.supertypes.filterMap TypeRef.qualifiedName?)

/-- Whether a type is the type of a name or inherits from it. -/
def isInstanceOf (model : Model) (type : TypeRef) (qualifiedName : String) : Bool :=
  match type.qualifiedName? with
  | some name => Subtyping.reaches model.supertypeNames qualifiedName [name]
  | none => false

/-- Whether a type is an instance of one of several names. -/
def isInstanceOfAny (model : Model) (type : TypeRef) (qualifiedNames : List String) : Bool :=
  qualifiedNames.any (model.isInstanceOf type)

end Model

end ApiDescription
