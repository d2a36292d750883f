import ApiDescription.Proofs.Model.Lookup
import ApiDescription.Proofs.Selections
import ApiDescription.Proofs.Traversal
import ApiDescription.Schema.DataType

/-!
# What data types are made of

Asking for the data type at a position ends in one of three ways: nothing stands there, something else
than a type stands there, or a type stands there and has a data type. The data type of an enumeration is
made of its constants, that of any other type of the accessors among its members, in their order.

Results:
* `ofModel_of_none`, `ofModel_of_no_type`, `ofModel_of_kind`: the three ways.
* `exists_kind_of_ofModel`: whose data type it is that there is.
* `accessor?_eq_some_iff`: which accessor a member is.
* `map_declaration_accessorsAt`: the declarations behind the accessors of a type.
* `map_declaration_accessorsAt_sublist`: the accessors of a type stand in the order of its members.
-/

namespace ApiDescription

namespace DataType

variable {filter : AccessorFilter} {model : Model} {id : DeclId} {d : Declaration} {info : TypeInfo}

/-- The accessors among the members of a type. -/
def accessorsAt (filter : AccessorFilter) (model : Model) (id : DeclId) : List Accessor :=
  (model.members id).filterMap fun e => accessor? filter model e.1 e.2

theorem ofModel_of_none (h : model.get? id = none) :
    ofModel filter model id = .error (.unknownDeclaration id) :=
  bind_eq_error_iff.mpr (.inl (Model.decl_eq_error_iff.mpr ⟨Model.get?_eq_none_iff.mp h, rfl⟩))

theorem ofModel_of_no_type (h : model.get? id = some d) (ht : d.type? = none) :
    ofModel filter model id = .error (.wrongKind "namespace assembly" .type id) := by
  refine bind_eq_error_iff.mpr (.inr ⟨d, Model.decl_eq_ok_iff.mpr h, ?_⟩)
  rw [ht]

theorem ofModel_of_kind (h : model.get? id = some d) (hk : d.kind = .type info) :
    ofModel filter model id = .ok
      { declaration := id
        qualifiedName := info.qualifiedName
        shape :=
          if info.category = .enumType then
            enumeration filter.binding ((model.members id).map (·.2))
          else .complex (accessorsAt filter model id) } := by
  refine bind_eq_ok_iff.mpr ⟨d, Model.decl_eq_ok_iff.mpr h, ?_⟩
  rw [Declaration.type?_eq_some_iff.mpr hk]
  rfl

/-- Only a type has a data type, under its own position. -/
theorem exists_kind_of_ofModel {t : DataType} (h : ofModel filter model id = .ok t) :
    ∃ d info, model.get? id = some d ∧ d.kind = .type info ∧ t.declaration = id ∧
      ∀ accessors, t.shape = .complex accessors → accessors = accessorsAt filter model id := by
  cases hd : model.get? id with
  | none =>
    rw [ofModel_of_none hd] at h
    cases h
  | some d =>
    cases hi : d.type? with
    | none =>
      rw [ofModel_of_no_type hd hi] at h
      cases h
    | some info =>
      have hk : d.kind = .type info := Declaration.type?_eq_some_iff.mp hi
      rw [ofModel_of_kind hd hk] at h
      obtain rfl := Except.ok.inj h
      refine ⟨d, info, rfl, hk, rfl, fun accessors hshape => ?_⟩
      by_cases hc : info.category = .enumType
      · simp only [hc, if_true, enumeration, reduceCtorEq] at hshape
      · simpa [hc, eq_comm] using hshape

theorem accessor?_eq_some_iff {a : Accessor} :
    accessor? filter model id d = some a ↔ filter.accepts model d = true ∧
      ∃ kind, accessorKind? d = some kind ∧
        a = ⟨schemaName filter.binding d "name", id, d.declaredType, kind⟩ := by
  unfold accessor?
  cases filter.accepts model d with
  | true => simp only [if_true, Option.map_eq_some_iff, true_and, @eq_comm _ a]
  | false => simp

/-- Whether a member may hold a value: fields, properties and methods do. -/
def holdsValue (member : Declaration) : Bool :=
  match member.kind with
  | .field _ | .property _ _ | .method _ => true
  | .type _ | .parameter => false

theorem isSome_accessorKind? (member : Declaration) :
    (accessorKind? member).isSome = holdsValue member := by
  unfold accessorKind? holdsValue
  cases member.kind <;> rfl

/-- The declarations behind the accessors of a type are its accepted members that may hold a value. -/
theorem map_declaration_accessorsAt (filter : AccessorFilter) (model : Model) (id : DeclId) :
    (accessorsAt filter model id).map (·.declaration) =
      ((model.members id).filter fun e => filter.accepts model e.2 && holdsValue e.2).map (·.1) := by
  rw [accessorsAt, List.map_filterMap, ← List.filterMap_eq_map, List.filterMap_filter]
  refine List.filterMap_congr fun e _ => ?_
  unfold accessor?
  rw [← isSome_accessorKind?]
  cases filter.accepts model e.2 with
  | false => rfl
  | true => cases accessorKind? e.2 <;> rfl

/-- The accessors of a type stand in the order of its members. -/
theorem map_declaration_accessorsAt_sublist (h : model.get? id = some d) (hk : d.kind = .type info)
    (filter : AccessorFilter) :
    ((accessorsAt filter model id).map (·.declaration)).Sublist info.members := by
  obtain ⟨hmembers, -⟩ := Model.members_eq h hk
  rw [map_declaration_accessorsAt, ← hmembers]
  exact List.filter_sublist.map _

end DataType

end ApiDescription
