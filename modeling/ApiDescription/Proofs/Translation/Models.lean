import ApiDescription.Proofs.Schema.DataTypes
import ApiDescription.Proofs.Translation.Basic

/-!
# Translated models

A model and a model that has its translated declarations among its own answer alike. A look-up gives the
translation of what it gives in the original, a name finds the translation of what it finds there, and no
name gains or loses a supertype. So the same members are accessors, and a data type is the same but for
positions.

Results:
* `get?_position`, `members_position`, `findType?_eq`: what looking up gives.
* `isInstanceOf_eq`: subtyping is the same.
* `isSchemaType_decl`, `accepts_decl`: a filter says the same about schema types and accessors.
* `Embeds.ofModel_position`, `Maps.ofModel_position`: a data type, or the error that there is none, is
  the same but for positions.
-/

namespace ApiDescription

namespace Translation

variable {v : Vocabulary} {τ : Translation v}

/-! ## Looking up -/

namespace Embeds

variable {model model' : Model} (h : τ.Embeds model.decls model'.decls)
include h

theorem get?_position {id : DeclId} {d : Declaration} (hd : model.get? id = some d) :
    model'.get? (τ.position id) = some (τ.decl d) :=
  h.getElem? id d hd

/-- A position has the attributes of a type iff it had them before. -/
theorem type?_position (id : DeclId) :
    (model'.get? (τ.position id)).bind Declaration.type? =
      ((model.get? id).bind Declaration.type?).map (·.renumber τ.position) := by
  cases hd : model.get? id with
  | some d => rw [h.get?_position hd, Option.bind_some, Option.bind_some, τ.type?_decl]
  | none =>
    refine Option.eq_none_iff_forall_ne_some.mpr fun info hinfo => ?_
    -- a type at the new position would be the translation of one at the old position
    obtain ⟨d', hd', htype⟩ := Option.bind_eq_some_iff.mp hinfo
    obtain ⟨id₀, d, hget, hid, -⟩ := h.types _ d' hd' (Option.isSome_of_eq_some htype)
    obtain rfl := τ.bijective.injective hid
    cases hd.symm.trans hget

theorem members_position (id : DeclId) :
    model'.members (τ.position id) = (model.members id).map τ.entry := by
  unfold Model.members
  rw [h.type?_position]
  cases htype : (model.get? id).bind Declaration.type? with
  | none => rfl
  | some info =>
    obtain ⟨d, hd, hinfo⟩ := Option.bind_eq_some_iff.mp htype
    simp only [Option.map_some, TypeInfo.renumber, List.filterMap_map, List.map_filterMap]
    refine List.filterMap_congr fun member hmember => ?_
    obtain ⟨m, hm⟩ := Model.exists_member hd (Declaration.type?_eq_some_iff.mp hinfo) hmember
    simp [hm, h.get?_position hm, entry]

/-- A name finds the translation of what it finds in the original. -/
theorem findType?_eq (name : String) :
    model'.findType? name = (model.findType? name).map τ.entry := by
  -- which of several entries a search meets first depends on their order, but a name has one entry
  refine Option.ext fun ⟨id', d'⟩ => ?_
  rw [Model.findType?_eq_some_iff, Option.map_eq_some_iff]
  constructor
  · rintro ⟨hget, hn⟩
    have htype : d'.type?.isSome := Option.isSome_map.symm.trans (Option.isSome_of_eq_some hn)
    obtain ⟨id, d, hd, rfl, rfl⟩ := h.types id' d' hget htype
    rw [τ.typeName?_decl] at hn
    exact ⟨(id, d), Model.findType?_eq_some_iff.mpr ⟨hd, hn⟩, rfl⟩
  · rintro ⟨⟨id, d⟩, hf, he⟩
    obtain ⟨rfl, rfl⟩ := Prod.mk.inj he
    obtain ⟨hget, hn⟩ := Model.findType?_eq_some_iff.mp hf
    exact ⟨h.get?_position hget, (τ.typeName?_decl d).trans hn⟩

theorem declaredType_findType? (name : String) :
    (model'.findType? name).map (·.2.declaredType) =
      (model.findType? name).map (·.2.declaredType) := by
  rw [h.findType?_eq, Option.map_map]
  exact congrArg (Option.map · _) (funext fun e => τ.declaredType_decl e.2)

/-! ## Subtypes -/

theorem supertypeNames_eq : model'.supertypeNames = model.supertypeNames := by
  refine Std.ExtTreeMap.ext_getElem? fun {name} => ?_
  rw [Model.getElem?_supertypeNames, Model.getElem?_supertypeNames, h.findType?_eq]
  cases model.findType? name with
  | none => rfl
  | some e => simp [entry, Model.namedSupertypes?, τ.type?_decl, TypeInfo.renumber, Function.comp_def]

theorem isInstanceOf_eq (type : TypeRef) (name : String) :
    model'.isInstanceOf type name = model.isInstanceOf type name := by
  unfold Model.isInstanceOf
  rw [h.supertypeNames_eq]

theorem isInstanceOfAny_eq (type : TypeRef) (names : List String) :
    model'.isInstanceOfAny type names = model.isInstanceOfAny type names := by
  unfold Model.isInstanceOfAny
  rw [funext (h.isInstanceOf_eq type)]

end Embeds

/-! ## Accessors -/

/-- The accessor methods of a property of the model are public in the translation iff they are. -/
theorem Embeds.hasPublicAccessors_position {model model' : Model}
    (h : τ.Embeds model.decls model'.decls) {id : DeclId} {d : Declaration}
    (hd : model.get? id = some d) {getter setter : Option DeclId}
    (hk : d.kind = .property getter setter) :
    AccessorFilter.hasPublicAccessors model' (getter.map τ.position) (setter.map τ.position) =
      AccessorFilter.hasPublicAccessors model getter setter := by
  have hbind : ∀ method : Option DeclId, (∀ m ∈ method, ∃ a, model.get? m = some a) →
      (method.map τ.position).bind model'.get? = (method.bind model.get?).map τ.decl := by
    intro method hmethod
    cases method with
    | none => rfl
    | some m =>
      obtain ⟨a, ha⟩ := hmethod m rfl
      simp [ha, h.get?_position ha]
  have hgetter : ∀ m ∈ getter, ∃ a, model.get? m = some a := fun m hm =>
    Model.exists_accessorMethod hd hk (List.mem_append_left _ (Option.mem_toList.mpr hm))
  have hsetter : ∀ m ∈ setter, ∃ a, model.get? m = some a := fun m hm =>
    Model.exists_accessorMethod hd hk (List.mem_append_right _ (Option.mem_toList.mpr hm))
  unfold AccessorFilter.hasPublicAccessors
  rw [hbind getter hgetter, hbind setter hsetter]
  cases getter.bind model.get? <;> cases setter.bind model.get? <;> simp [τ.isPublic_decl]

section Accessors

variable {filter : AccessorFilter} (hb : filter.binding = v.binding)
include hb

theorem isTransient_decl (d : Declaration) : filter.isTransient (τ.decl d) = filter.isTransient d := by
  rw [AccessorFilter.isTransient, AccessorFilter.isTransient, hb]
  exact τ.contains_tags d (by simp [Vocabulary.tagNames])

theorem isExplicit_decl (d : Declaration) : filter.isExplicit (τ.decl d) = filter.isExplicit d := by
  rw [AccessorFilter.isExplicit, AccessorFilter.isExplicit, hb]
  exact τ.any_bindingTag d (· ≠ v.binding.transient)

/-- A type of the schema is one in the translation, too. -/
theorem isSchemaType_decl (d : Declaration) :
    SchemaNamespace.isSchemaType filter (τ.decl d) = SchemaNamespace.isSchemaType filter d := by
  have htags : (τ.decl d).tags.names.any v.binding.isBindingTag =
      d.tags.names.any v.binding.isBindingTag := τ.any_bindingTag d fun _ => true
  rw [SchemaNamespace.isSchemaType, SchemaNamespace.isSchemaType, isTransient_decl hb, hb, htags]

/-- The filter keeps the translation of what it keeps. -/
theorem Embeds.accepts_decl {model model' : Model} (h : τ.Embeds model.decls model'.decls)
    {id : DeclId} {d : Declaration} (hd : model.get? id = some d) :
    filter.accepts model' (τ.decl d) = filter.accepts model d := by
  have hpolicy : filter.acceptsByPolicy model' (τ.decl d) = filter.acceptsByPolicy model d := by
    unfold AccessorFilter.acceptsByPolicy
    rw [τ.kind_decl, τ.modifiers_decl, τ.isPublic_decl]
    cases hk : d.kind with
    | property getter setter =>
      simp only [Declaration.Kind.renumber, h.hasPublicAccessors_position hd hk]
    | _ => simp only [Declaration.Kind.renumber]
  rw [AccessorFilter.accepts, AccessorFilter.accepts, isTransient_decl hb, isExplicit_decl hb, hpolicy]

end Accessors

/-! ## Data types -/

theorem schemaName_decl (τ : Translation v) (d : Declaration) (element : String) :
    DataType.schemaName v.binding (τ.decl d) element = DataType.schemaName v.binding d element := by
  have htags : (d.tags.names.filter v.binding.isBindingTag).flatMap (τ.decl d).tags.get =
      (d.tags.names.filter v.binding.isBindingTag).flatMap d.tags.get := by
    rw [List.flatMap_def, List.flatMap_def]
    refine congrArg List.flatten (List.map_congr_left fun name hname => ?_)
    exact τ.get_bindingTag d (List.mem_filter.mp hname).2
  rw [DataType.schemaName, DataType.schemaName, τ.filter_names, htags, τ.name_decl]

theorem enumeration_map (τ : Translation v) (ds : List Declaration) :
    DataType.enumeration v.binding (ds.map τ.decl) = DataType.enumeration v.binding ds := by
  have hconstant : Declaration.isEnumConstant ∘ τ.decl = Declaration.isEnumConstant :=
    funext fun d => Declaration.isEnumConstant_of_kind (τ.kind_decl d)
  have hunknown : (fun d : Declaration => d.tags.contains v.binding.unknownEnumValue) ∘ τ.decl =
      fun d => d.tags.contains v.binding.unknownEnumValue :=
    funext fun d => τ.contains_tags d (by simp [Vocabulary.tagNames])
  have hname : (DataType.schemaName v.binding · "value") ∘ τ.decl =
      (DataType.schemaName v.binding · "value") :=
    funext fun d => schemaName_decl τ d "value"
  unfold DataType.enumeration
  simp only [List.partition_eq_filter_filter, List.filter_map, hconstant, hunknown, List.map_map,
    hname, List.getLast?_map, Option.map_map, Function.comp_assoc]

theorem accessorKind?_decl (τ : Translation v) (d : Declaration) :
    DataType.accessorKind? (τ.decl d) = DataType.accessorKind? d := by
  unfold DataType.accessorKind?
  rw [τ.kind_decl]
  cases d.kind <;> rfl

section Members

variable {filter : AccessorFilter} {model model' : Model}

namespace Embeds

theorem accessor?_position (h : τ.Embeds model.decls model'.decls) (hb : filter.binding = v.binding)
    {id : DeclId} {d : Declaration} (hd : model.get? id = some d) :
    DataType.accessor? filter model' (τ.position id) (τ.decl d) =
      (DataType.accessor? filter model id d).map (·.renumber τ.position) := by
  unfold DataType.accessor?
  rw [h.accepts_decl hb hd, accessorKind?_decl, hb, schemaName_decl, τ.declaredType_decl]
  split
  · rw [Option.map_map]
    rfl
  · rfl

theorem accessorsAt_position (h : τ.Embeds model.decls model'.decls)
    (hb : filter.binding = v.binding) (id : DeclId) :
    DataType.accessorsAt filter model' (τ.position id) =
      (DataType.accessorsAt filter model id).map (·.renumber τ.position) := by
  rw [DataType.accessorsAt, DataType.accessorsAt, h.members_position, List.filterMap_map,
    List.map_filterMap]
  exact List.filterMap_congr fun e he => h.accessor?_position hb (Model.get?_of_mem_members he)

theorem enumeration_members (h : τ.Embeds model.decls model'.decls) (id : DeclId) :
    DataType.enumeration v.binding ((model'.members (τ.position id)).map (·.2)) =
      DataType.enumeration v.binding ((model.members id).map (·.2)) := by
  rw [h.members_position, List.map_map, ← enumeration_map τ ((model.members id).map (·.2)),
    List.map_map]
  rfl

/-- **The data type of a declaration, or the error that it is no type, is the same but for
positions.** -/
theorem ofModel_position (h : τ.Embeds model.decls model'.decls) (hb : filter.binding = v.binding)
    {id : DeclId} {d : Declaration} (hd : model.get? id = some d) :
    DataType.ofModel filter model' (τ.position id) =
      ((DataType.ofModel filter model id).map (·.renumber τ.position)).mapError
        (·.renumber τ.position) := by
  have hget := h.get?_position hd
  have htype := τ.type?_decl d
  cases hi : d.type? with
  | none =>
    rw [hi] at htype
    rw [DataType.ofModel_of_no_type hd hi, DataType.ofModel_of_no_type hget htype]
    rfl
  | some info =>
    rw [hi] at htype
    rw [DataType.ofModel_of_kind hd (Declaration.type?_eq_some_iff.mp hi),
      DataType.ofModel_of_kind hget (Declaration.type?_eq_some_iff.mp htype),
      h.accessorsAt_position hb, hb, h.enumeration_members]
    by_cases hc : info.category = .enumType
    · simp only [TypeInfo.renumber, hc, if_true]
      rfl
    · simp only [TypeInfo.renumber, hc, if_false]
      rfl

end Embeds

/-- A data type, or the error that there is none, is the same but for positions. -/
theorem Maps.ofModel_position (h : τ.Maps model.decls model'.decls) (hb : filter.binding = v.binding)
    (id : DeclId) :
    DataType.ofModel filter model' (τ.position id) =
      ((DataType.ofModel filter model id).map (·.renumber τ.position)).mapError
        (·.renumber τ.position) := by
  cases hd : model.get? id with
  | some d => exact h.embeds.ofModel_position hb hd
  | none =>
    have hget : model'.get? (τ.position id) = none := by
      rw [Model.get?, h.getElem?, Option.map_eq_none_iff]
      exact hd
    rw [DataType.ofModel_of_none hd, DataType.ofModel_of_none hget]
    rfl

end Members

end Translation

end ApiDescription
