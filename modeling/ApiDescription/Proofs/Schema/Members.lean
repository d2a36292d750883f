import ApiDescription.Proofs.Schema.DataTypes
import ApiDescription.Proofs.Schema.Names

/-!
# The members that a data type lists

A data type is described by the members of its type alone: which of them are listed, and what is written
down of each. An enumeration lists constants by name, but one that is marked for unrecognized values is
kept apart, and the last of these is the one that counts. Any other type lists the accepted members that
may hold a value.

Results:
* `forall₂_members`: what a selection makes of the members of a type, by their positions.
* `lists_shape`: a data type lists the right members.
* `Lists.unique`: nothing else does.
* `ofModel_lists`: the data type of a type is the one that lists the right members.
-/

namespace ApiDescription

namespace DataType

variable {filter : AccessorFilter} {binding : BindingTags} {model : Model} {id : DeclId}
  {d : Declaration} {info : TypeInfo} {shape other : Shape} {t : DataType}

/-- Whether the declaration at a position is there and kept. -/
def keeps (model : Model) (keep : Declaration → Bool) (id : DeclId) : Bool :=
  (model.get? id).any keep

/-- Whether a member is listed by a type that is no enumeration. -/
def isListed (filter : AccessorFilter) (model : Model) (member : Declaration) : Bool :=
  filter.accepts model member && holdsValue member

/-- Whether a member is a constant of an enumeration that stands for a value of its own. -/
def isValue (binding : BindingTags) (member : Declaration) : Bool :=
  member.isEnumConstant && !member.tags.contains binding.unknownEnumValue

/-- Whether a member is a constant of an enumeration that stands for unrecognized values. -/
def isUnknownValue (binding : BindingTags) (member : Declaration) : Bool :=
  member.isEnumConstant && member.tags.contains binding.unknownEnumValue

/-- An accessor shows the member at a position. -/
structure IsAccessorOf (binding : BindingTags) (id : DeclId) (member : Declaration) (a : Accessor) :
    Prop where
  declaration : a.declaration = id
  type : a.type = member.declaredType
  kind : a.kind = .field ↔ ∃ enumConstant, member.kind = .field enumConstant
  name : IsNamed binding member "name" a.name

/-- What is written down of the member at a position. -/
def Writes {α : Type} (model : Model) (R : DeclId → Declaration → α → Prop) (id : DeclId) (a : α) :
    Prop :=
  ∃ member, model.get? id = some member ∧ R id member a

/-- A shape lists the right members of a type. -/
inductive Lists (filter : AccessorFilter) (model : Model) (info : TypeInfo) : Shape → Prop
  | complex {accessors : List Accessor} (hcategory : info.category ≠ .enumType)
      (haccessors : List.Forall₂ (Writes model (IsAccessorOf filter.binding))
        (info.members.filter (keeps model (isListed filter model))) accessors) :
      Lists filter model info (.complex accessors)
  | enumeration {values : List String} {unknownValue : Option String}
      (hcategory : info.category = .enumType)
      (hvalues : List.Forall₂ (Writes model fun _ member => IsNamed filter.binding member "value")
        (info.members.filter (keeps model (isValue filter.binding))) values)
      (hunknown : Option.Rel (Writes model fun _ member => IsNamed filter.binding member "value")
        (info.members.filter (keeps model (isUnknownValue filter.binding))).getLast? unknownValue) :
      Lists filter model info (.enumeration values unknownValue)

/-! ## Selections from the members -/

/-- A selection from the members of a type goes through their positions, and reads what stands there. -/
theorem forall₂_members {α : Type} (f : DeclId → Declaration → Option α) {keep : Declaration → Bool}
    {R : DeclId → Declaration → α → Prop} (h : model.get? id = some d) (hk : d.kind = .type info)
    (hkeep : ∀ i member, keep member = (f i member).isSome)
    (hR : ∀ i member a, f i member = some a → R i member a) :
    List.Forall₂ (Writes model R) (info.members.filter (keeps model keep))
      ((model.members id).filterMap fun e => f e.1 e.2) := by
  rw [Model.filterMap_members f h hk]
  refine forall₂_filter_filterMap (fun i => ?_) (fun i a hfound => ?_) _
  · rw [keeps]
    cases model.get? i with
    | none => rfl
    | some member => exact hkeep i member
  · obtain ⟨member, hget, hmember⟩ := Option.bind_eq_some_iff.mp hfound
    exact ⟨member, hget, hR i member a hmember⟩

theorem isAccessorOf_of_accessor? {a : Accessor} (h : accessor? filter model id d = some a) :
    IsAccessorOf filter.binding id d a := by
  obtain ⟨-, kind, hkind, rfl⟩ := accessor?_eq_some_iff.mp h
  refine ⟨rfl, rfl, ?_, schemaName_eq_iff.mp rfl⟩
  unfold accessorKind? at hkind
  cases hd : d.kind <;> rw [hd] at hkind <;> cases hkind <;> simp

theorem isListed_eq_isSome_accessor? :
    isListed filter model d = (accessor? filter model id d).isSome := by
  rw [isListed, accessor?, ← isSome_accessorKind?]
  cases filter.accepts model d <;> simp

/-- The name of a constant of one sort. -/
def constantName? (binding : BindingTags) (keep : Declaration → Bool) (member : Declaration) :
    Option String :=
  (Option.guard keep member).map (schemaName binding · "value")

theorem map_schemaName_filter (binding : BindingTags) (keep : Declaration → Bool)
    (members : List (DeclId × Declaration)) :
    ((members.map (·.2)).filter keep).map (schemaName binding · "value") =
      members.filterMap fun e => constantName? binding keep e.2 := by
  rw [← @List.filterMap_eq_filter _ keep, List.filterMap_map, List.map_filterMap]
  rfl

/-- The names of the constants of one sort go through the members of a type. -/
theorem forall₂_constants (h : model.get? id = some d) (hk : d.kind = .type info)
    (binding : BindingTags) (keep : Declaration → Bool) :
    List.Forall₂ (Writes model fun _ member => IsNamed binding member "value")
      (info.members.filter (keeps model keep))
      ((((model.members id).map (·.2)).filter keep).map (schemaName binding · "value")) := by
  rw [map_schemaName_filter]
  refine forall₂_members (fun _ => constantName? binding keep) h hk (fun _ member => ?_)
    fun _ member name hname => ?_
  · rw [constantName?, Option.isSome_map, Option.isSome_guard]
  · obtain ⟨kept, hkept, rfl⟩ := Option.map_eq_some_iff.mp hname
    obtain ⟨rfl, -⟩ := Option.guard_eq_some_iff.mp hkept
    exact schemaName_eq_iff.mp rfl

/-! ## The right members -/

theorem enumeration_eq (binding : BindingTags) (members : List Declaration) :
    enumeration binding members = .enumeration
      ((members.filter (isValue binding)).map (schemaName binding · "value"))
      ((members.filter (isUnknownValue binding)).map (schemaName binding · "value")).getLast? := by
  rw [List.getLast?_map, enumeration, List.partition_eq_filter_filter, List.filter_filter,
    List.filter_filter]
  simp only [Bool.and_comm, Function.comp_apply]
  rfl

/-- **A data type lists the right members of its type.** -/
theorem lists_shape (h : model.get? id = some d) (hk : d.kind = .type info)
    (ht : ofModel filter model id = .ok t) : Lists filter model info t.shape := by
  rw [ofModel_of_kind h hk] at ht
  obtain rfl := Except.ok.inj ht
  by_cases hcategory : info.category = .enumType
  · simp only [hcategory, if_true, enumeration_eq]
    exact .enumeration hcategory (forall₂_constants h hk _ _)
      (rel_getLast? (forall₂_constants h hk _ _))
  · simp only [hcategory, if_false]
    exact .complex hcategory (forall₂_members (accessor? filter model) h hk
      (fun _ _ => isListed_eq_isSome_accessor?) fun _ _ _ => isAccessorOf_of_accessor?)

/-! ## Nothing else -/

theorem IsAccessorOf.unique {a b : Accessor} (ha : IsAccessorOf binding id d a)
    (hb : IsAccessorOf binding id d b) : a = b := by
  have hkind : a.kind = b.kind := by
    have hiff := ha.kind.trans hb.kind.symm
    cases hka : a.kind <;> cases hkb : b.kind <;> simp [hka, hkb] at hiff ⊢
  cases a
  cases b
  exact (Accessor.mk.injEq ..).mpr ⟨ha.name.unique hb.name,
    ha.declaration.trans hb.declaration.symm, ha.type.trans hb.type.symm, hkind⟩

/-- What is written down of a position is unique if that of each member is. -/
theorem rightUnique_writes {α : Type} {R : DeclId → Declaration → α → Prop}
    (h : ∀ i member, ∀ ⦃a b⦄, R i member a → R i member b → a = b) :
    Relator.RightUnique (Writes model R) := by
  rintro i a b ⟨member, hget, ha⟩ ⟨member', hget', hb⟩
  obtain rfl := Option.some.inj (hget.symm.trans hget')
  exact h i member ha hb

theorem Lists.unique (h : Lists filter model info shape) (h' : Lists filter model info other) :
    shape = other := by
  cases h with
  | complex hcategory haccessors =>
    cases h' with
    | enumeration hcategory' _ _ => exact absurd hcategory' hcategory
    | complex _ haccessors' =>
      have hunique : Relator.RightUnique (Writes model (IsAccessorOf filter.binding)) :=
        rightUnique_writes fun _ _ _ _ => IsAccessorOf.unique
      rw [List.right_unique_forall₂' hunique haccessors haccessors']
  | enumeration hcategory hvalues hunknown =>
    cases h' with
    | complex hcategory' _ => exact absurd hcategory hcategory'
    | enumeration _ hvalues' hunknown' =>
      have hunique : Relator.RightUnique
          (Writes model fun _ member => IsNamed filter.binding member "value") :=
        rightUnique_writes fun _ _ _ _ => IsNamed.unique
      rw [List.right_unique_forall₂' hunique hvalues hvalues',
        rel_unique hunique hunknown hunknown']

/-- **The data type of a type is the one that lists the right members.** -/
theorem ofModel_lists (h : model.get? id = some d) (hk : d.kind = .type info) :
    (∃ t, ofModel filter model id = .ok t) ∧
    ∀ t, ofModel filter model id = .ok t ↔
      t.declaration = id ∧ t.qualifiedName = info.qualifiedName ∧
        Lists filter model info t.shape := by
  refine ⟨⟨_, ofModel_of_kind h hk⟩, fun t => ⟨fun ht => ?_, ?_⟩⟩
  · refine ⟨?_, ?_, lists_shape h hk ht⟩ <;>
    · rw [ofModel_of_kind h hk] at ht
      obtain rfl := Except.ok.inj ht
      rfl
  · rintro ⟨hid, hname, hlists⟩
    have hshape := hlists.unique (lists_shape h hk (ofModel_of_kind h hk))
    rw [ofModel_of_kind h hk]
    cases t
    exact congrArg _ ((DataType.mk.injEq ..).mpr ⟨hid.symm, hname.symm, hshape.symm⟩)

/-- An enumeration of colors. -/
def colorInfo : TypeInfo where
  qualifiedName := "shop.Color"
  category := .enumType
  members := [1, 2, 3, 4]

/-- The members of the enumeration are a color that its second tag gives a name, two constants for
unrecognized colors and a field that is no constant. -/
def colorModel : Model where
  decls :=
    let type := TypeRef.named "shop.Color"
    let named := fun name => (∅ : Tag).set "value" (.str name)
    [{ Declaration.ofType "shop.Color" with kind := .type colorInfo },
      ((Declaration.ofEnumConstant "RED" type).withTag "javax.xml.bind.annotation.XmlEnumValue"
        (named "##default")).withTag "javax.xml.bind.annotation.XmlEnumValue" (named "red"),
      (Declaration.ofEnumConstant "OTHER" type).withTag "apisurface.qname.XmlUnknownQNameEnumValue" ∅,
      .ofField "label" (.named "java.lang.String"),
      (Declaration.ofEnumConstant "NONE" type).withTag "apisurface.qname.XmlUnknownQNameEnumValue" ∅]
  consistent := fault?_eq_none_iff.mp (by decide +kernel)

theorem colorModel_lists :
    ofModel ⟨.tagged, {}⟩ colorModel 0 =
        .ok ⟨0, "shop.Color", .enumeration ["red"] (some "NONE")⟩ ∧
      Lists ⟨.tagged, {}⟩ colorModel colorInfo (.enumeration ["red"] (some "NONE")) := by
  have hcolors : ofModel ⟨.tagged, {}⟩ colorModel 0 =
      .ok ⟨0, "shop.Color", .enumeration ["red"] (some "NONE")⟩ := rfl
  exact ⟨hcolors, (((ofModel_lists rfl rfl).2 _).mp hcolors).2.2⟩

end DataType

end ApiDescription
