import ApiDescription.Proofs.Model.Lookup
import ApiDescription.Proofs.Reachability

/-!
# Inheritance

The names of a program form a graph: the name of a type leads to those of its declared supertypes. The
graph may have cycles, and a name without a type in the model leads nowhere. A declared type is an
instance of every name that its own name leads to.

The search for a name forgets the supertypes of each type it has passed, which is what makes it end. It
misses nothing by that: a path needs the supertypes of a type only where it leaves the type for the last
time.

Results:
* `Subtyping.reaches_iff`: the search finds a name iff it is reached from a pending one.
* `Model.isInstanceOf_iff`: a type is an instance of a name iff its own name leads to it.
* `Model.extends_eq_of_alike`: the order and the arguments of supertypes do not change what leads where.
* `Model.isInstanceOf_decides`: instances are decided by what leads where, and by nothing else.
-/

namespace ApiDescription

open Relation

/-! ## The search -/

namespace Subtyping

variable {table : NameMap (List String)} {name super target : String} {names pending : List String}

/-- The table lists a name among the supertypes of another. -/
def Lists (table : NameMap (List String)) (name super : String) : Prop :=
  ∃ names, table[name]? = some names ∧ super ∈ names

theorem lists_of_getElem? (h : table[name]? = some names) : Lists table name super ↔ super ∈ names := by
  simp [Lists, h]

theorem lists_erase (table : NameMap (List String)) (name : String) :
    Lists (table.erase name) = Avoiding (Lists table) name := by
  funext a b
  rw [Avoiding, Lists, Lists, Std.ExtTreeMap.getElem?_erase]
  by_cases h : name = a
  · simp [h]
  · simp [h, Ne.symm h]

/-- Where a name is passed by, its supertypes take its place among the pending names. -/
theorem exists_reaches_cons_iff (hname : name ≠ target) (h : table[name]? = some names) :
    (∃ n ∈ name :: pending, ReflTransGen (Lists table) n target) ↔
      ∃ n ∈ names ++ pending, ReflTransGen (Lists (table.erase name)) n target := by
  rw [lists_erase]
  constructor
  · rintro ⟨n, hn, hpath⟩
    have hlast : (∃ z, Lists table name z ∧ ReflTransGen (Avoiding (Lists table) name) z target) ∨
        n ∈ pending ∧ ReflTransGen (Avoiding (Lists table) name) n target := by
      rcases List.mem_cons.mp hn with rfl | hrest
      · exact .inl (exists_last_step hpath hname)
      · rcases reaches_avoiding_or hpath name with havoid | ⟨-, hlast⟩
        · exact .inr ⟨hrest, havoid⟩
        · exact .inl hlast
    rcases hlast with ⟨z, hz, hpath⟩ | ⟨hrest, hpath⟩
    · exact ⟨z, List.mem_append_left _ ((lists_of_getElem? h).mp hz), hpath⟩
    · exact ⟨n, List.mem_append_right _ hrest, hpath⟩
  · rintro ⟨n, hn, hpath⟩
    rcases List.mem_append.mp hn with hsuper | hrest
    · exact ⟨name, List.mem_cons_self, .head ⟨names, h, hsuper⟩ (reaches_of_avoiding hpath)⟩
    · exact ⟨n, List.mem_cons_of_mem _ hrest, reaches_of_avoiding hpath⟩

/-- **The search finds a name iff it is reached from a pending one.** -/
theorem reaches_iff (table : NameMap (List String)) (target : String) (pending : List String) :
    reaches table target pending = true ↔ ∃ n ∈ pending, ReflTransGen (Lists table) n target := by
  induction table, pending using reaches.induct target with
  | case1 table => simp [reaches_nil]
  | case2 table rest =>
    rw [reaches_cons, if_pos rfl]
    exact iff_of_true rfl ⟨target, List.mem_cons_self, .refl⟩
  | case3 table name rest hname names h ih =>
    rw [reaches_cons, if_neg hname, exists_reaches_cons_iff hname h]
    simpa [h] using ih
  | case4 table name rest hname h ih =>
    have hleaf : ¬ ReflTransGen (Lists table) name target := fun hpath => by
      rcases hpath.cases_head with heq | ⟨_, ⟨names, hnames, -⟩, -⟩
      · exact hname heq
      · simp [h] at hnames
    rw [reaches_cons, if_neg hname]
    simpa [h, hleaf] using ih

end Subtyping

/-! ## Instances -/

/-- The names of the declared supertypes of a type. -/
def TypeInfo.supertypeNames (info : TypeInfo) : List String :=
  info.supertypes.filterMap TypeRef.qualifiedName?

theorem TypeRef.qualifiedName?_eq_some_iff {t : TypeRef} {name : String} :
    t.qualifiedName? = some name ↔ ∃ args, t = .declared name args := by
  cases t <;> simp [qualifiedName?]

theorem TypeInfo.mem_supertypeNames_iff {info : TypeInfo} {super : String} :
    super ∈ info.supertypeNames ↔ ∃ args, TypeRef.declared super args ∈ info.supertypes := by
  simp only [supertypeNames, List.mem_filterMap, TypeRef.qualifiedName?_eq_some_iff]
  constructor
  · rintro ⟨t, ht, args, rfl⟩
    exact ⟨args, ht⟩
  · rintro ⟨args, ht⟩
    exact ⟨_, ht, args, rfl⟩

namespace Declaration

/-- The declaration is a type of one name that declares a supertype of another. -/
def Extends (d : Declaration) (name super : String) : Prop :=
  ∃ info, d.type? = some info ∧ info.qualifiedName = name ∧
    ∃ args, TypeRef.declared super args ∈ info.supertypes

/-- Two declarations are types of one name that name the same supertypes, in whatever order and with
whatever type arguments, or neither is a type. -/
def ExtendsAlike (d d' : Declaration) : Prop :=
  Option.Rel (fun info info' => info.qualifiedName = info'.qualifiedName ∧
    info.supertypeNames.Perm info'.supertypeNames) d.type? d'.type?

theorem ExtendsAlike.extends_iff {d d' : Declaration} (h : d.ExtendsAlike d') {name super : String} :
    d.Extends name super ↔ d'.Extends name super := by
  unfold ExtendsAlike at h
  simp only [Extends, ← TypeInfo.mem_supertypeNames_iff]
  cases hd : d.type? with
  | none =>
    cases hd' : d'.type? with
    | none => simp
    | some info' => simp [hd, hd'] at h
  | some info =>
    cases hd' : d'.type? with
    | none => simp [hd, hd'] at h
    | some info' =>
      rw [hd, hd', Option.rel_some_some] at h
      simp [h.1, h.2.mem_iff]

end Declaration

namespace Model

variable {model model' : Model} {q : String} {t : TypeRef}

/-- The model has a type of one name that declares a supertype of another. -/
def Extends (model : Model) (name super : String) : Prop :=
  ∃ d ∈ model.decls, d.Extends name super

/-- The type is a declared one whose own name is `q` or leads to it from supertype to supertype. -/
def Inherits (model : Model) (t : TypeRef) (q : String) : Prop :=
  ∃ name args, t = .declared name args ∧ ReflTransGen model.Extends name q

theorem lists_supertypeNames (model : Model) :
    Subtyping.Lists model.supertypeNames = model.Extends := by
  funext name super
  rw [eq_iff_iff, Subtyping.Lists, Extends]
  simp only [Declaration.Extends, getElem?_supertypeNames, Option.bind_eq_some_iff,
    Option.map_eq_some_iff, Prod.exists, findType?_eq_some_iff, namedSupertypes?, Prod.mk.injEq]
  constructor
  · rintro ⟨_, ⟨id, d, ⟨hget, hname⟩, _, _, ⟨info, hinfo, rfl, rfl⟩, rfl⟩, hsuper⟩
    refine ⟨d, List.mem_of_getElem? hget, info, hinfo, ?_, TypeInfo.mem_supertypeNames_iff.mp hsuper⟩
    simpa [Declaration.typeName?, hinfo] using hname
  · rintro ⟨d, hd, info, hinfo, rfl, hsuper⟩
    obtain ⟨id, hget⟩ := List.mem_iff_getElem?.mp hd
    have hname : d.typeName? = some info.qualifiedName := by simp [Declaration.typeName?, hinfo]
    exact ⟨_, ⟨id, d, ⟨hget, hname⟩, _, _, ⟨info, hinfo, rfl, rfl⟩, rfl⟩,
      TypeInfo.mem_supertypeNames_iff.mpr hsuper⟩

/-- A type is an instance of a name iff it inherits from it. -/
theorem isInstanceOf_iff : model.isInstanceOf t q = true ↔ model.Inherits t q := by
  unfold isInstanceOf Inherits
  cases t with
  | declared name args =>
    simp only [TypeRef.qualifiedName?, Subtyping.reaches_iff, lists_supertypeNames,
      List.mem_singleton, exists_eq_left, TypeRef.declared.injEq]
    exact ⟨fun hpath => ⟨name, args, ⟨rfl, rfl⟩, hpath⟩,
      fun ⟨_, _, ⟨hname, _⟩, hpath⟩ => hname ▸ hpath⟩
  | void | primitive _ | array _ | var _ | unknown => simp [TypeRef.qualifiedName?]

theorem isInstanceOfAny_iff {qs : List String} :
    model.isInstanceOfAny t qs = true ↔ ∃ q ∈ qs, model.Inherits t q := by
  simp only [isInstanceOfAny, List.any_eq_true, isInstanceOf_iff]

theorem extends_eq_of_alike (h : List.Forall₂ Declaration.ExtendsAlike model.decls model'.decls) :
    model.Extends = model'.Extends := by
  funext name super
  rw [eq_iff_iff, Extends, Extends]
  generalize model.decls = decls at h
  generalize model'.decls = decls' at h
  induction h with
  | nil => simp
  | cons halike _ ih => simp only [List.exists_mem_cons_iff, halike.extends_iff, ih]

/-- **Instances are decided by inheritance.** A type is an instance of a name iff it is a declared type
whose own name is that name or leads to it from supertype to supertype. Neither type arguments nor the
order of supertypes have a say, in the type itself or on the way. -/
theorem isInstanceOf_decides (model : Model) (t : TypeRef) (q : String) :
    (model.isInstanceOf t q = true ↔
      ∃ name args, t = .declared name args ∧ ReflTransGen model.Extends name q) ∧
    ∀ (model' : Model) (t' : TypeRef), t'.qualifiedName? = t.qualifiedName? →
      List.Forall₂ Declaration.ExtendsAlike model.decls model'.decls →
        model'.isInstanceOf t' q = model.isInstanceOf t q := by
  refine ⟨isInstanceOf_iff, fun model' t' hname halike => ?_⟩
  have hextends : model'.Extends = model.Extends := (extends_eq_of_alike halike).symm
  rw [Bool.eq_iff_iff]
  simp only [isInstanceOf_iff, Inherits, hextends, ← TypeRef.qualifiedName?_eq_some_iff, hname,
    exists_and_right]

/-- A square inherits from a shape in two ways, and a shape from a square. -/
def shapes : Model where
  decls :=
    [(Declaration.ofType "geo.Square").mapType fun info => { info with
        supertypes := [.declared "geo.Box" [.var "T"], .named "geo.Rhombus"] },
      (Declaration.ofType "geo.Box").mapType fun info => { info with
        supertypes := [.named "geo.Shape", .array .void] },
      (Declaration.ofType "geo.Rhombus").mapType fun info => { info with
        supertypes := [.named "geo.Shape"] },
      (Declaration.ofType "geo.Shape").mapType fun info => { info with
        supertypes := [.named "geo.Square", .declared "lib.Drawable" [.named "geo.Shape"]] }]
  consistent := fault?_eq_none_iff.mp (by decide +kernel)

/-- The shapes with their supertypes rearranged. -/
def rearrangedShapes : Model where
  decls :=
    [(Declaration.ofType "geo.Square").mapType fun info => { info with
        supertypes := [.named "geo.Rhombus", .var "T", .named "geo.Box"] },
      (Declaration.ofType "geo.Box").mapType fun info => { info with
        supertypes := [.declared "geo.Shape" [.unknown]] },
      (Declaration.ofType "geo.Rhombus").mapType fun info => { info with
        supertypes := [.named "geo.Shape"] },
      (Declaration.ofType "geo.Shape").mapType fun info => { info with
        supertypes := [.named "lib.Drawable", .named "geo.Square"] }]
  consistent := fault?_eq_none_iff.mp (by decide +kernel)

theorem shapes_alike : List.Forall₂ Declaration.ExtendsAlike shapes.decls rearrangedShapes.decls :=
  .cons (.some ⟨rfl, .swap _ _ _⟩) <| .cons (.some ⟨rfl, .refl _⟩) <|
    .cons (.some ⟨rfl, .refl _⟩) <| .cons (.some ⟨rfl, .swap _ _ _⟩) .nil

/-- From the square the shape is reached, and from it the interface outside the model. -/
theorem square_leads_to_drawable : ReflTransGen shapes.Extends "geo.Square" "lib.Drawable" :=
  .head ⟨_, List.mem_cons_self, _, rfl, rfl, [.var "T"], List.mem_cons_self⟩ <|
    .head ⟨_, List.mem_cons_of_mem _ List.mem_cons_self, _, rfl, rfl, [], List.mem_cons_self⟩ <|
      .single ⟨_, List.mem_of_getElem? (i := 3) rfl, _, rfl, rfl, [.named "geo.Shape"],
        List.mem_of_getElem? (i := 1) rfl⟩

theorem square_isInstanceOf_drawable :
    shapes.isInstanceOf (.declared "geo.Square" [.void]) "lib.Drawable" = true ∧
      rearrangedShapes.isInstanceOf (.named "geo.Square") "lib.Drawable" = true := by
  obtain ⟨hiff, hrearranged⟩ :=
    isInstanceOf_decides shapes (.declared "geo.Square" [.void]) "lib.Drawable"
  have hshapes : shapes.isInstanceOf (.declared "geo.Square" [.void]) "lib.Drawable" = true :=
    hiff.mpr ⟨_, _, rfl, square_leads_to_drawable⟩
  exact ⟨hshapes, (hrearranged rearrangedShapes _ rfl shapes_alike).trans hshapes⟩

end Model

end ApiDescription
