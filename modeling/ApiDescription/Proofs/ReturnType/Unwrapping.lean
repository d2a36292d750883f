import ApiDescription.Proofs.Model.Inheritance
import ApiDescription.Proofs.ReturnType.Hints

/-!
# What is transported when nothing is hinted

Without a hint the return type is unwrapped. A type that inherits from a wrapper gives way to its only
argument, asynchronous wrappers first and then response envelopes; where there is no body nothing is
known. A documented wrapped type of the model takes the place of all this. Then the variables in force
are filled in, and only what comes out tells whether there is a value at all.

Results:
* `peel_eq_iff`: what is left of a type behind a wrapper.
* `wrappedType?_eq_some_iff`: which documented name counts.
* `unwrapped_eq_iff`: the unwrapped type is the transported one with its variables filled in.
* `representation_unhinted`: the representation is that of the transported type, and nothing is noted.
-/

namespace ApiDescription.ReturnType

variable {model : Model} {types : WellKnownTypes} {wrappers : List String} {r : ReturnType}
  {t u : TypeRef} {doc : Option String}

/-! ## Wrappers -/

/-- The second type is left of the first where wrappers of several names are taken off. -/
inductive Peels (model : Model) (wrappers : List String) : TypeRef → TypeRef → Prop where
  /-- A type that is no wrapper is left as it is. -/
  | bare {t : TypeRef} (h : ∀ q ∈ wrappers, ¬ model.Inherits t q) : Peels model wrappers t t
  /-- Of a wrapper with one argument the argument is left. -/
  | only {name : String} {arg : TypeRef} (h : ∃ q ∈ wrappers, model.Inherits (.declared name [arg]) q) :
      Peels model wrappers (.declared name [arg]) arg
  /-- Of any other wrapper nothing is known. -/
  | ambiguous {name : String} {args : List TypeRef}
      (h : ∃ q ∈ wrappers, model.Inherits (.declared name args) q) (hargs : args.length ≠ 1) :
      Peels model wrappers (.declared name args) .unknown

theorem peels_peel (model : Model) (wrappers : List String) (t : TypeRef) :
    Peels model wrappers t (peel model wrappers t) := by
  unfold peel
  split
  · next hwrapper =>
    obtain ⟨_, -, name, args, rfl, -⟩ := Model.isInstanceOfAny_iff.mp hwrapper
    have hany := Model.isInstanceOfAny_iff.mp hwrapper
    split
    · next only hargs =>
      obtain rfl : args = [only] := hargs
      exact .only hany
    · next hargs =>
      refine .ambiguous hany fun hlength => ?_
      obtain ⟨only, rfl⟩ := List.length_eq_one_iff.mp hlength
      exact hargs only rfl
  · next hbare =>
    exact .bare fun q hq hinherits => hbare (Model.isInstanceOfAny_iff.mpr ⟨q, hq, hinherits⟩)

theorem Peels.peel_eq (h : Peels model wrappers t u) : peel model wrappers t = u := by
  unfold peel
  cases h with
  | bare hno =>
    refine if_neg fun hwrapper => ?_
    obtain ⟨q, hq, hinherits⟩ := Model.isInstanceOfAny_iff.mp hwrapper
    exact hno q hq hinherits
  | only hwrapper => exact if_pos (Model.isInstanceOfAny_iff.mpr hwrapper)
  | ambiguous hwrapper hargs =>
    rw [if_pos (Model.isInstanceOfAny_iff.mpr hwrapper)]
    split
    · next only hone =>
      exact absurd (congrArg List.length hone) hargs
    · rfl

/-- **What is left of a type behind a wrapper.** -/
theorem peel_eq_iff : peel model wrappers t = u ↔ Peels model wrappers t u :=
  ⟨fun h => h ▸ peels_peel model wrappers t, Peels.peel_eq⟩

/-! ## The transported type -/

/-- The documented wrapped name, without the blanks around it, is not empty and is that of a type of the
model. -/
def Wraps (model : Model) (r : ReturnType) (d : Declaration) : Prop :=
  ∃ text, r.wrapped = some text ∧ Text.trim text ≠ "" ∧
    d ∈ model.decls ∧ d.typeName? = some (Text.trim text)

/-- The type is transported, with its variables still open. -/
inductive Transports (model : Model) (types : WellKnownTypes) (r : ReturnType) : TypeRef → Prop where
  /-- The documented wrapped type comes before everything else. -/
  | wrapped {d : Declaration} (h : r.Wraps model d) : Transports model types r d.declaredType
  /-- A body is what asynchronous wrappers and response envelopes leave of the declared type. -/
  | body {t u : TypeRef} (hno : ∀ d, ¬ r.Wraps model d) (hbody : r.returnsBody = true)
      (hasync : Peels model types.asyncWrappers r.declared t)
      (henvelope : Peels model types.responseEnvelopes t u) : Transports model types r u
  /-- Where there is no body nothing is known. -/
  | bodiless (hno : ∀ d, ¬ r.Wraps model d) (hbody : r.returnsBody = false) :
      Transports model types r .unknown

theorem wrappedType?_eq_some_iff :
    wrappedType? model r.wrapped = some t ↔ ∃ d, r.Wraps model d ∧ d.declaredType = t := by
  unfold Wraps
  cases r.wrapped with
  | none => simp [wrappedType?]
  | some text =>
    by_cases hempty : Text.trim text = ""
    · simp [wrappedType?, hempty]
    · have hwrapped : wrappedType? model (some text) =
          (model.findType? (Text.trim text)).map (·.2.declaredType) := if_neg hempty
      rw [hwrapped, Option.map_eq_some_iff]
      constructor
      · rintro ⟨⟨id, d⟩, hfind, rfl⟩
        obtain ⟨hd, hname⟩ := Model.exists_findType?_iff.mp ⟨id, hfind⟩
        exact ⟨d, ⟨text, rfl, hempty, hd, hname⟩, rfl⟩
      · rintro ⟨d, ⟨_, htext, -, hd, hname⟩, rfl⟩
        obtain rfl := Option.some.inj htext
        obtain ⟨id, hfind⟩ := Model.exists_findType?_iff.mpr ⟨hd, hname⟩
        exact ⟨(id, d), hfind, rfl⟩

theorem wrappedType?_eq_none_iff :
    wrappedType? model r.wrapped = none ↔ ∀ d, ¬ r.Wraps model d := by
  rw [Option.eq_none_iff_forall_ne_some]
  simp only [ne_eq, wrappedType?_eq_some_iff, not_exists, not_and]
  exact ⟨fun h d hd => h _ d hd rfl, fun h _ d hd => absurd hd (h d)⟩

/-- The unwrapped type is the transported one with its variables filled in. -/
theorem unwrapped_eq_iff :
    r.unwrapped model types = u ↔ ∃ t, r.Transports model types t ∧ r.context.resolve t = u := by
  unfold unwrapped
  constructor
  · rintro rfl
    refine ⟨_, ?_, rfl⟩
    cases hwrapped : wrappedType? model r.wrapped with
    | some t =>
      obtain ⟨d, hwraps, rfl⟩ := wrappedType?_eq_some_iff.mp hwrapped
      exact .wrapped hwraps
    | none =>
      have hno := wrappedType?_eq_none_iff.mp hwrapped
      cases hbody : r.returnsBody with
      | true => exact .body hno hbody (peel_eq_iff.mp rfl) (peel_eq_iff.mp rfl)
      | false => exact .bodiless hno hbody
  · rintro ⟨t, htransports, rfl⟩
    cases htransports with
    | wrapped hwraps =>
      rw [wrappedType?_eq_some_iff.mpr ⟨_, hwraps, rfl⟩]
      rfl
    | body hno hbody hasync henvelope =>
      rw [wrappedType?_eq_none_iff.mpr hno, if_pos hbody, peel_eq_iff.mpr hasync,
        peel_eq_iff.mpr henvelope]
      rfl
    | bodiless hno hbody =>
      rw [wrappedType?_eq_none_iff.mpr hno, hbody]
      rfl

/-! ## The representation -/

/-- A type is the type of no value, or a declared type of one of the names for it. -/
def IsVoid (types : WellKnownTypes) (t : TypeRef) : Prop :=
  t = .void ∨ ∃ name args, t = .declared name args ∧ name ∈ types.voidTypes

/-- The values of a type are represented so. -/
inductive Represents (types : WellKnownTypes) (doc : Option String) :
    TypeRef → Representation → Prop where
  | void {t : TypeRef} (h : IsVoid types t) : Represents types doc t .void
  | body {t : TypeRef} (h : ¬ IsVoid types t) : Represents types doc t (.body t doc)

theorem denotesVoid_iff : denotesVoid types t = true ↔ IsVoid types t := by
  cases t <;> simp [denotesVoid, IsVoid, TypeRef.isVoid, TypeRef.qualifiedName?]

theorem represent_eq_iff {answer : Representation} :
    represent types doc t = answer ↔ Represents types doc t answer := by
  unfold represent
  constructor
  · rintro rfl
    split
    · next hvoid => exact .void (denotesVoid_iff.mp hvoid)
    · next hbody => exact .body fun hvoid => hbody (denotesVoid_iff.mpr hvoid)
  · rintro (hvoid | hbody)
    · exact if_pos (denotesVoid_iff.mpr hvoid)
    · exact if_neg fun hvoid => hbody (denotesVoid_iff.mp hvoid)

/-- What a return type without a hint depends on. -/
theorem representation_eq_of_unwrapped {r' : ReturnType} (hhint : r.hintInForce model types = .absent)
    (hhint' : r'.hint = r.hint) (hdoc : r'.doc = r.doc)
    (hunwrapped : r'.unwrapped model types = r.unwrapped model types) :
    r'.representation model types = r.representation model types := by
  have habsent : r'.hintInForce model types = .absent := by rwa [hintInForce, hhint']
  rw [representation_of_absent hhint, representation_of_absent habsent, hdoc, hunwrapped]

/-- **Without a hint the representation is that of the transported type.** A handler without an
effective hint answers with nothing if the transported type, with the variables in force filled in, is
one of no value, and otherwise with a body of that type and the documentation; nothing is noted. Where
there is no body, or a wrapped type of the model is documented, the declared type has no say. -/
theorem representation_unhinted (hhint : ∀ tag, r.hint = some tag → ¬ tag.GivesHint types) :
    (∀ answer notes, r.representation model types = (answer, notes) ↔
      notes = [] ∧ ∃ t, r.Transports model types t ∧
        Represents types r.doc (r.context.resolve t) answer) ∧
    ∀ declared, (r.returnsBody = false ∨ ∃ d, r.Wraps model d) →
      { r with declared }.representation model types = r.representation model types := by
  have habsent : r.hintInForce model types = .absent := hintInForce_eq_absent_iff.mpr hhint
  constructor
  · intro answer notes
    rw [representation_of_absent habsent, Prod.mk.injEq, represent_eq_iff]
    constructor
    · rintro ⟨hrepresents, rfl⟩
      obtain ⟨t, htransports, hunwrapped⟩ := unwrapped_eq_iff.mp (rfl : r.unwrapped model types = _)
      exact ⟨rfl, t, htransports, hunwrapped ▸ hrepresents⟩
    · rintro ⟨rfl, t, htransports, hrepresents⟩
      rw [unwrapped_eq_iff.mpr ⟨t, htransports, rfl⟩]
      exact ⟨hrepresents, rfl⟩
  · intro declared hirrelevant
    refine representation_eq_of_unwrapped habsent rfl rfl ?_
    unfold unwrapped
    rcases hirrelevant with hbody | ⟨d, hwraps⟩
    · simp [hbody]
    · simp [wrappedType?_eq_some_iff.mpr ⟨d, hwraps, rfl⟩]

/-- A wrapper of its own beside a page. -/
def laterModel : Model where
  decls :=
    [(Declaration.ofType "shop.Later").mapType fun info => { info with
        supertypes := [.declared "java.util.concurrent.Callable" [.var "V"]] },
      .ofType "shop.Page"]
  consistent := fault?_eq_none_iff.mp (by decide +kernel)

/-- A wrapped envelope of nothing. The hint gives no type, and the documented wrapped type is not in the
model. -/
def laterReturn : ReturnType where
  owner := "method later"
  declared := .declared "shop.Later" [.declared "org.springframework.http.ResponseEntity" [.var "T"]]
  hint := some (((∅ : Tag).set "value" (.type (.named "apisurface.rs.TypeHint.NONE"))).set
    "qualifiedName" (.str ""))
  returnsBody := true
  wrapped := some " shop.Missing "
  context := (∅ : TypeContext).bind "T" (.named "java.lang.Void")
  doc := some "nothing, later"

theorem laterReturn_unhinted :
    ∀ tag, laterReturn.hint = some tag → ¬ tag.GivesHint {} := by
  intro tag htag
  obtain rfl := Option.some.inj htag
  rintro (⟨type, htype, hne⟩ | ⟨name, hname, hne⟩)
  · obtain rfl := Option.some.inj htype
    exact hne rfl
  · obtain rfl := Option.some.inj hname
    exact hne rfl

theorem laterReturn_wraps_nothing (d : Declaration) : ¬ laterReturn.Wraps laterModel d := by
  have hnone : wrappedType? laterModel laterReturn.wrapped = none :=
    Option.isNone_iff_eq_none.mp (by decide +kernel)
  exact wrappedType?_eq_none_iff.mp hnone d

theorem laterReturn_representation :
    (∀ tag, laterReturn.hint = some tag → ¬ tag.GivesHint {}) ∧
      laterReturn.representation laterModel {} = (.void, []) := by
  refine ⟨laterReturn_unhinted, ((representation_unhinted laterReturn_unhinted).1 _ _).mpr
    ⟨rfl, .var "T", ?_, .void ?_⟩⟩
  · -- the type inherits from the asynchronous wrapper, and what it wraps is an envelope itself
    have hlater : laterModel.Inherits laterReturn.declared "java.util.concurrent.Callable" :=
      ⟨_, _, rfl, .single ⟨_, List.mem_cons_self, _, rfl, rfl, _, List.mem_cons_self⟩⟩
    refine .body laterReturn_wraps_nothing rfl (.only ⟨_, ?_, hlater⟩) (.only ⟨_, ?_, _, _, rfl, .refl⟩)
    · decide
    · decide
  · refine .inr ⟨"java.lang.Void", [], ?_, List.mem_cons_self⟩
    rw [TypeContext.resolve_var]
    simp [laterReturn, TypeContext.lookup?_bind, TypeRef.named, TypeContext.resolve_declared]

end ApiDescription.ReturnType
