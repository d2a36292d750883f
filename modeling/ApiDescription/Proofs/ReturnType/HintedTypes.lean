import ApiDescription.Proofs.ReturnType.Unwrapping

/-!
# What is transported when a type is hinted

A type hint tag gives a type literal, or where it gives none the qualified name of a type. Either way it
may speak of a declared type that the model does not have. A name is looked up: if it is not there,
nothing is known about the value and one note says so. A literal is never looked up: it is transported as
it stands, without a note, in whatever model. Beside a hint nothing else has a say.

Results:
* `hintInForce_of_literal`, `hintInForce_of_found`, `hintInForce_of_missing`: what a hint comes to.
* `representation_eq_of_hint`: beside a hint only the owner and the documentation count.
* `representation_hinted`: hints follow the rule for missing types unless they are literals of one.
-/

namespace ApiDescription

/-- What a type hint tag gives. -/
inductive TypeHint where
  | literal (type : TypeRef)
  | name (qualifiedName : String)

/-- A type hint tag gives this. -/
inductive Tag.Hints (types : WellKnownTypes) (tag : Tag) : TypeHint → Prop where
  | literal {t : TypeRef} (htype : tag.type? "value" = some t)
      (hsome : t.qualifiedName? ≠ some types.typeHintNone) : Hints types tag (.literal t)
  /-- The name counts where there is no type, or only the literal for none. -/
  | name {q : String}
      (hnone : ∀ t, tag.type? "value" = some t → t.qualifiedName? = some types.typeHintNone)
      (hname : tag.str? "qualifiedName" = some q) (hne : q ≠ "") : Hints types tag (.name q)

namespace TypeHint

/-- A hint speaks of the declared type of this name. -/
inductive Names : TypeHint → String → Prop where
  | literal {q : String} {args : List TypeRef} : Names (.literal (.declared q args)) q
  | name {q : String} : Names (.name q) q

/-- A hint speaks of a declared type that the model does not have. -/
def Dangles (model : Model) (hint : TypeHint) : Prop :=
  ∃ q, hint.Names q ∧ ∀ d ∈ model.decls, d.typeName? ≠ some q

/-- A hint is at this type. -/
inductive IsAt (model : Model) : TypeHint → TypeRef → Prop where
  | literal {t : TypeRef} : IsAt model (.literal t) t
  | name {q : String} {d : Declaration} (hd : d ∈ model.decls) (hname : d.typeName? = some q) :
      IsAt model (.name q) d.declaredType

end TypeHint

namespace ReturnType

variable {model : Model} {types : WellKnownTypes} {r : ReturnType} {hint : TypeHint} {t : TypeRef}
  {q : String}

/-- The type of the return value is hinted. -/
def HintedBy (types : WellKnownTypes) (r : ReturnType) (hint : TypeHint) : Prop :=
  ∃ tag, r.hint = some tag ∧ tag.Hints types hint

/-! ## What a hint comes to -/

theorem hintInForce_of_literal (h : r.HintedBy types (.literal t)) :
    r.hintInForce model types = .type t := by
  obtain ⟨tag, htag, hhints⟩ := h
  cases hhints with
  | literal htype hsome =>
    rw [hintInForce, htag, Option.map_some, Option.getD_some, Hint.ofTag_eq, htype]
    exact if_neg hsome

/-- A hint by name comes to what the name comes to. -/
theorem hintInForce_of_name (model : Model) (h : r.HintedBy types (.name q)) :
    r.hintInForce model types = Hint.ofName model (some q) ∧ q ≠ "" := by
  obtain ⟨tag, htag, hhints⟩ := h
  cases hhints with
  | name hnone hname hne =>
    refine ⟨?_, hne⟩
    rw [hintInForce, htag, Option.map_some, Option.getD_some, Hint.ofTag_eq, hname]
    cases htype : tag.type? "value" with
    | none => rfl
    | some t => exact if_pos (hnone t htype)

theorem hintInForce_of_found {d : Declaration} (h : r.HintedBy types (.name q)) (hd : d ∈ model.decls)
    (hname : d.typeName? = some q) : r.hintInForce model types = .type d.declaredType := by
  obtain ⟨hforce, hne⟩ := hintInForce_of_name model h
  obtain ⟨id, hfind⟩ := Model.exists_findType?_iff.mpr ⟨hd, hname⟩
  rw [hforce, Hint.ofName, if_neg hne, hfind]

theorem hintInForce_of_missing (h : r.HintedBy types (.name q))
    (hmissing : ∀ d ∈ model.decls, d.typeName? ≠ some q) :
    r.hintInForce model types = .unresolved q := by
  obtain ⟨hforce, hne⟩ := hintInForce_of_name model h
  rw [hforce, Hint.ofName, if_neg hne, Model.findType?_eq_none_iff.mpr hmissing]

/-! ## The representation -/

/-- What the rule for hints asks for: a body of unknown type and one note about the handler where the
hint speaks of a declared type that is not there, and otherwise the representation of the type that the
hint is at, without a note. -/
inductive HintRule (model : Model) (types : WellKnownTypes) (r : ReturnType) (hint : TypeHint) :
    Representation × List Diagnostic → Prop where
  | missing {note : Diagnostic} (h : hint.Dangles model) (hnote : note.declaration = r.owner) :
      HintRule model types r hint (.body .unknown r.doc, [note])
  | found {t : TypeRef} {answer : Representation} (h : ¬ hint.Dangles model)
      (ht : hint.IsAt model t) (hanswer : Represents types r.doc t answer) :
      HintRule model types r hint (answer, [])

theorem representation_of_literal (h : r.HintedBy types (.literal t)) :
    r.representation model types = (represent types r.doc t, []) :=
  representation_of_hint (hintInForce_of_literal h)

/-- A name that is not there leaves the type unknown, and the note gives the name. -/
theorem representation_of_missing (h : r.HintedBy types (.name q))
    (hmissing : ∀ d ∈ model.decls, d.typeName? ≠ some q) :
    r.representation model types = (.body .unknown r.doc, [unresolvedHint r.owner q]) := by
  rw [representation, hintInForce_of_missing h hmissing]
  rfl

/-- Hints by name follow the rule. -/
theorem hintRule_of_name (h : r.HintedBy types (.name q)) :
    r.HintRule model types (.name q) (r.representation model types) := by
  by_cases hmissing : ∀ d ∈ model.decls, d.typeName? ≠ some q
  · rw [representation_of_missing h hmissing]
    exact .missing ⟨q, .name, hmissing⟩ rfl
  · push Not at hmissing
    obtain ⟨d, hd, hname⟩ := hmissing
    rw [representation_of_hint (hintInForce_of_found h hd hname)]
    refine .found ?_ (.name hd hname) (represent_eq_iff.mp rfl)
    rintro ⟨_, ⟨⟩, hnone⟩
    exact hnone d hd hname

/-- Hints by literal follow the rule unless they speak of a type that is not there. -/
theorem hintRule_of_literal_iff (h : r.HintedBy types (.literal t)) :
    r.HintRule model types (.literal t) (r.representation model types) ↔
      ¬ (TypeHint.literal t).Dangles model := by
  rw [representation_of_literal h]
  constructor
  · intro hrule hdangles
    generalize hnotes : (represent types r.doc t, ([] : List Diagnostic)) = answer at hrule
    cases hrule with
    | missing _ _ => cases congrArg Prod.snd hnotes
    | found hno _ _ => exact hno hdangles
  · intro hno
    exact .found hno .literal (represent_eq_iff.mp rfl)

/-- Beside a hint only the owner and the documentation count. -/
theorem representation_eq_of_hint {r' : ReturnType} (h : r.HintedBy types hint)
    (hhint : r'.hint = r.hint) (howner : r'.owner = r.owner) (hdoc : r'.doc = r.doc) :
    r'.representation model types = r.representation model types := by
  have hforce : r'.hintInForce model types = r.hintInForce model types := by
    rw [hintInForce, hintInForce, hhint]
  have hsome : r.hintInForce model types ≠ .absent := by
    cases hint with
    | literal t => simp [hintInForce_of_literal h]
    | name q =>
      obtain ⟨hname, hne⟩ := hintInForce_of_name model h
      rw [hname, ne_eq, Hint.ofName_eq_absent_iff, not_not]
      exact ⟨q, rfl, hne⟩
  unfold representation
  rw [hforce, howner, hdoc]
  split
  · rfl
  · rfl
  · next habsent => exact absurd habsent hsome

/-- **Hints follow the rule for missing types unless they are literals of one.** A handler whose type is
hinted answers as the rule asks iff the hint is no type literal of a declared type that the model does
not have; a literal is represented as it stands and noted nowhere. Whatever the hint, the declared
type, whether there is a body, the documented wrapped type and the variables in force have no say. -/
theorem representation_hinted (model : Model) (h : r.HintedBy types hint) :
    (r.HintRule model types hint (r.representation model types) ↔
      ∀ t, hint = .literal t → ¬ hint.Dangles model) ∧
    (∀ t, hint = .literal t → ∃ answer, Represents types r.doc t answer ∧
      r.representation model types = (answer, [])) ∧
    ∀ declared returnsBody wrapped context,
      { r with declared, returnsBody, wrapped, context }.representation model types =
        r.representation model types := by
  refine ⟨?_, ?_, fun _ _ _ _ => representation_eq_of_hint h rfl rfl rfl⟩
  · cases hint with
    | literal t => simpa using hintRule_of_literal_iff h
    | name q => simpa using hintRule_of_name h
  · rintro t rfl
    exact ⟨_, represent_eq_iff.mp rfl, representation_of_literal h⟩

/-- A page by the name of a missing type. The literal for no type leaves the hint to the name. -/
def namedHint : ReturnType where
  owner := "method find"
  declared := .named "shop.Page"
  hint := some (((∅ : Tag).set "value" (.type (.named "apisurface.rs.TypeHint.NONE"))).set
    "qualifiedName" (.str "shop.Missing"))
  returnsBody := true
  wrapped := some "shop.Page"
  doc := some "the page"

theorem namedHint_hintedBy : namedHint.HintedBy {} (.name "shop.Missing") := by
  refine ⟨_, rfl, .name (fun t ht => ?_) rfl (by decide)⟩
  obtain rfl := Option.some.inj ht
  rfl

theorem namedHint_follows_rule :
    namedHint.HintedBy {} (.name "shop.Missing") ∧
      namedHint.HintRule laterModel {} (.name "shop.Missing") (namedHint.representation laterModel {}) ∧
      { namedHint with declared := .void, returnsBody := false }.representation laterModel {} =
        namedHint.representation laterModel {} := by
  obtain ⟨hrule, -, hfree⟩ := representation_hinted laterModel namedHint_hintedBy
  exact ⟨namedHint_hintedBy, hrule.mpr nofun, hfree _ _ _ _⟩

/-- A page by a literal of a missing type. -/
def literalHint : ReturnType where
  owner := "method find"
  declared := .named "shop.Page"
  hint := some ((∅ : Tag).set "value" (.type (.named "shop.Missing")))
  returnsBody := true
  doc := some "the page"

theorem literalHint_hintedBy : literalHint.HintedBy {} (.literal (.named "shop.Missing")) :=
  ⟨_, rfl, .literal rfl (by decide)⟩

/-- The literal of a type that is not there is transported, and nothing is noted. -/
theorem literalHint_breaks_rule :
    literalHint.HintedBy {} (.literal (.named "shop.Missing")) ∧
      (TypeHint.literal (.named "shop.Missing")).Dangles laterModel ∧
      literalHint.representation laterModel {} = (.body (.named "shop.Missing") (some "the page"), []) ∧
      ¬ literalHint.HintRule laterModel {} (.literal (.named "shop.Missing"))
        (literalHint.representation laterModel {}) := by
  have hdangles : (TypeHint.literal (.named "shop.Missing")).Dangles laterModel :=
    ⟨"shop.Missing", .literal, by decide⟩
  have hanswer : literalHint.representation laterModel {} =
      (.body (.named "shop.Missing") (some "the page"), []) :=
    representation_of_literal literalHint_hintedBy
  refine ⟨literalHint_hintedBy, hdangles, hanswer, fun hrule => ?_⟩
  exact (hintRule_of_literal_iff literalHint_hintedBy).mp hrule hdangles

end ReturnType

end ApiDescription
