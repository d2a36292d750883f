import ApiDescription.ReturnType

/-!
# When a type hint counts

A type hint tag gives a type, or the qualified name of one, or neither. The literal for no type counts as
no type, and the empty name as no name; a tag that gives neither is as good as no tag, and then the
return type is unwrapped.

Results:
* `Hint.ofTag_eq`: what a tag says by its type and its name.
* `ofTag_eq_absent_iff`, `hintInForce_eq_absent_iff`: nothing is hinted iff no tag gives a hint.
* `representation_of_absent`: without a hint the representation is that of the unwrapped type.
-/

namespace ApiDescription

/-- A type hint tag gives a type other than the literal for none, or a qualified name. -/
def Tag.GivesHint (types : WellKnownTypes) (tag : Tag) : Prop :=
  (∃ type, tag.type? "value" = some type ∧ type.qualifiedName? ≠ some types.typeHintNone) ∨
    ∃ name, tag.str? "qualifiedName" = some name ∧ name ≠ ""

namespace ReturnType

variable {model : Model} {types : WellKnownTypes} {tag : Tag} {r : ReturnType}

/-- What a hint by qualified name says; the empty name is none. -/
def Hint.ofName (model : Model) : Option String → Hint
  | none => .absent
  | some name =>
    if name = "" then .absent
    else
      match model.findType? name with
      | some (_, d) => .type d.declaredType
      | none => .unresolved name

theorem Hint.ofName_eq_absent_iff {name : Option String} :
    Hint.ofName model name = .absent ↔ ¬ ∃ n, name = some n ∧ n ≠ "" := by
  cases name with
  | none => simp [Hint.ofName]
  | some n =>
    by_cases hn : n = ""
    · simp [Hint.ofName, hn]
    · simp only [Hint.ofName, hn, if_false]
      split <;> simp [hn]

/-- A tag says what its type says, if it gives one, and otherwise what its name says. -/
theorem Hint.ofTag_eq (model : Model) (types : WellKnownTypes) (tag : Tag) :
    Hint.ofTag model types tag =
      match tag.type? "value" with
      | some given =>
        if given.qualifiedName? = some types.typeHintNone then
          Hint.ofName model (tag.str? "qualifiedName")
        else .type given
      | none => Hint.ofName model (tag.str? "qualifiedName") := by
  unfold Hint.ofTag
  cases tag.str? "qualifiedName" with
  | none => rfl
  | some name =>
    by_cases hname : name = ""
    · subst hname
      rfl
    · have hofName : Hint.ofName model (some name) = match model.findType? name with
          | some (_, d) => .type d.declaredType
          | none => .unresolved name := if_neg hname
      rw [hofName]
      split
      · next hnone => cases hnone
      · next hempty => exact absurd (Option.some.inj hempty) hname
      · next hsome =>
        obtain rfl := Option.some.inj hsome
        cases tag.type? "value" <;> rfl

/-- A tag says nothing iff it gives no hint. -/
theorem ofTag_eq_absent_iff : Hint.ofTag model types tag = .absent ↔ ¬ tag.GivesHint types := by
  rw [Hint.ofTag_eq, Tag.GivesHint, not_or]
  cases tag.type? "value" with
  | none => simpa using Hint.ofName_eq_absent_iff
  | some given =>
    by_cases hnone : given.qualifiedName? = some types.typeHintNone
    · simpa [hnone] using Hint.ofName_eq_absent_iff
    · simp [hnone]

theorem hintInForce_eq_absent_iff :
    r.hintInForce model types = .absent ↔ ∀ tag, r.hint = some tag → ¬ tag.GivesHint types := by
  unfold hintInForce
  cases r.hint with
  | none => simp
  | some tag => simpa using ofTag_eq_absent_iff

theorem representation_of_absent (h : r.hintInForce model types = .absent) :
    r.representation model types = (represent types r.doc (r.unwrapped model types), []) := by
  simp [representation, h]

/-- The body of a representation, if there is one, is of the represented type. -/
theorem type?_represent_eq_some_iff {doc : Option String} {t u : TypeRef} :
    (represent types doc t).type? = some u ↔ denotesVoid types t = false ∧ u = t := by
  unfold represent
  cases denotesVoid types t with
  | true => simp [Representation.type?]
  | false => simp [Representation.type?, eq_comm]

end ReturnType

end ApiDescription
