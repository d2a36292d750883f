import ApiDescription.Metadata
import ApiDescription.Proofs.Model.Lookup
import ApiDescription.Proofs.NameMaps
import ApiDescription.Proofs.Selections

/-!
# What tags and documentation lines give as codes

A nested tag gives a status code if its `code` is an integer of sixteen bits; a larger or a negative one
gives none, and no other code in its place. The condition that comes with a code is never empty. What else
a nested tag gives, its headers and its body type, decides nothing about whether there is a code.

Results:
* `codeOfInt?_eq_some_iff`: the code of a number is that number.
* `code?_eq_some_iff`, `fullCode?_eq_some_iff`: the code of a nested tag, without and with its headers and
  its body type (`GivesCode`, `GivesFullCode`).
* `forall₂_fullCode`, `forall₂_code`: the codes of nested tags are, in order, those of the tags that have
  one.
* `DocLine.code?_eq_some_iff`, `forall₂_documentedCodes`: the codes of documentation lines.
-/

namespace ApiDescription

/-! ## Codes and conditions -/

namespace ResponseCode

variable {code : UInt16}

/-- The code of a number is that number; there is none beyond sixteen bits. -/
theorem codeOfInt?_eq_some_iff {n : Int} : codeOfInt? n = some code ↔ n = code.toNat := by
  unfold codeOfInt?
  split
  · next h =>
    rw [Option.some.injEq, ← UInt16.toNat_inj, UInt16.toNat_ofNatLT]
    omega
  · next h =>
    have hlt : code.toNat < UInt16.size := code.toNat_lt
    simp only [reduceCtorEq, false_iff]
    omega

theorem isSome_codeOfInt? (n : Int) : (codeOfInt? n).isSome = decide (0 ≤ n ∧ n ≤ 65535) := by
  unfold codeOfInt?
  have hsize : UInt16.size = 65536 := rfl
  split
  · next h => simp; omega
  · next h => simp; omega

/-- A condition is the text at hand, unless that is empty. -/
theorem ofCondition_eq (code : UInt16) (text : String) :
    ofCondition code text = { code, condition := (some text).filter (· ≠ "") } := by
  unfold ofCondition
  by_cases h : text = "" <;> simp [h, Option.filter]

theorem ofCondition_getD (code : UInt16) (text : Option String) :
    ofCondition code (text.getD "") = { code, condition := text.filter (· ≠ "") } := by
  cases text with
  | none => rfl
  | some text => exact ofCondition_eq code text

/-- A code without a type and headers is its number and its condition. -/
theorem eq_iff_of_plain {rc : ResponseCode} {condition : Option String} :
    { code, condition : ResponseCode } = rc ↔
      rc.code = code ∧ rc.condition = condition ∧ rc.type = none ∧ rc.headers = ∅ := by
  constructor
  · rintro rfl
    exact ⟨rfl, rfl, rfl, rfl⟩
  · obtain ⟨_, _, _, _⟩ := rc
    rintro ⟨rfl, rfl, rfl, rfl⟩
    rfl

end ResponseCode

/-! ## Nested tags -/

/-- A tag gives a code of sixteen bits. -/
def Tag.hasCode (tag : Tag) : Bool :=
  (tag.int? "code").any fun n => 0 ≤ n ∧ n ≤ 65535

/-- A nested tag gives a code, with a condition unless that is empty. -/
structure Tag.GivesCode (tag : Tag) (rc : ResponseCode) : Prop where
  code : tag.int? "code" = some (rc.code.toNat : Int)
  condition : rc.condition = (tag.str? "condition").filter (· ≠ "")

/-- A nested tag gives a header that has a name; a description that is missing is empty. -/
structure Tag.GivesHeader (tag : Tag) (name description : String) : Prop where
  named : tag.str? "name" = some name
  nonempty : name ≠ ""
  described : description = (tag.str? "description").getD ""

/-- What a type literal stands for. -/
inductive Model.Redeclares (model : Model) : TypeRef → TypeRef → Prop where
  /-- A type without arguments stands for what the type of that name is declared as. -/
  | known {name : String} {id : DeclId} {d : Declaration} (h : model.get? id = some d)
      (hn : d.typeName? = some name) : Redeclares model (.declared name []) d.declaredType
  /-- Any other type stands for itself. -/
  | other {type : TypeRef} (h : ∀ name, type = .declared name [] →
      ∀ id d, model.get? id = some d → d.typeName? ≠ some name) : Redeclares model type type

/-- A nested tag gives a code with its headers and the type of its body. -/
structure Tag.GivesFullCode (model : Model) (types : WellKnownTypes) (tag : Tag)
    (rc : ResponseCode) : Prop extends tag.GivesCode rc where
  type : ∀ type, rc.type = some type ↔ ∃ given, tag.type? "type" = some given ∧
    given.qualifiedName? ≠ some types.typeHintNone ∧ model.Redeclares given type
  /-- Of several headers of one name the last counts. -/
  headers : ∀ name description, rc.headers[name]? = some description ↔ ∃ before header after,
    tag.tags "additionalHeaders" = before ++ header :: after ∧
      header.GivesHeader name description ∧ ∀ h ∈ after, h.str? "name" ≠ some name

namespace Metadata

variable {model : Model} {types : WellKnownTypes} {tag : Tag} {rc : ResponseCode}

theorem code?_eq_some_iff :
    code? tag = some rc ↔ tag.GivesCode rc ∧ rc.type = none ∧ rc.headers = ∅ := by
  unfold code?
  simp only [Option.bind_eq_bind, Option.bind_eq_some_iff, ResponseCode.codeOfInt?_eq_some_iff,
    ResponseCode.ofCondition_getD, Option.some.injEq, ResponseCode.eq_iff_of_plain]
  constructor
  · rintro ⟨_, hn, code, rfl, rfl, hcondition, htype, hheaders⟩
    exact ⟨⟨hn, hcondition⟩, htype, hheaders⟩
  · rintro ⟨h, htype, hheaders⟩
    exact ⟨_, h.code, rc.code, rfl, rfl, h.condition, htype, hheaders⟩

theorem isSome_code? (tag : Tag) : (code? tag).isSome = tag.hasCode := by
  unfold code? Tag.hasCode
  cases tag.int? "code" with
  | none => rfl
  | some n =>
    rw [Option.any_some, ← ResponseCode.isSome_codeOfInt?]
    cases h : ResponseCode.codeOfInt? n <;> simp [h]

theorem isSome_fullCode? : (fullCode? model types tag).isSome = tag.hasCode := by
  rw [← isSome_code?]
  unfold fullCode?
  cases code? tag <;> rfl

theorem redeclared_eq_iff {given type : TypeRef} :
    redeclared model given = type ↔ model.Redeclares given type := by
  constructor
  · rintro rfl
    unfold redeclared
    split
    · next name =>
      cases hf : model.findType? name with
      | none =>
        refine .other fun other he id d hget hn => ?_
        obtain rfl := (TypeRef.declared.inj he).1
        rw [Model.findType?_eq_some_iff.mpr ⟨hget, hn⟩] at hf
        cases hf
      | some e =>
        obtain ⟨hget, hn⟩ := Model.findType?_eq_some_iff.mp hf
        exact .known hget hn
    · next hne => exact .other fun name he => absurd he (hne name)
  · intro h
    cases h with
    | known hget hn =>
      simp only [redeclared, Model.findType?_eq_some_iff.mpr ⟨hget, hn⟩]
      rfl
    | other h =>
      unfold redeclared
      split
      · next name =>
        cases hf : model.findType? name with
        | none => rfl
        | some e =>
          obtain ⟨hget, hn⟩ := Model.findType?_eq_some_iff.mp hf
          exact absurd hn (h name rfl e.1 e.2 hget)
      · rfl

theorem codeType?_eq_some_iff {type : TypeRef} :
    codeType? model types tag = some type ↔ ∃ given, tag.type? "type" = some given ∧
      given.qualifiedName? ≠ some types.typeHintNone ∧ model.Redeclares given type := by
  unfold codeType?
  simp only [Option.bind_eq_bind, Option.bind_eq_some_iff, Option.ite_none_left_eq_some,
    Option.some.injEq, redeclared_eq_iff, ne_eq]

/-- The name and the description that a nested tag gives as a header. -/
def headerPair? (header : Tag) : Option (String × String) :=
  ((header.str? "name").filter (· ≠ "")).map
    fun name => (name, (header.str? "description").getD "")

theorem headerPairs_eq (tag : Tag) (element : String) :
    headerPairs tag element = (tag.tags element).filterMap headerPair? := by
  unfold headerPairs headerPair?
  refine List.filterMap_congr fun header _ => ?_
  cases header.str? "name" with
  | none => rfl
  | some name => by_cases h : name = "" <;> simp [h, Option.filter]

theorem headerPair?_eq_some_iff {header : Tag} {name description : String} :
    headerPair? header = some (name, description) ↔ header.GivesHeader name description := by
  unfold headerPair?
  simp only [Option.map_eq_some_iff, Option.filter_eq_some_iff, decide_eq_true_eq, Prod.mk.injEq]
  constructor
  · rintro ⟨_, ⟨hname, hne⟩, rfl, rfl⟩
    exact ⟨hname, hne, rfl⟩
  · intro h
    exact ⟨name, ⟨h.named, h.nonempty⟩, rfl, h.described.symm⟩

/-- Of several headers of one name the last counts. -/
theorem getElem?_headerPairs_eq_some_iff {element name description : String} :
    (NameMap.ofPairs (headerPairs tag element))[name]? = some description ↔
      ∃ before header after, tag.tags element = before ++ header :: after ∧
        header.GivesHeader name description ∧ ∀ h ∈ after, h.str? "name" ≠ some name := by
  rw [headerPairs_eq, NameMap.getElem?_ofPairs_filterMap_eq_some_iff]
  simp only [ne_eq, headerPair?_eq_some_iff]
  constructor
  · rintro ⟨before, header, after, htags, hheader, hlast⟩
    refine ⟨before, header, after, htags, hheader, fun h hm hnamed => ?_⟩
    exact hlast h hm _ ⟨hnamed, hheader.nonempty, rfl⟩
  · rintro ⟨before, header, after, htags, hheader, hlast⟩
    exact ⟨before, header, after, htags, hheader, fun h hm _ hgives => hlast h hm hgives.named⟩

/-- **The code of a nested tag.** It has the number and the condition of the tag, its headers by name, and
the type that its type literal stands for. -/
theorem fullCode?_eq_some_iff :
    fullCode? model types tag = some rc ↔ tag.GivesFullCode model types rc := by
  unfold fullCode?
  simp only [Option.bind_eq_bind, Option.bind_eq_some_iff, Option.some.injEq, code?_eq_some_iff]
  constructor
  · rintro ⟨plain, ⟨hplain, -, -⟩, rfl⟩
    exact ⟨⟨hplain.code, hplain.condition⟩, fun _ => codeType?_eq_some_iff,
      fun _ _ => getElem?_headerPairs_eq_some_iff⟩
  · intro h
    have htype : codeType? model types tag = rc.type :=
      Option.ext fun type => codeType?_eq_some_iff.trans (h.type type).symm
    have hheaders : NameMap.ofPairs (headerPairs tag "additionalHeaders") = rc.headers :=
      Std.ExtTreeMap.ext_getElem? fun {name} => Option.ext fun description =>
        getElem?_headerPairs_eq_some_iff.trans (h.headers name description).symm
    refine ⟨{ code := rc.code, condition := rc.condition }, ⟨⟨h.code, h.condition⟩, rfl, rfl⟩, ?_⟩
    rw [htype, hheaders]

/-- The full codes of nested tags are, in order, those of the tags that have a code. -/
theorem forall₂_fullCode (model : Model) (types : WellKnownTypes) (tags : List Tag) :
    List.Forall₂ (Tag.GivesFullCode model types) (tags.filter Tag.hasCode)
      (tags.filterMap (fullCode? model types)) :=
  forall₂_filter_filterMap (fun _ => isSome_fullCode?.symm) (fun _ _ => fullCode?_eq_some_iff.mp) tags

/-- The plain codes of nested tags are, in order, those of the tags that have a code. -/
theorem forall₂_code (tags : List Tag) :
    List.Forall₂ (fun tag rc => tag.GivesCode rc ∧ rc.type = none ∧ rc.headers = ∅)
      (tags.filter Tag.hasCode) (tags.filterMap code?) :=
  forall₂_filter_filterMap (fun tag => (isSome_code? tag).symm) (fun _ _ => code?_eq_some_iff.mp) tags

end Metadata

/-! ## Documentation lines -/

namespace DocLine

open Text

/-- A key denotes a code: ASCII digits with the value of the code, with a plus sign before them or
without. -/
def Denotes (key : String) (code : UInt16) : Prop :=
  ∃ digits, digits ≠ [] ∧ (∀ c ∈ digits, isDigit c = true) ∧
    (key.toList = digits ∨ key.toList = '+' :: digits) ∧ digitsValue digits = code.toNat

theorem code?_eq_some_iff {key : String} {code : UInt16} :
    code? key = some code ↔ Denotes key code := by
  have hdigits : ∀ digits : List Char,
      (if digits = [] ∨ digits.all isDigit = false then none
        else if h : digitsValue digits < UInt16.size then some (UInt16.ofNatLT _ h) else none) =
          some code ↔
        digits ≠ [] ∧ (∀ c ∈ digits, isDigit c = true) ∧ digitsValue digits = code.toNat := by
    intro digits
    have hlt : code.toNat < UInt16.size := code.toNat_lt
    rw [Option.ite_none_left_eq_some, Option.dite_none_right_eq_some, not_or, Bool.not_eq_false,
      List.all_eq_true, and_assoc]
    simp only [Option.some.injEq, ← UInt16.toNat_inj, UInt16.toNat_ofNatLT, exists_prop]
    constructor
    · rintro ⟨hne, hall, -, hv⟩
      exact ⟨hne, hall, hv⟩
    · rintro ⟨hne, hall, hv⟩
      exact ⟨hne, hall, by omega, hv⟩
  unfold code?
  rw [hdigits]
  split
  · next rest hl =>
    rw [Denotes, hl]
    constructor
    · rintro ⟨hne, hall, hv⟩
      exact ⟨rest, hne, hall, .inr rfl, hv⟩
    · rintro ⟨digits, hne, hall, rfl | hplus, hv⟩
      · -- a plus sign is no digit
        exact absurd (hall '+' List.mem_cons_self) (by decide)
      · obtain rfl := (List.cons.inj hplus).2
        exact ⟨hne, hall, hv⟩
  · next hno =>
    constructor
    · rintro ⟨hne, hall, hv⟩
      exact ⟨key.toList, hne, hall, .inl rfl, hv⟩
    · rintro ⟨digits, hne, hall, rfl | hplus, hv⟩
      · exact ⟨hne, hall, hv⟩
      · exact absurd hplus (hno digits)

/-- A line has a code as its key. -/
def isCoded (line : String) : Bool :=
  (code? (split line).1).isSome

/-- A line gives the code of its key, with its description as the condition unless that is empty. -/
structure GivesCode (line : String) (rc : ResponseCode) : Prop where
  code : Denotes (split line).1 rc.code
  condition : rc.condition = (some (split line).2).filter (· ≠ "")
  type : rc.type = none
  headers : rc.headers = ∅

/-- The codes of documentation lines are, in order, those of the lines that have a code as their key. -/
theorem forall₂_documentedCodes (d : Declaration) (docName : String) :
    List.Forall₂ GivesCode (((d.docs.get? docName).getD []).filter isCoded)
      (Metadata.documentedCodes d docName) := by
  unfold Metadata.documentedCodes coded
  rw [List.map_filterMap]
  refine forall₂_filter_filterMap (fun line => ?_) (fun line rc h => ?_) _
  · simp [isCoded]
  · simp only [Option.map_map, Option.map_eq_some_iff, Function.comp_apply, code?_eq_some_iff,
      ResponseCode.ofCondition_eq, ResponseCode.eq_iff_of_plain] at h
    obtain ⟨_, hcode, rfl, hcondition, htype, hheaders⟩ := h
    exact ⟨hcode, hcondition, htype, hheaders⟩

end DocLine

end ApiDescription
