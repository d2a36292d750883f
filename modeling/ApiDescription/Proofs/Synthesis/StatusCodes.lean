import ApiDescription.Proofs.Metadata.Codes
import ApiDescription.Proofs.Synthesis.Outcome
import ApiDescription.Proofs.Synthesis.Parameters
import ApiDescription.Sample.WidgetService

/-!
# The status codes and warnings of a description

A description lists the codes of its method and of the method's ancestors channel by channel: what the
tags of the method give, the one code of its response status, what the tags of the ancestors give, and
then the documentation lines in the same order. Nothing that has a code is left out, and a code that is
given twice is listed twice. Warnings are listed in the same way, but a response status gives none.

Results:
* `givesStatus_iff`: the number of a response status tag.
* `explicitStatus?_eq_some_iff`: the code that a response status tag gives (`Tag.GivesExplicitCode`).
* `statusCodes_eq`, `warnings_eq`: the order of the channels.
* `describe_statusCodes`: the codes and the warnings of a description.
-/

namespace ApiDescription

/-! ## The response status -/

/-- The number that a response status tag gives. -/
inductive Tag.GivesStatus (tag : Tag) : Int → Prop where
  | value {n : Int} (h : tag.int? "value" = some n) (hn : n ≠ 500) : GivesStatus tag n
  /-- The `code` counts where the `value` is absent or no more than the default. -/
  | code {n : Int} (h : ∀ v, tag.int? "value" = some v → v = 500) (hc : tag.int? "code" = some n) :
      GivesStatus tag n
  | default (h : ∀ v, tag.int? "value" = some v → v = 500) (hc : tag.int? "code" = none) :
      GivesStatus tag 500

/-- A response status tag gives a code, with its reason as the condition unless that is empty. -/
structure Tag.GivesExplicitCode (tag : Tag) (rc : ResponseCode) : Prop where
  code : tag.GivesStatus rc.code.toNat
  condition : rc.condition = (tag.str? "reason").filter (· ≠ "")
  type : rc.type = none
  headers : rc.headers = ∅

namespace Synthesizer

theorem givesStatus_iff {tag : Tag} {n : Int} :
    tag.GivesStatus n ↔ n = match tag.int? "value" with
      | some value => if value = defaultStatus then (tag.int? "code").getD defaultStatus else value
      | none => (tag.int? "code").getD defaultStatus := by
  -- both ways to the code end in the same number
  have hcode : (∀ v, tag.int? "value" = some v → v = 500) →
      (tag.GivesStatus n ↔ n = (tag.int? "code").getD defaultStatus) := by
    intro hdefault
    constructor
    · intro h
      cases h with
      | value h hn => exact absurd (hdefault _ h) hn
      | code _ hc => rw [hc, Option.getD_some]
      | default _ hc => rw [hc, Option.getD_none, defaultStatus]
    · rintro rfl
      cases hc : tag.int? "code" with
      | none => exact .default hdefault hc
      | some n => exact .code hdefault hc
  cases hv : tag.int? "value" with
  | none => exact hcode fun v h => by rw [hv] at h; cases h
  | some value =>
    by_cases hd : value = defaultStatus
    · simp only [hd, if_true]
      exact hcode fun v h => by rw [hv] at h; rw [← Option.some.inj h, hd, defaultStatus]
    · simp only [hd, if_false]
      constructor
      · intro h
        cases h with
        | value h hn => rw [hv] at h; exact (Option.some.inj h).symm
        | code h hc => exact absurd (h value hv) hd
        | default h hc => exact absurd (h value hv) hd
      · rintro rfl
        exact .value hv hd

theorem explicitStatus?_eq_some_iff {tag : Tag} {rc : ResponseCode} :
    explicitStatus? tag = some rc ↔ tag.GivesExplicitCode rc := by
  unfold explicitStatus?
  simp only [Option.bind_eq_bind, Option.bind_eq_some_iff, ResponseCode.codeOfInt?_eq_some_iff,
    ResponseCode.ofCondition_getD, Option.some.injEq, ResponseCode.eq_iff_of_plain]
  constructor
  · rintro ⟨code, hcode, rfl, hcondition, htype, hheaders⟩
    exact ⟨givesStatus_iff.mpr hcode.symm, hcondition, htype, hheaders⟩
  · intro h
    exact ⟨rc.code, (givesStatus_iff.mp h.code).symm, rfl, h.condition, h.type, h.headers⟩

/-! ## Channels -/

variable {s : Synthesizer} {d : Declaration} {ancestors : List Declaration}

/-- The status codes that the tags of a declaration give. -/
def taggedCodes (s : Synthesizer) (a : Declaration) : List ResponseCode :=
  (Metadata.nestedTags a s.vocabulary.metadata.statusCodes).filterMap
    (Metadata.fullCode? s.model s.vocabulary.types)

/-- The status codes that the documentation lines of a declaration give. -/
def documentedCodes (s : Synthesizer) (a : Declaration) : List ResponseCode :=
  Metadata.documentedCodes a s.vocabulary.docs.status

/-- The code that the response status of a method gives. -/
def explicitCode? (s : Synthesizer) (d : Declaration) : Option ResponseCode :=
  (d.tags.first? s.vocabulary.web.responseStatus).bind explicitStatus?

/-- The warnings that the tags of a declaration give. -/
def taggedWarnings (s : Synthesizer) (a : Declaration) : List ResponseCode :=
  (Metadata.nestedTags a s.vocabulary.metadata.warnings).filterMap Metadata.code?

/-- The warnings that the documentation lines of a declaration give. -/
def documentedWarnings (s : Synthesizer) (a : Declaration) : List ResponseCode :=
  Metadata.documentedCodes a s.vocabulary.docs.warning

theorem statusCodes_eq :
    s.statusCodes d ancestors = s.taggedCodes d ++ (s.explicitCode? d).toList ++
      ancestors.flatMap s.taggedCodes ++ s.documentedCodes d ++ ancestors.flatMap s.documentedCodes :=
  rfl

theorem warnings_eq :
    (Metadata.warnings s.vocabulary d ancestors).ordered = s.taggedWarnings d ++
      ancestors.flatMap s.taggedWarnings ++ s.documentedWarnings d ++
        ancestors.flatMap s.documentedWarnings :=
  rfl

theorem explicitCode?_eq_some_iff {rc : ResponseCode} :
    s.explicitCode? d = some rc ↔
      ∃ tag, (d.tags.get s.vocabulary.web.responseStatus).head? = some tag ∧
        tag.GivesExplicitCode rc := by
  unfold explicitCode? TagMap.first?
  simp only [Option.bind_eq_some_iff, explicitStatus?_eq_some_iff]

end Synthesizer

/-- **The codes and the warnings of a description.** Both are listed channel by channel, with nothing
merged: tags before documentation lines, in either the method before its ancestors, and the response
status behind the tags of the method. Tags and lines give their codes in order, each that has one of
sixteen bits; the response status gives the code of its first tag. -/
theorem describe_statusCodes {s : Synthesizer} {handler : Handler} {r : Descriptor}
    (h : s.describe handler = .ok r) :
    ∃ d ancestors parameters, handler.Resolves s.model d ancestors parameters ∧
      r.statusCodes = s.taggedCodes d ++ (s.explicitCode? d).toList ++
        ancestors.flatMap s.taggedCodes ++ s.documentedCodes d ++
          ancestors.flatMap s.documentedCodes ∧
      r.warnings = s.taggedWarnings d ++ ancestors.flatMap s.taggedWarnings ++
        s.documentedWarnings d ++ ancestors.flatMap s.documentedWarnings ∧
      (∀ rc, s.explicitCode? d = some rc ↔
        ∃ tag, (d.tags.get s.vocabulary.web.responseStatus).head? = some tag ∧
          tag.GivesExplicitCode rc) ∧
      ∀ a : Declaration,
        List.Forall₂ (Tag.GivesFullCode s.model s.vocabulary.types)
          (((a.tags.get s.vocabulary.metadata.statusCodes).flatMap (·.tags "value")).filter
            Tag.hasCode) (s.taggedCodes a) ∧
        List.Forall₂ DocLine.GivesCode
          (((a.docs.get? s.vocabulary.docs.status).getD []).filter DocLine.isCoded)
          (s.documentedCodes a) ∧
        List.Forall₂ (fun tag rc => tag.GivesCode rc ∧ rc.type = none ∧ rc.headers = ∅)
          (((a.tags.get s.vocabulary.metadata.warnings).flatMap (·.tags "value")).filter
            Tag.hasCode) (s.taggedWarnings a) ∧
        List.Forall₂ DocLine.GivesCode
          (((a.docs.get? s.vocabulary.docs.warning).getD []).filter DocLine.isCoded)
          (s.documentedWarnings a) := by
  obtain ⟨d, ancestors, parameters, hres, rfl⟩ := Synthesizer.describe_eq_ok_iff.mp h
  refine ⟨d, ancestors, parameters, hres, ?_, ?_, fun _ => Synthesizer.explicitCode?_eq_some_iff,
    fun a => ⟨Metadata.forall₂_fullCode _ _ _, DocLine.forall₂_documentedCodes a _,
      Metadata.forall₂_code _, DocLine.forall₂_documentedCodes a _⟩⟩
  · rw [Synthesizer.descriptor_eq, Descriptor.addParameters_eq]
    exact Synthesizer.statusCodes_eq
  · rw [Synthesizer.descriptor_eq, Descriptor.addParameters_eq]
    exact Synthesizer.warnings_eq

/-- A method with a code that has too many bits, a response status and two documentation lines, one of
them without a code, and the type that the method belongs to. -/
def orderDeclarations : List Declaration :=
  [((((Declaration.ofMethod "order" .void).withTag ({} : MetadataTags).statusCodes
      (Sample.codesTag [(200, "placed"), (70000, "never")])).withTag ({} : WebTags).responseStatus
      (((∅ : Tag).set "value" (.int 500)).set "code" (.int 418))).withDoc "HTTP" "410 gone").withDoc
      "HTTP" "soon gone",
   ((Declaration.ofType "shop.Orders").withTag ({} : MetadataTags).statusCodes
      (Sample.codesTag [(404, "no order"), (200, "")])).withDoc "HTTP" "503 busy"]

/-- The synthesizer of the declarations of an order. -/
def orderSynthesizer : Synthesizer where
  model :=
    { decls := orderDeclarations
      consistent := fault?_eq_none_iff.mp (by decide +kernel) }
  vocabulary := {}
  filter := ⟨.field, {}⟩

theorem order_statusCodes : ∃ (r : Descriptor) (d : Declaration) (ancestors : List Declaration),
    orderSynthesizer.describe { method := 0, ancestors := [1] } = .ok r ∧
    r.statusCodes = orderSynthesizer.taggedCodes d ++ (orderSynthesizer.explicitCode? d).toList ++
      ancestors.flatMap orderSynthesizer.taggedCodes ++ orderSynthesizer.documentedCodes d ++
        ancestors.flatMap orderSynthesizer.documentedCodes ∧
    r.statusCodes.map (fun rc => (rc.code, rc.condition)) =
      [(200, some "placed"), (418, none), (404, some "no order"), (200, none), (410, some "gone"),
        (503, some "busy")] := by
  have hr : (orderSynthesizer.describe { method := 0, ancestors := [1] }).toOption.map (fun r =>
      r.statusCodes.map fun rc => (rc.code, rc.condition)) =
        some [(200, some "placed"), (418, none), (404, some "no order"), (200, none),
          (410, some "gone"), (503, some "busy")] := by
    decide +kernel
  cases h : orderSynthesizer.describe { method := 0, ancestors := [1] } with
  | error e => simp [h, Except.toOption] at hr
  | ok r =>
    obtain ⟨d, ancestors, parameters, -, hcodes, -⟩ := describe_statusCodes h
    rw [h] at hr
    exact ⟨r, d, ancestors, rfl, hcodes, Option.some.inj hr⟩

end ApiDescription
