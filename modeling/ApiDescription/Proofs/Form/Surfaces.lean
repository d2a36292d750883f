import ApiDescription.Proofs.Form.Declarations
import ApiDescription.Proofs.Json.Grammar
import ApiDescription.Proofs.Synthesis.Parameters
import ApiDescription.Surface.Form

/-!
# Reading surfaces back

The program writes surfaces and never reads them. The readers below are for those who get the document:
they go by the keys and words that a document is said to have, and find in it every description with all
its parts, the notes, and the texts of the failures.

Results:
* `Descriptor.ofJson?_toJson`: a description whose parameters stand under their identities is read as it
  was written, as are the parts of any description.
* `ShownReport.ofJson?_toJson`: what a document tells about the handlers of a batch.
* `ApiSurface.plain_toJson`: nothing in a document is beyond the grammar of JSON texts.
-/

namespace ApiDescription

open Json

/-! ## Readers -/

/-- The kind of parameters that a word stands for. -/
def ParameterKind.ofJson? : Json → Option ParameterKind
  | .str "HEADER" => some .header
  | .str "QUERY" => some .query
  | .str "PATH" => some .path
  | .str "ENTITY" => some .entity
  | .str "MATRIX" => some .matrix
  | .str "COOKIE" => some .cookie
  | .str "FORM" => some .form
  | .str "CONTEXT" => some .context
  | _ => none

/-- The request parameter that an object describes. -/
def RequestParameter.ofJson? : Json → Option RequestParameter
  | .obj fields => do
    return {
      name := ← required? fields "name" str?
      kind := ← required? fields "kind" ParameterKind.ofJson?
      description := ← required? fields "description" str?
      declaration := ← required? fields "declaration" (nullable? nat?)
      type := ← required? fields "type_ref" (nullable? TypeRef.ofJson?) }
  | _ => none

/-- The code that an object describes. -/
def ResponseCode.ofJson? : Json → Option ResponseCode
  | .obj fields => do
    return {
      code := ← required? fields "code" fun value => value.nat?.map UInt16.ofNat
      condition := ← required? fields "condition" (nullable? str?)
      type := ← required? fields "type_ref" (nullable? TypeRef.ofJson?)
      headers := ← required? fields "additional_headers" (nameMap? str?) }
  | _ => none

/-- The representation that an object describes. -/
def Representation.ofJson? : Json → Option Representation
  | .obj fields => do
    match ← required? fields "kind" str? with
    | "void" => some .void
    | "body" =>
      return .body (← required? fields "ty" TypeRef.ofJson?)
        (← required? fields "doc" (nullable? str?))
    | _ => none
  | _ => none

/-- The note that an object describes. -/
def Diagnostic.ofJson? : Json → Option Diagnostic
  | .obj fields => do
    return {
      declaration := ← required? fields "declaration" str?
      message := ← required? fields "message" str? }
  | _ => none

/-- The description that an object holds, with its request parameters by their identities. -/
def Descriptor.ofJson? : Json → Option Descriptor
  | .obj fields => do
    let parameters ← required? fields "request_parameters" (list? RequestParameter.ofJson?)
    return {
      handler := ← required? fields "handler" nat?
      name := ← required? fields "name" str?
      entity := ← required? fields "entity_parameter" (nullable? RequestParameter.ofJson?)
      parameters := .ofList (parameters.map fun p => (p.identity, p))
      statusCodes := ← required? fields "status_codes" (list? ResponseCode.ofJson?)
      warnings := ← required? fields "warnings" (list? ResponseCode.ofJson?)
      responseHeaders := ← required? fields "response_headers" (nameMap? str?)
      representation := ← required? fields "representation" Representation.ofJson?
      diagnostics := ← required? fields "diagnostics" (list? Diagnostic.ofJson?) }
  | _ => none

/-- What a document tells about a batch of handlers. -/
structure ShownReport where
  descriptors : List Descriptor
  diagnostics : List Diagnostic
  failures : List String

/-- What a document tells about a batch of handlers, by its keys. -/
def ShownReport.ofJson? : Json → Option ShownReport
  | .obj fields => do
    return {
      descriptors := ← required? fields "resource_methods" (list? Descriptor.ofJson?)
      diagnostics := ← required? fields "diagnostics" (list? Diagnostic.ofJson?)
      failures := ← required? fields "failures" (list? str?) }
  | _ => none

/-! ## Reading what was written -/

theorem ParameterKind.ofJson?_word (kind : ParameterKind) : ofJson? (.str kind.word) = some kind := by
  cases kind <;> rfl

theorem Json.nullable?_ofOption {α : Type} {read : Json → Option α} {write : α → Json}
    (hnull : ∀ a, write a ≠ .null) (h : ∀ a, read (write a) = some a) (o : Option α) :
    nullable? read (ofOption write o) = some o := by
  cases o with
  | none => rfl
  | some a => rw [ofOption, nullable?.eq_2 _ _ (hnull a), h, Option.map_eq_map, Option.map_some]

theorem Json.nullable?_type (type : Option TypeRef) :
    nullable? TypeRef.ofJson? (ofOption TypeRef.toJson type) = some type := by
  refine nullable?_ofOption (fun t ht => ?_) TypeRef.ofJson?_toJson type
  obtain ⟨fields, hfields⟩ := t.exists_toJson_eq_obj
  cases hfields.symm.trans ht

theorem Json.nameMap?_strings (m : NameMap String) : nameMap? str? (ofNameMap .str m) = some m :=
  nameMap?_ofNameMap_eq_some_iff.mpr fun _ _ _ => rfl

theorem RequestParameter.ofJson?_toJson (p : RequestParameter) : ofJson? p.toJson = some p := by
  simp [ofJson?, toJson, required?, str?, ParameterKind.ofJson?_word, nullable?_nat, nullable?_type]

theorem Json.nullable?_parameter (p : Option RequestParameter) :
    nullable? RequestParameter.ofJson? (ofOption RequestParameter.toJson p) = some p :=
  nullable?_ofOption nofun RequestParameter.ofJson?_toJson p

theorem ResponseCode.ofJson?_toJson (c : ResponseCode) : ofJson? c.toJson = some c := by
  simp [ofJson?, toJson, required?, nat, nat?, nullable?_str, nullable?_type, nameMap?_strings]

theorem Representation.ofJson?_toJson (r : Representation) : ofJson? r.toJson = some r := by
  cases r with
  | void => rfl
  | body type doc =>
    simp [ofJson?, toJson, required?, str?, nullable?_str, TypeRef.ofJson?_toJson]

theorem Diagnostic.ofJson?_toJson (d : Diagnostic) : ofJson? d.toJson = some d := by
  simp [ofJson?, toJson, required?, str?]

namespace Descriptor

variable {r : Descriptor}

/-- The listing of request parameters tells which of them stands under which identity. -/
theorem ofList_requestParameters (hk : r.Keyed) :
    Std.ExtTreeMap.ofList (r.requestParameters.map fun p => (p.identity, p)) = r.parameters := by
  have hentries : r.requestParameters.map (fun p => (p.identity, p)) = r.parameters.toList := by
    rw [requestParameters, values_eq_map_snd, List.map_map]
    refine (List.map_congr_left fun e he => ?_).trans (List.map_id _)
    exact Prod.ext (hk e.1 e.2 (Std.ExtTreeMap.mem_toList_iff_getElem?_eq_some.mp he)) rfl
  rw [hentries, ofList_toList]

/-- **A description whose parameters stand under their identities is read as it was written.** -/
theorem ofJson?_toJson (hk : r.Keyed) : ofJson? r.toJson = some r := by
  simp [ofJson?, toJson, required?, str?, nat, nat?, nullable?_parameter, nameMap?_strings,
    list?_map_eq_some_iff.mpr fun p _ => RequestParameter.ofJson?_toJson p,
    list?_map_eq_some_iff.mpr fun c _ => ResponseCode.ofJson?_toJson c,
    list?_map_eq_some_iff.mpr fun d _ => Diagnostic.ofJson?_toJson d,
    Representation.ofJson?_toJson, ofList_requestParameters hk]

end Descriptor

/-! ## Documents -/

/-- **A document tells the descriptions of a batch, their notes and the texts of its failures.** -/
theorem ShownReport.ofJson?_toJson {surface : ApiSurface}
    (hk : ∀ r ∈ surface.report.descriptors, r.Keyed) :
    ofJson? surface.toJson =
      some ⟨surface.report.descriptors, surface.report.diagnostics,
        surface.report.failures.map SynthesisError.message⟩ := by
  simp [ofJson?, ApiSurface.toJson, required?, list?_strings,
    list?_map_eq_some_iff.mpr fun r hr => Descriptor.ofJson?_toJson (hk r hr),
    list?_map_eq_some_iff.mpr fun d _ => Diagnostic.ofJson?_toJson d]

/-! ## Documents as texts -/

section Plain

@[simp] theorem Json.plain_null : Plain .null := by
  rintro _ ⟨⟩
  exact ⟨nofun, nofun⟩

@[simp] theorem Json.plain_str (s : String) : Plain (.str s) := by
  rintro _ ⟨⟩
  exact ⟨nofun, nofun⟩

@[simp] theorem Json.plain_nat (n : Nat) : Plain (nat n) := by
  rintro _ ⟨⟩
  exact ⟨nofun, nofun⟩

variable {α : Type} {write : α → Json}

theorem Json.plain_map (h : ∀ a, (write a).Plain) (xs : List α) : (arr (xs.map write)).Plain :=
  plain_arr_iff.mpr (List.forall_mem_map.mpr fun a _ => h a)

theorem Json.plain_ofNameMap (h : ∀ a, (write a).Plain) (m : NameMap α) :
    (ofNameMap write m).Plain :=
  plain_obj_iff.mpr (List.forall_mem_map.mpr fun e _ => h e.2)

theorem Json.plain_ofOption (h : ∀ a, (write a).Plain) (o : Option α) : (ofOption write o).Plain := by
  cases o with
  | none => exact plain_null
  | some a => exact h a

theorem TypeRef.plain_toJson (t : TypeRef) : t.toJson.Plain := by
  induction t using nestedInduction with
  | declared name args ih =>
    have hargs : (arr (args.map toJson)).Plain :=
      plain_arr_iff.mpr (List.forall_mem_map.mpr ih)
    simpa [toJson, plain_obj_iff, toJsons_eq_map] using hargs
  | array element ih => simpa [toJson, plain_obj_iff] using ih
  | _ => simp [toJson, plain_obj_iff]

theorem RequestParameter.plain_toJson (p : RequestParameter) : p.toJson.Plain := by
  simp [toJson, plain_obj_iff, plain_ofOption, TypeRef.plain_toJson]

theorem ResponseCode.plain_toJson (c : ResponseCode) : c.toJson.Plain := by
  simp [toJson, plain_obj_iff, plain_ofOption, plain_ofNameMap, TypeRef.plain_toJson]

theorem Representation.plain_toJson (r : Representation) : r.toJson.Plain := by
  cases r <;> simp [toJson, plain_obj_iff, plain_ofOption, TypeRef.plain_toJson]

theorem Diagnostic.plain_toJson (d : Diagnostic) : d.toJson.Plain := by
  simp [toJson, plain_obj_iff]

theorem Descriptor.plain_toJson (r : Descriptor) : r.toJson.Plain := by
  simp [toJson, plain_obj_iff, plain_ofOption, plain_ofNameMap, plain_map,
    RequestParameter.plain_toJson, ResponseCode.plain_toJson, Representation.plain_toJson,
    Diagnostic.plain_toJson]

theorem Accessor.plain_toJson (a : Accessor) : a.toJson.Plain := by
  simp [toJson, plain_obj_iff, TypeRef.plain_toJson]

theorem DataType.plain_toJson (t : DataType) : t.toJson.Plain := by
  cases hs : t.shape <;>
    simp [toJson, hs, Shape.toFields, plain_obj_iff, plain_ofOption, plain_map, strings,
      Accessor.plain_toJson]

theorem SchemaNamespace.plain_toJson (facet : DataType → Bool) (space : SchemaNamespace) :
    (space.toJson facet).Plain := by
  simp [toJson, plain_obj_iff, plain_map, DataType.plain_toJson]

/-- **Nothing in a document is beyond the grammar of JSON texts.** -/
theorem ApiSurface.plain_toJson (surface : ApiSurface) : surface.toJson.Plain := by
  simp [toJson, plain_obj_iff, plain_map, strings, Descriptor.plain_toJson,
    SchemaNamespace.plain_toJson, Diagnostic.plain_toJson]

end Plain

end ApiDescription
