import ApiDescription.Proofs.Configuration.Overlay
import ApiDescription.Proofs.Toml.Reading

/-!
# Configurations that replace defaults

Every name of a vocabulary has a default, and a table replaces those names that it gives. It may give as
little as one name of one section: the other names of the section keep their defaults, and so do the other
sections. The policy of a run has no default.

A configuration is listed under the keys that a table gives it by, and compared by the values under their
paths.

Results:
* `Configuration.eq_of_leaf?`: a configuration is told by its values, so no name is missing from the listing.
* `Configuration.exists_ofToml?_iff`: which tables read as a configuration.
* `Configuration.ofToml?_eq_some_iff`, `Configuration.parse_eq_ok_iff`: which configuration a table, or the
  table of a text, reads as.
* `Configuration.ofToml?_replaces_defaults`: both at once, and what two tables put together read as.
-/

namespace ApiDescription

open Setting

/-! ## Listings -/

/-- The names of the binding tags, as a table lists them. -/
def BindingTags.names (tags : BindingTags) : List (String × Toml) :=
  [("namespace", .str tags.package),
    ("transient", .str tags.transient),
    ("unknown_enum_value", .str tags.unknownEnumValue)]

/-- The names of the framework's tags. -/
def WebTags.names (tags : WebTags) : List (String × Toml) :=
  [("request_body", .str tags.requestBody),
    ("response_body", .str tags.responseBody),
    ("rest_controller", .str tags.restController),
    ("response_status", .str tags.responseStatus),
    ("request_mapping", .str tags.requestMapping),
    ("request_param", .str tags.requestParam),
    ("path_variable", .str tags.pathVariable),
    ("request_header", .str tags.requestHeader),
    ("cookie_value", .str tags.cookieValue),
    ("matrix_variable", .str tags.matrixVariable),
    ("request_part", .str tags.requestPart),
    ("model_attribute", .str tags.modelAttribute)]

/-- The names of the documenting tags. -/
def MetadataTags.names (tags : MetadataTags) : List (String × Toml) :=
  [("type_hint", .str tags.typeHint),
    ("status_codes", .str tags.statusCodes),
    ("warnings", .str tags.warnings),
    ("response_headers", .str tags.responseHeaders),
    ("request_headers", .str tags.requestHeaders)]

/-- The names of the documentation tags. -/
def DocTagNames.names (tags : DocTagNames) : List (String × Toml) :=
  [("return_doc", .str tags.returnDoc),
    ("return_wrapped", .str tags.returnWrapped),
    ("request_header", .str tags.requestHeader),
    ("status", .str tags.status),
    ("warning", .str tags.warning),
    ("response_header", .str tags.responseHeader),
    ("param", .str tags.param),
    ("rs_param", .str tags.rsParam)]

/-- The names of the well-known types. -/
def WellKnownTypes.names (types : WellKnownTypes) : List (String × Toml) :=
  [("async_wrappers", .arr (types.asyncWrappers.map .str)),
    ("response_envelopes", .arr (types.responseEnvelopes.map .str)),
    ("void_types", .arr (types.voidTypes.map .str)),
    ("context_types", .arr (types.contextTypes.map .str)),
    ("type_hint_none", .str types.typeHintNone)]

/-- The sections of a vocabulary. -/
def Vocabulary.names (vocabulary : Vocabulary) : List (String × Toml) :=
  [("binding", .table vocabulary.binding.names),
    ("web", .table vocabulary.web.names),
    ("metadata", .table vocabulary.metadata.names),
    ("docs", .table vocabulary.docs.names),
    ("types", .table vocabulary.types.names)]

/-- The settings of each section have the keys and the defaults of its listing. -/
theorem sections_spelled : Spells BindingTags.settings BindingTags.names (BindingTags.names {}) ∧
    Spells WebTags.settings WebTags.names (WebTags.names {}) ∧
    Spells MetadataTags.settings MetadataTags.names (MetadataTags.names {}) ∧
    Spells DocTagNames.settings DocTagNames.names (DocTagNames.names {}) ∧
    Spells WellKnownTypes.settings WellKnownTypes.names (WellKnownTypes.names {}) := by
  refine ⟨?_, ?_, ?_, ?_, ?_⟩
  -- row by row, where the key decides what the setting reads and writes
  all_goals repeat' first
    | exact .nil
    | refine .cons ⟨rfl, lawful_text (fun _ => rfl) (fun _ _ => rfl) _⟩ ?_
    | refine .cons ⟨rfl, lawful_texts (fun _ => rfl) (fun _ _ => rfl) _⟩ ?_

theorem Vocabulary.spells : Spells Vocabulary.settings names (names {}) := by
  obtain ⟨hbinding, hweb, hmetadata, hdocs, htypes⟩ := sections_spelled
  refine .cons ⟨rfl, hbinding.lawful_part (fun _ => rfl) fun _ _ => rfl⟩ ?_
  refine .cons ⟨rfl, hweb.lawful_part (fun _ => rfl) fun _ _ => rfl⟩ ?_
  refine .cons ⟨rfl, hmetadata.lawful_part (fun _ => rfl) fun _ _ => rfl⟩ ?_
  refine .cons ⟨rfl, hdocs.lawful_part (fun _ => rfl) fun _ _ => rfl⟩ ?_
  exact .cons ⟨rfl, htypes.lawful_part (fun _ => rfl) fun _ _ => rfl⟩ .nil

/-! ## Records by their values -/

/-- A record is told by what is listed, where nothing that is listed is a table. -/
structure Tells {R : Type} (names : R → List (String × Toml)) : Prop where
  keys : ∀ r r', (names r).map (·.1) = (names r').map (·.1)
  nodup : ∀ r, ((names r).map (·.1)).Nodup
  leaves : ∀ r, ∀ e ∈ names r, e.2.isTable = false
  injective : Function.Injective names

theorem Tells.eq_of_leaf? {R : Type} {names : R → List (String × Toml)} (h : Tells names) {r r' : R}
    (heq : ∀ path, (Toml.table (names r)).leaf? path = (Toml.table (names r')).leaf? path) :
    r = r' :=
  h.injective (Toml.eq_of_leaf? (h.keys r r') (h.nodup r) (h.leaves r) (h.leaves r') heq)

theorem sections_told : Tells BindingTags.names ∧ Tells WebTags.names ∧ Tells MetadataTags.names ∧
    Tells DocTagNames.names ∧ Tells WellKnownTypes.names := by
  have hstrs : Function.Injective (List.map Toml.str) :=
    List.map_injective_iff.mpr fun _ _ => Toml.str.inj
  refine ⟨?_, ?_, ?_, ?_, ?_⟩
  all_goals
    refine ⟨fun _ _ => rfl, fun _ => ?_, fun _ => ?_, ?_⟩
    · simp [BindingTags.names, WebTags.names, MetadataTags.names, DocTagNames.names,
        WellKnownTypes.names]
    · simp [BindingTags.names, WebTags.names, MetadataTags.names, DocTagNames.names,
        WellKnownTypes.names, Toml.isTable]
    · rintro ⟨⟩ ⟨⟩ h
      simpa [BindingTags.names, WebTags.names, MetadataTags.names, DocTagNames.names,
        WellKnownTypes.names, hstrs.eq_iff] using h

theorem Vocabulary.eq_of_leaf? {v v' : Vocabulary}
    (h : ∀ path, (Toml.table v.names).leaf? path = (Toml.table v'.names).leaf? path) : v = v' := by
  obtain ⟨hbinding, hweb, hmetadata, hdocs, htypes⟩ := sections_told
  obtain ⟨binding, web, metadata, docs, types⟩ := v
  obtain ⟨binding', web', metadata', docs', types'⟩ := v'
  obtain rfl : binding = binding' := hbinding.eq_of_leaf? fun path => h ("binding" :: path)
  obtain rfl : web = web' := hweb.eq_of_leaf? fun path => h ("web" :: path)
  obtain rfl : metadata = metadata' := hmetadata.eq_of_leaf? fun path => h ("metadata" :: path)
  obtain rfl : docs = docs' := hdocs.eq_of_leaf? fun path => h ("docs" :: path)
  obtain rfl : types = types' := htypes.eq_of_leaf? fun path => h ("types" :: path)
  rfl

/-! ## Configurations -/

namespace Configuration

/-- The names of a configuration. There is no default policy. -/
def names (config : Configuration) : List (String × Toml) :=
  (config.accessPolicy.toList.map fun policy => ("access_policy", .str policy.name)) ++
    [("vocabulary", .table config.vocabulary.names)]

/-- The value that a configuration has under a path of keys. -/
def leaf? (config : Configuration) (path : List String) : Option Toml :=
  (Toml.table config.names).leaf? path

/-- Every name that a configuration may have, with a value of its kind. -/
def allNames : List (String × Toml) :=
  [("access_policy", .str ""), ("vocabulary", .table ({} : Vocabulary).names)]

end Configuration

namespace Toml

/-- The vocabulary and its sections are tables and the policy is a string, where they are given. -/
structure LaidOut (t : Toml) : Prop where
  tables : t.Layered (.table Configuration.allNames)
  policy : ∀ value, t.get? ["access_policy"] = some value → ∃ text, value = .str text

/-- Every key is known, every name has a value of the kind of its default, and the policy is one. -/
structure IsConfiguration (t : Toml) : Prop where
  fits : t.Fits (.table Configuration.allNames)
  policy : ∀ value, t.get? ["access_policy"] = some value →
    ∃ policy : AccessPolicy, value = .str policy.name

theorem IsConfiguration.laidOut {t : Toml} (h : t.IsConfiguration) : t.LaidOut where
  tables := h.fits.layered
  policy := by
    intro value hvalue
    obtain ⟨policy, rfl⟩ := h.policy value hvalue
    exact ⟨policy.name, rfl⟩

/-- A union of two configurations is one. -/
theorem IsConfiguration.union {t u : Toml} (ht : t.IsConfiguration) (hu : u.IsConfiguration) :
    (t.union u).IsConfiguration where
  fits := ht.fits.union hu.fits
  policy := by
    intro value hvalue
    obtain ⟨entries, rfl⟩ := ht.fits.layered.eq_table
    obtain ⟨others, rfl⟩ := hu.fits.layered.eq_table
    rcases get?_union_cons entries others "access_policy" [] with
      ⟨-, heq⟩ | ⟨-, heq⟩ | ⟨t, u, hentry, -, heq⟩
    · exact hu.policy value (heq ▸ hvalue)
    · exact ht.policy value (heq ▸ hvalue)
    · obtain ⟨policy, rfl⟩ := ht.policy t (get?_table_singleton.trans hentry)
      rw [heq, union_of_isTable_eq_false rfl, get?_nil, Option.some.injEq] at hvalue
      exact ⟨policy, hvalue.symm⟩

end Toml

theorem AccessPolicy.ofName?_eq_some_iff {name : String} {policy : AccessPolicy} :
    ofName? name = some policy ↔ policy.name = name := by
  constructor
  · intro h
    simpa using List.find?_some h
  · rintro rfl
    cases policy <;> rfl

theorem Configuration.lookup_names (config : Configuration) (key : String) :
    config.names.lookup key =
      if key = "access_policy" then config.accessPolicy.map fun policy => .str policy.name
      else if key = "vocabulary" then some (.table config.vocabulary.names)
      else none := by
  have hne : "access_policy" ≠ "vocabulary" := by decide
  unfold names
  cases config.accessPolicy with
  | none =>
    rw [Option.toList_none, List.map_nil, List.nil_append, Tag.lookup_cons_eq_ite]
    by_cases hkey : key = "access_policy"
    · rw [if_pos hkey, hkey, if_neg hne]
      rfl
    · rw [if_neg hkey]
      rfl
  | some policy =>
    rw [Option.toList_some, List.map_singleton, List.singleton_append, Tag.lookup_cons_eq_ite,
      Tag.lookup_cons_eq_ite]
    rfl

/-- The policy is taken where it is the exact name of one. -/
theorem AccessPolicy.takes (text : String) : Takes Configuration.settings Configuration.names
    (∃ policy : AccessPolicy, Toml.str text = .str policy.name) "access_policy" (.str text) where
  exists_take?_iff := by
    intro config
    constructor
    · rintro ⟨config', htake⟩
      obtain ⟨policy, hpolicy, -⟩ := Option.map_eq_some_iff.mp htake
      exact ⟨policy, congrArg Toml.str (ofName?_eq_some_iff.mp hpolicy).symm⟩
    · rintro ⟨policy, htext⟩
      have hpolicy : ofName? text = some policy := ofName?_eq_some_iff.mpr (Toml.str.inj htext).symm
      exact ⟨_, Option.map_eq_some_iff.mpr ⟨policy, hpolicy, rfl⟩⟩
  leaf?_take? := by
    intro config config' htake other path
    obtain ⟨policy, hpolicy, rfl⟩ := Option.map_eq_some_iff.mp htake
    obtain rfl := ofName?_eq_some_iff.mp hpolicy
    rw [Toml.leaf?_table_cons, Toml.leaf?_table_cons, Configuration.lookup_names,
      Configuration.lookup_names]
    by_cases hother : other = "access_policy"
    · rw [if_pos hother, if_pos hother, if_pos hother]
      cases path with
      | nil => rfl
      | cons key path => cases config.accessPolicy <;> rfl
    · rw [if_neg hother, if_neg hother, if_neg hother, Option.none_or]

/-- The vocabulary is taken where it fits the default one. -/
theorem Vocabulary.takes {value : Toml} (hdistinct : value.Distinct)
    (hlayered : value.Layered (.table ({} : Vocabulary).names)) :
    Takes Configuration.settings Configuration.names
      (value.Fits (.table ({} : Vocabulary).names)) "vocabulary" value := by
  have hlawful : (part "vocabulary" Vocabulary.settings Configuration.vocabulary
      fun config vocabulary => { config with vocabulary }).Lawful Configuration.names
        (.table ({} : Vocabulary).names) := by
    refine Vocabulary.spells.lawful_part ?_ ?_
    · rintro ⟨policy, vocabulary⟩
      cases policy <;> rfl
    · rintro ⟨policy, vocabulary⟩ part
      cases policy <;> rfl
  exact hlawful.takes rfl hdistinct hlayered

namespace Configuration

/-- A key of a configuration, with a value that it may have. -/
def Admits (key : String) (value : Toml) : Prop :=
  (key = "access_policy" ∧ ∃ policy : AccessPolicy, value = .str policy.name) ∨
    (key = "vocabulary" ∧ value.Fits (.table ({} : Vocabulary).names))

variable {t u : Toml} {entries : List (String × Toml)} {config : Configuration}

/-- A table is a configuration iff each of its entries is admitted. -/
theorem isConfiguration_iff (hnodup : (entries.map (·.1)).Nodup) :
    (Toml.table entries).IsConfiguration ↔ ∀ e ∈ entries, Admits e.1 e.2 := by
  constructor
  · rintro ⟨hfits, hpolicy⟩ ⟨key, value⟩ he
    have hlookup : entries.lookup key = some value := (Tag.lookup_eq_some_iff_mem hnodup).mpr he
    obtain ⟨default, hdefault, hvalue⟩ := Toml.fits_table_iff.mp hfits key value hlookup
    rw [allNames, Tag.lookup_cons_eq_ite, Tag.lookup_cons_eq_ite] at hdefault
    by_cases hkey : key = "access_policy"
    · subst hkey
      exact .inl ⟨rfl, hpolicy value (Toml.get?_table_singleton.trans hlookup)⟩
    · rw [if_neg hkey] at hdefault
      by_cases hkey : key = "vocabulary"
      · rw [if_pos hkey, Option.some.injEq] at hdefault
        exact .inr ⟨hkey, hdefault ▸ hvalue⟩
      · rw [if_neg hkey] at hdefault
        cases hdefault
  · intro h
    constructor
    · rw [Toml.fits_table_iff]
      intro key value hlookup
      rcases h (key, value) (Tag.mem_of_lookup_eq_some hlookup) with
        ⟨rfl, policy, rfl⟩ | ⟨rfl, hfits⟩
      · exact ⟨_, rfl, (Toml.fits_iff_of_isTable_eq_false rfl).mpr (.str policy.name "")⟩
      · exact ⟨_, rfl, hfits⟩
    · intro value hvalue
      rw [Toml.get?_table_singleton] at hvalue
      rcases h _ (Tag.mem_of_lookup_eq_some hvalue) with ⟨-, hpolicy⟩ | ⟨hkey, -⟩
      · exact hpolicy
      · have hne : "access_policy" ≠ "vocabulary" := by decide
        exact absurd hkey hne

theorem takes_entries (hdistinct : (Toml.table entries).Distinct)
    (hlaid : (Toml.table entries).LaidOut) :
    ∀ e ∈ entries, Takes settings names (Admits e.1 e.2) e.1 e.2 := by
  obtain ⟨hnodup, hentries⟩ := Toml.distinct_table_iff.mp hdistinct
  rintro ⟨key, value⟩ he
  have hlookup : entries.lookup key = some value := (Tag.lookup_eq_some_iff_mem hnodup).mpr he
  by_cases hpolicy : key = "access_policy"
  · subst hpolicy
    obtain ⟨text, rfl⟩ := hlaid.policy value (Toml.get?_table_singleton.trans hlookup)
    exact (AccessPolicy.takes text).congr (by simp [Admits])
  · by_cases hvocabulary : key = "vocabulary"
    · subst hvocabulary
      have hlayered := Toml.layered_table_iff.mp hlaid.tables "vocabulary" value _ hlookup rfl
      exact (Vocabulary.takes (hentries _ he) hlayered).congr (by simp [Admits])
    · refine (takes_of_find?_eq_none ?_).congr ?_
      · simp [settings, AccessPolicy.setting, part, Ne.symm hpolicy, Ne.symm hvocabulary]
      · simp [Admits, hpolicy, hvocabulary]

/-- A table reads as a configuration iff its keys and values are those of one. -/
theorem exists_ofToml?_iff (hdistinct : t.Distinct) (hlaid : t.LaidOut) :
    (∃ config, ofToml? t = some config) ↔ t.IsConfiguration := by
  obtain ⟨entries, rfl⟩ := hlaid.tables.eq_table
  rw [isConfiguration_iff (Toml.distinct_table_iff.mp hdistinct).1]
  exact exists_overlay?_iff (takes_entries hdistinct hlaid) {}

/-- A configuration has what its table gives, and otherwise the defaults. -/
theorem leaf?_of_ofToml? (hdistinct : t.Distinct) (hlaid : t.LaidOut)
    (h : ofToml? t = some config) (path : List String) :
    config.leaf? path = (t.leaf? path).or (({} : Configuration).leaf? path) := by
  obtain ⟨entries, rfl⟩ := hlaid.tables.eq_table
  exact leaf?_overlay? (takes_entries hdistinct hlaid) (Toml.distinct_table_iff.mp hdistinct).1 h path

theorem leaf?_policy : config.leaf? ["access_policy"] =
    config.accessPolicy.map fun policy => .str policy.name := by
  rw [leaf?, Toml.leaf?_table_cons, lookup_names, if_pos rfl]
  cases config.accessPolicy <;> rfl

theorem leaf?_vocabulary (path : List String) :
    config.leaf? ("vocabulary" :: path) = (Toml.table config.vocabulary.names).leaf? path := by
  rw [leaf?, Toml.leaf?_table_cons, lookup_names]
  rfl

/-- A configuration is told by the values that it has. -/
theorem eq_of_leaf? {config config' : Configuration}
    (h : ∀ path, config.leaf? path = config'.leaf? path) : config = config' := by
  have hnames : Function.Injective fun policy : AccessPolicy => Toml.str policy.name := by
    intro policy policy' hname
    have hpolicy := AccessPolicy.ofName?_eq_some_iff.mpr (Toml.str.inj hname)
    rw [AccessPolicy.ofName?_eq_some_iff.mpr rfl] at hpolicy
    exact (Option.some.inj hpolicy).symm
  have hpolicy := h ["access_policy"]
  rw [leaf?_policy, leaf?_policy] at hpolicy
  have hvocabulary : config.vocabulary = config'.vocabulary := by
    refine Vocabulary.eq_of_leaf? fun path => ?_
    rw [← leaf?_vocabulary, ← leaf?_vocabulary, h]
  cases config
  cases config'
  exact congrArg₂ mk (Option.map_injective hnames hpolicy) hvocabulary

/-- A table reads as the configuration that has what the table gives, and otherwise the defaults. -/
theorem ofToml?_eq_some_iff (hdistinct : t.Distinct) (hlaid : t.LaidOut) :
    ofToml? t = some config ↔ t.IsConfiguration ∧
      ∀ path, config.leaf? path = (t.leaf? path).or (({} : Configuration).leaf? path) := by
  constructor
  · intro h
    exact ⟨(exists_ofToml?_iff hdistinct hlaid).mp ⟨config, h⟩, leaf?_of_ofToml? hdistinct hlaid h⟩
  · rintro ⟨hconfiguration, hleaf⟩
    obtain ⟨config', h⟩ := (exists_ofToml?_iff hdistinct hlaid).mpr hconfiguration
    have heq : config' = config := eq_of_leaf? fun path => by
      rw [leaf?_of_ofToml? hdistinct hlaid h, hleaf]
    rw [h, heq]

/-- The same of the table of a text, the keys of which are always distinct. -/
theorem parse_eq_ok_iff {text : String} (htext : Toml.parse? text = some t) (hlaid : t.LaidOut) :
    parse text = .ok config ↔ t.IsConfiguration ∧
      ∀ path, config.leaf? path = (t.leaf? path).or (({} : Configuration).leaf? path) := by
  rw [← ofToml?_eq_some_iff (Toml.distinct_of_parse? htext) hlaid, parse, htext, Option.bind_some]
  cases ofToml? t with
  | none => exact ⟨nofun, nofun⟩
  | some config' =>
    constructor
    · intro h
      exact congrArg some (Except.ok.inj h)
    · intro h
      exact congrArg Except.ok (Option.some.inj h)

/-- **Configurations replace defaults name by name.** Let the keys of a table be distinct, its vocabulary
and its sections be tables and its policy be a string, where they are given. It reads as a configuration
iff it has known keys alone, values of the kind of the defaults and the name of a policy. The
configuration has what the table gives, and otherwise the defaults. If two tables that give no name twice
read as configurations, their union does so too, and takes each name from the table that gives it. The keys
of the table of a text are always distinct, so all this holds of configurations given as texts. -/
theorem ofToml?_replaces_defaults (hdistinct : t.Distinct) (hlaid : t.LaidOut) :
    ((∃ config, ofToml? t = some config) ↔ t.IsConfiguration) ∧
    (∀ config, ofToml? t = some config ↔ t.IsConfiguration ∧
      ∀ path, config.leaf? path = (t.leaf? path).or (({} : Configuration).leaf? path)) ∧
    (∀ u : Toml, u.Distinct → u.LaidOut → t.Disjoint u → ∀ c c', ofToml? t = some c →
      ofToml? u = some c' → ∃ config, ofToml? (t.union u) = some config ∧
        (∀ path, t.leaf? path ≠ none → config.leaf? path = c.leaf? path) ∧
        (∀ path, u.leaf? path ≠ none → config.leaf? path = c'.leaf? path) ∧
        ∀ path, t.leaf? path = none → u.leaf? path = none →
          config.leaf? path = ({} : Configuration).leaf? path) ∧
    ∀ text u, Toml.parse? text = some u → u.Distinct ∧
      (u.LaidOut → ∀ config, parse text = .ok config ↔ u.IsConfiguration ∧
        ∀ path, config.leaf? path = (u.leaf? path).or (({} : Configuration).leaf? path)) := by
  refine ⟨exists_ofToml?_iff hdistinct hlaid,
    fun config => ofToml?_eq_some_iff hdistinct hlaid, ?_, fun text u htext =>
    ⟨Toml.distinct_of_parse? htext, fun hlaid' config => parse_eq_ok_iff htext hlaid'⟩⟩
  intro u hdistinct' hlaid' hdisjoint c c' hc hc'
  have ht : t.IsConfiguration := (exists_ofToml?_iff hdistinct hlaid).mp ⟨c, hc⟩
  have hu : u.IsConfiguration := (exists_ofToml?_iff hdistinct' hlaid').mp ⟨c', hc'⟩
  have hunion := ht.union hu
  obtain ⟨config, hconfig⟩ :=
    (exists_ofToml?_iff (hdistinct.union hdistinct') hunion.laidOut).mpr hunion
  have hleaf : ∀ path, config.leaf? path =
      ((t.leaf? path).or (u.leaf? path)).or (({} : Configuration).leaf? path) := by
    intro path
    rw [leaf?_of_ofToml? (hdistinct.union hdistinct') hunion.laidOut hconfig,
      ht.fits.leaf?_union hu.fits]
  refine ⟨config, hconfig, fun path hpath => ?_, fun path hpath => ?_, fun path hnone hnone' => ?_⟩
  · have hnone : u.leaf? path = none := (hdisjoint path).resolve_left hpath
    rw [hleaf, hnone, Option.or_none, leaf?_of_ofToml? hdistinct hlaid hc]
  · have hnone : t.leaf? path = none := (hdisjoint path).resolve_right hpath
    rw [hleaf, hnone, Option.none_or, leaf?_of_ofToml? hdistinct' hlaid' hc']
  · rw [hleaf, hnone, hnone', Option.none_or, Option.none_or]

end Configuration

/-- A table with a policy and the name of a documentation tag. -/
def policyTable : Toml :=
  .table [("access_policy", .str "FIELD"),
    ("vocabulary", .table [("docs", .table [("status", .str "ResponseCode")])])]

/-- A text of this table. -/
def policyText : String :=
  "access_policy = \"FIELD\"\nvocabulary.docs.status = \"ResponseCode\""

/-- A table with the name of another documentation tag and a list of types. -/
def typesTable : Toml :=
  .table [("vocabulary", .table [("types", .table [("void_types", .arr [.str "kotlin.Unit"])]),
    ("docs", .table [("warning", .str "ResponseWarning")])])]

theorem policyTable_isConfiguration : policyTable.IsConfiguration := by
  refine (Configuration.isConfiguration_iff (by decide)).mpr ?_
  have hdocs : (Toml.table [("status", .str "ResponseCode")]).Fits (.table ({} : DocTagNames).names) :=
    Toml.fits_table_of_forall <| List.forall_mem_singleton.mpr
      ⟨_, rfl, (Toml.fits_iff_of_isTable_eq_false rfl).mpr (.str _ _)⟩
  refine List.forall_mem_cons.mpr ⟨.inl ⟨rfl, .field, rfl⟩, List.forall_mem_singleton.mpr ?_⟩
  exact .inr ⟨rfl, Toml.fits_table_of_forall <| List.forall_mem_singleton.mpr ⟨_, rfl, hdocs⟩⟩

theorem typesTable_isConfiguration : typesTable.IsConfiguration := by
  refine (Configuration.isConfiguration_iff (by decide)).mpr ?_
  have htypes : (Toml.table [("void_types", .arr [.str "kotlin.Unit"])]).Fits
      (.table ({} : WellKnownTypes).names) :=
    Toml.fits_table_of_forall <| List.forall_mem_singleton.mpr
      ⟨_, rfl, (Toml.fits_iff_of_isTable_eq_false rfl).mpr (.strs ["kotlin.Unit"] _)⟩
  have hdocs : (Toml.table [("warning", .str "ResponseWarning")]).Fits
      (.table ({} : DocTagNames).names) :=
    Toml.fits_table_of_forall <| List.forall_mem_singleton.mpr
      ⟨_, rfl, (Toml.fits_iff_of_isTable_eq_false rfl).mpr (.str _ _)⟩
  refine List.forall_mem_singleton.mpr (.inr ⟨rfl, Toml.fits_table_of_forall ?_⟩)
  exact List.forall_mem_cons.mpr ⟨⟨_, rfl, htypes⟩, List.forall_mem_singleton.mpr ⟨_, rfl, hdocs⟩⟩

theorem policyTable_disjoint : policyTable.Disjoint typesTable := by
  refine Toml.disjoint_table_of_forall (List.forall_mem_cons.mpr
    ⟨nofun, List.forall_mem_singleton.mpr ?_⟩)
  rintro _ ⟨⟩
  refine Toml.disjoint_table_of_forall (List.forall_mem_singleton.mpr ?_)
  rintro _ ⟨⟩
  exact Toml.disjoint_table_of_forall (List.forall_mem_singleton.mpr nofun)

/-- Each of two tables gives the name of a documentation tag, and their union gives both. The first one is
also given as a text. -/
theorem policyTable_typesTable_read : ∃ c c' config,
    Configuration.ofToml? policyTable = some c ∧ Configuration.ofToml? typesTable = some c' ∧
    Toml.parse? policyText = some policyTable ∧ Configuration.parse policyText = .ok c ∧
    Configuration.ofToml? (policyTable.union typesTable) = some config ∧
    config.leaf? ["vocabulary", "docs", "status"] = c.leaf? ["vocabulary", "docs", "status"] ∧
    config.leaf? ["vocabulary", "docs", "warning"] = c'.leaf? ["vocabulary", "docs", "warning"] ∧
    config = { accessPolicy := some .field
               vocabulary := { docs := { status := "ResponseCode", warning := "ResponseWarning" }
                               types := { voidTypes := ["kotlin.Unit"] } } } := by
  have hdistinct : policyTable.Distinct := by simp [policyTable, Toml.distinct_table_iff]
  have hdistinct' : typesTable.Distinct := by simp [typesTable, Toml.distinct_table_iff]
  have hlaid : policyTable.LaidOut := policyTable_isConfiguration.laidOut
  have hlaid' : typesTable.LaidOut := typesTable_isConfiguration.laidOut
  have htext : Toml.parse? policyText = some policyTable := by
    rw [Toml.parse?, show policyText.toList = _ from String.toList_ofList]
    with_unfolding_all rfl
  obtain ⟨hiff, hreads, hunion, hparse⟩ := Configuration.ofToml?_replaces_defaults hdistinct hlaid
  obtain ⟨c, hc⟩ := hiff.mpr policyTable_isConfiguration
  obtain ⟨c', hc'⟩ :=
    (Configuration.ofToml?_replaces_defaults hdistinct' hlaid').1.mpr typesTable_isConfiguration
  obtain ⟨config, hconfig, hleft, hright, -⟩ :=
    hunion typesTable hdistinct' hlaid' policyTable_disjoint c c' hc hc'
  have hparsed : Configuration.parse policyText = .ok c :=
    ((hparse _ _ htext).2 hlaid c).mpr ((hreads c).mp hc)
  exact ⟨c, c', config, hc, hc', htext, hparsed, hconfig, hleft _ nofun, hright _ nofun,
    Option.some.inj (hconfig.symm.trans rfl)⟩

end ApiDescription
