import ApiDescription.CommandLine.Program
import ApiDescription.Proofs.CommandLine.Directories
import ApiDescription.Proofs.Form.Surfaces
import ApiDescription.Proofs.Json.Unambiguity
import ApiDescription.Proofs.Synthesis.Batch
import ApiDescription.Proofs.Synthesis.Outcome

/-!
# Runs of the program

A run that has a configuration with a policy and a document that is a model cannot fail any more but by
writing. Its surface goes to standard output or to a file, also if handlers have no description; these
show in the exit code and among the failures of the surface, and nowhere else.

Results:
* `run_loadConfiguration`, `run_loadSurface`: what a run makes of the files it reads.
* `run_execute_stdout`, `run_execute_file`: where the surface goes.
* `spells_render_iff`, `ofJson?_surface`: the value that the written text spells, and what it tells.
* `batch_accounted`: what a batch comes to, from its descriptions to the exit code.
-/

namespace ApiDescription

open scoped List

namespace CommandLine

/-- What a run has to work with: a configuration with a policy, and a document whose declarations form a
model. -/
structure Usable (dir : Directory) (options : Options) (config : Configuration)
    (document : Document) (model : Model) : Prop where
  configured : (∃ path text, options.config = some path ∧ dir.read path = .ok text ∧
      configuration? options (some text) = some config) ∨
    options.config = none ∧ configuration? options none = some config
  policy : config.accessPolicy.isSome
  parsed : ∃ text, dir.read options.model = .ok text ∧ Document.parse? text = some document
  valid : document.model = .ok model

variable {dir : Directory} {options : Options} {config : Configuration} {document : Document}
  {model : Model} {surface : ApiSurface}

/-! ## Steps -/

/-- Runs a part of the program on a directory. -/
def runOn {α : Type} (x : ExceptT Problem (StateM Directory) α) (dir : Directory) :
    Except Problem α × Directory :=
  x.run.run dir

theorem runOn_bind {α β : Type} {x : ExceptT Problem (StateM Directory) α}
    {f : α → ExceptT Problem (StateM Directory) β} {a : α} {dir' : Directory}
    (h : runOn x dir = (.ok a, dir')) : runOn (x >>= f) dir = runOn (f a) dir' := by
  unfold runOn at h ⊢
  rw [ExceptT.run_bind, StateT.run_bind, h]
  rfl

theorem runOn_read (dir : Directory) (path : String) :
    runOn (liftM (Directory.access.read path)) dir = (.ok (dir.read path).toOption, dir) :=
  rfl

theorem runOn_write {dir' : Directory} {path text : String} (h : dir.write? path text = some dir') :
    runOn (liftM (Directory.access.write path text)) dir = (.ok true, dir') := by
  have hwrite : (Directory.access.write path text).run dir = (true, dir') := by
    simp only [Directory.access, StateT.run_modifyGet, h]
    rfl
  unfold runOn
  rw [ExceptT.run_liftM, StateT.run_map, hwrite]
  rfl

theorem run_loadConfiguration (h : Usable dir options config document model) :
    runOn (loadConfiguration Directory.access options) dir = (.ok config, dir) := by
  unfold loadConfiguration
  rcases h.configured with ⟨path, text, hpath, hread, hconfig⟩ | ⟨hnone, hconfig⟩
  · have hfile : runOn (liftM ((·.bind fun text => configuration? options (some text)) <$>
        Directory.access.read path)) dir = (.ok (some config), dir) := by
      have hrun : runOn (liftM ((·.bind fun text => configuration? options (some text)) <$>
          Directory.access.read path)) dir =
            (.ok ((dir.read path).toOption.bind fun text => configuration? options (some text)), dir) :=
        rfl
      rw [hrun, hread, Except.toOption, Option.bind_some, hconfig]
    rw [hpath]
    exact runOn_bind hfile
  · rw [hnone, hconfig]
    rfl

theorem run_loadSurface (h : Usable dir options config document model)
    (hrun : ApiSurface.run model document.handlers config = .ok surface) :
    runOn (loadSurface Directory.access options) dir = (.ok surface, dir) := by
  obtain ⟨text, hread, hparse⟩ := h.parsed
  have hsurface : surfaceOf options config text = .ok surface := by
    simp only [surfaceOf, hparse, h.valid, hrun]
  unfold loadSurface
  rw [runOn_bind (run_loadConfiguration h), runOn_bind (runOn_read dir options.model), hread]
  simp only [Except.toOption, hsurface]
  rfl

theorem run_execute_stdout (hload : runOn (loadSurface Directory.access options) dir = (.ok surface, dir))
    (hout : options.out = none) :
    runOn (execute Directory.access options) dir =
      (.ok (.ofSurface surface (render surface) (logOf surface)), dir) := by
  unfold execute
  rw [runOn_bind hload, hout]
  rfl

theorem run_execute_file {path : String} {dir' : Directory}
    (hload : runOn (loadSurface Directory.access options) dir = (.ok surface, dir))
    (hout : options.out = some path) (hwrite : dir.write? path (render surface) = some dir') :
    runOn (execute Directory.access options) dir =
      (.ok (.ofSurface surface ""
        (logOf surface ++ "log: surface written: " ++ path ++ "\n")), dir') := by
  unfold execute
  rw [runOn_bind hload, hout]
  rw [runOn_bind (runOn_write hwrite)]
  rfl

theorem run_program {arguments : List String} {outcome : Outcome} {dir' : Directory}
    (hparse : Options.parse? arguments = some options)
    (hexecute : runOn (execute Directory.access options) dir = (.ok outcome, dir')) :
    (program Directory.access arguments).run dir = (outcome, dir') := by
  unfold program
  unfold runOn at hexecute
  rw [hparse]
  simp only [StateT.run_bind, hexecute]
  rfl

/-- A run that cannot fail before it writes produces a surface of the handlers of its document. -/
theorem exists_run (h : Usable dir options config document model) :
    ∃ s surface, Synthesizer.ofConfiguration model config = .ok s ∧
      surface.report = s.describeAll document.handlers ∧
      SchemaNamespace.assembleSchema s.filter model = .ok surface.namespaces ∧
      ApiSurface.run model document.handlers config = .ok surface := by
  cases hrun : ApiSurface.run model document.handlers config with
  | error e =>
    have hpolicy := h.policy
    rw [(ApiSurface.run_eq_error_iff.mp hrun).1] at hpolicy
    cases hpolicy
  | ok surface =>
    obtain ⟨s, hs, hreport, hspaces⟩ := ApiSurface.run_eq_ok_iff.mp hrun
    exact ⟨s, surface, hs, hreport, hspaces, rfl⟩

theorem exitCode_ofSurface (surface : ApiSurface) (stdout log : String) :
    (Outcome.ofSurface surface stdout log).exitCode =
      if surface.report.failures = [] then 0 else 1 := by
  simp only [Outcome.ofSurface, SynthesisReport.allSucceeded, List.isEmpty_iff]

/-- What is written for a surface spells its document and no other value. -/
theorem spells_render_iff {value : Json} :
    value.Spells (render surface).toList ↔ value = surface.toJson := by
  have hline : Json.IsBlank ['\n'] := List.forall_mem_singleton.mpr (by decide)
  have hspells : surface.toJson.Spells (render surface).toList := by
    have htext := (Json.spells_pretty surface.plain_toJson).blank Json.isBlank_nil hline
    rwa [List.nil_append, ← String.toList_singleton, ← String.toList_append] at htext
  constructor
  · exact fun hvalue => hvalue.unique hspells
  · rintro rfl
    exact hspells

/-- The document of a surface tells the report of the batch that it comes from. -/
theorem ofJson?_surface {s : Synthesizer} {handlers : List Handler}
    (hreport : surface.report = s.describeAll handlers) :
    ShownReport.ofJson? surface.toJson =
      some ⟨surface.report.descriptors, surface.report.diagnostics,
        surface.report.failures.map SynthesisError.message⟩ := by
  refine ShownReport.ofJson?_toJson fun r hr => ?_
  obtain ⟨handler, -, hdescribe⟩ := (Synthesizer.mem_descriptors_iff s).mp (hreport ▸ hr)
  exact Synthesizer.keyed_of_describe hdescribe

end CommandLine

open CommandLine Synthesizer SynthesisReport in
/-- **What a batch comes to.** The result of every further handler goes to the end of one of the lists of
the report. So the descriptors and the failures of a batch are the results of its handlers of either sort,
in the order of the handlers, and every handler has its place in one of the lists. What a handler results
in goes between the reports of those before it and those after it, and these are the same without it;
rearranging the handlers rearranges the results.

A run of the program with arguments in order, whose configuration, policy and document can be used and
whose output can be written, ends with the surface of its handlers written, whatever failed. The written
text spells one JSON value. Who reads that value by its keys gets the descriptors, the notes of all of
them, and for every failure a text that begins with its handler, in order. The exit code is 0 if nothing
failed, and 1 otherwise. -/
theorem batch_accounted :
    (∀ (s : Synthesizer) (handlers : List Handler),
      (∀ handler, s.describeAll (handlers ++ [handler]) =
        (s.describeAll handlers).push (s.describe handler)) ∧
      (s.describeAll handlers).descriptors.map .ok = (handlers.map s.describe).filter (·.isOk) ∧
      (s.describeAll handlers).failures.map .error = (handlers.map s.describe).filter (!·.isOk) ∧
      (s.describeAll handlers).descriptors.length + (s.describeAll handlers).failures.length =
        handlers.length ∧
      (∀ before handler after, handlers = before ++ handler :: after →
        s.describeAll handlers =
          s.describeAll before ++ s.describeAll [handler] ++ s.describeAll after ∧
        s.describeAll (before ++ after) = s.describeAll before ++ s.describeAll after) ∧
      ∀ handlers', handlers' ~ handlers →
        (s.describeAll handlers').descriptors ~ (s.describeAll handlers).descriptors ∧
          (s.describeAll handlers').failures ~ (s.describeAll handlers).failures) ∧
    ∀ dir arguments options config document model,
      Options.parse? arguments = some options → Usable dir options config document model →
      (∀ path, options.out = some path → ∃ names, dir.LeadsTo path names) →
      ∃ (s : Synthesizer) (surface : ApiSurface) (outcome : Outcome) (dir' : Directory) (text : String)
        (value : Json),
        Synthesizer.ofConfiguration model config = .ok s ∧
        surface.report = s.describeAll document.handlers ∧
        SchemaNamespace.assembleSchema s.filter model = .ok surface.namespaces ∧
        (program Directory.access arguments).run dir = (outcome, dir') ∧
        (outcome.exitCode = if surface.report.failures = [] then 0 else 1) ∧
        (options.out = none → outcome.stdout = text ∧ dir' = dir) ∧
        (∀ path, options.out = some path → dir'.read path = .ok text) ∧
        (∀ w : Json, w.Spells text.toList ↔ w = value) ∧
        ShownReport.ofJson? value = some
          { descriptors := surface.report.descriptors
            diagnostics := surface.report.descriptors.flatMap (·.diagnostics)
            failures := surface.report.failures.map SynthesisError.message } ∧
        (∀ e ∈ surface.report.failures, e.handler.toList <+: e.message.toList) ∧
        value = .obj
          [("resource_methods", .arr (surface.report.descriptors.map Descriptor.toJson)),
            ("namespaces", .arr (surface.namespaces.map (SchemaNamespace.toJson fun _ => true))),
            ("diagnostics",
              .arr ((surface.report.descriptors.flatMap (·.diagnostics)).map Diagnostic.toJson)),
            ("failures", Json.strings (surface.report.failures.map SynthesisError.message))] ∧
        text = value.pretty ++ "\n" := by
  constructor
  · intro s handlers
    refine ⟨describeAll_concat s handlers, ?_, ?_, length_describeAll s handlers, ?_,
      fun handlers' hperm => describeAll_perm s hperm⟩
    · rw [describeAll_eq, map_ok_descriptors]
    · rw [describeAll_eq, map_error_failures]
    · rintro before handler after rfl
      refine ⟨?_, describeAll_append s before after⟩
      rw [describeAll_append, ← List.singleton_append, describeAll_append, ← append_assoc]
  · intro dir arguments options config document model hparse husable hout
    obtain ⟨s, surface, hs, hreport, hspaces, hrun⟩ := exists_run husable
    have hload := run_loadSurface husable hrun
    have hshown := ofJson?_surface hreport
    have hbegins : ∀ e ∈ surface.report.failures, e.handler.toList <+: e.message.toList :=
      fun e _ => e.handler_begins_message
    cases ho : options.out with
    | none =>
      exact ⟨s, surface, _, dir, render surface, _, hs, hreport, hspaces,
        run_program hparse (run_execute_stdout hload ho), exitCode_ofSurface _ _ _,
        fun _ => ⟨rfl, rfl⟩, nofun, fun _ => spells_render_iff, hshown, hbegins, rfl, rfl⟩
    | some path =>
      obtain ⟨dir', hwrite⟩ := Directory.exists_write?_iff.mpr (hout path ho)
      refine ⟨s, surface, _, dir', render surface, _, hs, hreport, hspaces,
        run_program hparse (run_execute_file hload ho hwrite), exitCode_ofSurface _ _ _,
        nofun, fun path' hpath => ?_, fun _ => spells_render_iff, hshown, hbegins, rfl, rfl⟩
      obtain rfl := Option.some.inj hpath
      exact Directory.read_write? hwrite

namespace CommandLine

/-- The lines of a document with the methods `place` and `list` and a parameter. The type hint of `place`
names a type that is not there. Of the handlers one is unknown, one is a parameter, and one has an
unknown ancestor. -/
def ordersLines : List String :=
  ["\x7b\"declarations\":[\x7b\"name\":\"place\",\"kind\":\"method\",\"parameters\":[2],",
    "\"declared_type\":[\"void\"],",
    "\"tags\":\x7b\"apisurface.rs.TypeHint\":[\x7b\"qualifiedName\":\"shop.Missing\"\x7d]\x7d\x7d,",
    "\x7b\"name\":\"list\",\"kind\":\"method\",\"declared_type\":[\"void\"]\x7d,",
    "\x7b\"name\":\"id\",\"kind\":\"parameter\",\"declared_type\":[\"primitive\",\"long\"]\x7d],",
    "\"handlers\":[[0],[7],[2],[1,[9]],[1]]\x7d"]

/-- The text of the document. -/
def ordersText : String :=
  .ofList (ordersLines.flatMap String.toList)

/-- A directory with the document. -/
def ordersDirectory : Directory :=
  ⟨NameMap.ofPairs [("model.json", ordersText)]⟩

/-- The note about the type hint of `place`. -/
def missingHint : Diagnostic where
  declaration := "method place"
  message := "type hint \x60shop.Missing\x60 does not resolve to a known type"

/-- The texts of the failures. -/
def ordersFailures : List String :=
  ["declaration #7: unknown declaration #7", "parameter id is not a method",
    "method list: unknown declaration #9"]

theorem exists_ordersReport : ∃ document model report, Document.parse? ordersText = some document ∧
    document.model = .ok model ∧
    Synthesizer.describeAll ⟨model, {}, ⟨.field, {}⟩⟩ document.handlers = report ∧
    report.descriptors.map (fun r => (r.handler, r.name, r.requestParameters.map (·.name))) =
      [(0, "place", ["id"]), (1, "list", [])] ∧
    report.diagnostics = [missingHint] ∧
    report.failures.map SynthesisError.message = ordersFailures := by
  have hlisted : ((Document.parse? ordersText).bind fun document =>
      document.model.toOption.map fun model =>
        let report := Synthesizer.describeAll ⟨model, {}, ⟨.field, {}⟩⟩ document.handlers
        (report.descriptors.map fun r => (r.handler, r.name, r.requestParameters.map (·.name)),
          report.diagnostics, report.failures.map SynthesisError.message)) =
      some ([(0, "place", ["id"]), (1, "list", [])], [missingHint], ordersFailures) := by
    rw [Document.parse?, Json.parse?, ordersText, String.toList_ofList]
    decide +kernel
  obtain ⟨document, hdocument, hrest⟩ := Option.bind_eq_some_iff.mp hlisted
  obtain ⟨model, hmodel, hparts⟩ := Option.map_eq_some_iff.mp hrest
  simp only [Prod.mk.injEq] at hparts
  exact ⟨document, model, _, hdocument, toOption_eq_some_iff.mp hmodel, rfl, hparts⟩

theorem exists_ordersOptions : ∃ options,
    Options.parse? ["--model", "model.json", "--policy=field", "--out", "api.json"] = some options ∧
    options.model = "model.json" ∧ options.config = none ∧ options.policy = some .field ∧
    options.out = some "api.json" := by
  have hparts : (Options.parse?
      ["--model", "model.json", "--policy=field", "--out", "api.json"]).map
        (fun o => (o.model, o.config, o.policy, o.out)) =
      some ("model.json", none, some .field, some "api.json") := by
    decide +kernel
  obtain ⟨options, hparse, hparts⟩ := Option.map_eq_some_iff.mp hparts
  simp only [Prod.mk.injEq] at hparts
  exact ⟨options, hparse, hparts⟩

/-- Descriptions and failures stand side by side in the written document. -/
theorem mixedBatch_accounted : ∃ outcome dir' text value descriptors,
    (program Directory.access ["--model", "model.json", "--policy=field", "--out", "api.json"]).run
      ordersDirectory = (outcome, dir') ∧
    outcome.exitCode = 1 ∧ dir'.read "api.json" = .ok text ∧
    (∀ w : Json, w.Spells text.toList ↔ w = value) ∧
    ShownReport.ofJson? value = some
      { descriptors, diagnostics := [missingHint], failures := ordersFailures } ∧
    descriptors.map (fun r => (r.handler, r.name, r.requestParameters.map (·.name))) =
      [(0, "place", ["id"]), (1, "list", [])] := by
  obtain ⟨options, hparse, hmodel, hconfig, hpolicy, hout⟩ := exists_ordersOptions
  obtain ⟨document, model, report, hdocument, hvalid, hbatch, hdescriptors, hdiagnostics, hfailures⟩ :=
    exists_ordersReport
  have hread : ordersDirectory.read options.model = .ok ordersText := hmodel ▸ rfl
  have hconfigured : configuration? options none = some { accessPolicy := some .field } := by
    rw [configuration?, hpolicy]
    rfl
  have husable : Usable ordersDirectory options { accessPolicy := some .field } document model :=
    ⟨.inr ⟨hconfig, hconfigured⟩, rfl, ⟨ordersText, hread, hdocument⟩, hvalid⟩
  have hwritable : ∀ path, options.out = some path →
      ∃ names, ordersDirectory.LeadsTo path names := by
    intro path hpath
    obtain rfl := Option.some.inj (hout.symm.trans hpath)
    have hwrite : (ordersDirectory.write? "api.json" "").isSome := by decide +kernel
    exact Directory.exists_write?_iff.mp (Option.isSome_iff_exists.mp hwrite)
  obtain ⟨s, surface, outcome, dir', text, value, hs, hreport, -, hrun, hexit, -, hfile, hspells,
    hshown, -⟩ := batch_accounted.2 _ _ _ _ _ _ hparse husable hwritable
  obtain ⟨policy, hfield, rfl⟩ := Synthesizer.ofConfiguration_eq_ok_iff.mp hs
  obtain rfl := Option.some.inj hfield
  obtain rfl := hreport.trans hbatch
  have hfailed : surface.report.failures ≠ [] := by
    intro hnone
    rw [hnone] at hfailures
    cases hfailures
  rw [SynthesisReport.diagnostics] at hdiagnostics
  rw [hfailures, hdiagnostics] at hshown
  exact ⟨outcome, dir', text, value, _, hrun, hexit.trans (if_neg hfailed), hfile _ hout, hspells,
    hshown, hdescriptors⟩

end CommandLine

end ApiDescription
