import ApiDescription.Synthesis

/-!
# Batches of handlers

A batch is described handler by handler, and each result goes to the end of one of two lists. So the
report of a batch is put together from the reports of its parts, whichever handlers fail in them, and it
accounts for every handler once.

Results:
* `foldl_push`, `describeAll_eq`: taking up the results one by one ends with the report of all of them.
* `map_ok_descriptors`, `map_error_failures`: its lists are the results of either sort, in order.
* `describeAll_append`: the report of a batch in two parts is made of their reports.
* `length_describeAll`: every handler has its place in one of the lists.
* `SynthesisError.handler_begins_message`: the text of a failure tells which handler failed.
* `describeAll_perm`: in another order a batch has the same results in another order.
-/

namespace ApiDescription

open scoped List

namespace SynthesisReport

/-- The results of one report, followed by those of another. -/
instance : Append SynthesisReport :=
  ⟨fun a b => ⟨a.descriptors ++ b.descriptors, a.failures ++ b.failures⟩⟩

@[simp] theorem descriptors_append (a b : SynthesisReport) :
    (a ++ b).descriptors = a.descriptors ++ b.descriptors :=
  rfl

@[simp] theorem failures_append (a b : SynthesisReport) :
    (a ++ b).failures = a.failures ++ b.failures :=
  rfl

/-- The report of a list of results. -/
def ofResults (results : List (Except SynthesisError Descriptor)) : SynthesisReport where
  descriptors := results.filterMap Except.toOption
  failures := results.filterMap fun
    | .ok _ => none
    | .error e => some e

theorem append_empty (report : SynthesisReport) : report ++ ({} : SynthesisReport) = report := by
  obtain ⟨descriptors, failures⟩ := report
  have hlists : (⟨descriptors ++ [], failures ++ []⟩ : SynthesisReport) = ⟨descriptors, failures⟩ := by
    rw [List.append_nil, List.append_nil]
  exact hlists

theorem append_assoc (a b c : SynthesisReport) : a ++ b ++ c = a ++ (b ++ c) := by
  have hlists : (⟨a.descriptors ++ b.descriptors ++ c.descriptors,
      a.failures ++ b.failures ++ c.failures⟩ : SynthesisReport) =
      ⟨a.descriptors ++ (b.descriptors ++ c.descriptors), a.failures ++ (b.failures ++ c.failures)⟩ := by
    rw [List.append_assoc, List.append_assoc]
  exact hlists

theorem ofResults_append (xs ys : List (Except SynthesisError Descriptor)) :
    ofResults (xs ++ ys) = ofResults xs ++ ofResults ys := by
  simp only [ofResults, List.filterMap_append]
  rfl

/-- Pushing a result is appending the report of that result alone. -/
theorem push_eq_append (report : SynthesisReport) (result : Except SynthesisError Descriptor) :
    report.push result = report ++ ofResults [result] := by
  cases result with
  | ok r =>
    have hfailures : report.failures = report.failures ++ [] := (List.append_nil _).symm
    exact congrArg (SynthesisReport.mk (report.descriptors ++ [r])) hfailures
  | error e =>
    have hdescriptors : report.descriptors = report.descriptors ++ [] := (List.append_nil _).symm
    exact congrArg (SynthesisReport.mk · (report.failures ++ [e])) hdescriptors

/-- A report that takes up results one by one ends with those of all. -/
theorem foldl_push (report : SynthesisReport) (results : List (Except SynthesisError Descriptor)) :
    results.foldl push report = report ++ ofResults results := by
  induction results generalizing report with
  | nil => exact report.append_empty.symm
  | cons result results ih =>
    rw [List.foldl_cons, ih, push_eq_append, append_assoc, ← ofResults_append, List.singleton_append]

theorem map_ok_descriptors (results : List (Except SynthesisError Descriptor)) :
    (ofResults results).descriptors.map .ok = results.filter (·.isOk) := by
  induction results with
  | nil => rfl
  | cons result results ih =>
    rw [← List.singleton_append, ofResults_append, descriptors_append, List.map_append, ih,
      List.filter_append]
    cases result <;> rfl

theorem map_error_failures (results : List (Except SynthesisError Descriptor)) :
    (ofResults results).failures.map .error = results.filter (!·.isOk) := by
  induction results with
  | nil => rfl
  | cons result results ih =>
    rw [← List.singleton_append, ofResults_append, failures_append, List.map_append, ih,
      List.filter_append]
    cases result <;> rfl

theorem length_ofResults (results : List (Except SynthesisError Descriptor)) :
    (ofResults results).descriptors.length + (ofResults results).failures.length =
      results.length := by
  have hok := congrArg List.length (map_ok_descriptors results)
  have herror := congrArg List.length (map_error_failures results)
  rw [List.length_map] at hok herror
  rw [hok, herror, ← List.countP_eq_length_filter, ← List.countP_eq_length_filter]
  have hsplit := List.length_eq_countP_add_countP (l := results) (·.isOk)
  simpa using hsplit.symm

end SynthesisReport

/-- The text of an error begins with the handler that it is about. -/
theorem SynthesisError.handler_begins_message (e : SynthesisError) :
    e.handler.toList <+: e.message.toList := by
  cases e <;> simp [handler, message, String.toList_append]

namespace Synthesizer

open SynthesisReport

variable (s : Synthesizer)

/-- One more handler adds one more result. -/
theorem describeAll_concat (handlers : List Handler) (handler : Handler) :
    s.describeAll (handlers ++ [handler]) = (s.describeAll handlers).push (s.describe handler) := by
  rw [describeAll, List.foldl_append]
  rfl

/-- **Describing handler after handler ends with the report of all results.** -/
theorem describeAll_eq (handlers : List Handler) :
    s.describeAll handlers = ofResults (handlers.map s.describe) := by
  rw [describeAll, ← List.foldl_map (f := s.describe) (g := SynthesisReport.push), foldl_push]
  rfl

theorem describeAll_append (xs ys : List Handler) :
    s.describeAll (xs ++ ys) = s.describeAll xs ++ s.describeAll ys := by
  rw [describeAll_eq, List.map_append, ofResults_append, ← describeAll_eq, ← describeAll_eq]

theorem length_describeAll (handlers : List Handler) :
    (s.describeAll handlers).descriptors.length + (s.describeAll handlers).failures.length =
      handlers.length := by
  rw [describeAll_eq, length_ofResults, List.length_map]

theorem describeAll_perm {handlers handlers' : List Handler} (h : handlers' ~ handlers) :
    (s.describeAll handlers').descriptors ~ (s.describeAll handlers).descriptors ∧
      (s.describeAll handlers').failures ~ (s.describeAll handlers).failures := by
  rw [describeAll_eq, describeAll_eq]
  exact ⟨(h.map s.describe).filterMap _, (h.map s.describe).filterMap _⟩

theorem mem_descriptors_iff {handlers : List Handler} {r : Descriptor} :
    r ∈ (s.describeAll handlers).descriptors ↔ ∃ handler ∈ handlers, s.describe handler = .ok r := by
  have hmem : r ∈ (s.describeAll handlers).descriptors ↔
      .ok r ∈ (handlers.map s.describe).filter (·.isOk) := by
    rw [describeAll_eq, ← map_ok_descriptors, List.mem_map]
    constructor
    · intro hr
      exact ⟨r, hr, rfl⟩
    · rintro ⟨r', hr', he⟩
      exact Except.ok.inj he ▸ hr'
  rw [hmem, List.mem_filter, List.mem_map]
  exact and_iff_left rfl

end Synthesizer

end ApiDescription
