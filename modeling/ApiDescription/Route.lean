import ApiDescription.Declaration.Basic
import ApiDescription.Text.Blank
import ApiDescription.Vocabulary
import Std.Data.ExtTreeSet

/-!
# Routes

The names of the placeholders in route templates such as `/widgets/{id}` or `/files/{path:.+}`.

A placeholder begins at an opening brace and runs to the next closing brace, with at least one
character and no slash between them. Scanning goes from left to right and takes up again behind every
placeholder found, so an opening brace inside a placeholder is part of its text. The name is the text
before the first colon, without blanks at its ends; a placeholder without a name counts for nothing.

* `length_of_placeholderText?`: what follows a placeholder is shorter than what the scan began with, so
  the scan of a template ends.
-/

namespace ApiDescription

/-- The placeholder names of the templates of a handler. -/
structure Route where
  placeholders : Std.ExtTreeSet String := ∅

namespace Route

/-- From behind an opening brace: the text up to the closing brace, and what follows it. -/
def placeholderText? : List Char → Option (List Char × List Char)
  | [] => none
  | c :: rest =>
    if c = '\x7d' then some ([], rest)
    else if c = '/' then none
    else (placeholderText? rest).map fun (text, rest) => (c :: text, rest)

theorem length_of_placeholderText? {s text rest : List Char}
    (h : placeholderText? s = some (text, rest)) : rest.length < s.length := by
  induction s generalizing text with
  | nil => simp [placeholderText?] at h
  | cons c s ih =>
    unfold placeholderText? at h
    split at h
    · simp_all
    · split at h
      · simp at h
      · obtain ⟨⟨text', rest'⟩, hs, he⟩ := Option.map_eq_some_iff.1 h
        simp only [Prod.mk.injEq] at he
        have := ih (he.2 ▸ hs)
        simp only [List.length_cons]
        omega

/-- The texts of the placeholders of a template, in order. -/
def placeholderTexts (template : List Char) : List (List Char) :=
  match template with
  | [] => []
  | c :: rest =>
    if c = '\x7b' then
      match _h : placeholderText? rest with
      | some (d :: text, behind) => (d :: text) :: placeholderTexts behind
      | _ => placeholderTexts rest
    else placeholderTexts rest
termination_by template.length
decreasing_by
  · have := length_of_placeholderText? _h
    simp only [List.length_cons]
    omega
  · simp
  · simp

/-- The name that the text of a placeholder gives. -/
def placeholderName (text : List Char) : String :=
  String.ofList (Text.trimChars (text.takeWhile (· ≠ ':')))

/-- The placeholder names of a template, in order. -/
def placeholderNames (template : String) : List String :=
  ((placeholderTexts template.toList).map placeholderName).filter (· ≠ "")

/-- The route of a list of templates. -/
def ofTemplates (templates : List String) : Route :=
  ⟨Std.ExtTreeSet.ofList (templates.flatMap placeholderNames)⟩

/-- The templates that the mappings of a declaration hold under `value` and `path`. -/
def templatesOf (web : WebTags) (d : Declaration) : List String :=
  (d.tags.get web.requestMapping).flatMap fun tag => tag.strings "value" ++ tag.strings "path"

/-- The route of a handler: the templates of its own mappings and those of its ancestors. -/
def of (web : WebTags) (handler : Declaration) (ancestors : List Declaration) : Route :=
  ofTemplates ((handler :: ancestors).flatMap (templatesOf web))

/-- Whether the route has a placeholder of this name. -/
def hasPlaceholder (route : Route) (name : String) : Bool :=
  route.placeholders.contains name

/-- The placeholder names in code point order. -/
def names (route : Route) : List String :=
  route.placeholders.toList

end Route

end ApiDescription
