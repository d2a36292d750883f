import ApiDescription.Proofs.NameMaps
import ApiDescription.Schema.DataType

/-!
# Names in a schema

A member may be given its name in the schema by its binding tags. Many tags may do so, each of them may
occur many times, and an occurrence may give the empty name or say that the declared name holds, which
both count for nothing. The first name that counts is the name of the member: first by the order of tag
names, and then by the order of occurrences.

Results:
* `BindingTags.isBindingTag_iff`: which tags are binding tags.
* `schemaName_eq`: the search for the name, tag name by tag name.
* `IsNamed.unique`, `isNamed_schemaName`: a member has exactly one name.
* `schemaName_eq_iff`: the name of a member is the first that counts, or its declared name.
-/

namespace ApiDescription

/-- The name of a tag goes on with a point behind the binding package. -/
def BindingTags.Binds (binding : BindingTags) (tagName : String) : Prop :=
  ∃ rest, tagName.toList = binding.package.toList ++ '.' :: rest

theorem BindingTags.isBindingTag_iff {binding : BindingTags} {tagName : String} :
    binding.isBindingTag tagName = true ↔ binding.Binds tagName := by
  rw [isBindingTag, List.isPrefixOf_iff_prefix, Binds]
  simp [List.IsPrefix, eq_comm]

namespace DataType

variable {binding : BindingTags} {member : Declaration} {element tagName name other : String}
  {index : Nat} {tag : Tag}

/-- An occurrence of a binding tag of a member gives a name that counts. -/
structure GivesName (binding : BindingTags) (member : Declaration) (element tagName : String)
    (index : Nat) (name : String) : Prop where
  binds : binding.Binds tagName
  given : ∃ tag, (member.tags.get tagName)[index]? = some tag ∧ tag.str? element = some name
  nonempty : name ≠ ""
  proper : name ≠ defaultName

/-- A member has this name in the schema. -/
inductive IsNamed (binding : BindingTags) (member : Declaration) (element : String) : String → Prop where
  /-- No name that counts is given before it. -/
  | given {tagName name : String} {index : Nat}
      (h : GivesName binding member element tagName index name)
      (hfirst : ∀ tagName' index' name', GivesName binding member element tagName' index' name' →
        tagName < tagName' ∨ tagName = tagName' ∧ index ≤ index') :
      IsNamed binding member element name
  | declared (hnone : ∀ tagName index name, ¬ GivesName binding member element tagName index name) :
      IsNamed binding member element member.name

/-! ## One name at most -/

theorem GivesName.unique (h : GivesName binding member element tagName index name)
    (h' : GivesName binding member element tagName index other) : name = other := by
  obtain ⟨tag, htag, hname⟩ := h.given
  obtain ⟨tag', htag', hother⟩ := h'.given
  obtain rfl := Option.some.inj (htag.symm.trans htag')
  exact Option.some.inj (hname.symm.trans hother)

theorem IsNamed.unique (h : IsNamed binding member element name)
    (h' : IsNamed binding member element other) : name = other := by
  cases h with
  | declared hnone =>
    cases h' with
    | declared _ => rfl
    | given hgives _ => exact absurd hgives (hnone _ _ _)
  | @given tagName _ index hgives hfirst =>
    cases h' with
    | declared hnone => exact absurd hgives (hnone _ _ _)
    | @given tagName' _ index' hgives' hfirst' =>
      -- each of the two comes no later than the other
      have hplace : tagName = tagName' ∧ index = index' := by
        rcases hfirst _ _ _ hgives', hfirst' _ _ _ hgives with ⟨hlt | ⟨rfl, hle⟩, hlt' | ⟨heq, hle'⟩⟩
        · exact absurd hlt' (String.lt_asymm hlt)
        · exact absurd (heq ▸ hlt) (String.lt_irrefl _)
        · exact absurd hlt' (String.lt_irrefl _)
        · exact ⟨rfl, Nat.le_antisymm hle hle'⟩
      obtain ⟨rfl, rfl⟩ := hplace
      exact hgives.unique hgives'

/-! ## The search -/

/-- Whether a name counts. -/
def counts (name : String) : Bool :=
  name ≠ "" && name ≠ defaultName

/-- Whether an occurrence of a tag gives a name that counts. -/
def names (element : String) (tag : Tag) : Bool :=
  (tag.str? element).any counts

theorem names_eq_true_iff : names element tag = true ↔
    ∃ name, tag.str? element = some name ∧ name ≠ "" ∧ name ≠ defaultName := by
  simp [names, counts, Option.any_eq_true]

/-- The binding tags of a member, in the order of their names. -/
def bindingNames (binding : BindingTags) (member : Declaration) : List String :=
  member.tags.names.filter binding.isBindingTag

theorem pairwise_bindingNames (binding : BindingTags) (member : Declaration) :
    (bindingNames binding member).Pairwise (· < ·) :=
  member.tags.pairwise_names.filter _

/-- The search goes through the binding tags by name, and through the occurrences of each. -/
theorem schemaName_eq (binding : BindingTags) (member : Declaration) (element : String) :
    schemaName binding member element =
      (((bindingNames binding member).findSome? fun tagName =>
        (member.tags.get tagName).find? (names element)).bind (·.str? element)).getD member.name := by
  rw [← List.find?_flatMap]
  unfold names
  rw [← List.find?_filterMap]
  rfl

theorem givesName_iff : GivesName binding member element tagName index name ↔
    tagName ∈ bindingNames binding member ∧ ∃ tag, (member.tags.get tagName)[index]? = some tag ∧
      names element tag = true ∧ tag.str? element = some name := by
  rw [bindingNames, List.mem_filter, TagMap.mem_names, BindingTags.isBindingTag_iff]
  constructor
  · rintro ⟨hbinds, ⟨tag, htag, hname⟩, hne, hproper⟩
    have hcontains : member.tags.contains tagName = true := by
      simpa [TagMap.contains] using List.ne_nil_of_mem (List.mem_of_getElem? htag)
    exact ⟨⟨hcontains, hbinds⟩, tag, htag, names_eq_true_iff.mpr ⟨name, hname, hne, hproper⟩, hname⟩
  · rintro ⟨⟨-, hbinds⟩, tag, htag, hnames, hname⟩
    obtain ⟨_, hname', hne, hproper⟩ := names_eq_true_iff.mp hnames
    obtain rfl := Option.some.inj (hname.symm.trans hname')
    exact ⟨hbinds, ⟨tag, htag, hname⟩, hne, hproper⟩

/-- Where the search finds nothing, no name that counts is given. -/
theorem not_givesName_of_findSome?_eq_none
    (h : (bindingNames binding member).findSome? (fun tagName =>
      (member.tags.get tagName).find? (names element)) = none) :
    ¬ GivesName binding member element tagName index name := by
  intro hgives
  obtain ⟨hmem, tag, htag, hnames, -⟩ := givesName_iff.mp hgives
  have hnone := List.findSome?_eq_none_iff.mp h tagName hmem
  exact List.find?_eq_none.mp hnone tag (List.mem_of_getElem? htag) hnames

/-- What the search finds is given first. -/
theorem isNamed_of_findSome?_eq_some
    (h : (bindingNames binding member).findSome? (fun tagName =>
      (member.tags.get tagName).find? (names element)) = some tag)
    (hname : tag.str? element = some name) : IsNamed binding member element name := by
  obtain ⟨before, tagName, after, hsplit, hfind, hbefore⟩ := List.findSome?_eq_some_iff.mp h
  obtain ⟨hnames, index, hindex, htag, hearlier⟩ := List.find?_eq_some_iff_getElem.mp hfind
  have hmem : tagName ∈ bindingNames binding member := by simp [hsplit]
  have hgives : GivesName binding member element tagName index name :=
    givesName_iff.mpr ⟨hmem, tag, htag ▸ List.getElem?_eq_getElem hindex, hnames, hname⟩
  refine .given hgives fun tagName' index' name' hgives' => ?_
  obtain ⟨hmem', tag', htag', hnames', -⟩ := givesName_iff.mp hgives'
  rw [hsplit, List.mem_append, List.mem_cons] at hmem'
  rcases hmem' with hin | rfl | hin
  · -- nothing is found at an earlier tag name
    exact absurd hnames' (List.find?_eq_none.mp (hbefore tagName' hin) tag'
      (List.mem_of_getElem? htag'))
  · refine .inr ⟨rfl, Nat.le_of_not_lt fun hlt => ?_⟩
    have hno := hearlier index' hlt
    rw [List.getElem?_eq_getElem (Nat.lt_trans hlt hindex)] at htag'
    rw [Option.some.inj htag', hnames'] at hno
    cases hno
  · have hsorted := pairwise_bindingNames binding member
    rw [hsplit] at hsorted
    exact .inl (List.rel_of_pairwise_cons (List.pairwise_append.mp hsorted).2.1 hin)

theorem isNamed_schemaName (binding : BindingTags) (member : Declaration) (element : String) :
    IsNamed binding member element (schemaName binding member element) := by
  rw [schemaName_eq]
  cases hfind : (bindingNames binding member).findSome? fun tagName =>
      (member.tags.get tagName).find? (names element) with
  | none => exact .declared fun _ _ _ => not_givesName_of_findSome?_eq_none hfind
  | some tag =>
    obtain ⟨tagName, -, htag⟩ := List.exists_of_findSome?_eq_some hfind
    obtain ⟨name, hname, -⟩ := names_eq_true_iff.mp (List.find?_some htag)
    rw [Option.bind_some, hname]
    exact isNamed_of_findSome?_eq_some hfind hname

/-- **The name of a member is the first that counts, or its declared name.** -/
theorem schemaName_eq_iff :
    schemaName binding member element = name ↔ IsNamed binding member element name := by
  constructor
  · rintro rfl
    exact isNamed_schemaName binding member element
  · exact (isNamed_schemaName binding member element).unique

end DataType

end ApiDescription
