import ApiDescription.NameMap
import ApiDescription.Tag.Basic

/-!
# The tags of a declaration

Occurrences of tags by qualified tag name. A name with an empty list of occurrences counts as absent
everywhere.

* `TagMap.get_insert`: inserting an occurrence extends one tag and leaves the others alone.
* `TagMap.mem_names`: a name is listed exactly if the tag is present.
-/

namespace ApiDescription

/-- The tags of a declaration, by qualified tag name. -/
structure TagMap where
  occurrences : NameMap (List Tag) := ∅

namespace TagMap

instance : EmptyCollection TagMap := ⟨{}⟩

/-- Appends an occurrence of a tag. -/
def insert (tags : TagMap) (name : String) (tag : Tag) : TagMap :=
  ⟨tags.occurrences.push name tag⟩

/-- Every occurrence of a tag, in declaration order. -/
def get (tags : TagMap) (name : String) : List Tag :=
  tags.occurrences.getD name []

/-- The first occurrence of a tag. -/
def first? (tags : TagMap) (name : String) : Option Tag :=
  (tags.get name).head?

/-- Whether a tag is present. -/
def contains (tags : TagMap) (name : String) : Bool :=
  !(tags.get name).isEmpty

/-- The names of all tags present, in code point order. -/
def names (tags : TagMap) : List String :=
  (tags.occurrences.toList.filter fun (_, occurrences) => !occurrences.isEmpty).map (·.1)

/-- Whether no tag is present. -/
def isEmpty (tags : TagMap) : Bool :=
  tags.names.isEmpty

@[simp] theorem get_empty (name : String) : (∅ : TagMap).get name = [] :=
  Std.ExtTreeMap.getD_empty

theorem first?_eq_some_iff {tags : TagMap} {name : String} {tag : Tag} :
    tags.first? name = some tag ↔ ∃ others, tags.get name = tag :: others :=
  List.head?_eq_some_iff

theorem first?_eq_none_iff {tags : TagMap} {name : String} :
    tags.first? name = none ↔ tags.contains name = false := by
  rw [first?, List.head?_eq_none_iff, contains]
  simp

theorem get_insert (tags : TagMap) (name : String) (tag : Tag) (other : String) :
    (tags.insert name tag).get other =
      if name = other then tags.get name ++ [tag] else tags.get other := by
  simp only [get, insert, Std.ExtTreeMap.getD_eq_getD_getElem?, NameMap.getElem?_push]
  split <;> simp

theorem mem_names {tags : TagMap} {name : String} :
    name ∈ tags.names ↔ tags.contains name = true := by
  simp only [names, List.mem_map, List.mem_filter, contains, get,
    Std.ExtTreeMap.getD_eq_getD_getElem?]
  constructor
  · rintro ⟨⟨_, occurrences⟩, ⟨hmem, hne⟩, rfl⟩
    rw [Std.ExtTreeMap.mem_toList_iff_getElem?_eq_some] at hmem
    simpa [hmem] using hne
  · intro h
    cases hget : tags.occurrences[name]? with
    | none => simp [hget] at h
    | some occurrences =>
      refine ⟨(name, occurrences), ⟨?_, by simpa [hget] using h⟩, rfl⟩
      exact Std.ExtTreeMap.mem_toList_iff_getElem?_eq_some.2 hget

end TagMap

end ApiDescription
