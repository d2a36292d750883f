import ApiDescription.NameMap

/-!
# Documentation tags

Free text lines by tag name (without the leading `@`). A tag that never appears is told apart from
one that appears with no line.

* `DocTags.get?_push`: pushing a line extends one tag and leaves the others alone.
-/

namespace ApiDescription

/-- The documentation lines of a declaration, by tag name. -/
structure DocTags where
  lines : NameMap (List String) := ∅

namespace DocTags

instance : EmptyCollection DocTags := ⟨{}⟩

/-- Appends a line to a tag. -/
def push (docs : DocTags) (name line : String) : DocTags :=
  ⟨docs.lines.push name line⟩

/-- The lines of a tag, or nothing if the tag never appears. -/
def get? (docs : DocTags) (name : String) : Option (List String) :=
  docs.lines[name]?

/-- The lines of a tag joined by a line feed, or nothing if the tag never appears. -/
def text? (docs : DocTags) (name : String) : Option String :=
  (docs.get? name).map (String.intercalate "\n")

theorem get?_push (docs : DocTags) (name line other : String) :
    (docs.push name line).get? other =
      if name = other then some ((docs.get? name).getD [] ++ [line]) else docs.get? other := by
  simp [get?, push, NameMap.getElem?_push, Std.ExtTreeMap.getD_eq_getD_getElem?]

end DocTags

end ApiDescription
