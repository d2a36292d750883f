import ApiDescription.TypeRef.Basic

/-!
# Tags

A tag is one occurrence of structured metadata: values by element name. Its elements are kept in code
point order, each name once.

A single value may stand for a list of one: `Tag.tags` and `Tag.strings` read an element either way
and pass over items of other shapes.

* `Tag.get?_set`: setting an element changes what that name gives and nothing else.
-/

namespace ApiDescription

/-- The value of an element of a tag. -/
inductive TagValue where
  | bool (value : Bool)
  | int (value : Int64)
  | str (value : String)
  /-- A type literal. -/
  | type (value : TypeRef)
  /-- A tag inside a tag, by its elements. -/
  | tag (elements : List (String × TagValue))
  | list (items : List TagValue)
deriving Repr

/-- One occurrence of a tag. -/
structure Tag where
  elements : List (String × TagValue) := []
deriving Repr

namespace Tag

instance : EmptyCollection Tag := ⟨{}⟩

/-- The elements with one of them set, in code point order. -/
def setElement (name : String) (value : TagValue) :
    List (String × TagValue) → List (String × TagValue)
  | [] => [(name, value)]
  | (other, old) :: rest =>
    match compare name other with
    | .lt => (name, value) :: (other, old) :: rest
    | .eq => (name, value) :: rest
    | .gt => (other, old) :: setElement name value rest

/-- The tag with one element set, replacing an earlier value. -/
def set (tag : Tag) (name : String) (value : TagValue) : Tag :=
  ⟨setElement name value tag.elements⟩

/-- The tag of a list of elements, where a later one replaces an earlier one of the same name. -/
def ofElements (elements : List (String × TagValue)) : Tag :=
  elements.foldl (fun tag (name, value) => tag.set name value) ∅

/-- The value of an element. -/
def get? (tag : Tag) (name : String) : Option TagValue :=
  tag.elements.lookup name

/-- Whether the tag has no elements. -/
def isMarker (tag : Tag) : Bool :=
  tag.elements.isEmpty

/-- The string of an element. -/
def str? (tag : Tag) (name : String) : Option String :=
  match tag.get? name with
  | some (.str value) => some value
  | _ => none

/-- The integer of an element. -/
def int? (tag : Tag) (name : String) : Option Int :=
  match tag.get? name with
  | some (.int value) => some value.toInt
  | _ => none

/-- The type of an element. -/
def type? (tag : Tag) (name : String) : Option TypeRef :=
  match tag.get? name with
  | some (.type value) => some value
  | _ => none

/-- The tag that a value is. -/
def ofValue? : TagValue → Option Tag
  | .tag elements => some ⟨elements⟩
  | _ => none

/-- The string that a value is. -/
def strOfValue? : TagValue → Option String
  | .str value => some value
  | _ => none

/-- The values of an element, a value that is no list counting as a list of one. -/
def values (tag : Tag) (name : String) : List TagValue :=
  match tag.get? name with
  | some (.list items) => items
  | some value => [value]
  | none => []

/-- The tags of an element. -/
def tags (tag : Tag) (name : String) : List Tag :=
  (tag.values name).filterMap ofValue?

/-- The strings of an element. -/
def strings (tag : Tag) (name : String) : List String :=
  (tag.values name).filterMap strOfValue?

/-- The tag with an element set to a list of tags. -/
def setTags (tag : Tag) (name : String) (tags : List Tag) : Tag :=
  tag.set name (.list (tags.map fun t => .tag t.elements))

theorem lookup_cons_eq_ite {α : Type} (key : String) (value : α) (rest : List (String × α))
    (other : String) :
    List.lookup other ((key, value) :: rest) =
      if other = key then some value else rest.lookup other := by
  by_cases h : other = key
  · simp [h]
  · simp [List.lookup_cons, beq_false_of_ne h, h]

theorem lookup_setElement (name : String) (value : TagValue) (other : String)
    (elements : List (String × TagValue)) :
    (setElement name value elements).lookup other =
      if other = name then some value else elements.lookup other := by
  induction elements with
  | nil => simp [setElement, lookup_cons_eq_ite]
  | cons entry rest ih =>
    obtain ⟨key, old⟩ := entry
    unfold setElement
    split
    · rw [lookup_cons_eq_ite]
    · next hc =>
      obtain rfl := Std.LawfulEqOrd.eq_of_compare hc
      simp only [lookup_cons_eq_ite]
      split <;> rfl
    · next hc =>
      have hne : key ≠ name := fun he => by simp [he] at hc
      rw [lookup_cons_eq_ite, lookup_cons_eq_ite, ih]
      by_cases hk : other = key
      · subst hk
        simp [hne]
      · simp [hk]

theorem get?_set (tag : Tag) (name : String) (value : TagValue) (other : String) :
    (tag.set name value).get? other = if other = name then some value else tag.get? other :=
  lookup_setElement name value other tag.elements

end Tag

end ApiDescription
