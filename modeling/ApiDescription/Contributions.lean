import ApiDescription.NameMap

/-!
# Contributions

The metadata of a handler comes through four channels: tags on the handler, tags on its ancestors,
documentation lines of the handler, and documentation lines of its ancestors. `Contributions` keeps
them apart; nothing is dropped or merged until they are put in order.
-/

namespace ApiDescription

/-- Contributions of one kind of metadata, by channel. -/
structure Contributions (α : Type) where
  ownStructured : List α := []
  /-- From the tags of the ancestors, in their order. -/
  inheritedStructured : List α := []
  ownDocumented : List α := []
  /-- From the documentation lines of the ancestors, in their order. -/
  inheritedDocumented : List α := []

namespace Contributions

variable {α δ : Type}

/-- Collects what a declaration and its ancestors contribute, by a reading of tags and a reading of
documentation lines. -/
def collect (own : δ) (ancestors : List δ) (structured documented : δ → List α) :
    Contributions α where
  ownStructured := structured own
  inheritedStructured := ancestors.flatMap structured
  ownDocumented := documented own
  inheritedDocumented := ancestors.flatMap documented

/-- All contributions, tags before documentation. -/
def ordered (c : Contributions α) : List α :=
  c.ownStructured ++ c.inheritedStructured ++ c.ownDocumented ++ c.inheritedDocumented

/-- All contributions, documentation before tags. -/
def documentedFirst (c : Contributions α) : List α :=
  c.ownDocumented ++ c.inheritedDocumented ++ c.ownStructured ++ c.inheritedStructured

/-- The value of every name, where a later contribution replaces an earlier one of the same name. -/
def merge (c : Contributions (String × α)) : NameMap α :=
  NameMap.ofPairs c.ordered

end Contributions

end ApiDescription
