/-!
# TOML values

What settings are read from. Settings are strings, lists and tables, so numbers, Booleans, dates and
times are not told apart.
-/

namespace ApiDescription

/-- A TOML value. -/
inductive Toml where
  | str (value : String)
  /-- A number, a Boolean, a date or a time. -/
  | scalar
  | arr (items : List Toml)
  /-- A table, each key once. -/
  | table (entries : List (String × Toml))

namespace Toml

/-- How many levels of arrays and inline tables a value may nest, and how many parts a key may have. -/
def depthLimit : Nat := 79

instance : Inhabited Toml := ⟨.scalar⟩

/-- The string that a value is. -/
def str? : Toml → Option String
  | .str value => some value
  | _ => none

/-- The strings that an array consists of. -/
def strs? : Toml → Option (List String)
  | .arr items => items.mapM str?
  | _ => none

/-- Whether a value is a table or an array without content. -/
def isEmpty : Toml → Bool
  | .table [] | .arr [] => true
  | _ => false

end Toml

end ApiDescription
