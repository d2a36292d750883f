import ApiDescription.Json.Basic

/-!
# Writing JSON

Two layouts of one value: `Json.compact` on one line without blanks, and `Json.pretty` with one
field or item a line, indented by two blanks a level, where an empty array or object stays closed.
Strings are written as they are but for the quote, the backslash and U+0000 to U+001F.
-/

namespace ApiDescription.Json

/-- The hexadecimal digit of a number below sixteen, in lower case. -/
def hexDigit (n : Nat) : Char :=
  if n < 10 then Char.ofNat ('0'.toNat + n) else Char.ofNat ('a'.toNat + (n - 10))

/-- A character as it stands inside a quoted string. -/
def escapeChar (c : Char) : List Char :=
  match c with
  | '"' => ['\\', '"']
  | '\\' => ['\\', '\\']
  | '\x08' => ['\\', 'b']
  | '\x0c' => ['\\', 'f']
  | '\n' => ['\\', 'n']
  | '\r' => ['\\', 'r']
  | '\t' => ['\\', 't']
  | c =>
    if c.toNat < 0x20 then ['\\', 'u', '0', '0', hexDigit (c.toNat / 16), hexDigit (c.toNat % 16)]
    else [c]

/-- A string in quotes. -/
def quote (s : String) : String :=
  String.ofList ('"' :: s.toList.flatMap escapeChar ++ ['"'])

mutual

/-- The value on one line without blanks. -/
def compact : Json → String
  | .null | .unreadable => "null"
  | .bool b => if b then "true" else "false"
  | .int i => i.repr
  | .real literal => literal
  | .str s => quote s
  | .arr [] => "[]"
  | .arr (item :: rest) => "[" ++ item.compact ++ compactItems rest ++ "]"
  | .obj [] => "\x7b\x7d"
  | .obj ((key, value) :: rest) =>
    "\x7b" ++ quote key ++ ":" ++ value.compact ++ compactFields rest ++ "\x7d"

/-- The items after the first. -/
def compactItems : List Json → String
  | [] => ""
  | item :: rest => "," ++ item.compact ++ compactItems rest

/-- The fields after the first. -/
def compactFields : List (String × Json) → String
  | [] => ""
  | (key, value) :: rest => "," ++ quote key ++ ":" ++ value.compact ++ compactFields rest

end

/-- The start of a line at a level of nesting. -/
def lineStart (level : Nat) : String :=
  String.ofList ('\n' :: List.replicate (2 * level) ' ')

mutual

/-- The value laid out over several lines, the first of which stands at `level`. -/
def prettyAt (level : Nat) : Json → String
  | .null | .unreadable => "null"
  | .bool b => if b then "true" else "false"
  | .int i => i.repr
  | .real literal => literal
  | .str s => quote s
  | .arr [] => "[]"
  | .arr (item :: rest) =>
    "[" ++ lineStart (level + 1) ++ item.prettyAt (level + 1) ++ prettyItems (level + 1) rest ++
      lineStart level ++ "]"
  | .obj [] => "\x7b\x7d"
  | .obj ((key, value) :: rest) =>
    "\x7b" ++ lineStart (level + 1) ++ quote key ++ ": " ++ value.prettyAt (level + 1) ++
      prettyFields (level + 1) rest ++ lineStart level ++ "\x7d"

/-- The items after the first, each on a line of its own. -/
def prettyItems (level : Nat) : List Json → String
  | [] => ""
  | item :: rest => "," ++ lineStart level ++ item.prettyAt level ++ prettyItems level rest

/-- The fields after the first, each on a line of its own. -/
def prettyFields (level : Nat) : List (String × Json) → String
  | [] => ""
  | (key, value) :: rest =>
    "," ++ lineStart level ++ quote key ++ ": " ++ value.prettyAt level ++ prettyFields level rest

end

/-- The value laid out over several lines. -/
def pretty (value : Json) : String :=
  value.prettyAt 0

end ApiDescription.Json
