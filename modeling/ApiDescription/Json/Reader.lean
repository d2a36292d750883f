import ApiDescription.Json.Number
import ApiDescription.Json.Token

/-!
# Reading JSON text

`Json.parse?` reads a whole text as one value. The tokens are taken one by one by a machine whose
state is the stack of open arrays and objects and what may come next (`Expect`), so nesting costs
no recursion and text of any depth can be checked.

A string without text, a number too large, and an array or object that opens more than `depthLimit`
levels deep are `unreadable`; so is an object one of whose keys has no text.
-/

namespace ApiDescription.Json

/-- How many levels of arrays and objects a readable text may nest. -/
def depthLimit : Nat := 127

/-- An open array or object with what has been read of it, backwards; nothing is kept once it has
become unreadable. -/
inductive Frame where
  | arr (items : Option (List Json))
  /-- The key is that of the value to come. -/
  | obj (fields : Option (List (String × Json))) (key : Option String)

/-- What the next token may be. -/
inductive Expect where
  | value
  /-- The first item of an array, or its end. -/
  | itemOrEnd
  /-- The first key of an object, or its end. -/
  | keyOrEnd
  | key
  | colon
  /-- A comma or the end of the innermost array or object. -/
  | commaOrEnd
  /-- Nothing: the text is complete. -/
  | nothing

/-- A reading so far. -/
structure Reading where
  expect : Expect := .value
  stack : List Frame := []
  result : Json := .null

namespace Reading

/-- Takes a complete value: into the innermost open array or object, or as the result. -/
def put (stack : List Frame) (value : Json) : Reading :=
  match stack with
  | [] => ⟨.nothing, [], value⟩
  | .arr items :: rest => ⟨.commaOrEnd, .arr (items.map (value :: ·)) :: rest, .null⟩
  | .obj fields key :: rest =>
    let fields := do return ((← key), value) :: (← fields)
    ⟨.commaOrEnd, .obj fields none :: rest, .null⟩

/-- The value of an array or object that ends. -/
def Frame.close : Frame → Json
  | .arr items => (items.map fun items => .arr items.reverse).getD .unreadable
  | .obj fields _ => (fields.map fun fields => .obj fields.reverse).getD .unreadable

/-- Opens an array or object. It is readable if fewer than `depthLimit` are open around it. -/
def push (stack : List Frame) (bracket : Char) : Reading :=
  let readable := stack[depthLimit - 1]?.isNone
  if bracket = '[' then ⟨.itemOrEnd, .arr (if readable then some [] else none) :: stack, .null⟩
  else ⟨.keyOrEnd, .obj (if readable then some [] else none) none :: stack, .null⟩

/-- Takes the first token of a value. -/
def startValue (stack : List Frame) : Token → Option Reading
  | .mark '[' => some (push stack '[')
  | .mark '\x7b' => some (push stack '\x7b')
  | .mark _ => none
  | .text content => some (put stack ((content.map Json.str).getD .unreadable))
  | .number literal => (ofNumber? literal).map (put stack)
  | .word letters =>
    match String.ofList letters with
    | "null" => some (put stack .null)
    | "true" => some (put stack (.bool true))
    | "false" => some (put stack (.bool false))
    | _ => none

/-- Takes a token that ends the innermost array or object. -/
def endValue (stack : List Frame) (token : Token) : Option Reading :=
  match stack, token with
  | .arr items :: rest, .mark ']' => some (put rest (Frame.close (.arr items)))
  | .obj fields key :: rest, .mark '\x7d' => some (put rest (Frame.close (.obj fields key)))
  | _, _ => none

/-- Takes the key of a field. -/
def startField (stack : List Frame) (token : Token) : Option Reading :=
  match stack, token with
  | .obj fields _ :: rest, .text (some key) => some ⟨.colon, .obj fields (some key) :: rest, .null⟩
  | .obj _ _ :: rest, .text none => some ⟨.colon, .obj none none :: rest, .null⟩
  | _, _ => none

/-- Takes one more token. -/
def step (r : Reading) (token : Token) : Option Reading :=
  match r.expect with
  | .value => startValue r.stack token
  | .itemOrEnd => endValue r.stack token <|> startValue r.stack token
  | .keyOrEnd => endValue r.stack token <|> startField r.stack token
  | .key => startField r.stack token
  | .colon =>
    match token with
    | .mark ':' => some { r with expect := .value }
    | _ => none
  | .commaOrEnd =>
    match token, r.stack with
    | .mark ',', .arr _ :: _ => some { r with expect := .value }
    | .mark ',', .obj _ _ :: _ => some { r with expect := .key }
    | _, _ => endValue r.stack token
  | .nothing => none

end Reading

/-- The value of a text that holds one JSON value and nothing else but blanks. -/
def parse? (text : String) : Option Json := do
  let tokens ← Token.scan text.toList
  let r ← tokens.foldlM Reading.step {}
  match r.expect with
  | .nothing => some r.result
  | _ => none

end ApiDescription.Json
