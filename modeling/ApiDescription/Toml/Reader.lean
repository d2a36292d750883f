import ApiDescription.Toml.Draft
import ApiDescription.Toml.Scalar

/-!
# Reading TOML text

`Toml.parse?` reads a text of TOML 1.0 as one table. Values nest at most `depthLimit` levels, and that
bound is what the recursion of `value?` runs on; the loops over items, pairs and lines end because each
round takes something off the text.
-/

namespace ApiDescription.Toml

/-- The text behind gaps, line breaks and comments; `comment` says that the text begins inside one. -/
def skipSpace (comment : Bool) : List Char → List Char
  | '\n' :: rest => skipSpace false rest
  | '\r' :: '\n' :: rest => skipSpace false rest
  | c :: rest =>
    if comment then if isPlain c then skipSpace true rest else c :: rest
    else if isGap c then skipSpace false rest
    else if c == '#' then skipSpace true rest
    else c :: rest
  | [] => []

/-- The items of an array, from behind its bracket or a comma. -/
def items? (value? : List Char → Option (Toml × List Char)) (s : List Char) :
    Option (List Toml × List Char) :=
  match skipSpace false s with
  | ']' :: rest => some ([], rest)
  | start =>
    match value? start with
    | none => none
    | some (item, rest) =>
      match skipSpace false rest with
      | ',' :: rest =>
        if rest.length < s.length then
          (fun (items, rest) => (item :: items, rest)) <$> items? value? rest
        else none
      | ']' :: rest => some ([item], rest)
      | _ => none
termination_by s.length

/-- A key, its value and the text behind them. -/
def pair? (value? : List Char → Option (Toml × List Char)) (s : List Char) :
    Option (List String × Toml × List Char) :=
  match key? s with
  | some (path, '=' :: rest) => do
    let (content, rest) ← value? (skipGap rest)
    some (path, content, skipGap rest)
  | _ => none

/-- The pairs of an inline table, from behind its brace or a comma, added to what it holds so far. -/
def pairs? (value? : List Char → Option (Toml × List Char)) (draft : Draft) (s : List Char) :
    Option (Draft × List Char) :=
  match pair? value? s with
  | none => none
  | some (path, content, rest) =>
    match draft.set? path content, rest with
    | some draft, ',' :: rest => if rest.length < s.length then pairs? value? draft rest else none
    | some draft, '\x7d' :: rest => some (draft, rest)
    | _, _ => none
termination_by s.length

/-- A value with at most `depth` levels of nesting, and the text behind it. -/
def value? (depth : Nat) (s : List Char) : Option (Toml × List Char) :=
  match s, depth with
  | '"' :: _, _ | '\'' :: _, _ =>
    (fun (content, rest) => (.str (String.ofList content), rest)) <$> quoted? s
  | '[' :: rest, depth + 1 =>
    (fun (items, rest) => (.arr items, rest)) <$> items? (value? depth) rest
  | '\x7b' :: rest, depth + 1 =>
    match skipGap rest with
    | '\x7d' :: rest => some (.table [], rest)
    | _ => (fun (draft, rest) => (draft.finish, rest)) <$> pairs? (value? depth) {} rest
  | _, _ => (.scalar, ·) <$> scalar? s

/-- The text behind the end of a line, which may have a comment. -/
def restOfLine? (s : List Char) : Option (List Char) :=
  let s := match skipGap s with
    | '#' :: rest => rest.dropWhile isPlain
    | s => s
  match s with
  | [] => some []
  | '\n' :: rest => some rest
  | '\r' :: '\n' :: rest => some rest
  | _ => none

/-- A text read so far: the whole table, and the path of the header in force. -/
structure Lines where
  root : Draft := {}
  header : List String := []

/-- Takes what stands on one line, but for its end and comment. -/
def Lines.step? (lines : Lines) (s : List Char) : Option (Lines × List Char) :=
  match skipGap s with
  | '[' :: '[' :: rest =>
    match key? rest with
    | some (path, ']' :: ']' :: rest) => do
      some ({ root := ← lines.root.openElement? path, header := path }, rest)
    | _ => none
  | '[' :: rest =>
    match key? rest with
    | some (path, ']' :: rest) => do
      some ({ root := ← lines.root.openTable? path, header := path }, rest)
    | _ => none
  | s =>
    match restOfLine? s with
    | some _ => some (lines, s)
    | none => do
      let (path, content, rest) ← pair? (value? depthLimit) s
      let root ← lines.root.update false lines.header (·.set? path content)
      some ({ lines with root }, rest)

/-- Takes every line of a text. -/
def Lines.read? (lines : Lines) (s : List Char) : Option Lines :=
  if s = [] then some lines
  else
    match lines.step? s with
    | none => none
    | some (lines, rest) =>
      match restOfLine? rest with
      | none => none
      | some rest => if rest.length < s.length then lines.read? rest else none
termination_by s.length

/-- The table of a text, which may begin with a byte order mark. -/
def parse? (text : String) : Option Toml :=
  let s := match text.toList with
    | '\uFEFF' :: rest => rest
    | s => s
  (fun lines => lines.root.finish) <$> Lines.read? {} s

end ApiDescription.Toml
