import ApiDescription.Toml.Basic

/-!
# Tables in the making

The lines of a TOML text build one table step by step. A table remembers how it came about, because
that decides what may still be added to it.

* A table that only lies on the way to another (`implicit`) may get a header later, once.
* A table made by a dotted key (`dotted`) may be extended by dotted keys only and gets no header.
* A table with a header is not extended by dotted keys from outside, and gets no second header.
* A header of an array of tables opens a new last element, and later headers below it mean that one.
* A value, an inline table or array among them, is never extended.
-/

namespace ApiDescription.Toml

/-- What stands under a key of a table in the making. -/
inductive Node where
  | value (value : Toml)
  | table (implicit dotted : Bool) (entries : List (String × Node))
  /-- The entries of every table of an array of tables, the last one first. -/
  | tables (elements : List (List (String × Node)))

/-- A table in the making. -/
structure Draft where
  implicit : Bool := false
  dotted : Bool := false
  entries : List (String × Node) := []

namespace Draft

/-- The table as it stands under a key. -/
def node (draft : Draft) : Node :=
  .table draft.implicit draft.dotted draft.entries

/-- Puts a node under a key, in place of the one there or as the last. -/
def put (draft : Draft) (key : String) (node : Node) : Draft :=
  if (draft.entries.lookup key).isSome then
    { draft with entries := draft.entries.map fun (k, n) => if k = key then (k, node) else (k, n) }
  else { draft with entries := draft.entries ++ [(key, node)] }

/-- Changes the table at the end of a path, making the tables on the way where they are missing. The
path is that of a dotted key or that of a header. -/
def update (dotted : Bool) (path : List String) (f : Draft → Option Draft) (draft : Draft) :
    Option Draft :=
  match path with
  | [] => f draft
  | key :: path =>
    match draft.entries.lookup key with
    | none => do
      let child ← update dotted path f { implicit := true, dotted }
      some (draft.put key child.node)
    | some (.value ..) => none
    | some (.table implicit wasDotted entries) =>
      if dotted && !implicit then none
      else do
        let child ← update dotted path f ⟨implicit, wasDotted, entries⟩
        some (draft.put key child.node)
    | some (.tables []) => none
    | some (.tables (last :: others)) => do
      let child ← update dotted path f { entries := last }
      some (draft.put key (.tables (child.entries :: others)))

/-- The path of a key without its last part, and that part. -/
def splitPath? (path : List String) : Option (List String × String) :=
  path.getLast?.map (path.dropLast, ·)

/-- Sets the value of a key in a table. -/
def set? (draft : Draft) (path : List String) (content : Toml) : Option Draft := do
  let (way, key) ← splitPath? path
  draft.update true way fun table =>
    if table.dotted = way.isEmpty || (table.entries.lookup key).isSome then none
    else some (table.put key (.value content))

/-- Takes the header of a table. -/
def openTable? (draft : Draft) (path : List String) : Option Draft := do
  let (way, key) ← splitPath? path
  draft.update false way fun table =>
    match table.entries.lookup key with
    | none => some (table.put key (.table false false []))
    | some (.table true false entries) => some (table.put key (.table false false entries))
    | some _ => none

/-- Takes the header of an element of an array of tables. -/
def openElement? (draft : Draft) (path : List String) : Option Draft := do
  let (way, key) ← splitPath? path
  draft.update false way fun table =>
    match table.entries.lookup key with
    | none => some (table.put key (.tables [[]]))
    | some (.tables elements) => some (table.put key (.tables ([] :: elements)))
    | some _ => none

end Draft

mutual

/-- The finished value of a node. -/
def Node.finish : Node → Toml
  | .value content => content
  | .table _ _ entries => .table (finishEntries entries)
  | .tables elements => .arr (finishElements elements).reverse

/-- The finished values of the entries of a table. -/
def Node.finishEntries : List (String × Node) → List (String × Toml)
  | [] => []
  | (key, node) :: rest => (key, node.finish) :: finishEntries rest

/-- The finished tables of an array of tables, in the order given. -/
def Node.finishElements : List (List (String × Node)) → List Toml
  | [] => []
  | entries :: rest => .table (finishEntries entries) :: finishElements rest

end

/-- The finished table. -/
def Draft.finish (draft : Draft) : Toml :=
  .table (Node.finishEntries draft.entries)

end ApiDescription.Toml
