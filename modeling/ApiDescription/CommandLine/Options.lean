import ApiDescription.AccessPolicy

/-!
# Options of the command line

Four options, each with a value, given as `--name value` or `--name=value` and at most once. The model
is required. A value behind a name must not look like an option; a lone `-` does not, and behind an
equals sign anything goes. File names are not empty, a policy is read leniently, and a closing `--` may
stand at the end.
-/

namespace ApiDescription.CommandLine

/-- The options of a run. -/
structure Options where
  /-- The file of the document. -/
  model : String
  /-- The file of the configuration. -/
  config : Option String := none
  /-- Overrides the policy of the configuration. -/
  policy : Option AccessPolicy := none
  /-- The file to write to, instead of standard output. -/
  out : Option String := none

/-- The names of options. -/
inductive OptionName where
  | model
  | config
  | policy
  | out
deriving DecidableEq, Repr

/-- An option's name as it is given. -/
def OptionName.word : OptionName → String
  | .model => "--model"
  | .config => "--config"
  | .policy => "--policy"
  | .out => "--out"

/-- The option that an argument names. -/
def OptionName.ofWord? (word : String) : Option OptionName :=
  [model, config, policy, out].find? (·.word = word)

/-- Whether an argument can be the value of the option before it. -/
def isValue (argument : String) : Bool :=
  match argument.toList with
  | '-' :: _ :: _ => false
  | _ => true

/-- The options with their values, in the order given. -/
def pairs? : List String → Option (List (OptionName × String))
  | [] => some []
  | "--" :: rest => if rest = [] then some [] else none
  | argument :: rest =>
    let chars := argument.toList
    let word := String.ofList (chars.takeWhile (· ≠ '='))
    match OptionName.ofWord? word, chars.dropWhile (· ≠ '='), rest with
    | some name, _ :: value, rest => ((name, String.ofList value) :: ·) <$> pairs? rest
    | some name, [], value :: rest =>
      if isValue value then ((name, value) :: ·) <$> pairs? rest else none
    | _, _, _ => none

/-- The value of an option that may be given once. -/
def single? (pairs : List (OptionName × String)) (name : OptionName) : Option (Option String) :=
  match pairs.filter (·.1 = name) with
  | [] => some none
  | [(_, value)] => some (some value)
  | _ => none

/-- The file name that an option gives, which must not be empty. -/
def path? (pairs : List (OptionName × String)) (name : OptionName) : Option (Option String) := do
  match ← single? pairs name with
  | some "" => none
  | value => some value

/-- The options that arguments give, if they are in order. -/
def Options.parse? (arguments : List String) : Option Options := do
  let pairs ← pairs? arguments
  let model ← ← path? pairs .model
  let config ← path? pairs .config
  let policy ← match ← single? pairs .policy with
    | none => some none
    | some text => some <$> AccessPolicy.parse? text
  let out ← path? pairs .out
  return { model, config, policy, out }

end ApiDescription.CommandLine
