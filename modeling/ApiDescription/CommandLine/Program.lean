import ApiDescription.CommandLine.Directory
import ApiDescription.CommandLine.Options
import ApiDescription.Configuration.Form
import ApiDescription.Document.Form
import ApiDescription.Json.Printer
import ApiDescription.Surface.Form

/-!
# The program

Reads a document and perhaps a configuration, describes the handlers of the document, and writes the
surface as JSON. It runs over any way to read and write files (`FileAccess`); `Directory.access` is the
one whose files are a value.

The exit code is 0 if everything succeeded, 1 if the run could not be carried through or a handler has
no description, and 2 if the arguments are not in order. A surface is written even if handlers failed.

Standard error has the log of the run first, and then the problem or the failures. Texts go into both as
they are, so one with line breaks takes several lines.
-/

namespace ApiDescription.CommandLine

/-- How the program gets at files. -/
structure FileAccess (m : Type → Type) where
  /-- The text of a file, if it can be read. -/
  read : String → m (Option String)
  /-- Writes a text to a file; whether that worked. -/
  write : String → String → m Bool

/-- Files that are a value. -/
def Directory.access : FileAccess (StateM Directory) where
  read path := do return ((← get).read path).toOption
  write path text := modifyGet fun dir =>
    match dir.write? path text with
    | some dir => (true, dir)
    | none => (false, dir)

/-- Why a run could not be carried through. -/
inductive Problem where
  | configuration (path : String)
  | readModel (path : String)
  | parseModel (path : String)
  | inconsistentModel
  | synthesis
  | write (path : String)
deriving DecidableEq, Repr

/-- The text of a problem. -/
def Problem.message : Problem → String
  | .configuration path => "Failed to load configuration " ++ path
  | .readModel path => "Failed to read model " ++ path
  | .parseModel path => "Failed to parse model " ++ path
  | .inconsistentModel => "Model document is inconsistent"
  | .synthesis => "Synthesis failed"
  | .write path => "Failed to write " ++ path

/-- What a run leaves behind, besides files. -/
structure Outcome where
  exitCode : UInt32
  stdout : String := ""
  stderr : String := ""

/-- The outcome for arguments that are not in order. -/
def Outcome.usage : Outcome where
  exitCode := 2
  stderr := "usage: apisurface --model FILE [--config FILE] [--policy POLICY] [--out FILE]\n"

/-- The log of a run up to its output: which handlers have no description. -/
def logOf (surface : ApiSurface) : String :=
  String.join (surface.report.failures.map fun failure =>
    "log: handler skipped: " ++ failure.message ++ "\n")

/-- The outcome of a run that a problem ended. -/
def Outcome.ofProblem (problem : Problem) (log : String) : Outcome where
  exitCode := 1
  stderr := log ++ "Error: " ++ problem.message ++ "\n"

/-- The outcome of a run that produced a surface, with what is left for standard output. -/
def Outcome.ofSurface (surface : ApiSurface) (stdout log : String) : Outcome where
  exitCode := if surface.report.allSucceeded then 0 else 1
  stdout := stdout
  stderr := log ++ String.join
    (surface.report.failures.map fun failure => "FAIL  " ++ failure.message ++ "\n")

/-- The text of a surface. -/
def render (surface : ApiSurface) : String :=
  surface.toJson.pretty ++ "\n"

/-- The configuration that a run is to use, from the text of its file if it has one. -/
def configuration? (options : Options) (text : Option String) : Option Configuration := do
  let config ← match text with
    | none => some {}
    | some text => (Configuration.parse text).toOption
  return { config with accessPolicy := options.policy <|> config.accessPolicy }

/-- The surface of a document's text. -/
def surfaceOf (options : Options) (config : Configuration) (text : String) :
    Except Problem ApiSurface := do
  match Document.parse? text with
  | none => .error (.parseModel options.model)
  | some document =>
    match document.model with
    | .error _ => .error .inconsistentModel
    | .ok model =>
      match ApiSurface.run model document.handlers config with
      | .error _ => .error .synthesis
      | .ok surface => .ok surface

variable {m : Type → Type} [Monad m]

/-- Reads the configuration of a run. -/
def loadConfiguration (files : FileAccess m) (options : Options) : ExceptT Problem m Configuration := do
  let config ← match options.config with
    | none => pure (configuration? options none)
    | some path => (·.bind fun text => configuration? options (some text)) <$> files.read path
  match config with
  | some config => return config
  | none => throw (.configuration (options.config.getD ""))

/-- Reads the document of a run and makes its surface. -/
def loadSurface (files : FileAccess m) (options : Options) : ExceptT Problem m ApiSurface := do
  let config ← loadConfiguration files options
  match ← files.read options.model with
  | none => throw (.readModel options.model)
  | some text => surfaceOf options config text

/-- Carries through a run. -/
def execute (files : FileAccess m) (options : Options) : ExceptT Problem m Outcome := do
  let surface ← loadSurface files options
  match options.out with
  | none => return .ofSurface surface (render surface) (logOf surface)
  | some path =>
    if ← files.write path (render surface) then
      return .ofSurface surface "" (logOf surface ++ "log: surface written: " ++ path ++ "\n")
    else return .ofProblem (.write path) (logOf surface)

/-- The whole program. -/
def program (files : FileAccess m) (arguments : List String) : m Outcome := do
  match Options.parse? arguments with
  | none => return .usage
  | some options =>
    match ← (execute files options).run with
    | .ok outcome => return outcome
    | .error problem => return .ofProblem problem ""

end ApiDescription.CommandLine
