import ApiDescription.Schema.Namespace
import ApiDescription.Synthesis

/-!
# The surface of an API

Everything one run produces: a description of every handler and the namespaces of the schema.
-/

namespace ApiDescription

/-- Why a run could not complete. -/
inductive RunError where
  | config (cause : ConfigError)
  /-- The schema refers to a declaration that is not there. -/
  | model (cause : ModelError)
deriving DecidableEq, Repr

/-- The text of an error. -/
def RunError.message : RunError → String
  | .config cause => cause.message
  | .model cause => "namespace assembly failed: " ++ cause.message

/-- What one run produces. -/
structure ApiSurface where
  report : SynthesisReport := {}
  namespaces : List SchemaNamespace := []

/-- Describes every handler and assembles the schema. -/
def ApiSurface.run (model : Model) (handlers : List Handler) (config : Configuration) :
    Except RunError ApiSurface := do
  let synthesizer ← (Synthesizer.ofConfiguration model config).mapError .config
  let namespaces ←
    (SchemaNamespace.assembleSchema synthesizer.filter model).mapError .model
  return { report := synthesizer.describeAll handlers, namespaces }

end ApiDescription
