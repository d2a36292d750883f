import ApiDescription.Configuration.Basic
import ApiDescription.Document.Basic
import ApiDescription.Metadata
import ApiDescription.Parameter.Classification
import ApiDescription.ReturnType

/-!
# Synthesis of descriptors

A `Synthesizer` describes handlers over one model. A description fails if the handler, one of its
ancestors or one of its parameters is not in the model, or if the handler is no method.

The first parameter with the body tag is the entity; later ones count for nothing. All other parameters
are classified in order, then the documented request headers follow as explicit parameters, and of
several with one identity the first is kept.
-/

namespace ApiDescription

/-- Why a handler could not be described. -/
inductive SynthesisError where
  /-- A declaration that the description needs is missing. -/
  | model (handler : String) (cause : ModelError)
  /-- The declaration named as handler is no method. -/
  | notAHandler (handler : String)
deriving DecidableEq, Repr

namespace SynthesisError

/-- The handler that an error is about. -/
def handler : SynthesisError → String
  | .model handler _ | .notAHandler handler => handler

/-- The text of an error. -/
def message : SynthesisError → String
  | .model handler cause => handler ++ ": " ++ cause.message
  | .notAHandler handler => handler ++ " is not a method"

end SynthesisError

/-- What handlers are described by. -/
structure Synthesizer where
  model : Model
  vocabulary : Vocabulary
  filter : AccessorFilter

namespace Synthesizer

/-- The synthesizer of a run; there is none without an access policy. -/
def ofConfiguration (model : Model) (config : Configuration) : Except ConfigError Synthesizer := do
  let policy ← config.policy
  return {
    model
    vocabulary := config.vocabulary
    filter := { policy, binding := config.vocabulary.binding } }

/-- The status that a response status tag stands for when it gives none. -/
def defaultStatus : Int := 500

/-- The code of a response status tag: its `value` unless that is absent or the default, else its
`code`, else the default. -/
def explicitStatus? (tag : Tag) : Option ResponseCode := do
  let code := match tag.int? "value" with
    | some value => if value = defaultStatus then (tag.int? "code").getD defaultStatus else value
    | none => (tag.int? "code").getD defaultStatus
  let code ← ResponseCode.codeOfInt? code
  some (.ofCondition code ((tag.str? "reason").getD ""))

/-- Whether the return values of a handler are response bodies. -/
def returnsBody (web : WebTags) (handler : Declaration) (ancestors : List Declaration) : Bool :=
  handler.tags.contains web.responseBody ||
    ancestors.any fun a => a.tags.contains web.responseBody || a.tags.contains web.restController

/-- The return type of a handler with what has a say in it. -/
def returnType (vocabulary : Vocabulary) (context : TypeContext) (handler : Declaration)
    (ancestors : List Declaration) : ReturnType where
  owner := handler.label
  declared := handler.declaredType
  hint := handler.tags.first? vocabulary.metadata.typeHint
  returnsBody := returnsBody vocabulary.web handler ancestors
  wrapped := (handler.docs.get? vocabulary.docs.returnWrapped).bind List.head?
  context := context
  doc := handler.docs.text? vocabulary.docs.returnDoc

/-- The status codes of a handler in channel order, where the explicit status comes right behind the
codes of the handler's own tags. -/
def statusCodes (s : Synthesizer) (handler : Declaration) (ancestors : List Declaration) :
    List ResponseCode :=
  let codes := Metadata.statusCodes s.vocabulary s.model handler ancestors
  let explicit := ((handler.tags.first? s.vocabulary.web.responseStatus).bind explicitStatus?).toList
  { codes with ownStructured := codes.ownStructured ++ explicit }.ordered

/-- The documented request headers as parameters, documentation before tags. -/
def explicitHeaders (vocabulary : Vocabulary) (handler : Declaration) (ancestors : List Declaration) :
    List RequestParameter :=
  (Metadata.requestHeaders vocabulary handler ancestors).documentedFirst.map
    fun (name, description) => { name, kind := .header, description }

/-- Whether a parameter takes the request body. -/
def takesBody (web : WebTags) (parameter : Declaration) : Bool :=
  parameter.tags.contains web.requestBody

/-- The entity among the parameters of a handler. -/
def entity? (c : Classification) (parameters : List (DeclId × Declaration)) :
    Option RequestParameter :=
  (parameters.find? fun (_, p) => takesBody c.vocabulary.web p).map
    fun (id, p) => c.whole id p p.name .entity

/-- The classified parameters among the parameters of a handler. -/
def classified (c : Classification) (parameters : List (DeclId × Declaration)) :
    List RequestParameter :=
  (parameters.filter fun (_, p) => !takesBody c.vocabulary.web p).flatMap
    fun (id, p) => c.classify id p

/-- The description of a method that stands at a position, with its ancestors and parameters. -/
def descriptor (s : Synthesizer) (context : TypeContext) (id : DeclId) (handler : Declaration)
    (ancestors : List Declaration) (parameters : List (DeclId × Declaration)) : Descriptor :=
  let c : Classification :=
    { model := s.model
      vocabulary := s.vocabulary
      filter := s.filter
      context := context
      metadata := .of s.vocabulary handler ancestors }
  let (representation, diagnostics) :=
    (returnType s.vocabulary context handler ancestors).representation s.model s.vocabulary.types
  let candidates := classified c parameters ++ explicitHeaders s.vocabulary handler ancestors
  Descriptor.addParameters
    { handler := id
      name := handler.name
      entity := entity? c parameters
      statusCodes := s.statusCodes handler ancestors
      warnings := (Metadata.warnings s.vocabulary handler ancestors).ordered
      responseHeaders := (Metadata.responseHeaders s.vocabulary handler ancestors).merge
      representation
      diagnostics } candidates

/-- The declaration at a position, for the description of a handler. -/
def lookup (s : Synthesizer) (handler : String) (id : DeclId) : Except SynthesisError Declaration :=
  (s.model.decl id).mapError (.model handler)

/-- Describes a handler. -/
def describe (s : Synthesizer) (handler : Handler) : Except SynthesisError Descriptor := do
  let d ← s.lookup ("declaration " ++ DeclId.display handler.method) handler.method
  match d.parameters? with
  | none => .error (.notAHandler d.label)
  | some ids =>
    let ancestors ← handler.ancestors.mapM (s.lookup d.label)
    let parameters ← ids.mapM fun id => return (id, ← s.lookup d.label id)
    return s.descriptor handler.context handler.method d ancestors parameters

end Synthesizer

/-- The descriptions of a batch of handlers, and the errors of those that have none, both in order. -/
structure SynthesisReport where
  descriptors : List Descriptor := []
  failures : List SynthesisError := []

namespace SynthesisReport

/-- Whether every handler was described. -/
def allSucceeded (report : SynthesisReport) : Bool :=
  report.failures.isEmpty

/-- The notes of all descriptions. -/
def diagnostics (report : SynthesisReport) : List Diagnostic :=
  report.descriptors.flatMap (·.diagnostics)

/-- The report with one more result at the end of the list it belongs to. -/
def push (report : SynthesisReport) : Except SynthesisError Descriptor → SynthesisReport
  | .ok r => { report with descriptors := report.descriptors ++ [r] }
  | .error e => { report with failures := report.failures ++ [e] }

end SynthesisReport

/-- Describes every handler; one that fails does not stop the others. -/
def Synthesizer.describeAll (s : Synthesizer) (handlers : List Handler) : SynthesisReport :=
  handlers.foldl (fun report handler => report.push (s.describe handler)) {}

end ApiDescription
