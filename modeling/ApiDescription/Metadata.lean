import ApiDescription.Contributions
import ApiDescription.Descriptor.Basic
import ApiDescription.DocLine
import ApiDescription.Model.Basic
import ApiDescription.Vocabulary

/-!
# Metadata of handlers

Status codes, warnings, response headers and request headers, read from tags and documentation lines
under the names of a vocabulary. A tag of codes or headers holds nested tags under `value`; a nested
tag without a usable code or name contributes nothing.
-/

namespace ApiDescription

/-- The code of a number, if it has sixteen bits. -/
def ResponseCode.codeOfInt? (n : Int) : Option UInt16 :=
  if h : 0 ≤ n ∧ n < UInt16.size then some (UInt16.ofNatLT n.toNat (by omega)) else none

namespace Metadata

/-- The name and description of every nested tag of an element that has a name. -/
def headerPairs (tag : Tag) (element : String) : List (String × String) :=
  (tag.tags element).filterMap fun header =>
    match header.str? "name" with
    | some name => if name = "" then none else some (name, (header.str? "description").getD "")
    | none => none

/-- A type literal, replaced by the declared type of the type it names bare, if the model has it. -/
def redeclared (model : Model) (type : TypeRef) : TypeRef :=
  match type with
  | .declared name [] => ((model.findType? name).map (·.2.declaredType)).getD type
  | _ => type

/-- The code and condition that a nested tag gives. -/
def code? (tag : Tag) : Option ResponseCode := do
  let code ← ResponseCode.codeOfInt? (← tag.int? "code")
  some (.ofCondition code ((tag.str? "condition").getD ""))

/-- The body type that a nested tag gives, unless it is the literal for none. -/
def codeType? (model : Model) (types : WellKnownTypes) (tag : Tag) : Option TypeRef := do
  let type ← tag.type? "type"
  if type.qualifiedName? = some types.typeHintNone then none else some (redeclared model type)

/-- The code that a nested tag gives, with its body type and headers. -/
def fullCode? (model : Model) (types : WellKnownTypes) (tag : Tag) : Option ResponseCode := do
  let code ← code? tag
  some { code with
    type := codeType? model types tag
    headers := NameMap.ofPairs (headerPairs tag "additionalHeaders") }

/-- The nested tags of every occurrence of a tag, in order. -/
def nestedTags (d : Declaration) (tagName : String) : List Tag :=
  (d.tags.get tagName).flatMap (·.tags "value")

/-- The codes of the lines of a documentation tag. -/
def documentedCodes (d : Declaration) (docName : String) : List ResponseCode :=
  (DocLine.coded d.docs docName).map fun (code, condition) => .ofCondition code condition

/-- The status codes that may be answered. -/
def statusCodes (vocabulary : Vocabulary) (model : Model) (own : Declaration)
    (ancestors : List Declaration) : Contributions ResponseCode :=
  .collect own ancestors
    (fun d => (nestedTags d vocabulary.metadata.statusCodes).filterMap
      (fullCode? model vocabulary.types))
    (documentedCodes · vocabulary.docs.status)

/-- The warnings that may be answered: codes and conditions alone. -/
def warnings (vocabulary : Vocabulary) (own : Declaration) (ancestors : List Declaration) :
    Contributions ResponseCode :=
  .collect own ancestors
    (fun d => (nestedTags d vocabulary.metadata.warnings).filterMap code?)
    (documentedCodes · vocabulary.docs.warning)

/-- The headers of a tag and of a documentation tag, with their descriptions. -/
def headers (tagName docName : String) (own : Declaration) (ancestors : List Declaration) :
    Contributions (String × String) :=
  .collect own ancestors
    (fun d => (d.tags.get tagName).flatMap (headerPairs · "value"))
    (fun d => DocLine.named d.docs docName)

/-- The headers of the response. -/
def responseHeaders (vocabulary : Vocabulary) (own : Declaration) (ancestors : List Declaration) :
    Contributions (String × String) :=
  headers vocabulary.metadata.responseHeaders vocabulary.docs.responseHeader own ancestors

/-- The headers of the request. -/
def requestHeaders (vocabulary : Vocabulary) (own : Declaration) (ancestors : List Declaration) :
    Contributions (String × String) :=
  headers vocabulary.metadata.requestHeaders vocabulary.docs.requestHeader own ancestors

end Metadata

end ApiDescription
