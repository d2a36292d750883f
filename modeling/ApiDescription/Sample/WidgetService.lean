import ApiDescription.Document.Basic
import ApiDescription.Model.Builder
import ApiDescription.Vocabulary

/-!
# A sample service

A small widget service to try descriptions on: one advice scope, one controller, a handful of handlers
and the schema types they exchange. Its tags have the names of the default vocabulary. The pieces it is
made of are of use for other samples too.
-/

namespace ApiDescription.Sample

/-- The full name of a schema-binding tag. -/
def bindingTag (name : String) : String :=
  "javax.xml.bind.annotation." ++ name

/-- A tag that lists codes with their conditions. -/
def codesTag (codes : List (Int64 × String)) : Tag :=
  (∅ : Tag).setTags "value" <| codes.map fun (code, condition) =>
    ((∅ : Tag).set "code" (.int code)).set "condition" (.str condition)

/-- A tag that lists headers with their descriptions. -/
def headersTag (headers : List (String × String)) : Tag :=
  (∅ : Tag).setTags "value" <| headers.map fun (name, description) =>
    ((∅ : Tag).set "name" (.str name)).set "description" (.str description)

/-- A route mapping of one template. -/
def mapping (template : String) : Tag :=
  (∅ : Tag).set "value" (.str template)

/-- A public type of a schema. -/
def schemaType (qualifiedName : String) (uri : Option String) : Declaration :=
  ((Declaration.ofType qualifiedName).withVisibility .everyone).withTag (bindingTag "XmlType") ∅
    |>.mapType ({ · with uri })

/-- A public method. -/
def publicMethod (name : String) (returns : TypeRef) : Declaration :=
  (Declaration.ofMethod name returns).withVisibility .everyone

/-- The declarations of the sample service with the positions worth naming. -/
structure WidgetService where
  document : Document
  advice : DeclId
  controller : DeclId
  widget : DeclId
  color : DeclId
  /-- Reads one widget, later. -/
  find : DeclId
  /-- Takes a widget and answers with it in an envelope. -/
  create : DeclId
  /-- Has a type hint that names a type which is not there. -/
  search : DeclId
  /-- Returns a type variable. -/
  latest : DeclId

/-- Adds a declaration and gives its position. -/
def add (d : Declaration) : StateM ModelBuilder DeclId :=
  modifyGet fun b => (b.nextId, b.add d)

/-- Adds a member of a type and gives its position. -/
def addMember (owner : DeclId) (d : Declaration) : StateM ModelBuilder DeclId :=
  modifyGet fun b => (b.nextId, b.addMember owner d)

/-- Adds a parameter of a method. -/
def addParameter (method : DeclId) (d : Declaration) : StateM ModelBuilder Unit :=
  modify (·.addParameter method d)

/-- The entry of a handler that inherits from the controller and the advice scope. -/
def entry (controller advice method : DeclId) (context : TypeContext) : Handler where
  method := method
  ancestors := [controller, advice]
  context := context

/-- Adds the whole service. -/
def build : StateM ModelBuilder (List Handler × WidgetService) := do
  let web : WebTags := {}
  let metadata : MetadataTags := {}
  let binding : BindingTags := {}
  let string := TypeRef.named "java.lang.String"
  let widgetType := TypeRef.named "demo.Widget"
  let colorType := TypeRef.named "demo.Color"
  let widget ← add (schemaType "demo.Widget" (some "urn:widgets"))
  let _ ← addMember widget
    ((Declaration.ofField "id" (.primitive "long")).withVisibility .everyone)
  let _ ← addMember widget
    (((Declaration.ofField "label" string).withVisibility .owner).withTag
      (bindingTag "XmlElement") ((∅ : Tag).set "name" (.str "title")))
  let _ ← addMember widget
    ((((Declaration.ofField "cache" string).withVisibility .everyone).withTag
      binding.transient ∅).withTag (bindingTag "XmlElement") ∅)
  let getColor ← addMember widget (publicMethod "getColor" colorType)
  let setColor ← addMember widget (publicMethod "setColor" .void)
  let _ ← addMember widget (Declaration.ofProperty "color" colorType getColor setColor)
  let color ← add ((schemaType "demo.Color" (some "urn:widgets")).mapType
    ({ · with category := .enumType }))
  let _ ← addMember color (Declaration.ofEnumConstant "RED" colorType)
  let _ ← addMember color (Declaration.ofEnumConstant "GREEN" colorType)
  let _ ← addMember color
    ((Declaration.ofEnumConstant "UNRECOGNIZED" colorType).withTag binding.unknownEnumValue ∅)
  let _ ← add (schemaType "demo.Audit" none)
  let advice ← add <| (Declaration.ofType "demo.WidgetAdvice")
    |>.withTag metadata.statusCodes (codesTag [(500, "server fault")])
    |>.withTag metadata.warnings (codesTag [(199, "stale")])
    |>.withTag metadata.responseHeaders (headersTag [("X-Rate-Limit", "old")])
    |>.withDoc "HTTP" "503 maintenance"
    |>.withDoc "RequestHeader" "X-Tenant tenant id"
  let controller ← add <| (Declaration.ofType "demo.WidgetController")
    |>.withTag web.restController ∅
    |>.withTag web.requestMapping (mapping "/widgets")
    |>.withTag metadata.statusCodes (codesTag [(401, "unauthorized")])
    |>.withTag metadata.requestHeaders (headersTag [("X-Tenant", "structured tenant")])
  let find ← addMember controller <|
    (publicMethod "find" (.declared "java.util.concurrent.Callable" [widgetType]))
    |>.withTag web.requestMapping (mapping "/\x7bid\x7d")
    |>.withTag metadata.statusCodes (codesTag [(404, "missing")])
    |>.withDoc "HTTP" "403 forbidden"
    |>.withDoc "HTTP" "not-a-code ignored"
    |>.withDoc "ResponseHeader" "X-Rate-Limit limit info"
    |>.withDoc "param" "id the widget id"
    |>.withDoc "return" "the widget"
  addParameter find (Declaration.ofParameter "id" (.primitive "long"))
  addParameter find
    (Declaration.ofParameter "request" (.named "javax.servlet.http.HttpServletRequest"))
  let create ← addMember controller <|
    (publicMethod "create" (.declared "org.springframework.http.ResponseEntity" [widgetType]))
    |>.withTag web.responseStatus
      (((∅ : Tag).set "value" (.int 201)).set "reason" (.str "created"))
  addParameter create
    ((Declaration.ofParameter "widget" widgetType).withTag web.requestBody ∅)
  addParameter create
    ((Declaration.ofParameter "dryRun" (.primitive "boolean")).withTag web.requestParam
      ((∅ : Tag).set "value" (.str "dry-run")))
  let search ← addMember controller <| (publicMethod "search" (.named "java.util.List"))
    |>.withTag metadata.typeHint ((∅ : Tag).set "qualifiedName" (.str "demo.SearchPage"))
    |>.withDoc "RSParam" "q the query text"
  addParameter search (Declaration.ofParameter "q" string)
  let latest ← addMember controller <| (publicMethod "latest" (.var "T"))
    |>.withTag web.requestMapping (mapping "/latest")
  let handler := entry controller advice
  let handlers := [handler find ∅, handler create ∅, handler search ∅,
    handler latest ((∅ : TypeContext).bind "T" widgetType)]
  return (handlers,
    { document := ∅, advice, controller, widget, color, find, create, search, latest })

/-- The sample service. -/
def widgetService : WidgetService :=
  let ((handlers, service), builder) := build.run ∅
  { service with document := { declarations := builder.decls, handlers } }

/-- The entry of a handler of the service. -/
def WidgetService.entry? (service : WidgetService) (method : DeclId) : Option Handler :=
  service.document.handlers.find? (·.method = method)

end ApiDescription.Sample
