/-!
# The vocabulary of a description

The names of tags, documentation tags and types that have a meaning. Every name has a conventional
default; a configuration may replace any of them.
-/

namespace ApiDescription

/-- Tags that bind members and types to a schema. -/
structure BindingTags where
  /-- The package that every binding tag belongs to. -/
  package : String := "javax.xml.bind.annotation"
  /-- Keeps a member out of the schema. -/
  transient : String := "javax.xml.bind.annotation.XmlTransient"
  /-- Marks the constant that stands for unrecognized values of an enumeration. -/
  unknownEnumValue : String := "apisurface.qname.XmlUnknownQNameEnumValue"
deriving DecidableEq, Repr

/-- The full name of a tag of the request-handling framework. -/
def webTag (name : String) : String :=
  "org.springframework.web.bind.annotation." ++ name

/-- Tags of the request-handling framework. -/
structure WebTags where
  /-- Marks the parameter that takes the request body. -/
  requestBody : String := webTag "RequestBody"
  /-- Marks a handler or scope whose return values are response bodies. -/
  responseBody : String := webTag "ResponseBody"
  /-- Marks a scope all of whose handlers return response bodies. -/
  restController : String := webTag "RestController"
  /-- The one explicit response status of a handler. -/
  responseStatus : String := webTag "ResponseStatus"
  /-- Holds route templates. -/
  requestMapping : String := webTag "RequestMapping"
  /-- A query parameter. -/
  requestParam : String := webTag "RequestParam"
  /-- A path segment. -/
  pathVariable : String := webTag "PathVariable"
  /-- A request header. -/
  requestHeader : String := webTag "RequestHeader"
  /-- A cookie. -/
  cookieValue : String := webTag "CookieValue"
  /-- A matrix parameter. -/
  matrixVariable : String := webTag "MatrixVariable"
  /-- A part of a form. -/
  requestPart : String := webTag "RequestPart"
  /-- A parameter made up of the members of its type. -/
  modelAttribute : String := webTag "ModelAttribute"
deriving DecidableEq, Repr

/-- The full name of a tag that documents a handler. -/
def metadataTag (name : String) : String :=
  "apisurface.rs." ++ name

/-- Tags that say what documentation lines may say as well. -/
structure MetadataTags where
  /-- Replaces the return type. -/
  typeHint : String := metadataTag "TypeHint"
  /-- Lists possible status codes. -/
  statusCodes : String := metadataTag "StatusCodes"
  /-- Lists possible warnings. -/
  warnings : String := metadataTag "Warnings"
  /-- Lists response headers. -/
  responseHeaders : String := metadataTag "ResponseHeaders"
  /-- Lists request headers. -/
  requestHeaders : String := metadataTag "RequestHeaders"
deriving DecidableEq, Repr

/-- Names of documentation tags, without the leading `@`. -/
structure DocTagNames where
  /-- Describes the return value. -/
  returnDoc : String := "return"
  /-- Names the type that is really returned. -/
  returnWrapped : String := "returnWrapped"
  /-- A request header and its description. -/
  requestHeader : String := "RequestHeader"
  /-- A status code and its condition. -/
  status : String := "HTTP"
  /-- A warning and its condition. -/
  warning : String := "HTTPWarning"
  /-- A response header and its description. -/
  responseHeader : String := "ResponseHeader"
  /-- A parameter and its description. -/
  param : String := "param"
  /-- A parameter and its description, which replaces that of `param`. -/
  rsParam : String := "RSParam"
deriving DecidableEq, Repr

/-- Names of types with a meaning of their own. -/
structure WellKnownTypes where
  /-- Wrappers of results that come later. -/
  asyncWrappers : List String :=
    ["java.util.concurrent.Callable", "org.springframework.web.context.request.async.DeferredResult",
      "org.springframework.util.concurrent.ListenableFuture"]
  /-- Envelopes around response bodies. -/
  responseEnvelopes : List String :=
    ["org.springframework.http.HttpEntity", "org.springframework.http.ResponseEntity"]
  /-- Types without a value, besides the type of no value itself. -/
  voidTypes : List String := ["java.lang.Void"]
  /-- Types of parameters that the framework supplies. -/
  contextTypes : List String :=
    ["javax.servlet.ServletRequest", "javax.servlet.ServletResponse",
      "javax.servlet.http.HttpServletRequest", "javax.servlet.http.HttpServletResponse",
      "javax.servlet.http.HttpSession", "org.springframework.web.context.request.WebRequest",
      "org.springframework.ui.Model", "org.springframework.validation.BindingResult",
      "java.security.Principal", "java.util.Locale"]
  /-- The type literal by which a tag says that it gives no type. -/
  typeHintNone : String := "apisurface.rs.TypeHint.NONE"
deriving DecidableEq, Repr

/-- Every name with a meaning. -/
structure Vocabulary where
  binding : BindingTags := {}
  web : WebTags := {}
  metadata : MetadataTags := {}
  docs : DocTagNames := {}
  types : WellKnownTypes := {}
deriving DecidableEq, Repr

namespace BindingTags

/-- Whether a tag belongs to the binding package: its name goes on with a point behind the package. -/
def isBindingTag (binding : BindingTags) (tagName : String) : Bool :=
  (binding.package.toList ++ ['.']).isPrefixOf tagName.toList

end BindingTags

end ApiDescription
