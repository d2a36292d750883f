import ApiDescription.Configuration.Basic
import ApiDescription.Json.Basic
import ApiDescription.Toml.Reader

/-!
# Configurations as TOML

A configuration file lists what differs from the defaults. Every record of the vocabulary is a list of
settings, each with its key, how it is read and how it is shown, so that one function overlays a table
on a record (`Setting.overlay?`): keys that name no setting are refused, every other setting keeps its
value. A record may also be given as an array, whose items are its settings in order.
-/

namespace ApiDescription

/-- A part of a record that a table may set. -/
structure Setting (R : Type) where
  key : String
  /-- The record with this part set, if the value is of the right kind. -/
  set : R → Toml → Option R
  /-- The part as it is shown. -/
  toJson : R → Json

namespace Setting

variable {R S : Type}

/-- A setting that takes a string. -/
def text (key : String) (get : R → String) (set : R → String → R) : Setting R where
  key := key
  set record value := set record <$> value.str?
  toJson record := .str (get record)

/-- A setting that takes an array of strings. -/
def texts (key : String) (get : R → List String) (set : R → List String → R) : Setting R where
  key := key
  set record value := set record <$> value.strs?
  toJson record := Json.strings (get record)

/-- Overlays the entries of a table, or the items of an array, on a record. -/
def overlay? (settings : List (Setting R)) (record : R) : Toml → Option R
  | .table entries => entries.foldlM (fun record (key, value) => do
      (← settings.find? (·.key = key)).set record value) record
  | .arr items => (settings.zip items).foldlM (fun record (setting, value) =>
      setting.set record value) record
  | _ => none

/-- A record as it is shown. -/
def showAll (settings : List (Setting R)) (record : R) : Json :=
  .obj (settings.map fun setting => (setting.key, setting.toJson record))

/-- A setting that is a record of its own. -/
def part (key : String) (settings : List (Setting S)) (get : R → S) (set : R → S → R) :
    Setting R where
  key := key
  set record value := set record <$> overlay? settings (get record) value
  toJson record := showAll settings (get record)

end Setting

/-- The settings of the binding tags. -/
def BindingTags.settings : List (Setting BindingTags) :=
  [.text "namespace" (·.package) ({ · with package := · }),
    .text "transient" (·.transient) ({ · with transient := · }),
    .text "unknown_enum_value" (·.unknownEnumValue) ({ · with unknownEnumValue := · })]

/-- The settings of the framework's tags. -/
def WebTags.settings : List (Setting WebTags) :=
  [.text "request_body" (·.requestBody) ({ · with requestBody := · }),
    .text "response_body" (·.responseBody) ({ · with responseBody := · }),
    .text "rest_controller" (·.restController) ({ · with restController := · }),
    .text "response_status" (·.responseStatus) ({ · with responseStatus := · }),
    .text "request_mapping" (·.requestMapping) ({ · with requestMapping := · }),
    .text "request_param" (·.requestParam) ({ · with requestParam := · }),
    .text "path_variable" (·.pathVariable) ({ · with pathVariable := · }),
    .text "request_header" (·.requestHeader) ({ · with requestHeader := · }),
    .text "cookie_value" (·.cookieValue) ({ · with cookieValue := · }),
    .text "matrix_variable" (·.matrixVariable) ({ · with matrixVariable := · }),
    .text "request_part" (·.requestPart) ({ · with requestPart := · }),
    .text "model_attribute" (·.modelAttribute) ({ · with modelAttribute := · })]

/-- The settings of the documenting tags. -/
def MetadataTags.settings : List (Setting MetadataTags) :=
  [.text "type_hint" (·.typeHint) ({ · with typeHint := · }),
    .text "status_codes" (·.statusCodes) ({ · with statusCodes := · }),
    .text "warnings" (·.warnings) ({ · with warnings := · }),
    .text "response_headers" (·.responseHeaders) ({ · with responseHeaders := · }),
    .text "request_headers" (·.requestHeaders) ({ · with requestHeaders := · })]

/-- The settings of the documentation tag names. -/
def DocTagNames.settings : List (Setting DocTagNames) :=
  [.text "return_doc" (·.returnDoc) ({ · with returnDoc := · }),
    .text "return_wrapped" (·.returnWrapped) ({ · with returnWrapped := · }),
    .text "request_header" (·.requestHeader) ({ · with requestHeader := · }),
    .text "status" (·.status) ({ · with status := · }),
    .text "warning" (·.warning) ({ · with warning := · }),
    .text "response_header" (·.responseHeader) ({ · with responseHeader := · }),
    .text "param" (·.param) ({ · with param := · }),
    .text "rs_param" (·.rsParam) ({ · with rsParam := · })]

/-- The settings of the well-known types. -/
def WellKnownTypes.settings : List (Setting WellKnownTypes) :=
  [.texts "async_wrappers" (·.asyncWrappers) ({ · with asyncWrappers := · }),
    .texts "response_envelopes" (·.responseEnvelopes) ({ · with responseEnvelopes := · }),
    .texts "void_types" (·.voidTypes) ({ · with voidTypes := · }),
    .texts "context_types" (·.contextTypes) ({ · with contextTypes := · }),
    .text "type_hint_none" (·.typeHintNone) ({ · with typeHintNone := · })]

/-- The settings of the vocabulary. -/
def Vocabulary.settings : List (Setting Vocabulary) :=
  [.part "binding" BindingTags.settings (·.binding) ({ · with binding := · }),
    .part "web" WebTags.settings (·.web) ({ · with web := · }),
    .part "metadata" MetadataTags.settings (·.metadata) ({ · with metadata := · }),
    .part "docs" DocTagNames.settings (·.docs) ({ · with docs := · }),
    .part "types" WellKnownTypes.settings (·.types) ({ · with types := · })]

/-- The policy that a value names: its exact name, or a table of that name alone with nothing in it. -/
def AccessPolicy.ofToml? : Toml → Option AccessPolicy
  | .str name => ofName? name
  | .table [(name, content)] => if content.isEmpty then ofName? name else none
  | _ => none

/-- The setting of the access policy. -/
def AccessPolicy.setting : Setting Configuration where
  key := "access_policy"
  set config value := ({ config with accessPolicy := some · }) <$> ofToml? value
  toJson config := Json.ofOption (fun policy => .str policy.name) config.accessPolicy

/-- The settings of a configuration. -/
def Configuration.settings : List (Setting Configuration) :=
  [AccessPolicy.setting,
    .part "vocabulary" Vocabulary.settings (·.vocabulary) ({ · with vocabulary := · })]

/-- The configuration that a table describes. -/
def Configuration.ofToml? (table : Toml) : Option Configuration :=
  Setting.overlay? settings {} table

/-- The configuration that a text of TOML describes. -/
def Configuration.parse (text : String) : Except ConfigError Configuration :=
  match (Toml.parse? text).bind ofToml? with
  | some config => .ok config
  | none => .error .malformed

end ApiDescription
