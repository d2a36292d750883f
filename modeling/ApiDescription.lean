import ApiDescription.AccessPolicy
import ApiDescription.Accessor
import ApiDescription.CommandLine.Directory
import ApiDescription.CommandLine.Options
import ApiDescription.CommandLine.Program
import ApiDescription.Configuration.Basic
import ApiDescription.Configuration.Form
import ApiDescription.Contributions
import ApiDescription.Declaration.Basic
import ApiDescription.Declaration.Form
import ApiDescription.Descriptor.Basic
import ApiDescription.DocLine
import ApiDescription.DocTags
import ApiDescription.Document.Basic
import ApiDescription.Document.Form
import ApiDescription.Double
import ApiDescription.Json.Basic
import ApiDescription.Json.Fields
import ApiDescription.Json.Number
import ApiDescription.Json.Printer
import ApiDescription.Json.Reader
import ApiDescription.Json.Token
import ApiDescription.Main
import ApiDescription.Metadata
import ApiDescription.Model.Basic
import ApiDescription.Model.Builder
import ApiDescription.Model.Subtyping
import ApiDescription.NameMap
import ApiDescription.Parameter.Classification
import ApiDescription.Proofs.CommandLine.Directories
import ApiDescription.Proofs.CommandLine.Runs
import ApiDescription.Proofs.Configuration.Defaults
import ApiDescription.Proofs.Configuration.Overlay
import ApiDescription.Proofs.DocLine.Entries
import ApiDescription.Proofs.DocLine.Splitting
import ApiDescription.Proofs.Form.Attributes
import ApiDescription.Proofs.Form.Declarations
import ApiDescription.Proofs.Form.Documents
import ApiDescription.Proofs.Form.Elements
import ApiDescription.Proofs.Form.Surfaces
import ApiDescription.Proofs.Form.TagValues
import ApiDescription.Proofs.Form.Tags
import ApiDescription.Proofs.Form.Types
import ApiDescription.Proofs.Json.Grammar
import ApiDescription.Proofs.Json.Unambiguity
import ApiDescription.Proofs.Metadata.Codes
import ApiDescription.Proofs.Metadata.Headers
import ApiDescription.Proofs.Metadata.Nesting
import ApiDescription.Proofs.Model.Building
import ApiDescription.Proofs.Model.Inheritance
import ApiDescription.Proofs.Model.Lookup
import ApiDescription.Proofs.Model.Removal
import ApiDescription.Proofs.Model.Validation
import ApiDescription.Proofs.NameMaps
import ApiDescription.Proofs.Parameter.Expansion
import ApiDescription.Proofs.Parameter.Precedence
import ApiDescription.Proofs.Reachability
import ApiDescription.Proofs.ReturnType.HintedTypes
import ApiDescription.Proofs.ReturnType.Hints
import ApiDescription.Proofs.ReturnType.Unwrapping
import ApiDescription.Proofs.ReturnType.WrappedTypes
import ApiDescription.Proofs.Route.Rendering
import ApiDescription.Proofs.Route.Scanning
import ApiDescription.Proofs.Schema.DataTypes
import ApiDescription.Proofs.Schema.Grouping
import ApiDescription.Proofs.Schema.Members
import ApiDescription.Proofs.Schema.Partition
import ApiDescription.Proofs.Schema.Policies
import ApiDescription.Proofs.Schema.Properties
import ApiDescription.Proofs.Schema.Selection
import ApiDescription.Proofs.Schema.Transience
import ApiDescription.Proofs.Surface.Integrity
import ApiDescription.Proofs.Synthesis.AncestorOrder
import ApiDescription.Proofs.Synthesis.Batch
import ApiDescription.Proofs.Synthesis.Documentation
import ApiDescription.Proofs.Synthesis.Headers
import ApiDescription.Proofs.Synthesis.Origins
import ApiDescription.Proofs.Synthesis.Outcome
import ApiDescription.Proofs.Synthesis.Parameters
import ApiDescription.Proofs.Synthesis.StatusCodes
import ApiDescription.Proofs.Synthesis.Variables
import ApiDescription.Proofs.Text.Trimming
import ApiDescription.Proofs.Toml.Paths
import ApiDescription.Proofs.Toml.Reading
import ApiDescription.Proofs.Translation.Basic
import ApiDescription.Proofs.Translation.Descriptions
import ApiDescription.Proofs.Translation.Extension
import ApiDescription.Proofs.Translation.Metadata
import ApiDescription.Proofs.Translation.Models
import ApiDescription.Proofs.Translation.Permutation
import ApiDescription.Proofs.Translation.Stripping
import ApiDescription.Proofs.Traversal
import ApiDescription.Proofs.TypeRef.Cycles
import ApiDescription.Proofs.TypeRef.Resolution
import ApiDescription.Proofs.TypeRef.Substitution
import ApiDescription.ReturnType
import ApiDescription.Route
import ApiDescription.Sample.WidgetService
import ApiDescription.Schema.DataType
import ApiDescription.Schema.Namespace
import ApiDescription.Surface.Basic
import ApiDescription.Surface.Form
import ApiDescription.Synthesis
import ApiDescription.Tag.Basic
import ApiDescription.Tag.Form
import ApiDescription.Tag.Map
import ApiDescription.Text.Blank
import ApiDescription.Toml.Basic
import ApiDescription.Toml.Draft
import ApiDescription.Toml.Quoted
import ApiDescription.Toml.Reader
import ApiDescription.Toml.Scalar
import ApiDescription.TypeRef.Basic
import ApiDescription.TypeRef.Context
import ApiDescription.TypeRef.Form
import ApiDescription.TypeRef.Order
import ApiDescription.Vocabulary
