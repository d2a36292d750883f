import ApiDescription.Model.Basic
import ApiDescription.TypeRef.Context

/-!
# Documents

What a front end hands over: the declarations of a program, and the handler methods to describe.
-/

namespace ApiDescription

/-- A handler method with the scopes it inherits from and the type variables in force. -/
structure Handler where
  method : DeclId
  /-- The enclosing scopes whose metadata the handler inherits, nearest first. -/
  ancestors : List DeclId := []
  context : TypeContext := ∅

/-- Declarations by position, and handlers among them. -/
structure Document where
  declarations : List Declaration := []
  handlers : List Handler := []

namespace Document

instance : EmptyCollection Document := ⟨{}⟩

/-- The model of the declarations, or their first fault. -/
def model (document : Document) : Except ModelError Model :=
  Model.ofDeclarations document.declarations

end Document

end ApiDescription
