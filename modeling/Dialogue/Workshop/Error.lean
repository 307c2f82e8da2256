import Dialogue.Story.Validity
import Dialogue.Play.Basic

/-! Why a call on a story under construction is refused, and why a story is not built. -/
namespace Dialogue

inductive AuthoringError where
  | unsupportedOperator (token : String)
  | unknownName (name : String)
  | cyclicSelfLink (id : NodeId)
  | missingSuccessor (id : NodeId)
  | frozenAction (id : ActionId) (operation : String)
  | frozen (id : NodeId) (operation : String)
  | nestedContinuation (target : String)
  | foreignBuilder (id : String)
  | orphanAction (id : ActionId)
  deriving DecidableEq, Repr

namespace AuthoringError

def name : AuthoringError → String
  | .unsupportedOperator _ => "UnsupportedOperator"
  | .unknownName _ => "UnknownName"
  | .cyclicSelfLink _ => "CyclicSelfLink"
  | .missingSuccessor _ => "MissingSuccessor"
  | .frozenAction _ _ => "FrozenAction"
  | .frozen _ _ => "Frozen"
  | .nestedContinuation _ => "NestedContinuation"
  | .foreignBuilder _ => "ForeignBuilder"
  | .orphanAction _ => "OrphanAction"

def message : AuthoringError → String
  | .unsupportedOperator token => s!"Unsupported condition operator '{token}'"
  | .unknownName name => s!"Node by name '{name}' not found"
  | .cyclicSelfLink id => s!"Unable to link node '{id}' to itself"
  | .missingSuccessor id => s!"Unable to splice a return into node '{id}': it has no successor"
  | .frozenAction id operation => s!"Action '{id}' is frozen and cannot be changed ({operation})"
  | .frozen id operation => s!"Node '{id}' is frozen and can be used only as template ({operation})"
  | .nestedContinuation target =>
    s!"Deferred link registered on '{target}' while deferred links were being resolved"
  | .foreignBuilder id => s!"Builder '{id}' belongs to another story factory"
  | .orphanAction id => s!"Action '{id}' has no parent node to resolve its deferred link against"

end AuthoringError

inductive StoryError where
  | authoring (error : AuthoringError)
  | compile (error : CompileError)
  deriving DecidableEq, Repr

namespace StoryError

def name : StoryError → String
  | .authoring e => e.name
  | .compile e => e.name

def message : StoryError → String
  | .authoring e => s!"Authoring error: {e.message}"
  | .compile e => s!"Compilation error: {e.message}"

end StoryError
end Dialogue
