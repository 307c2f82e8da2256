import Dialogue.Pacing
import Dialogue.Condition

/-! Scripts of authoring and play: lists of steps over named variables. A script can be run as it stands, and it can
be given to a link as what finds the target once every node is there. -/
namespace Dialogue

inductive Line where
  | fragment (f : Fragment)
  | say (text : String)
  | write (text : String)
  deriving DecidableEq, Repr, Inhabited

def Line.fragmentFor (defaults : PacingDefaults) : Line → Fragment
  | .fragment f => f
  | .say text => .segment (defaults.say text)
  | .write text => .segment (defaults.write text)

inductive Pick where
  | action (var : String)
  | id (id : ActionId)
  | index (n : Nat)
  deriving DecidableEq, Repr

mutual

inductive Target where
  | node (var : String)
  | named (name : String)
  | deferred (script : List Step)

inductive Verb where
  | unknown
  | unreadable (message : String)
  | misshapen
  | newDraft (config : Json)
  | newNode
  | newNamed (name : String)
  | newAction (label : String)
  | newActionWith (label : String) (script : List Step)
  | get (name : String)
  | cloneOf (var : String)
  | clonesOf (var : String)
  | pending
  | text (lines : List Line)
  | say (text : String)
  | write (text : String)
  | resolve
  | build (root : String) (brief : Bool)
  | compile (root : String) (brief : Bool)
  | appendText (lines : List Line)
  | prependText (lines : List Line)
  | replaceText (lines : List Line)
  | attachAction (var : String)
  | linkTo (target : Target)
  | branchOn (key op : String) (value : Json) (target : Target)
  | setEffect (key : String) (value : Json)
  | addEffect (key : String) (value : Json)
  | join
  | joinNamed (name : String)
  | joinWith (target : Target)
  | returnsTo (target : Target)
  | head
  | tail
  | next
  | prev
  | template
  | clone
  | freeze
  | use
  | ruleTarget (index : Nat)
  | actionAt (index : Nat)
  | same (other : String)
  | label (label : String)
  | require (key op : String) (value : Json)
  | allow (key op : String) (value : Json)
  | parent
  | story (json : Json)
  | session (story : String) (context debug : Option Json)
  | sessionBytes (bytes : ByteArray)
  | complete
  | select (pick : Pick)
  | reveal (var : String)
  | revealTicket (ticket : Json)
  | state
  | ticket
  | snapshot
  | walk (picks : List Nat)

inductive Step where
  | mk (on : Option String) (draft : Option String) (bind : Option String) (verb : Verb)

end

abbrev Script := List Step

instance : Inhabited Verb := ⟨.unknown⟩

instance : Inhabited Step := ⟨.mk none none none .use⟩

end Dialogue
