import Dialogue.Effect
import Dialogue.Json.Dump
import Dialogue.Pacing
import Dialogue.Condition

/-! Notices: what play and authoring tell about themselves. A notice is data; its wording, its level and the log it
goes to are worked out where somebody reads it. The notices of a category can be turned off, all others are always
told. -/
namespace Dialogue

inductive Level where
  | trace
  | debug
  | info
  | warn
  | error
  deriving DecidableEq, Repr, Inhabited

namespace Level

def rank : Level → Nat
  | .trace => 0
  | .debug => 1
  | .info => 2
  | .warn => 3
  | .error => 4

def name : Level → String
  | .trace => "Trace"
  | .debug => "Debug"
  | .info => "Info"
  | .warn => "Warn"
  | .error => "Error"

def label : Level → String
  | .trace => "TRACE"
  | .debug => "DEBUG"
  | .info => "INFO"
  | .warn => "WARN"
  | .error => "ERROR"

def all : List Level := [.trace, .debug, .info, .warn, .error]

end Level

inductive Category where
  | engine
  | context
  | flow
  | reveal
  deriving DecidableEq, Repr, Inhabited

namespace Category

def name : Category → String
  | .engine => "Engine"
  | .context => "Context"
  | .flow => "Flow"
  | .reveal => "Reveal"

def target : Category → String
  | .engine => "tsuzuri::runtime::engine"
  | .context => "tsuzuri::runtime::context"
  | .flow => "tsuzuri::runtime::flow"
  | .reveal => "tsuzuri::runtime::reveal"

def all : List Category := [.engine, .context, .flow, .reveal]

end Category

inductive Notice where
  | starting (root : NodeId)
  | entered (node : NodeId) (visit : Nat)
  | finished (node : NodeId)
  | effectsDone (count : Nat) (context : Context)
  | branched (node target : NodeId)
  | awaiting (node : NodeId)
  | chosen (label : String) (id : ActionId) (node : NodeId)
  | staleReveal (node : NodeId) (segment visit : Nat)
  | segmentShown (node : NodeId) (segment : Nat)
  | effectDone (effect : Effect) (updated : Json)
  | directiveLost (how : LostDirective)
  | emitted (node : NodeId)
  | compiled (count : Nat) (root : NodeId) (digest : String)
  | resolving (count : Nat)
  | nameTaken (name : String) (holder refused : NodeId)
  | deferred (kind : String) (position : Nat)
  | inherited (clone : NodeId) (count : Nat)
  | cloned (source clone : NodeId)
  | redirected (frozen : NodeId) (operation : String) (clone : NodeId)
  | returning (node inserted previous : NodeId)
  deriving Repr

namespace Notice

def category? : Notice → Option Category
  | .starting _ | .entered _ _ | .finished _ => some .engine
  | .effectsDone _ _ => some .context
  | .branched _ _ | .awaiting _ | .chosen _ _ _ => some .flow
  | .staleReveal _ _ _ | .segmentShown _ _ => some .reveal
  | _ => none

def level : Notice → Level
  | .starting _ | .finished _ => .info
  | .entered _ _ | .effectsDone _ _ | .branched _ _ | .awaiting _ | .chosen _ _ _ | .staleReveal _ _ _ => .debug
  | .compiled _ _ _ | .resolving _ | .nameTaken _ _ _ | .redirected _ _ _ => .debug
  | .segmentShown _ _ | .effectDone _ _ | .directiveLost _ | .emitted _ | .deferred _ _ | .inherited _ _ => .trace
  | .cloned _ _ | .returning _ _ _ => .trace

def target (n : Notice) : String :=
  match n.category? with
  | some c => c.target
  | none =>
    match n with
    | .effectDone _ _ => "tsuzuri::types::effect"
    | .directiveLost _ => "tsuzuri::text"
    | .emitted _ | .compiled _ _ _ => "tsuzuri::compiler"
    | .resolving _ => "tsuzuri::builder"
    | .redirected _ _ _ | .returning _ _ _ => "tsuzuri::builder::node"
    | _ => "tsuzuri::builder::context"

def opName : EffectOp → String
  | .set => "Set"
  | .add => "Add"

def message : Notice → String
  | .starting root => s!"[Engine] Starting at '{root}'"
  | .entered node visit => s!"[Engine] Entered '{node}' (visit {visit})"
  | .finished node => s!"[Engine] Finished at '{node}'"
  | .effectsDone count context => s!"[Context] After {count} effects: {context.dump}"
  | .branched node target => s!"[Branch] '{node}' continues to '{target}'"
  | .awaiting node => s!"[Flow] '{node}' awaits a choice"
  | .chosen label id node => s!"[Choice] '{label}' ({id}) selected on '{node}'"
  | .staleReveal node segment visit =>
    s!"[Reveal] Ignoring stale signal for '{node}' segment {segment} visit {visit}"
  | .segmentShown node segment => s!"[Reveal] '{node}' segment {segment}"
  | .effectDone e updated => s!"[Effect] {e.key} {opName e.op} {e.value.toLine} -> {updated.toLine}"
  | .directiveLost .beforeSegment => "[Text] Directive before a finished segment ignored"
  | .directiveLost .atEnd => "[Text] Trailing directive without text dropped"
  | .emitted node => s!"[Compile] Emitted '{node}'"
  | .compiled count root digest => s!"[Compile] {count} nodes from '{root}', digest {digest}"
  | .resolving count => s!"[Build] Resolving {count} deferred links"
  | .nameTaken name holder refused =>
    s!"[Build] Name '{name}' already taken by '{holder}', ignoring '{refused}'"
  | .deferred kind position => s!"[Build] Deferred {kind} link #{position}"
  | .inherited clone count => s!"[Build] Clone '{clone}' inherits {count} deferred links"
  | .cloned source clone => s!"[Build] Cloned '{source}' as '{clone}'"
  | .redirected frozen operation clone =>
    s!"[Build] '{frozen}' is frozen, {operation} applies to clone '{clone}'"
  | .returning node inserted previous =>
    s!"[Build] '{node}' returns through '{inserted}' to '{previous}'"

end Notice

structure NoticeFilter where
  enabled : Bool
  level : Level
  categories : List Category
  deriving DecidableEq, Repr, Inhabited

namespace NoticeFilter

def quiet : NoticeFilter := ⟨false, .debug, [.engine, .flow]⟩

def verbose : NoticeFilter := ⟨true, .trace, Category.all⟩

def allows (f : NoticeFilter) (category : Category) (level : Level) : Bool :=
  f.enabled && f.level.rank ≤ level.rank && f.categories.contains category

def passes (f : NoticeFilter) (n : Notice) : Bool :=
  match n.category? with
  | some category => f.allows category n.level
  | none => true

end NoticeFilter
end Dialogue
