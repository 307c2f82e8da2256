import Dialogue.Workshop.View
import Dialogue.Play.Session
import Dialogue.Play.Format

/-! Running scripts. A machine has a workshop, names for its drafts, and the variables that scripts share. Each step
gives an answer; one that succeeds may also bind its result. The build pass of a draft calls the scripts of its
deferred links, newest first, up to the first that fails; a script may begin a build pass itself. -/
namespace Dialogue

inductive Binding where
  | node (n : NodeRef)
  | action (a : ActionRef)
  | story (s : Story)
  | session (s : Play.Session)
  | ticket (t : Play.Ticket)

inductive Answer where
  | refused (message : String)
  | misshapen
  | authoring (e : AuthoringError)
  | load (e : LoadError)
  | play (e : Play.PlayError) (kept : Option Play.State)
  | passFailed (e : AuthoringError) (trace : List Answer)
  | buildFailed (e : StoryError) (trace : List Answer)
  | config (c : Config)
  | node (v : Option NodeView)
  | action (v : Option ActionView)
  | clones (ids : List NodeId)
  | pending (n : Nat)
  | segments (list : List Segment)
  | segment (s : Segment)
  | passed (count : Nat) (trace : List Answer)
  | built (s : Story) (brief : Bool) (trace : List Answer)
  | same (b : Bool)
  | story (s : Story)
  | session (output : Play.Output) (state : Play.State)
  | ticket (t : Play.Ticket)
  | value (v : Option Json)
  | snapshot (s : Play.Snapshot) (finished : Bool)
  | walk (outcomes : List (Except Play.PlayError Play.Output)) (state : Play.State)

namespace Answer

/- The error that a script ends with because of an answer. What is no authoring error is a fault of the script. -/
def scriptFault : AuthoringError := .unknownName "<driver>"

def error? : Answer → Option AuthoringError
  | .authoring e => some e
  | .refused _ | .misshapen | .load _ | .play _ _ | .passFailed _ _ | .buildFailed _ _ => some scriptFault
  | _ => none

end Answer

structure Machine where
  workshop : Workshop := {}
  drafts : List (String × Nat) := []
  bindings : List (String × Binding) := []
  trace : Array Answer := #[]

namespace Machine

def binding? (m : Machine) (name : String) : Option Binding := lookupEntry name m.bindings

def bind (m : Machine) (name : String) (b : Binding) : Machine :=
  { m with bindings := insertEntry name b m.bindings }

def unbind (m : Machine) (name : String) : Machine :=
  { m with bindings := m.bindings.filter (·.1 ≠ name) }

def argument : String := "it"

def firstDraft : String := "f"

def start (config : Config) : Machine :=
  { workshop := { drafts := #[{ config := config }] }, drafts := [(firstDraft, 0)] }

end Machine

structure Done where
  answer : Answer
  result : Option Binding := none
  draft : Option Nat := none

def Machine.keep (m : Machine) (name : String) (done : Done) : Machine :=
  match done.draft, done.result with
  | some i, _ => { m with drafts := insertEntry name i m.drafts }
  | none, some b => m.bind name b
  | none, none => m.unbind name

/- A step that runs. It fails with its answer, and what it did before that stays done. -/
abbrev Run := ExceptT Answer (StateM Machine)

namespace Run
variable {α : Type}

def refuse (message : String) : Run α := throw (.refused message)

def author (call : Authoring α) : Run α := do
  let m ← get
  let (result, workshop) := call.run m.workshop
  set { m with workshop }
  match result with
  | .ok a => return a
  | .error e => throw (.authoring e)

def unbound (name : String) : Run α := refuse s!"unbound {name}"

def lookUp (name : String) : Run Binding := do
  match (← get).binding? name with
  | some b => return b
  | none => unbound name

def nodeOf (name : String) : Run NodeRef := do
  match ← lookUp name with
  | .node n => return n
  | _ => unbound name

def actionOf (name : String) : Run ActionRef := do
  match ← lookUp name with
  | .action a => return a
  | _ => unbound name

def storyOf (name : String) : Run Story := do
  match ← lookUp name with
  | .story s => return s
  | _ => unbound name

def ticketOf (name : String) : Run Play.Ticket := do
  match ← lookUp name with
  | .ticket t => return t
  | _ => unbound name

def draftOf (name : String) : Run Nat := do
  match lookupEntry name (← get).drafts with
  | some i => return i
  | none => unbound name

def link : Target → Run Link
  | .node var => do return .node (← nodeOf var)
  | .named name => return .named name
  | .deferred script => return .deferred script

def typed (d : Json.Decoder α) (j : Json) : Run α :=
  match d.fromJson j with
  | .ok a => pure a
  | .error _ => throw .misshapen

def draft (i : Nat) : Run Draft := author (Authoring.draftAt i)

def node (n : NodeRef) : Run Done := do
  return { answer := .node (some ((← draft n.draft).viewNode n.key)), result := some (.node n) }

def nodeMade (call : Authoring NodeRef) : Run Done := do node (← author call)

def nodeIfAny (i : Nat) : Option Nat → Run Done
  | some key => node ⟨i, key⟩
  | none => return { answer := .node none }

def action (a : ActionRef) : Run Done := do
  return { answer := .action (some ((← draft a.draft).viewAction a.key)), result := some (.action a) }

def actionMade (call : Authoring ActionRef) : Run Done := do action (← author call)

def plain (answer : Answer) : Run Done := return { answer }

def fragments (i : Nat) (lines : List Line) : Run (List Fragment) := do
  return lines.map (·.fragmentFor (← draft i).config.text)

abbrev Pass := ExceptT AuthoringError (StateM Machine)

abbrev Caller := Script → Binding → Pass (Option NodeRef)

def inPass (call : Authoring α) : Pass α := do
  let m ← get
  let (result, workshop) := call.run m.workshop
  set { m with workshop }
  match result with
  | .ok a => return a
  | .error e => throw e

def found (call : Caller) (script : Script) (n : NodeRef) : Pass NodeRef := do
  match ← call script (.node n) with
  | some target => return target
  | none => throw Answer.scriptFault

def resolveOne (call : Caller) (i : Nat) : Deferred → Pass Unit
  | .successor key script => do
    let n : NodeRef := ⟨i, key⟩
    let target ← found call script n
    let _ ← inPass (n.setNext target)
  | .branch key condition script => do
    let n : NodeRef := ⟨i, key⟩
    let target ← found call script (← inPass n.clone)
    inPass (target.ofDraft i)
    inPass (n.pushRule condition target)
  | .returns key script => do
    let n : NodeRef := ⟨i, key⟩
    let target ← found call script n
    let _ ← inPass (n.splice target)
  | .actionBuild key script => do
    let _ ← call script (.action ⟨i, key⟩)
  | .actionSuccessor key script => do
    let a : ActionRef := ⟨i, key⟩
    let r ← inPass a.record
    match r.parent with
    | none => throw (.orphanAction r.id)
    | some parent =>
      let target ← found call script ⟨i, parent⟩
      let _ ← inPass (a.setNext target)

def resolveAll (call : Caller) (i : Nat) : List Deferred → Pass Unit
  | [] => return ()
  | link :: rest => do
    resolveOne call i link
    resolveAll call i rest

/- Takes the links of a draft off its list and resolves them, newest first. The answer is how many there were. -/
def pass (call : Caller) (i : Nat) : Pass Nat := do
  let pending := (← inPass (Authoring.draftAt i)).pending
  inPass (Authoring.changeDraft i fun d => { d with pending := [], resolving := true })
  inPass (Authoring.tell [.resolving pending.length])
  let finished ← ExceptT.lift (resolveAll call i pending.reverse).run
  inPass (Authoring.changeDraft i fun d => { d with resolving := false })
  match finished with
  | .ok () => return pending.length
  | .error e => throw e

def passWithTrace (call : Caller) (i : Nat) : Run (Except AuthoringError Nat × List Answer) := do
  let outer := (← get).trace
  modify fun m => { m with trace := #[] }
  let result ← ExceptT.lift (pass call i).run
  let trace := (← get).trace.toList
  modify fun m => { m with trace := outer }
  return (result, trace)

def compiled (n : NodeRef) : Run (Except CompileError Story) := do
  let c := (← draft n.draft).compile n.key
  author (Authoring.tell c.notices)
  return c.result

def resolve (call : Caller) (i : Nat) : Run Done := do
  match ← passWithTrace call i with
  | (.ok count, trace) => plain (.passed count trace)
  | (.error e, trace) => throw (.passFailed e trace)

def compile (n : NodeRef) (brief : Bool) (trace : List Answer) : Run Done := do
  match ← compiled n with
  | .ok s => return { answer := .built s brief trace, result := some (.story s) }
  | .error e => throw (.buildFailed (.compile e) trace)

def build (call : Caller) (i : Nat) (root : NodeRef) (brief : Bool) : Run Done := do
  let own : Except AuthoringError Unit ← tryCatch (do author (root.ofDraft i); return .ok ()) fun
    | .authoring e => return .error e
    | other => throw other
  match own with
  | .error e => throw (.buildFailed (.authoring e) [])
  | .ok () =>
    match ← passWithTrace call i with
    | (.ok _, trace) => compile root brief trace
    | (.error e, trace) => throw (.buildFailed (.authoring e) trace)

def logged {α : Type} (kept : Option Play.State) (outcome : Play.Logged α) : Run α := do
  author (Authoring.tell outcome.log)
  match outcome.result with
  | .ok a => return a
  | .error e => throw (.play e kept)

def session (s : Play.Session) : Run Done :=
  return { answer := .session s.output s.state, result := some (.session s) }

def moveSession (name : String) (s : Play.Session) (outcome : Play.Logged Play.Session) : Run Done := do
  let next ← logged (some s.state) outcome
  modify (·.bind name (.session next))
  plain (.session next.output next.state)

def picked (s : Play.Session) : Pick → Run ActionId
  | .action var => do
    let a ← actionOf var
    return (← author a.record).id
  | .id id => return id
  | .index n =>
    match s.output.actions[n]? with
    | some offer => return offer.id
    | none => refuse "no such action"

def onSession (name : String) (s : Play.Session) : Verb → Run Done
  | .complete => moveSession name s s.complete
  | .select pick => do moveSession name s (s.select (← picked s pick))
  | .reveal var => do moveSession name s (s.apply (.revealed (← ticketOf var)))
  | .revealTicket j => do moveSession name s (s.apply (.revealed (← typed Play.Ticket.decoder j)))
  | .state => plain (.session s.output s.state)
  | .ticket => return { answer := .ticket s.ticket, result := some (.ticket s.ticket) }
  | .get key => plain (.value (s.state.context.get? key))
  | .snapshot => plain (.snapshot s.snapshot s.state.finished)
  | .walk picks => do
    let (last, log, outcomes) := s.walk picks
    author (Authoring.tell log)
    modify (·.bind name (.session last))
    plain (.walk outcomes last.state)
  | _ => refuse "unknown session step"

def onNode (lines : Nat) (n : NodeRef) : Verb → Run Done
  | .appendText text => do nodeMade (n.appendText (← fragments lines text))
  | .prependText text => do nodeMade (n.prependText (← fragments lines text))
  | .replaceText text => do nodeMade (n.replaceText (← fragments lines text))
  | .attachAction var => do nodeMade (n.attachAction (← actionOf var))
  | .linkTo target => do nodeMade (n.linkTo (← link target))
  | .branchOn key op value target => do nodeMade (n.branchOn key op value (← link target))
  | .setEffect key value => nodeMade (n.setEffect key value)
  | .addEffect key value => nodeMade (n.addEffect key value)
  | .join => nodeMade n.join
  | .joinNamed name => nodeMade (n.joinNamed name)
  | .joinWith target => do nodeMade (n.joinWith (← link target))
  | .returnsTo target => do nodeMade (n.returnsTo (← link target))
  | .head => nodeMade n.head
  | .tail => nodeMade n.tail
  | .clone => nodeMade n.clone
  | .freeze => nodeMade n.freeze
  | .get name => nodeMade (Authoring.lookUp n.draft name)
  | .use => node n
  | .next => do nodeIfAny n.draft (← author n.record).next
  | .prev => do nodeIfAny n.draft (← author n.record).prev
  | .template => do nodeIfAny n.draft (← author n.record).template
  | .ruleTarget index => do nodeIfAny n.draft ((← author n.record).rules[index]?.map (·.target))
  | .actionAt index => do
    match (← author n.record).actions[index]? with
    | some key => action ⟨n.draft, key⟩
    | none => plain (.action none)
  | .same other => do plain (.same (n == (← nodeOf other)))
  | _ => refuse "unknown node step"

def onAction (lines : Nat) (a : ActionRef) : Verb → Run Done
  | .label label => actionMade (a.label label)
  | .appendText text => do actionMade (a.appendText (← fragments lines text))
  | .prependText text => do actionMade (a.prependText (← fragments lines text))
  | .replaceText text => do actionMade (a.replaceText (← fragments lines text))
  | .require key op value => actionMade (a.require key op value)
  | .allow key op value => actionMade (a.allow key op value)
  | .setEffect key value => actionMade (a.setEffect key value)
  | .addEffect key value => actionMade (a.addEffect key value)
  | .linkTo target => do actionMade (a.linkTo (← link target))
  | .join => nodeMade a.join
  | .joinNamed name => nodeMade (a.joinNamed name)
  | .freeze => actionMade a.freeze
  | .get name => nodeMade (Authoring.lookUp a.draft name)
  | .use => action a
  | .next => do nodeIfAny a.draft (← author a.record).next
  | .parent => do nodeIfAny a.draft (← author a.record).parent
  | .same other => do plain (.same (a == (← actionOf other)))
  | _ => refuse "unknown action step"

def onDraft (call : Caller) (i : Nat) : Verb → Run Done
  | .newDraft config => do
    let config ← typed Config.decoder config
    let key := (← get).workshop.drafts.size
    modify fun m => { m with workshop.drafts := m.workshop.drafts.push { config := config } }
    return { answer := .config config, draft := some key }
  | .newNode => nodeMade (Workshop.newNode i)
  | .newNamed name => nodeMade (Workshop.newNamed i name)
  | .newAction label => actionMade (Workshop.newAction i label)
  | .newActionWith label script => actionMade (Workshop.newActionWith i label script)
  | .get name => nodeMade (Authoring.lookUp i name)
  | .cloneOf var => do nodeMade (Workshop.cloneTemplate i (← nodeOf var))
  | .clonesOf var => do
    let clones ← author (Workshop.clonesOf i (← nodeOf var))
    let d ← draft i
    plain (.clones (clones.map fun n => (d.node n.key).id))
  | .pending => do plain (.pending (← draft i).pending.length)
  | .text lines => do
    let fragments ← fragments i lines
    plain (.segments (← author (Authoring.paced i fragments)))
  | .say text => do plain (.segment ((← draft i).config.text.say text))
  | .write text => do plain (.segment ((← draft i).config.text.write text))
  | .resolve => resolve call i
  | .build root brief => do build call i (← nodeOf root) brief
  | .compile root brief => do compile (← nodeOf root) brief []
  | .story json => do
    let s ← typed Story.decoder json
    return { answer := .story s, result := some (.story s) }
  | .session story context debug => do
    let story ← storyOf story
    let context ←
      match context with
      | some c => typed Json.Decoder.anyValue.table c
      | none => pure .empty
    let filter ←
      match debug with
      | some f => typed NoticeFilter.decoder f
      | none => pure .quiet
    session (← logged none (Play.Session.begin story context filter))
  | .sessionBytes bytes => do
    match Story.load bytes with
    | .error e => throw (.load e)
    | .ok story => session (← logged none (Play.Session.begin story .empty .quiet))
  | _ => refuse "unknown step"

def readable : Verb → Run Unit
  | .unreadable message => refuse message
  | .misshapen => throw .misshapen
  | _ => pure ()

def dispatch (call : Caller) (on : Option String) (drafted : Option String) (verb : Verb) : Run Done := do
  let i ← draftOf (drafted.getD Machine.firstDraft)
  match on with
  | none => do
    readable verb
    onDraft call i verb
  | some name =>
    match ← lookUp name with
    | .node n => do
      readable verb
      onNode i n verb
    | .action a => do
      readable verb
      onAction i a verb
    | .session s => do
      readable verb
      onSession name s verb
    | _ => unbound name

def perform (call : Caller) : Step → Run Done
  | .mk on drafted bind verb => do
    let done ← dispatch call on drafted verb
    match bind with
    | some name => modify (·.keep name done)
    | none => pure ()
    return done

end Run

namespace Machine

def step (call : Run.Caller) (s : Step) : StateM Machine Done := do
  match ← (Run.perform call s).run with
  | .ok done => return done
  | .error answer => return { answer }

def runScript (step : Step → StateM Machine Done) (last : Option NodeRef) : Script → Run.Pass (Option NodeRef)
  | [] => return last
  | s :: rest => do
    let done ← ExceptT.lift (step s)
    modify fun m => { m with trace := m.trace.push done.answer }
    match done.answer.error?, done.result with
    | some e, _ => throw e
    | none, some (.node n) => runScript step (some n) rest
    | none, _ => runScript step none rest

def callWith (step : Step → StateM Machine Done) : Run.Caller := fun script given => do
  let before := (← get).binding? argument
  modify (·.bind argument given)
  let last :=
    match given with
    | .node n => some n
    | _ => none
  let result ← ExceptT.lift (runScript step last script).run
  modify fun m =>
    match before with
    | some b => m.bind argument b
    | none => m.unbind argument
  match result with
  | .ok last => return last
  | .error e => throw e

/- Scripts may begin build passes inside one another down to the given depth; below it no script is run. -/
def caller : Nat → Run.Caller
  | 0 => fun _ _ => throw Answer.scriptFault
  | depth + 1 => callWith (step (caller depth))

def passDepth : Nat := 4096

def run (m : Machine) (s : Step) : Answer × Machine :=
  let (done, m) := (step (caller passDepth) s).run m
  (done.answer, m)

def build (m : Machine) (make : Authoring NodeRef) (i : Nat) : Except StoryError Story :=
  let run : Run Done := do Run.build (caller passDepth) i (← Run.author make) true
  match (run.run m).1 with
  | .ok { result := some (.story s), .. } => .ok s
  | .error (.buildFailed e _) => .error e
  | .error (.authoring e) => .error (.authoring e)
  | _ => .error (.authoring Answer.scriptFault)

def reached (m : Machine) : List Vertex :=
  m.workshop.reached <| m.bindings.filterMap fun v =>
    match v.2 with
    | .node n => some (.node n)
    | .action a => some (.action a)
    | _ => none

def takeLog (m : Machine) : List Notice × Machine :=
  (m.workshop.log.toList, { m with workshop.log := #[] })

end Machine
end Dialogue
