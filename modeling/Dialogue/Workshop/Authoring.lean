import Dialogue.Workshop.Chain

/-! Authoring: calls on nodes and actions of drafts, through handles. A handle names its draft, and a call refuses a
handle of another draft before it uses the number in it. No call changes a frozen action; a call on a frozen node goes
to a fresh clone of it or is refused, by the policy of its draft. -/
namespace Dialogue

structure NodeRef where
  draft : Nat
  key : Nat
  deriving DecidableEq, Repr, Inhabited

structure ActionRef where
  draft : Nat
  key : Nat
  deriving DecidableEq, Repr, Inhabited

structure Workshop where
  drafts : Array Draft := #[]
  log : Array Notice := #[]

instance : Inhabited Workshop := ⟨{}⟩

/- A call that may be refused. What it did before that stays done. -/
abbrev Authoring := ExceptT AuthoringError (StateM Workshop)

inductive Link where
  | node (n : NodeRef)
  | named (name : String)
  | deferred (script : Script)

namespace Authoring

def draftAt (i : Nat) : Authoring Draft := do return (← get).drafts[i]?.getD default

def changeDraft (i : Nat) (f : Draft → Draft) : Authoring Unit :=
  modify fun w => { w with drafts := w.drafts.modify i f }

def tell (notices : List Notice) : Authoring Unit :=
  modify fun w => { w with log := w.log ++ notices.toArray }

def made (i : Nat) (f : Draft → Draft × Nat × List Notice) : Authoring Nat := do
  let (changed, key, notices) := f (← draftAt i)
  changeDraft i fun _ => changed
  tell notices
  return key

def defer (i : Nat) (link : Deferred) : Authoring Unit := do
  let d ← draftAt i
  if d.resolving then throw (.nestedContinuation (d.deferredOn link))
  tell [.deferred link.kind d.pending.length]
  changeDraft i fun d => { d with pending := d.pending ++ [link] }

def operator (token : String) : Authoring Operator :=
  match Operator.ofToken? token with
  | some op => pure op
  | none => throw (.unsupportedOperator token)

def lookUp (i : Nat) (name : String) : Authoring NodeRef := do
  match (← draftAt i).names.get? name with
  | some key => return ⟨i, key⟩
  | none => throw (.unknownName name)

def paced (i : Nat) (fragments : List Fragment) : Authoring (List Segment) := do
  tell ((Fragment.lost fragments).map .directiveLost)
  return (← draftAt i).config.text.segments fragments

end Authoring

open Authoring

namespace NodeRef

def record (n : NodeRef) : Authoring DraftNode := do return (← draftAt n.draft).node n.key

def change (n : NodeRef) (f : DraftNode → DraftNode) : Authoring Unit :=
  changeDraft n.draft fun d => d.changeNode n.key f

def ofDraft (n : NodeRef) (i : Nat) : Authoring Unit := do
  if n.draft ≠ i then throw (.foreignBuilder (← n.record).id)

def clone (n : NodeRef) : Authoring NodeRef := do
  return ⟨n.draft, ← made n.draft fun d => d.cloneChain n.key⟩

def writable (n : NodeRef) (operation : String) : Authoring NodeRef := do
  let r ← n.record
  if r.frozen then
    match (← draftAt n.draft).config.freezePolicy with
    | .strict => throw (.frozen r.id operation)
    | .cloneOnWrite =>
      let copy ← n.clone
      tell [.redirected r.id operation (← copy.record).id]
      return copy
  else return n

def linkable (n : NodeRef) : Authoring NodeRef := do
  if (← n.record).frozen then n.clone else return n

/- Makes `target` the successor, whether or not the node is frozen, and answers with the node that really became it. -/
def setNext (n target : NodeRef) : Authoring NodeRef := do
  target.ofDraft n.draft
  let target ← target.linkable
  if target.key = n.key then throw (.cyclicSelfLink (← n.record).id)
  target.change fun r => { r with prev := some n.key }
  n.change fun r => { r with next := some target.key }
  return target

def editTexts (n : NodeRef) (operation : String) (fragments : List Fragment)
    (edit : List Segment → List Segment → List Segment) : Authoring NodeRef := do
  let n ← n.writable operation
  let segments ← paced n.draft fragments
  n.change fun r => { r with texts := edit r.texts segments }
  return n

def appendText (n : NodeRef) (fragments : List Fragment) : Authoring NodeRef :=
  n.editTexts "append_text" fragments fun old new => old ++ new

def prependText (n : NodeRef) (fragments : List Fragment) : Authoring NodeRef :=
  n.editTexts "prepend_text" fragments fun old new => new ++ old

def replaceText (n : NodeRef) (fragments : List Fragment) : Authoring NodeRef :=
  n.editTexts "replace_text" fragments fun _ new => new

def linkOfDraft (link : Link) (i : Nat) : Authoring Unit :=
  match link with
  | .node target => target.ofDraft i
  | .named _ | .deferred _ => pure ()

def linkTo (n : NodeRef) (link : Link) : Authoring NodeRef := do
  linkOfDraft link n.draft
  let n ← n.writable "link_to"
  match link with
  | .deferred script => defer n.draft (.successor n.key script)
  | .node target => let _ ← n.setNext target
  | .named name => let _ ← n.setNext (← lookUp n.draft name)
  return n

def pushRule (n : NodeRef) (condition : Condition) (target : NodeRef) : Authoring Unit :=
  n.change fun r => { r with rules := r.rules ++ [⟨condition, target.key⟩] }

def branchOn (n : NodeRef) (key op : String) (value : Json) (link : Link) : Authoring NodeRef := do
  let condition : Condition := ⟨key, ⟨← operator op, value⟩⟩
  linkOfDraft link n.draft
  let n ← n.writable "branch_on"
  match link with
  | .deferred script => defer n.draft (.branch n.key condition script)
  | .node target => n.pushRule condition target
  | .named name => n.pushRule condition (← lookUp n.draft name)
  return n

def pushEffect (n : NodeRef) (operation : String) (e : Effect) : Authoring NodeRef := do
  let n ← n.writable operation
  n.change fun r => { r with effects := r.effects ++ [e] }
  return n

def setEffect (n : NodeRef) (key : String) (value : Json) : Authoring NodeRef :=
  n.pushEffect "set_effect" (.setting key value)

def addEffect (n : NodeRef) (key : String) (value : Json) : Authoring NodeRef :=
  n.pushEffect "add_effect" (.adding key value)

/- Links to a node and answers with the successor. With a deferred link there is none yet, and the node itself
is the answer. -/
def joinWith (n : NodeRef) (link : Link) : Authoring NodeRef := do
  linkOfDraft link n.draft
  match link with
  | .deferred _ => n.linkTo link
  | .node target => (← n.writable "join").setNext target
  | .named name => do
    let target ← lookUp n.draft name
    (← n.writable "join").setNext target

/- Puts a chain in between the node and its successor. The chain's last node is linked to that successor unless
the chain comes to it anyway. -/
def splice (n inserted : NodeRef) : Authoring NodeRef := do
  let r ← n.record
  match r.next with
  | none => throw (.missingSuccessor r.id)
  | some key =>
    let previous : NodeRef := ⟨n.draft, key⟩
    let inserted ← n.setNext inserted
    match (← draftAt n.draft).tailBefore? inserted.key previous.key with
    | some last => let _ ← (⟨n.draft, last⟩ : NodeRef).setNext previous
    | none => pure ()
    tell [.returning (← n.record).id (← inserted.record).id (← previous.record).id]
    return n

def returnsTo (n : NodeRef) (link : Link) : Authoring NodeRef := do
  linkOfDraft link n.draft
  let n ← n.writable "returns_to"
  match link with
  | .deferred script => do
    defer n.draft (.returns n.key script)
    return n
  | .node inserted => n.splice inserted
  | .named name => n.splice (← lookUp n.draft name)

def head (n : NodeRef) : Authoring NodeRef := do return ⟨n.draft, (← draftAt n.draft).head n.key⟩

def tail (n : NodeRef) : Authoring NodeRef := do return ⟨n.draft, (← draftAt n.draft).tail n.key⟩

def freeze (n : NodeRef) : Authoring NodeRef := do
  changeDraft n.draft fun d => d.freezeChain (d.head n.key)
  return n

end NodeRef

namespace Workshop

def addNode (i : Nat) (name : String) : Authoring NodeRef := do
  return ⟨i, ← made i fun d =>
    let (d, key) := d.addNode name
    (d, key, [])⟩

def newNode (i : Nat) : Authoring NodeRef := addNode i "gen"

def newNamed (i : Nat) (name : String) : Authoring NodeRef := do
  return ⟨i, ← made i fun d =>
    let (d, key) := d.addNode name
    let (d, notices) := d.register name key
    (d, key, notices)⟩

def defaultLabel : String := "???"

def newAction (i : Nat) (label : String) : Authoring ActionRef := do
  return ⟨i, ← made i fun d =>
    let (d, key) := d.addAction (if label.isEmpty then defaultLabel else label)
    (d, key, [])⟩

def newActionWith (i : Nat) (label : String) (script : Script) : Authoring ActionRef := do
  let a ← newAction i label
  defer i (.actionBuild a.key script)
  return a

def cloneTemplate (i : Nat) (n : NodeRef) : Authoring NodeRef := do
  n.ofDraft i
  n.clone

def clonesOf (i : Nat) (n : NodeRef) : Authoring (List NodeRef) := do
  return ((← draftAt i).clonesOf n.key).map fun key => ⟨i, key⟩

end Workshop

namespace NodeRef

def join (n : NodeRef) : Authoring NodeRef := do
  n.joinWith (.node (← Workshop.newNode n.draft))

def joinNamed (n : NodeRef) (name : String) : Authoring NodeRef := do
  n.joinWith (.node (← Workshop.newNamed n.draft name))

end NodeRef

namespace ActionRef

def record (a : ActionRef) : Authoring DraftAction := do return (← draftAt a.draft).action a.key

def change (a : ActionRef) (f : DraftAction → DraftAction) : Authoring Unit :=
  changeDraft a.draft fun d => d.changeAction a.key f

def ofDraft (a : ActionRef) (i : Nat) : Authoring Unit := do
  if a.draft ≠ i then throw (.foreignBuilder (← a.record).id)

def writable (a : ActionRef) (operation : String) : Authoring Unit := do
  let r ← a.record
  if r.frozen then throw (.frozenAction r.id operation)

def edit (a : ActionRef) (operation : String) (f : DraftAction → DraftAction) : Authoring ActionRef := do
  a.writable operation
  a.change f
  return a

def label (a : ActionRef) (label : String) : Authoring ActionRef :=
  a.edit "label" fun r => { r with label := label }

def editTexts (a : ActionRef) (operation : String) (fragments : List Fragment)
    (edit : List Segment → List Segment → List Segment) : Authoring ActionRef := do
  a.writable operation
  let segments ← paced a.draft fragments
  a.change fun r => { r with texts := edit r.texts segments }
  return a

def appendText (a : ActionRef) (fragments : List Fragment) : Authoring ActionRef :=
  a.editTexts "append_text" fragments fun old new => old ++ new

def prependText (a : ActionRef) (fragments : List Fragment) : Authoring ActionRef :=
  a.editTexts "prepend_text" fragments fun old new => new ++ old

def replaceText (a : ActionRef) (fragments : List Fragment) : Authoring ActionRef :=
  a.editTexts "replace_text" fragments fun _ new => new

def require (a : ActionRef) (key op : String) (value : Json) : Authoring ActionRef := do
  let check : Check := ⟨← operator op, value⟩
  a.edit "and" fun r => { r with requirements := r.requirements.insert key check }

def allow (a : ActionRef) (key op : String) (value : Json) : Authoring ActionRef := do
  let check : Check := ⟨← operator op, value⟩
  a.edit "or" fun r => { r with alternatives := r.alternatives.insert key check }

def setEffect (a : ActionRef) (key : String) (value : Json) : Authoring ActionRef :=
  a.edit "set_effect" fun r => { r with effects := r.effects ++ [.setting key value] }

def addEffect (a : ActionRef) (key : String) (value : Json) : Authoring ActionRef :=
  a.edit "add_effect" fun r => { r with effects := r.effects ++ [.adding key value] }

def setNext (a : ActionRef) (target : NodeRef) : Authoring NodeRef := do
  target.ofDraft a.draft
  let target ← target.linkable
  a.change fun r => { r with next := some target.key }
  return target

def linkTo (a : ActionRef) (link : Link) : Authoring ActionRef := do
  a.writable "link_to"
  match link with
  | .deferred script => defer a.draft (.actionSuccessor a.key script)
  | .node target => let _ ← a.setNext target
  | .named name => let _ ← a.setNext (← lookUp a.draft name)
  return a

def join (a : ActionRef) : Authoring NodeRef := do
  a.writable "join"
  a.setNext (← Workshop.newNode a.draft)

def joinNamed (a : ActionRef) (name : String) : Authoring NodeRef := do
  a.writable "join"
  a.setNext (← Workshop.newNamed a.draft name)

def freeze (a : ActionRef) : Authoring ActionRef := do
  a.change fun r => { r with frozen := true }
  return a

end ActionRef

namespace NodeRef

def attachAction (n : NodeRef) (a : ActionRef) : Authoring NodeRef := do
  a.ofDraft n.draft
  let n ← n.writable "attach_action"
  n.change fun r => { r with actions := r.actions ++ [a.key] }
  a.change fun r => { r with parent := some n.key }
  return n

end NodeRef
end Dialogue
