import Dialogue.Proofs.Workshop.Calls

/-! Authoring calls as values, so that something can be said of all of them, and of runs of them in any order.
Whatever is asked for with handles that are live, the draft it is asked of goes on by changes, the others stay, and
the handle that comes back is live in it. -/
namespace Dialogue

inductive NodeRequest where
  | appendText (fragments : List Fragment)
  | prependText (fragments : List Fragment)
  | replaceText (fragments : List Fragment)
  | attachAction (a : ActionRef)
  | linkTo (link : Link)
  | branchOn (key op : String) (value : Json) (link : Link)
  | setEffect (key : String) (value : Json)
  | addEffect (key : String) (value : Json)
  | join
  | joinNamed (name : String)
  | joinWith (link : Link)
  | returnsTo (link : Link)
  | clone
  | freeze

inductive ActionRequest where
  | label (label : String)
  | appendText (fragments : List Fragment)
  | prependText (fragments : List Fragment)
  | replaceText (fragments : List Fragment)
  | require (key op : String) (value : Json)
  | allow (key op : String) (value : Json)
  | setEffect (key : String) (value : Json)
  | addEffect (key : String) (value : Json)
  | linkTo (link : Link)
  | join
  | joinNamed (name : String)
  | freeze

inductive DraftRequest where
  | newNode
  | newNamed (name : String)
  | newAction (label : String)
  | newActionWith (label : String) (script : Script)
  | cloneTemplate (n : NodeRef)

inductive Request where
  | node (n : NodeRef) (what : NodeRequest)
  | action (a : ActionRef) (what : ActionRequest)
  | draft (i : Nat) (what : DraftRequest)

namespace NodeRequest

def run (n : NodeRef) : NodeRequest → Authoring NodeRef
  | .appendText fragments => n.appendText fragments
  | .prependText fragments => n.prependText fragments
  | .replaceText fragments => n.replaceText fragments
  | .attachAction a => n.attachAction a
  | .linkTo link => n.linkTo link
  | .branchOn key op value link => n.branchOn key op value link
  | .setEffect key value => n.setEffect key value
  | .addEffect key value => n.addEffect key value
  | .join => n.join
  | .joinNamed name => n.joinNamed name
  | .joinWith link => n.joinWith link
  | .returnsTo link => n.returnsTo link
  | .clone => n.clone
  | .freeze => n.freeze

def Live (w : Workshop) : NodeRequest → Prop
  | .attachAction a => a.Inside w
  | .linkTo link | .branchOn _ _ _ link | .joinWith link | .returnsTo link => Calls.Inside w link
  | _ => True

end NodeRequest

namespace ActionRequest

def run (a : ActionRef) : ActionRequest → Authoring Vertex
  | .label text => do return .action (← a.label text)
  | .appendText fragments => do return .action (← a.appendText fragments)
  | .prependText fragments => do return .action (← a.prependText fragments)
  | .replaceText fragments => do return .action (← a.replaceText fragments)
  | .require key op value => do return .action (← a.require key op value)
  | .allow key op value => do return .action (← a.allow key op value)
  | .setEffect key value => do return .action (← a.setEffect key value)
  | .addEffect key value => do return .action (← a.addEffect key value)
  | .linkTo link => do return .action (← a.linkTo link)
  | .join => do return .node (← a.join)
  | .joinNamed name => do return .node (← a.joinNamed name)
  | .freeze => do return .action (← a.freeze)

def Live (w : Workshop) : ActionRequest → Prop
  | .linkTo link => Calls.Inside w link
  | _ => True

end ActionRequest

namespace DraftRequest

def run (i : Nat) : DraftRequest → Authoring Vertex
  | .newNode => do return .node (← Workshop.newNode i)
  | .newNamed name => do return .node (← Workshop.newNamed i name)
  | .newAction label => do return .action (← Workshop.newAction i label)
  | .newActionWith label script => do return .action (← Workshop.newActionWith i label script)
  | .cloneTemplate n => do return .node (← Workshop.cloneTemplate i n)

def Live (w : Workshop) : DraftRequest → Prop
  | .cloneTemplate n => n.Inside w
  | _ => True

end DraftRequest

def Vertex.Of (i : Nat) (v : Vertex) (w : Workshop) : Prop :=
  match v with
  | .node n => n.Of i w
  | .action a => a.Of i w

namespace Request

def draftIndex : Request → Nat
  | .node n _ => n.draft
  | .action a _ => a.draft
  | .draft i _ => i

def run : Request → Authoring Vertex
  | .node n what => do return .node (← what.run n)
  | .action a what => what.run a
  | .draft i what => what.run i

def Live (w : Workshop) : Request → Prop
  | .node n what => n.Inside w ∧ what.Live w
  | .action a what => a.Inside w ∧ what.Live w
  | .draft i what => i < w.drafts.size ∧ what.Live w

end Request

variable {i : Nat} {w w' : Workshop} {n : NodeRef} {a : ActionRef} {r : Request}

theorem Request.Live.later (live : r.Live w) (step : w.Evolves i w') : r.Live w' := by
  have linked : ∀ link, Calls.Inside w link → Calls.Inside w' link := fun _ there target given =>
    (there target given).later step
  cases r with
  | node n what =>
    refine ⟨NodeRef.Inside.later live.1 step, ?_⟩
    cases what with
    | attachAction a => exact ActionRef.Inside.later live.2 step
    | linkTo link | branchOn _ _ _ link | joinWith link | returnsTo link => exact linked link live.2
    | _ => trivial
  | action a what =>
    refine ⟨ActionRef.Inside.later live.1 step, ?_⟩
    cases what with
    | linkTo link => exact linked link live.2
    | _ => trivial
  | draft j what =>
    have inside : j < w.drafts.size := live.1
    refine ⟨step.drafts ▸ inside, ?_⟩
    cases what with
    | cloneTemplate n => exact NodeRef.Inside.later live.2 step
    | _ => trivial

namespace Calls

theorem node {call : Authoring NodeRef} (calls : Calls i w call (NodeRef.Of i)) :
    Calls i w (do return Vertex.node (← call)) (Vertex.Of i) := calls.bind fun _ _ _ given => .pure given

theorem action {call : Authoring ActionRef} (calls : Calls i w call (ActionRef.Of i)) :
    Calls i w (do return Vertex.action (← call)) (Vertex.Of i) := calls.bind fun _ _ _ given => .pure given

theorem nodeRequest (sound : w.Sound) (here : n.Inside w) {what : NodeRequest} (live : what.Live w) :
    Calls n.draft w (what.run n) (NodeRef.Of n.draft) := by
  have own : n.Of n.draft w := ⟨rfl, here⟩
  cases what with
  | appendText fragments =>
    show Calls _ w (n.appendText fragments) _
    exact editTexts sound own _ _ _
  | prependText fragments =>
    show Calls _ w (n.prependText fragments) _
    exact editTexts sound own _ _ _
  | replaceText fragments =>
    show Calls _ w (n.replaceText fragments) _
    exact editTexts sound own _ _ _
  | attachAction => exact attachAction sound own live
  | linkTo => exact linkTo sound own live
  | branchOn => exact branchOn sound own _ _ _ live
  | setEffect key value =>
    show Calls _ w (n.setEffect key value) _
    exact pushEffect sound own _ _
  | addEffect key value =>
    show Calls _ w (n.addEffect key value) _
    exact pushEffect sound own _ _
  | join => exact join sound own
  | joinNamed => exact joinNamed sound own _
  | joinWith => exact joinWith sound own live
  | returnsTo => exact returnsTo sound own live
  | clone => exact clone sound own
  | freeze => exact freeze own

theorem actionRequest (sound : w.Sound) (here : a.Inside w) {what : ActionRequest} (live : what.Live w) :
    Calls a.draft w (what.run a) (Vertex.Of a.draft) := by
  have own : a.Of a.draft w := ⟨rfl, here⟩
  cases what with
  | label text => exact action (edit own "label" fun _ => rfl)
  | appendText fragments => exact action (editActionTexts own "append_text" fragments _)
  | prependText fragments => exact action (editActionTexts own "prepend_text" fragments _)
  | replaceText fragments => exact action (editActionTexts own "replace_text" fragments _)
  | require => exact action (require own _ _ _)
  | allow => exact action (allow own _ _ _)
  | setEffect | addEffect => exact action (edit own _ fun _ => rfl)
  | linkTo => exact action (actionLinkTo sound own live)
  | join => exact node (actionJoin sound own)
  | joinNamed => exact node (actionJoinNamed sound own _)
  | freeze => exact action (actionFreeze own)

theorem draftRequest (sound : w.Sound) (here : i < w.drafts.size) {what : DraftRequest} (live : what.Live w) :
    Calls i w (what.run i) (Vertex.Of i) := by
  cases what with
  | newNode => exact node (addNode here _)
  | newNamed => exact node (newNamed here _)
  | newAction => exact action (newAction here _)
  | newActionWith => exact action (newActionWith here _ _)
  | cloneTemplate => exact node (cloneTemplate sound live)

theorem request (sound : w.Sound) (live : r.Live w) : Calls r.draftIndex w r.run (Vertex.Of r.draftIndex) := by
  cases r with
  | node => exact node (nodeRequest sound live.1 live.2)
  | action => exact actionRequest sound live.1 live.2
  | draft => exact draftRequest sound live.1 live.2

end Calls

/- What a workshop comes to by requests that may be made where they are made. Requests that are refused count too. -/
inductive Workshop.Authored (may : Workshop → Request → Prop) (w : Workshop) : Workshop → Prop where
  | start : Authored may w w
  | next {w' : Workshop} {r : Request} (before : Authored may w w') (live : r.Live w') (allowed : may w' r) :
      Authored may w (r.run.run w').2

theorem Workshop.Authored.sound {may : Workshop → Request → Prop} (run : w.Authored may w') (sound : w.Sound) :
    w'.Sound := by
  induction run with
  | start => exact sound
  | next _ live _ ih => exact (Calls.request ih live).kept.sound ih

end Dialogue
