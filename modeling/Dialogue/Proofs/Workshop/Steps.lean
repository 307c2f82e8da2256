import Dialogue.Proofs.Workshop.Registering
import Dialogue.Proofs.Workshop.Resolvers

/-! Steps that begin no build pass. Such a step does at most one thing to the drafts of a machine: it makes a request
of one of them, with handles that are live, or begins a new one. All else it does is to look, to move a session and to
bind variables. A resolver with none but such steps is plain. -/
namespace Dialogue

namespace Machine

inductive Move (m : Machine) : Machine → Prop where
  | still {m' : Machine} (drafts : m'.workshop.drafts = m.workshop.drafts) : Move m m'
  | ask {m' : Machine} (r : Request) (live : r.Live m.workshop)
      (drafts : m'.workshop.drafts = (r.run.run m.workshop).2.drafts) : Move m m'
  | draft {m' : Machine} (config : Config)
      (drafts : m'.workshop.drafts = m.workshop.drafts.push { config := config }) : Move m m'

def Moves : Machine → Machine → Prop := Relation.ReflTransGen Move

instance : IsPreorder Machine Moves where
  refl := fun _ => .refl
  trans := fun _ _ _ first second => Relation.ReflTransGen.trans first second

end Machine

def Verb.Plain : Verb → Prop
  | .resolve | .build _ _ => False
  | _ => True

def Step.Plain : Step → Prop
  | .mk _ _ _ verb => verb.Plain

abbrev Resolver.Plain : Resolver → Prop := Resolver.All Step.Plain

variable {m m' : Machine} {n : NodeRef} {a : ActionRef} {i : Nat} {call : Run.Caller} {α β : Type}

theorem runAuthor (call : Authoring α) (m : Machine) : (Run.author call).run m =
    ((call.run m.workshop).1.mapError .authoring, { m with workshop := (call.run m.workshop).2 }) := by
  have got : (get : Run Machine).run m = (.ok m, m) := rfl
  unfold Run.author
  rw [runBind, got]
  dsimp only
  generalize call.run m.workshop = result
  obtain ⟨e | a, w⟩ := result <;> rfl

theorem lookUpStill (i : Nat) (name : String) (w : Workshop) : ((Authoring.lookUp i name).run w).2 = w := by
  have looked := Checked.lookUp (i := i) (w := w) name
  unfold Checked Outcome at looked
  generalize (Authoring.lookUp i name).run w = result at *
  obtain ⟨e | n, w'⟩ := result
  · exact looked.1
  · exact looked.1

theorem Machine.stepLeaves (call : Run.Caller) (s : Step) (m : Machine) :
    ((Machine.step call s).run m).2 = ((Run.perform call s).run m).2 := by
  have ran : StateT.run (Run.perform call s).run m = (Run.perform call s).run m := rfl
  unfold Machine.step
  rw [StateT.run_bind, ran]
  generalize (Run.perform call s).run m = result
  obtain ⟨e | done, m'⟩ := result <;> rfl

abbrev Asks (m : Machine) (run : Run α) : Prop := Keeps Machine.Moves (fun _ => True) m run fun _ _ => True

namespace Asks

theorem still {run : Run α} (drafts : (run.run m).2.workshop.drafts = m.workshop.drafts) : Asks m run where
  kept := .single (.still drafts)
  returned := fun _ _ => trivial
  refused := fun _ _ => trivial

theorem bind {run : Run α} {rest : α → Run β} (first : Asks m run) (then_ : ∀ a m', Asks m' (rest a)) :
    Asks m (run >>= rest) := Keeps.bind first fun a m' _ _ => then_ a m'

theorem read {run : Run α} {given : α → Prop} {rest : α → Run β} (reads : Reads m run given)
    (then_ : ∀ a, given a → Asks m (rest a)) : Asks m (run >>= rest) := reads.anyhow.read then_

theorem author {call : Authoring α} (r : Request) (live : r.Live m.workshop)
    (same : (call.run m.workshop).2 = (r.run.run m.workshop).2) : Asks m (Run.author call) where
  kept := by
    refine .single (.ask r live ?_)
    rw [runAuthor, same]
  returned := fun _ _ => trivial
  refused := fun _ _ => trivial

theorem authorStill {call : Authoring α} (drafts : (call.run m.workshop).2.drafts = m.workshop.drafts) :
    Asks m (Run.author call) := still (by rw [runAuthor, drafts])

theorem plain (m : Machine) (answer : Answer) : Asks m (Run.plain answer) := still rfl

theorem refuse (m : Machine) (message : String) : Asks m (Run.refuse message : Run α) := still rfl

theorem node (m : Machine) (n : NodeRef) : Asks m (Run.node n) := still rfl

theorem action (m : Machine) (a : ActionRef) : Asks m (Run.action a) := still rfl

theorem nodeIfAny (m : Machine) (i : Nat) (key : Option Nat) : Asks m (Run.nodeIfAny i key) := by
  cases key with
  | none => exact plain m _
  | some key => exact node m _

theorem nodeMade {call : Authoring NodeRef} (asked : Asks m (Run.author call)) : Asks m (Run.nodeMade call) :=
  asked.bind fun n m' => node m' n

theorem actionMade {call : Authoring ActionRef} (asked : Asks m (Run.author call)) : Asks m (Run.actionMade call) :=
  asked.bind fun a m' => action m' a

theorem lookUp (m : Machine) (i : Nat) (name : String) : Asks m (Run.nodeMade (Authoring.lookUp i name)) :=
  nodeMade (authorStill (by rw [lookUpStill]))

theorem nodeRecord {rest : DraftNode → Run β} (then_ : Asks m (rest ((m.workshop.draftAt n.draft).node n.key))) :
    Asks m (Run.author n.record >>= rest) := by
  unfold Asks Keeps at *
  rw [runBind]
  exact then_

theorem actionRecord {rest : DraftAction → Run β}
    (then_ : Asks m (rest ((m.workshop.draftAt a.draft).action a.key))) : Asks m (Run.author a.record >>= rest) := by
  unfold Asks Keeps at *
  rw [runBind]
  exact then_

theorem logged (m : Machine) (kept : Option Play.State) (outcome : Play.Logged α) :
    Asks m (Run.logged kept outcome) := by
  unfold Run.logged
  refine (authorStill rfl).bind fun _ m₁ => ?_
  split
  · exact still rfl
  · exact still rfl

theorem moveSession (m : Machine) (name : String) (s : Play.Session) (outcome : Play.Logged Play.Session) :
    Asks m (Run.moveSession name s outcome) := by
  unfold Run.moveSession
  refine (logged m _ outcome).bind fun next m₁ => ?_
  have bound : Asks m₁ (modify (·.bind name (.session next))) := still rfl
  exact bound.bind fun _ m₂ => plain m₂ _

theorem onSession (sound : m.Sound) (name : String) (s : Play.Session) (verb : Verb) :
    Asks m (Run.onSession name s verb) := by
  cases verb with
  | complete => exact moveSession m name s _
  | select pick =>
    cases pick with
    | action var =>
      have picked : Asks m (Run.picked s (.action var)) :=
        read (Reads.actionOf sound var) fun _ _ => actionRecord (still rfl)
      exact picked.bind fun _ m₁ => moveSession m₁ name s _
    | id id => exact moveSession m name s _
    | index k =>
      have picked : Asks m (Run.picked s (.index k)) := by
        unfold Run.picked
        dsimp only
        split <;> exact still rfl
      exact picked.bind fun _ m₁ => moveSession m₁ name s _
  | reveal var => exact read (Reads.ticketOf sound var) fun _ _ => moveSession m name s _
  | revealTicket j => exact read (Reads.typed m _ j) fun _ _ => moveSession m name s _
  | walk picks =>
    have told : Asks m (Run.author (Authoring.tell (s.walk picks).2.1)) := authorStill rfl
    refine told.bind fun _ m₁ => ?_
    have bound : Asks m₁ (modify (·.bind name (.session (s.walk picks).1))) := still rfl
    exact bound.bind fun _ m₂ => plain m₂ _
  | _ => exact still rfl

theorem onNode (sound : m.Sound) (here : n.Inside m.workshop) (lines : Nat) (verb : Verb) :
    Asks m (Run.onNode lines n verb) := by
  have asked : ∀ what : NodeRequest, what.Live m.workshop → Asks m (Run.nodeMade (what.run n)) :=
    fun what live => nodeMade (author (.node n what) ⟨here, live⟩ (runReturn _ _ _).symm)
  have linked : ∀ (target : Target) (what : Link → NodeRequest),
      (∀ link, Calls.Inside m.workshop link → (what link).Live m.workshop) →
      Asks m (do Run.nodeMade ((what (← Run.link target)).run n)) := fun target what live =>
    read (Reads.link sound target) fun link there => asked (what link) (live link there)
  have edited : ∀ (text : List Line) (what : List Fragment → NodeRequest),
      (∀ fragments, (what fragments).Live m.workshop) →
      Asks m (do Run.nodeMade ((what (← Run.fragments lines text)).run n)) := fun text what live =>
    read (Reads.fragments m lines text) fun fragments _ => asked (what fragments) (live fragments)
  cases verb with
  | appendText text => exact edited text .appendText fun _ => trivial
  | prependText text => exact edited text .prependText fun _ => trivial
  | replaceText text => exact edited text .replaceText fun _ => trivial
  | attachAction var => exact read (Reads.actionOf sound var) fun a there => asked (.attachAction a) there
  | linkTo target => exact linked target .linkTo fun _ there => there
  | branchOn key op value target => exact linked target (.branchOn key op value) fun _ there => there
  | setEffect key value => exact asked (.setEffect key value) trivial
  | addEffect key value => exact asked (.addEffect key value) trivial
  | join => exact asked .join trivial
  | joinNamed name => exact asked (.joinNamed name) trivial
  | joinWith target => exact linked target .joinWith fun _ there => there
  | returnsTo target => exact linked target .returnsTo fun _ there => there
  | clone => exact asked .clone trivial
  | freeze => exact asked .freeze trivial
  | get name => exact lookUp m n.draft name
  | same other => exact read (Reads.nodeOf sound other) fun _ _ => plain m _
  | next | prev | template | ruleTarget => exact nodeRecord (nodeIfAny m _ _)
  | actionAt index =>
    refine nodeRecord ?_
    split
    · exact action m _
    · exact plain m _
  | _ => exact still rfl

theorem onAction (sound : m.Sound) (here : a.Inside m.workshop) (lines : Nat) (verb : Verb) :
    Asks m (Run.onAction lines a verb) := by
  have asked : ∀ {call : Authoring ActionRef} (what : ActionRequest), what.Live m.workshop →
      what.run a = (do return .action (← call)) → Asks m (Run.actionMade call) := fun what live same =>
    actionMade (author (.action a what) ⟨here, live⟩ (by rw [Request.run, same, runReturn]))
  have edited : ∀ (text : List Line) {call : List Fragment → Authoring ActionRef} (what : List Fragment → ActionRequest),
      (∀ fragments, (what fragments).Live m.workshop) →
      (∀ fragments, (what fragments).run a = do return .action (← call fragments)) →
      Asks m (do Run.actionMade (call (← Run.fragments lines text))) := fun text call what live same =>
    read (Reads.fragments m lines text) fun fragments _ => asked (what fragments) (live fragments) (same fragments)
  have joined : ∀ {call : Authoring NodeRef} (what : ActionRequest), what.Live m.workshop →
      what.run a = (do return .node (← call)) → Asks m (Run.nodeMade call) := fun what live same =>
    nodeMade (author (.action a what) ⟨here, live⟩ (by rw [Request.run, same, runReturn]))
  cases verb with
  | label label => exact asked (.label label) trivial rfl
  | appendText text => exact edited text .appendText (fun _ => trivial) fun _ => rfl
  | prependText text => exact edited text .prependText (fun _ => trivial) fun _ => rfl
  | replaceText text => exact edited text .replaceText (fun _ => trivial) fun _ => rfl
  | require key op value => exact asked (.require key op value) trivial rfl
  | allow key op value => exact asked (.allow key op value) trivial rfl
  | setEffect key value => exact asked (.setEffect key value) trivial rfl
  | addEffect key value => exact asked (.addEffect key value) trivial rfl
  | linkTo target => exact read (Reads.link sound target) fun link there => asked (.linkTo link) there rfl
  | join => exact joined .join trivial rfl
  | joinNamed name => exact joined (.joinNamed name) trivial rfl
  | freeze => exact asked .freeze trivial rfl
  | get name => exact lookUp m a.draft name
  | same other => exact read (Reads.actionOf sound other) fun _ _ => plain m _
  | next | parent => exact actionRecord (nodeIfAny m _ _)
  | _ => exact still rfl

theorem begun (m : Machine) (story : Story) (context : Context) (filter : NoticeFilter) :
    Asks m (do Run.session (← Run.logged none (Play.Session.begin story context filter))) :=
  (logged m none _).bind fun _ _ => still rfl

theorem compile (m : Machine) (n : NodeRef) (brief : Bool) (trace : List Answer) :
    Asks m (Run.compile n brief trace) := by
  have compiled : Asks m (Run.compiled n) := still rfl
  unfold Run.compile
  refine compiled.bind fun result m₁ => ?_
  split <;> exact still rfl

theorem onDraft (sound : m.Sound) (inside : i < m.workshop.drafts.size) {verb : Verb} (plainly : verb.Plain) :
    Asks m (Run.onDraft call i verb) := by
  have nodeAsked : ∀ {call : Authoring NodeRef} (what : DraftRequest), what.Live m.workshop →
      what.run i = (do return .node (← call)) → Asks m (Run.nodeMade call) := fun what live same =>
    nodeMade (author (.draft i what) ⟨inside, live⟩ (by rw [Request.run, same, runReturn]))
  have actionAsked : ∀ {call : Authoring ActionRef} (what : DraftRequest), what.Live m.workshop →
      what.run i = (do return .action (← call)) → Asks m (Run.actionMade call) := fun what live same =>
    actionMade (author (.draft i what) ⟨inside, live⟩ (by rw [Request.run, same, runReturn]))
  cases verb with
  | resolve => exact plainly.elim
  | build root brief => exact plainly.elim
  | newDraft config =>
    refine read (Reads.typed m Config.decoder config) fun config _ => ?_
    exact ⟨.single (.draft config rfl), fun _ _ => trivial, fun _ _ => trivial⟩
  | newNode => exact nodeAsked .newNode trivial rfl
  | newNamed name => exact nodeAsked (.newNamed name) trivial rfl
  | newAction label => exact actionAsked (.newAction label) trivial rfl
  | newActionWith label script => exact actionAsked (.newActionWith label script) trivial rfl
  | get name => exact lookUp m i name
  | cloneOf var => exact read (Reads.nodeOf sound var) fun n there => nodeAsked (.cloneTemplate n) there rfl
  | clonesOf var => exact read (Reads.nodeOf sound var) fun _ _ => still rfl
  | compile root brief => exact read (Reads.nodeOf sound root) fun n _ => compile m n brief []
  | story json => exact read (Reads.typed m _ json) fun _ _ => still rfl
  | session story context debug =>
    refine read (Reads.storyOf sound story) fun story _ => ?_
    have filtered : ∀ (context : Context) (f : Json), Asks m (do
        let filter ← Run.typed NoticeFilter.decoder f
        Run.session (← Run.logged none (Play.Session.begin story context filter))) := fun context f =>
      read (Reads.typed m _ f) fun filter _ => begun m story context filter
    cases context with
    | none =>
      cases debug with
      | none => exact begun m story .empty .quiet
      | some f => exact filtered .empty f
    | some c =>
      refine read (Reads.typed m _ c) fun context _ => ?_
      cases debug with
      | none => exact begun m story context .quiet
      | some f => exact filtered context f
  | sessionBytes bytes =>
    unfold Run.onDraft
    dsimp only
    split
    · exact still rfl
    · exact begun m _ _ _
  | _ => exact still rfl

theorem dispatch (sound : m.Sound) (on drafted : Option String) {verb : Verb} (plainly : verb.Plain) :
    Asks m (Run.dispatch call on drafted verb) := by
  unfold Run.dispatch
  refine read (Reads.draftOf sound _) fun i inside => ?_
  have readable : ∀ {run : Run Done}, Asks m run → Asks m (do Run.readable verb; run) := fun asks =>
    read (Reads.readable m verb) fun _ _ => asks
  cases on with
  | none => exact readable (onDraft sound inside plainly)
  | some name =>
    refine read (Reads.lookUp sound name) fun b bound => ?_
    cases b with
    | node n => exact readable (onNode sound bound i verb)
    | action a => exact readable (onAction sound bound i verb)
    | session s => exact readable (onSession sound name s verb)
    | story | ticket => exact refuse m _

theorem perform (sound : m.Sound) {s : Step} (plainly : s.Plain) : Asks m (Run.perform call s) := by
  obtain ⟨on, drafted, bind, verb⟩ := s
  unfold Run.perform
  refine (dispatch sound on drafted plainly).bind fun done m₁ => ?_
  cases bind with
  | none => exact still rfl
  | some name =>
    have same := m₁.keepWorkshop name done
    have kept : Asks m₁ (modify (·.keep name done)) := still (congrArg (·.drafts) same)
    exact kept.bind fun _ m₂ => still rfl

end Asks
end Dialogue
