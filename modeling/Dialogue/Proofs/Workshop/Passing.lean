import Dialogue.Proofs.Workshop.Acts
import Dialogue.Proofs.Workshop.Registering

/-! Build passes. A pass calls scripts, which may do anything to the machine that its steps may do; what is asked of
them is that they leave it sound and come to nodes of it. Then every link that waited finds the node or action it
waits on still there, whatever its script and those before it have done. -/
namespace Dialogue
variable {m m' : Machine} {i : Nat} {n : NodeRef} {call : Run.Caller}

def Run.Caller.Sound (call : Run.Caller) : Prop := ∀ (m : Machine) (script : Script) (given : Binding), m.Sound →
  given.Inside m.workshop → Passes m (call script given) fun last m' => ∀ n, last = some n → n.Inside m'.workshop

def Deferred.script : Deferred → Script
  | .successor _ script | .branch _ _ script | .returns _ script => script
  | .actionBuild _ script | .actionSuccessor _ script => script

namespace Run

def opening (i : Nat) : Deferred → Pass Binding
  | .successor key _ | .returns key _ => return .node ⟨i, key⟩
  | .branch key _ _ => do return .node (← inPass (⟨i, key⟩ : NodeRef).clone)
  | .actionBuild key _ => return .action ⟨i, key⟩
  | .actionSuccessor key _ => do
    let r ← inPass (⟨i, key⟩ : ActionRef).record
    match r.parent with
    | none => throw (.orphanAction r.id)
    | some parent => return .node ⟨i, parent⟩

def comeTo : Option NodeRef → Pass NodeRef
  | some target => return target
  | none => throw Answer.scriptFault

def closing (i : Nat) (last : Option NodeRef) : Deferred → Pass Unit
  | .successor key _ => do
    let target ← comeTo last
    let _ ← inPass ((⟨i, key⟩ : NodeRef).setNext target)
  | .branch key condition _ => do
    let target ← comeTo last
    inPass (target.ofDraft i)
    inPass ((⟨i, key⟩ : NodeRef).pushRule condition target)
  | .returns key _ => do
    let target ← comeTo last
    let _ ← inPass ((⟨i, key⟩ : NodeRef).splice target)
  | .actionBuild _ _ => return ()
  | .actionSuccessor key _ => do
    let target ← comeTo last
    let _ ← inPass ((⟨i, key⟩ : ActionRef).setNext target)

theorem resolveOneParts (call : Caller) (i : Nat) (link : Deferred) : resolveOne call i link = (do
    let given ← opening i link
    let last ← call link.script given
    closing i last link) := by
  have followed : ∀ (script : Script) (n : NodeRef),
      found call script n = call script (.node n) >>= comeTo := fun _ _ => rfl
  cases link with
  | successor | branch | returns => simp [resolveOne, opening, closing, followed, Deferred.script]
  | actionBuild => simp [resolveOne, opening, closing, Deferred.script]
  | actionSuccessor key script =>
    simp only [resolveOne, opening, closing, followed, Deferred.script, bind_assoc]
    congr 1
    funext r
    cases r.parent with
    | none => rfl
    | some parent => simp

end Run

theorem Run.runInPass {α : Type} (call : Authoring α) (m : Machine) : (Run.inPass call).run m =
    ((call.run m.workshop).1, { m with workshop := (call.run m.workshop).2 }) := by
  have got : (get : Run.Pass Machine).run m = (.ok m, m) := rfl
  unfold Run.inPass
  rw [runBind, got]
  dsimp only
  generalize call.run m.workshop = result
  obtain ⟨e | a, w⟩ := result <;> rfl

/- What is kept while links are resolved. It comes with advancing, and acts that register nothing keep it, if they lead
no other action on than those whose links are due. -/

def Act.Due (i : Nat) (due : Deferred → Prop) : Act → Prop
  | .lead a _ => a.draft = i ∧ ∃ script, due (.actionSuccessor a.key script)
  | _ => True

structure Machine.Resolvable (due : Deferred → Prop) (i : Nat) (R : Machine → Machine → Prop) : Prop where
  advances : ∀ {m m' : Machine}, R m m' → m.Advances m'
  calls : ∀ {m : Machine} {w : Workshop}, m.workshop.Evolves i w → m.workshop.Registers i [] w →
    (∃ acts, m.workshop.Lived acts w ∧ ∀ act ∈ acts, act.Due i due) → R m { m with workshop := w }

def Run.Caller.Follows (call : Run.Caller) (R : Machine → Machine → Prop) (m : Machine) (script : Script) : Prop :=
  ∀ (m' : Machine) (given : Binding), R m m' → m'.Sound → given.Inside m'.workshop →
    Keeps R (fun _ => True) m' (call script given) fun last m'' => ∀ n, last = some n → n.Inside m''.workshop

namespace Machine.Resolvable
variable {R : Machine → Machine → Prop} [IsPreorder Machine R] {α : Type} {script : Script} {link : Deferred}
  {last : Option NodeRef}

theorem later (calls : call.Follows R m script) (step : R m m') : call.Follows R m' script :=
  fun m'' given further => calls m'' given (trans_of R step further)

theorem comeTo (inside : ∀ n, last = some n → n.Inside m.workshop) :
    Keeps R (fun _ => True) m (Run.comeTo last) fun target m' => m = m' ∧ target.Inside m.workshop := by
  cases last with
  | none => exact .throw trivial
  | some target => exact .pure ⟨rfl, inside target rfl⟩

variable {due : Deferred → Prop} (keeps : Resolvable due i R)
include keeps

omit [IsPreorder Machine R] in
theorem inPass {call : Authoring α} {given : α → Workshop → Prop} {other : α → Workshop → Prop}
    (calls : Calls i m.workshop call given) (plainly : Plainly i m.workshop call other)
    (lived : ∃ acts, m.workshop.Lived acts (call.run m.workshop).2 ∧ ∀ act ∈ acts, act.Due i due) :
    Keeps R (fun _ => True) m (Run.inPass call) fun a m' => given a m'.workshop := by
  rw [Keeps, Run.runInPass]
  exact ⟨keeps.calls calls.kept plainly.kept lived, calls.returned, fun _ _ => trivial⟩

theorem opening (sound : m.Sound)
    (within : link.Within (m.workshop.draftAt i).nodes.size (m.workshop.draftAt i).actions.size) :
    Keeps R (fun _ => True) m (Run.opening i link) fun given m' => given.Inside m'.workshop := by
  cases link with
  | successor key script => exact .pure within
  | returns key script => exact .pure within
  | actionBuild key script => exact .pure within
  | branch key condition script =>
    have here : (⟨i, key⟩ : NodeRef).Of i m.workshop := ⟨rfl, within⟩
    have cloned : Workshop.Lived m.workshop [.ask (.node ⟨i, key⟩ .clone)] _ := .one ⟨within, trivial⟩
    rw [Act.run, Request.run, runReturn] at cloned
    refine (keeps.inPass (Calls.clone sound.drafts here) (Plainly.clone sound.drafts here) ⟨_, cloned, by simp [Act.Due]⟩).bind ?_
    exact fun copy m₁ _ made => .pure made.2
  | actionSuccessor key script =>
    have record : Calls i m.workshop (⟨i, key⟩ : ActionRef).record fun r w =>
        m.workshop = w ∧ r = (m.workshop.draftAt i).action key := Keeps.draftAt (.pure ⟨rfl, rfl⟩)
    have plainly : Plainly i m.workshop (⟨i, key⟩ : ActionRef).record fun _ _ => True := Keeps.draftAt (.pure trivial)
    refine (keeps.inPass record plainly ⟨[], .start rfl, by simp⟩).bind fun r m₁ _ known => ?_
    obtain ⟨same, read⟩ := known
    split
    · exact .throw trivial
    · rename_i parent attached
      have parentHere : (⟨i, parent⟩ : NodeRef).Inside m.workshop :=
        ((sound.drafts i).bound.actions key).parent parent (read ▸ attached)
      exact .pure (same ▸ parentHere)

theorem closing (sound : m.Sound) (inside : ∀ n, last = some n → n.Inside m.workshop)
    (within : link.Within (m.workshop.draftAt i).nodes.size (m.workshop.draftAt i).actions.size) (wanted : due link) :
    Keeps R (fun _ => True) m (Run.closing i last link) fun _ _ => True := by
  have drafts := sound.drafts
  cases link with
  | successor key script =>
    have here : (⟨i, key⟩ : NodeRef).Of i m.workshop := ⟨rfl, within⟩
    refine (comeTo inside).bind ?_
    rintro target _ _ ⟨rfl, there⟩
    have followed : Workshop.Lived m.workshop [.follow ⟨i, key⟩ target] _ := .one ⟨within, there⟩
    refine (keeps.inPass (Calls.setNext drafts here there) (Plainly.setNext drafts here there) ⟨_, followed, by simp [Act.Due]⟩).bind ?_
    exact fun _ _ _ _ => .pure trivial
  | branch key condition script =>
    refine (comeTo inside).bind ?_
    rintro target _ _ ⟨rfl, there⟩
    have checked : Plainly i m.workshop (target.ofDraft i) fun _ _ => True :=
      (Keeps.checked (Checked.nodeOfDraft target i)).weaken fun _ _ _ _ => trivial
    have looked : Keeps Eq (fun _ => True) m.workshop (target.ofDraft i) _ :=
      Keeps.checked (Checked.nodeOfDraft target i)
    have lived : m.workshop.Lived [] ((target.ofDraft i).run m.workshop).2 := .start (by rw [← looked.kept])
    refine (keeps.inPass (Calls.nodeOfDraft i _ target i) checked ⟨_, lived, by simp⟩).bind fun _ m₁ _ ⟨same, own⟩ => ?_
    have itself : (⟨i, key⟩ : NodeRef).draft = i := rfl
    have branched : Workshop.Lived m₁.workshop [.branch ⟨i, key⟩ condition target] _ :=
      .one ⟨same ▸ within, own, same ▸ there⟩
    exact keeps.inPass (Calls.pushRule itself condition ⟨own, same ▸ there⟩) (Plainly.changeNode itself _)
      ⟨_, branched, by simp [Act.Due]⟩
  | returns key script =>
    have here : (⟨i, key⟩ : NodeRef).Of i m.workshop := ⟨rfl, within⟩
    refine (comeTo inside).bind ?_
    rintro target _ _ ⟨rfl, there⟩
    have spliced : Workshop.Lived m.workshop [.splice ⟨i, key⟩ target] _ := .one ⟨within, there⟩
    refine (keeps.inPass (Calls.splice drafts here there) (Plainly.splice drafts here there) ⟨_, spliced, by simp [Act.Due]⟩).bind ?_
    exact fun _ _ _ _ => .pure trivial
  | actionBuild key script => exact .pure trivial
  | actionSuccessor key script =>
    have here : (⟨i, key⟩ : ActionRef).Of i m.workshop := ⟨rfl, within⟩
    refine (comeTo inside).bind ?_
    rintro target _ _ ⟨rfl, there⟩
    have led : Workshop.Lived m.workshop [.lead ⟨i, key⟩ target] _ := .one ⟨within, there⟩
    have called : ∀ act ∈ [Act.lead ⟨i, key⟩ target], act.Due i due := by
      simpa [Act.Due] using ⟨script, wanted⟩
    refine (keeps.inPass (Calls.actionSetNext drafts here there) (Plainly.actionSetNext drafts rfl there)
      ⟨_, led, called⟩).bind ?_
    exact fun _ _ _ _ => .pure trivial

theorem resolveOne (inside : i < m.workshop.drafts.size) (calls : call.Follows R m link.script) (sound : m.Sound)
    (within : link.Within (m.workshop.draftAt i).nodes.size (m.workshop.draftAt i).actions.size) (wanted : due link) :
    Keeps R (fun _ => True) m (Run.resolveOne call i link) fun _ _ => True := by
  rw [Run.resolveOneParts]
  refine (keeps.opening sound within).bind fun given m₁ step₁ given₁ => ?_
  obtain ⟨sound₁, grows₁⟩ := keeps.advances step₁ sound
  refine (calls m₁ given step₁ sound₁ given₁).bind fun last m₂ step₂ last₂ => ?_
  obtain ⟨sound₂, grows₂⟩ := keeps.advances step₂ sound₁
  have edits := (grows₁.trans grows₂).edits i inside
  exact keeps.closing sound₂ last₂ (within.grow edits.nodesGrow edits.actionsGrow) wanted

theorem resolveAll (inside : i < m.workshop.drafts.size) (sound : m.Sound) {links : List Deferred}
    (calls : ∀ link ∈ links, call.Follows R m link.script)
    (within : ∀ link ∈ links, link.Within (m.workshop.draftAt i).nodes.size (m.workshop.draftAt i).actions.size)
    (wanted : ∀ link ∈ links, due link) : Keeps R (fun _ => True) m (Run.resolveAll call i links) fun _ _ => True := by
  induction links generalizing m with
  | nil => exact .pure trivial
  | cons link rest ih =>
    obtain ⟨first, others⟩ := List.forall_mem_cons.mp within
    obtain ⟨call₁, callsLater⟩ := List.forall_mem_cons.mp calls
    obtain ⟨wanted₁, wantedLater⟩ := List.forall_mem_cons.mp wanted
    refine (keeps.resolveOne inside call₁ sound first wanted₁).bind fun _ m₁ step _ => ?_
    obtain ⟨sound₁, grows⟩ := keeps.advances step sound
    refine ih (Nat.lt_of_lt_of_le inside grows.drafts) sound₁ (fun link mem => later (callsLater link mem) step) ?_
      wantedLater
    intro link mem
    exact (others link mem).grow (grows.edits i inside).nodesGrow (grows.edits i inside).actionsGrow

end Machine.Resolvable

structure Machine.Passable (i : Nat) (R : Machine → Machine → Prop) : Prop where
  advances : ∀ {m m' : Machine}, R m m' → m.Advances m'
  evolves : ∀ {m : Machine} {w : Workshop}, m.workshop.Evolves i w → R m { m with workshop := w }

theorem Machine.Passable.advancing (i : Nat) : Machine.Passable i Machine.Advances where
  advances := id
  evolves := fun step sound => ⟨sound.evolve step, .evolve step⟩

def Machine.taking (i : Nat) (m : Machine) : Machine := { m with workshop := m.workshop.taking i }

def Machine.releasing (i : Nat) (m : Machine) : Machine := { m with workshop := m.workshop.releasing i }

theorem passParts (call : Run.Caller) (i : Nat) (m : Machine) : (Run.pass call i).run m =
    (((Run.resolveAll call i (m.workshop.draftAt i).pending.reverse).run (m.taking i)).1.map
        fun _ => (m.workshop.draftAt i).pending.length,
      ((Run.resolveAll call i (m.workshop.draftAt i).pending.reverse).run (m.taking i)).2.releasing i) := by
  have read : (Run.inPass (Authoring.draftAt i)).run m = (.ok (m.workshop.draftAt i), m) := rfl
  have changed : ∀ (f : Draft → Draft) (m : Machine), (Run.inPass (Authoring.changeDraft i f)).run m =
      (.ok (), { m with workshop.drafts := m.workshop.drafts.modify i f }) := fun _ _ => rfl
  have told : ∀ (notices : List Notice) (m : Machine), (Run.inPass (Authoring.tell notices)).run m =
      (.ok (), { m with workshop.log := m.workshop.log ++ notices.toArray }) := fun _ _ => rfl
  have lifted : ∀ (links : List Deferred) (m : Machine),
      (ExceptT.lift (Run.resolveAll call i links).run : Run.Pass (Except AuthoringError Unit)).run m =
        (.ok ((Run.resolveAll call i links).run m).1, ((Run.resolveAll call i links).run m).2) := fun _ _ => rfl
  unfold Run.pass
  rw [runBind, read]
  dsimp only
  rw [runBind, changed]
  dsimp only
  rw [runBind, told]
  dsimp only
  rw [runBind, lifted]
  dsimp only
  rw [runBind, changed]
  unfold Machine.taking Workshop.taking
  generalize (Run.resolveAll call i (m.workshop.draftAt i).pending.reverse).run _ = result
  obtain ⟨e | _, m₁⟩ := result <;> rfl

theorem Machine.Passable.resolvable {R : Machine → Machine → Prop} (keeps : Machine.Passable i R) :
    Machine.Resolvable (fun _ => True) i R where
  advances := keeps.advances
  calls := fun step _ _ => keeps.evolves step

theorem Machine.Sound.taking (sound : m.Sound) (inside : i < m.workshop.drafts.size) :
    (m.taking i).Sound ∧ i < (m.taking i).workshop.drafts.size ∧ ∀ link ∈ (m.workshop.draftAt i).pending.reverse,
      link.Within ((m.taking i).workshop.draftAt i).nodes.size ((m.taking i).workshop.draftAt i).actions.size := by
  have step := m.workshop.evolvesTaking i
  refine ⟨sound.evolve step, step.drafts ▸ inside, fun link mem => ?_⟩
  have within := (sound.drafts i).bound.pending link (List.mem_reverse.mp mem)
  exact within.grow step.edits.nodesGrow step.edits.actionsGrow

theorem Machine.Passable.pass {R : Machine → Machine → Prop} [IsPreorder Machine R] (keeps : Machine.Passable i R)
    (inside : i < m.workshop.drafts.size) (sound : m.Sound)
    (calls : ∀ link ∈ (m.workshop.draftAt i).pending, call.Follows R m link.script) :
    Keeps R (fun _ => True) m (Run.pass call i) fun _ _ => True := by
  have taken : R m (m.taking i) := keeps.evolves (m.workshop.evolvesTaking i)
  obtain ⟨sound₁, inside₁, within⟩ := sound.taking inside
  have resolved : Keeps R (fun _ => True) (m.taking i) (Run.resolveAll call i (m.workshop.draftAt i).pending.reverse)
      fun _ _ => True := by
    refine keeps.resolvable.resolveAll inside₁ sound₁ (fun link mem => ?_) within fun _ _ => trivial
    exact Machine.Resolvable.later (calls link (List.mem_reverse.mp mem)) taken
  refine ⟨?_, fun _ _ => trivial, fun _ _ => trivial⟩
  rw [passParts]
  exact trans_of R (trans_of R taken resolved.kept) (keeps.evolves (Workshop.evolvesReleasing i _))

theorem Run.Caller.Sound.follows (calls : call.Sound) (m : Machine) (script : Script) :
    call.Follows Machine.Advances m script := fun m' given _ => calls m' script given

theorem Passes.pass (calls : call.Sound) (inside : i < m.workshop.drafts.size) (sound : m.Sound) :
    Passes m (Run.pass call i) fun _ _ => True :=
  (Machine.Passable.advancing i).pass inside sound fun link _ => calls.follows m link.script

namespace Runs

theorem passWithTrace (calls : call.Sound) (inside : i < m.workshop.drafts.size) (sound : m.Sound) :
    Runs m (Run.passWithTrace call i) fun result _ => ∀ a ∈ result.2, ¬ a.CompileFailed := by
  unfold Run.passWithTrace
  refine Keeps.get.bind ?_
  rintro outer _ _ ⟨rfl, rfl⟩
  refine (Keeps.modify fun sound => ⟨sound.traced (by simp), .same rfl⟩).bind fun _ m₁ _ begun => ?_
  subst begun
  have ran : Passes { outer with trace := #[] } (Run.pass call i) fun _ _ => True :=
    Passes.pass calls inside (sound.traced (by simp))
  refine ran.attempt.bind fun result m₂ step₂ _ => ?_
  obtain ⟨sound₂, _⟩ := step₂ (sound.traced (by simp))
  refine Keeps.get.bind ?_
  rintro m₂ _ _ ⟨rfl, rfl⟩
  refine (Keeps.modify fun sound' => ⟨sound'.traced sound.trace, .same rfl⟩).bind fun _ _ _ _ => .pure ?_
  simpa using sound₂.trace

theorem compiled (sound : m.Sound) (here : n.Inside m.workshop) :
    Runs m (Run.compiled n) fun result _ => ∃ s, result = .ok s := by
  unfold Run.compiled
  refine draft ?_
  obtain ⟨story, ok, _⟩ := Draft.compileOk (sound.drafts n.draft) here
  exact (author (Calls.tell n.draft _ _)).bind fun _ _ _ _ => .pure ⟨story, ok⟩

theorem resolve (calls : call.Sound) (inside : i < m.workshop.drafts.size) (sound : m.Sound) :
    Runs m (Run.resolve call i) Done.Fine := by
  unfold Run.resolve
  refine (passWithTrace calls inside sound).bind fun result m₁ _ clean => ?_
  obtain ⟨count | e, trace⟩ := result
  · refine .throw fun failed => ?_
    cases failed with
    | passFailed mem inner => exact clean _ mem inner
  · refine plain fun failed => ?_
    cases failed with
    | passed mem inner => exact clean _ mem inner

theorem compile (sound : m.Sound) (here : n.Inside m.workshop) (brief : Bool) {trace : List Answer}
    (clean : ∀ a ∈ trace, ¬ a.CompileFailed) : Runs m (Run.compile n brief trace) Done.Fine := by
  unfold Run.compile
  refine (compiled sound here).bind fun result m₁ _ ⟨story, ok⟩ => ?_
  subst ok
  refine .pure ⟨fun failed => ?_, fun b same => ?_, nofun⟩
  · cases failed with
    | built mem inner => exact clean _ mem inner
  · cases same
    trivial

theorem build (calls : call.Sound) (inside : i < m.workshop.drafts.size) (sound : m.Sound)
    (here : n.Inside m.workshop) (brief : Bool) : Runs m (Run.build call i n brief) Done.Fine := by
  unfold Run.build
  have checked : Runs m (do Run.author (n.ofDraft i); return (.ok () : Except AuthoringError Unit)) fun _ _ => True :=
    (author (Calls.nodeOfDraft i _ n i)).bind fun _ _ _ _ => .pure trivial
  refine (checked.tryCatch fun e m₁ _ clean => ?_).bind fun own m₁ step₁ _ => ?_
  · split
    · exact .pure trivial
    · exact .throw clean
  obtain ⟨sound₁, grows₁⟩ := step₁ sound
  split
  · exact .throw fun failed => by cases failed with | buildFailed mem => simp at mem
  · refine (passWithTrace calls (Nat.lt_of_lt_of_le inside grows₁.drafts) sound₁).bind fun result m₂ step₂ clean => ?_
    obtain ⟨sound₂, grows₂⟩ := step₂ sound₁
    obtain ⟨e | count, trace⟩ := result
    · refine .throw fun failed => ?_
      cases failed with
      | buildFailed mem inner => exact clean _ mem inner
    · exact compile sound₂ ((here.grow grows₁).grow grows₂) brief clean

end Runs
end Dialogue
