import Dialogue.Workshop.Machine
import Dialogue.Proofs.Workshop.Calls
import Dialogue.Proofs.Workshop.Flattening

/-! Machines. Every draft of a machine is made by changes from an empty one, every handle in a variable belongs to its
draft, and no answer, also none in the trace of a build pass, reports a story that could not be compiled. Parts of a
step keep this, whether they succeed or not. -/
namespace Dialogue

inductive Answer.CompileFailed : Answer → Prop where
  | build {e : CompileError} {trace : List Answer} : CompileFailed (.buildFailed (.compile e) trace)
  | passed {a : Answer} {count : Nat} {trace : List Answer} (mem : a ∈ trace) (inner : CompileFailed a) :
      CompileFailed (.passed count trace)
  | built {a : Answer} {s : Story} {brief : Bool} {trace : List Answer} (mem : a ∈ trace) (inner : CompileFailed a) :
      CompileFailed (.built s brief trace)
  | passFailed {a : Answer} {e : AuthoringError} {trace : List Answer} (mem : a ∈ trace) (inner : CompileFailed a) :
      CompileFailed (.passFailed e trace)
  | buildFailed {a : Answer} {e : StoryError} {trace : List Answer} (mem : a ∈ trace) (inner : CompileFailed a) :
      CompileFailed (.buildFailed e trace)

def Binding.Inside (w : Workshop) : Binding → Prop
  | .node n => n.Inside w
  | .action a => a.Inside w
  | .story _ | .session _ | .ticket _ => True

namespace Machine

structure Sound (m : Machine) : Prop where
  drafts : m.workshop.Sound
  named : ∀ name i, lookupEntry name m.drafts = some i → i < m.workshop.drafts.size
  bound : ∀ name b, m.binding? name = some b → b.Inside m.workshop
  trace : ∀ a ∈ m.trace, ¬ a.CompileFailed

structure Grows (m m' : Machine) : Prop where
  drafts : m.workshop.drafts.size ≤ m'.workshop.drafts.size
  edits : ∀ i < m.workshop.drafts.size, Draft.Edits (m.workshop.draftAt i) (m'.workshop.draftAt i)

def Advances (m m' : Machine) : Prop := m.Sound → m'.Sound ∧ m.Grows m'

end Machine

variable {m m' : Machine} {w : Workshop} {i : Nat} {n : NodeRef} {a : ActionRef} {b : Binding} {name : String}

theorem draftAtPush (w : Workshop) (d : Draft) (i : Nat) :
    Workshop.draftAt { w with drafts := w.drafts.push d } i = if i = w.drafts.size then d else w.draftAt i := by
  simp only [Workshop.draftAt, Array.getElem?_push]
  split <;> rfl

theorem Workshop.Sound.push (sound : w.Sound) (config : Config) :
    Workshop.Sound { w with drafts := w.drafts.push { config := config } } := fun i => by
  rw [draftAtPush]
  split
  · exact ⟨config, .refl⟩
  · exact sound i

namespace Machine.Grows

theorem refl (m : Machine) : m.Grows m := ⟨Nat.le_refl _, fun _ _ => .refl⟩

theorem trans {m'' : Machine} (first : m.Grows m') (second : m'.Grows m'') : m.Grows m'' where
  drafts := Nat.le_trans first.drafts second.drafts
  edits := fun i inside => (first.edits i inside).trans (second.edits i (Nat.lt_of_lt_of_le inside first.drafts))

theorem evolve (step : m.workshop.Evolves i w) : m.Grows { m with workshop := w } where
  drafts := Nat.le_of_eq step.drafts.symm
  edits := fun j _ => step.editsAt j

theorem same (kept : m'.workshop = m.workshop) : m.Grows m' where
  drafts := Nat.le_of_eq (by rw [kept])
  edits := fun i _ => by
    rw [kept]
    exact .refl

theorem push (m : Machine) (config : Config) :
    m.Grows { m with workshop.drafts := m.workshop.drafts.push { config := config } } where
  drafts := by simp
  edits := fun i inside => by
    rw [draftAtPush, if_neg (Nat.ne_of_lt inside)]
    exact .refl

end Machine.Grows

instance : IsPreorder Machine Machine.Advances where
  refl := fun m sound => ⟨sound, .refl m⟩
  trans := fun _ _ _ first second sound =>
    ⟨(second (first sound).1).1, (first sound).2.trans (second (first sound).1).2⟩

theorem NodeRef.Inside.grow (here : n.Inside m.workshop) (grows : m.Grows m') : n.Inside m'.workshop :=
  Nat.lt_of_lt_of_le here (grows.edits n.draft here.drafted).nodesGrow

theorem ActionRef.Inside.grow (here : a.Inside m.workshop) (grows : m.Grows m') : a.Inside m'.workshop :=
  Nat.lt_of_lt_of_le here (grows.edits a.draft here.drafted).actionsGrow

theorem Binding.Inside.grow (inside : b.Inside m.workshop) (grows : m.Grows m') : b.Inside m'.workshop := by
  cases b with
  | node n => exact NodeRef.Inside.grow inside grows
  | action a => exact ActionRef.Inside.grow inside grows
  | story | session | ticket => trivial

theorem lookupFilter {α : Type} (name other : String) (l : List (String × α)) :
    lookupEntry name (l.filter (·.1 ≠ other)) = if name = other then none else lookupEntry name l := by
  induction l with
  | nil => simp [lookupEntry]
  | cons head rest ih =>
    by_cases removed : head.1 = other
    · rw [List.filter_cons_of_neg (by simp [removed]), ih]
      split
      · rfl
      · rename_i differs
        simp [lookupEntry, removed, differs]
    · rw [List.filter_cons_of_pos (by simp [removed])]
      simp only [lookupEntry, ih]
      by_cases same : name = head.1
      · simp [same, removed]
      · simp [same]

structure Done.Fine (d : Done) (m : Machine) : Prop where
  answer : ¬ d.answer.CompileFailed
  result : ∀ b, d.result = some b → b.Inside m.workshop
  draft : ∀ i, d.draft = some i → i < m.workshop.drafts.size

namespace Machine.Sound

theorem evolve (sound : m.Sound) (step : m.workshop.Evolves i w) : ({ m with workshop := w } : Machine).Sound where
  drafts := step.sound sound.drafts
  named := fun name i found => by
    have inside := sound.named name i found
    exact step.drafts ▸ inside
  bound := fun name b found => (sound.bound name b found).grow (.evolve step)
  trace := sound.trace

theorem bind (sound : m.Sound) (name : String) (inside : b.Inside m.workshop) : (m.bind name b).Sound where
  drafts := sound.drafts
  named := sound.named
  bound := fun other c found => by
    simp only [Machine.bind, Machine.binding?] at found
    by_cases same : other = name
    · subst same
      rw [Table.lookupInsertSelf] at found
      exact Option.some.inj found ▸ inside
    · rw [Table.lookupInsertOther same] at found
      exact sound.bound other c found
  trace := sound.trace

theorem unbind (sound : m.Sound) (name : String) : (m.unbind name).Sound where
  drafts := sound.drafts
  named := sound.named
  bound := fun other c found => by
    simp only [Machine.unbind, Machine.binding?, lookupFilter] at found
    split at found
    · contradiction
    · exact sound.bound other c found
  trace := sound.trace

theorem keep (sound : m.Sound) (name : String) {done : Done} (fine : done.Fine m) : (m.keep name done).Sound := by
  unfold Machine.keep
  split
  · rename_i i draft
    refine { sound with named := fun other j found => ?_ }
    by_cases same : other = name
    · subst same
      rw [Table.lookupInsertSelf] at found
      exact Option.some.inj found ▸ fine.draft i draft
    · rw [Table.lookupInsertOther same] at found
      exact sound.named other j found
  · rename_i b _ result
    exact sound.bind name (fine.result b result)
  · exact sound.unbind name

theorem push (sound : m.Sound) (config : Config) :
    ({ m with workshop.drafts := m.workshop.drafts.push { config := config } } : Machine).Sound := by
  have grows := Machine.Grows.push m config
  refine ⟨sound.drafts.push config, fun name i found => ?_, fun name b found => ?_, sound.trace⟩
  · exact Nat.lt_of_lt_of_le (sound.named name i found) grows.drafts
  · exact (sound.bound name b found).grow grows

theorem traced (sound : m.Sound) {trace : Array Answer} (clean : ∀ a ∈ trace, ¬ a.CompileFailed) :
    ({ m with trace } : Machine).Sound := { sound with trace := clean }

end Machine.Sound

theorem Machine.keepWorkshop (m : Machine) (name : String) (done : Done) :
    (m.keep name done).workshop = m.workshop := by
  unfold Machine.keep
  split <;> rfl

theorem Done.Fine.workshop {done : Done} (fine : done.Fine m) (same : m'.workshop = m.workshop) : done.Fine m' where
  answer := fine.answer
  result := same ▸ fine.result
  draft := same ▸ fine.draft

abbrev Runs {α : Type} (m : Machine) (run : Run α) (post : α → Machine → Prop) : Prop :=
  Keeps Machine.Advances (fun e => ¬ e.CompileFailed) m run post

abbrev Reads {α : Type} (m : Machine) (run : Run α) (given : α → Prop) : Prop :=
  Keeps Eq (fun e => ¬ e.CompileFailed) m run fun a _ => given a

abbrev Passes {α : Type} (m : Machine) (pass : Run.Pass α) (post : α → Machine → Prop) : Prop :=
  Keeps Machine.Advances (fun _ => True) m pass post

namespace Reads
variable {α : Type}

theorem refuse (m : Machine) (message : String) {given : α → Prop} : Reads m (Run.refuse message) given := .throw nofun

theorem lookUp (sound : m.Sound) (name : String) : Reads m (Run.lookUp name) fun b => b.Inside m.workshop := by
  unfold Run.lookUp
  refine Keeps.get.bind ?_
  rintro _ _ _ ⟨rfl, rfl⟩
  split
  · rename_i b found
    exact .pure (sound.bound name b found)
  · exact refuse _ _

theorem nodeOf (sound : m.Sound) (name : String) : Reads m (Run.nodeOf name) fun n => n.Inside m.workshop := by
  unfold Run.nodeOf
  refine (lookUp sound name).read fun b inside => ?_
  cases b with
  | node n => exact .pure inside
  | action | story | session | ticket => exact refuse _ _

theorem actionOf (sound : m.Sound) (name : String) : Reads m (Run.actionOf name) fun a => a.Inside m.workshop := by
  unfold Run.actionOf
  refine (lookUp sound name).read fun b inside => ?_
  cases b with
  | action a => exact .pure inside
  | node | story | session | ticket => exact refuse _ _

theorem storyOf (sound : m.Sound) (name : String) : Reads m (Run.storyOf name) fun _ => True := by
  unfold Run.storyOf
  refine (lookUp sound name).read fun b _ => ?_
  cases b with
  | story s => exact .pure trivial
  | node | action | session | ticket => exact refuse _ _

theorem ticketOf (sound : m.Sound) (name : String) : Reads m (Run.ticketOf name) fun _ => True := by
  unfold Run.ticketOf
  refine (lookUp sound name).read fun b _ => ?_
  cases b with
  | ticket t => exact .pure trivial
  | node | action | story | session => exact refuse _ _

theorem draftOf (sound : m.Sound) (name : String) :
    Reads m (Run.draftOf name) fun i => i < m.workshop.drafts.size := by
  unfold Run.draftOf
  refine Keeps.get.bind ?_
  rintro _ _ _ ⟨rfl, rfl⟩
  split
  · rename_i i found
    exact .pure (sound.named name i found)
  · exact refuse _ _

theorem link (sound : m.Sound) (target : Target) :
    Reads m (Run.link target) fun link => Calls.Inside m.workshop link := by
  cases target with
  | node var =>
    refine (nodeOf sound var).read fun n inside => .pure fun _ given => ?_
    cases given
    exact inside
  | named | deferred => exact .pure fun _ given => by cases given

theorem typed (m : Machine) (decoder : Json.Decoder α) (j : Json) : Reads m (Run.typed decoder j) fun _ => True := by
  unfold Run.typed
  split
  · exact .pure trivial
  · exact .throw nofun

theorem fragments (m : Machine) (i : Nat) (lines : List Line) : Reads m (Run.fragments i lines) fun _ => True :=
  .ok rfl trivial

theorem readable (m : Machine) (verb : Verb) : Reads m (Run.readable verb) fun _ => True := by
  cases verb with
  | unreadable message => exact refuse m message
  | misshapen => exact .throw nofun
  | _ => exact .pure trivial

end Reads

namespace Runs
variable {α β : Type} {post : β → Machine → Prop}

theorem author {call : Authoring α} {given : α → Workshop → Prop} (calls : Calls i m.workshop call given) :
    Runs m (Run.author call) fun a m' => given a m'.workshop := by
  unfold Run.author
  refine Keeps.get.bind ?_
  rintro m _ _ ⟨rfl, rfl⟩
  obtain ⟨step, returned, _⟩ := calls
  generalize call.run m.workshop = result at *
  obtain ⟨answer, w⟩ := result
  refine (Keeps.set fun sound => ⟨sound.evolve step, .evolve step⟩).bind fun _ _ _ evolved => ?_
  subst evolved
  cases answer with
  | ok a => exact .pure (returned a rfl)
  | error e => exact .throw nofun

theorem draft {rest : Draft → Run β} (then_ : Runs m (rest (m.workshop.draftAt i)) post) :
    Runs m (Run.draft i >>= rest) post := by
  unfold Runs Keeps at *
  rw [runBind]
  exact then_

theorem nodeRecord {rest : DraftNode → Run β} (then_ : Runs m (rest ((m.workshop.draftAt n.draft).node n.key)) post) :
    Runs m (Run.author n.record >>= rest) post := by
  unfold Runs Keeps at *
  rw [runBind]
  exact then_

theorem actionRecord {rest : DraftAction → Run β}
    (then_ : Runs m (rest ((m.workshop.draftAt a.draft).action a.key)) post) :
    Runs m (Run.author a.record >>= rest) post := by
  unfold Runs Keeps at *
  rw [runBind]
  exact then_

theorem refuse {α : Type} {post : α → Machine → Prop} (message : String) : Runs m (Run.refuse message) post :=
  .throw nofun

theorem plain {answer : Answer} (clean : ¬ answer.CompileFailed) : Runs m (Run.plain answer) Done.Fine :=
  .pure ⟨clean, nofun, nofun⟩

theorem node (here : n.Inside m.workshop) : Runs m (Run.node n) Done.Fine := by
  refine draft (.pure ⟨nofun, fun b same => ?_, nofun⟩)
  cases same
  exact here

theorem nodeMade {call : Authoring NodeRef} (calls : Calls i m.workshop call (NodeRef.Of i)) :
    Runs m (Run.nodeMade call) Done.Fine :=
  (author calls).bind fun _ _ _ given => node given.2

theorem nodeIfAny {key : Option Nat} (inside : ∀ k, key = some k → k < (m.workshop.draftAt i).nodes.size) :
    Runs m (Run.nodeIfAny i key) Done.Fine := by
  cases key with
  | none => exact plain nofun
  | some k => exact node (inside k rfl)

theorem action (here : a.Inside m.workshop) : Runs m (Run.action a) Done.Fine := by
  refine draft (.pure ⟨nofun, fun b same => ?_, nofun⟩)
  cases same
  exact here

theorem actionMade {call : Authoring ActionRef} (calls : Calls i m.workshop call (ActionRef.Of i)) :
    Runs m (Run.actionMade call) Done.Fine :=
  (author calls).bind fun _ _ _ given => action given.2

end Runs

end Dialogue
