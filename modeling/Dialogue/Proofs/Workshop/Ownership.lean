import Dialogue.Proofs.Workshop.Checking
import Dialogue.Proofs.Workshop.Outcomes

/-! Keys and the drafts they belong to. A key is a number that any draft would take. Still, every key that a draft
stores and every handle that a program holds is a key of its own draft, and what is asked of one draft changes no
other. A build pass changes another draft only where a script of it does. -/
namespace Dialogue

namespace Machine

structure AdvancesBut (j : Nat) (m m' : Machine) : Prop where
  advances : m.Advances m'
  same : m'.workshop.draftAt j = m.workshop.draftAt j

instance {j : Nat} : IsPreorder Machine (AdvancesBut j) where
  refl := fun m => ⟨refl_of _ m, rfl⟩
  trans := fun _ _ _ first second => ⟨trans_of _ first.advances second.advances, second.same.trans first.same⟩

def ScriptsSpare (call : Run.Caller) (i j : Nat) (m : Machine) : Prop :=
  ∀ link ∈ (m.workshop.draftAt i).pending, ∀ (m' : Machine) (given : Binding), m'.Sound → m.Grows m' →
    m'.workshop.draftAt j = m.workshop.draftAt j → given.Inside m'.workshop →
    ((call link.script given).run m').2.workshop.draftAt j = m'.workshop.draftAt j

end Machine

variable {α : Type} {m : Machine} {w : Workshop} {i j : Nat} {call : Run.Caller}

namespace Machine.AdvancesBut

theorem evolve (other : j ≠ i) (step : m.workshop.Evolves i w) : m.AdvancesBut j { m with workshop := w } where
  advances := fun sound => ⟨sound.evolve step, .evolve step⟩
  same := step.others j other

theorem passable (other : j ≠ i) : Machine.Passable i (Machine.AdvancesBut j) where
  advances := Machine.AdvancesBut.advances
  evolves := fun step => evolve other step

theorem follows (calls : call.Sound) (sound : m.Sound) (spare : m.ScriptsSpare call i j) {link : Deferred}
    (waits : link ∈ (m.workshop.draftAt i).pending) : call.Follows (Machine.AdvancesBut j) m link.script := by
  intro m' given step sound' inside
  obtain ⟨kept, returned, refused⟩ := calls m' link.script given sound' inside
  obtain ⟨_, grows⟩ := step.advances sound
  exact ⟨⟨kept, spare link waits m' given sound' grows step.same inside⟩, returned, refused⟩

theorem author {call : Authoring α} {given : α → Workshop → Prop} (other : j ≠ i)
    (calls : Calls i m.workshop call given) :
    Keeps (AdvancesBut j) (fun _ => True) m (Run.author call) fun a m' => given a m'.workshop := by
  unfold Run.author
  refine Keeps.get.bind ?_
  rintro m _ _ ⟨rfl, rfl⟩
  obtain ⟨step, returned, _⟩ := calls
  generalize call.run m.workshop = result at *
  obtain ⟨answer, w⟩ := result
  refine (Keeps.set (evolve other step)).bind fun _ _ _ evolved => ?_
  subst evolved
  cases answer with
  | ok a => exact .pure (returned a rfl)
  | error e => exact .throw trivial

theorem check {call : Authoring α} {given : α → Prop} {refused : AuthoringError → Prop}
    (checked : Checked m.workshop call (fun a w => w = m.workshop ∧ given a) refused) :
    Keeps Eq (fun _ => True) m (Run.author call) fun _ _ => True := by
  unfold Checked Outcome at checked
  unfold Run.author
  refine Keeps.get.bind ?_
  rintro m _ _ ⟨rfl, rfl⟩
  generalize call.run m.workshop = result at *
  obtain ⟨e | a, w⟩ := result
  · obtain ⟨rfl, _⟩ := checked
    exact (Keeps.set rfl).bind fun _ _ _ _ => .throw trivial
  · obtain ⟨rfl, _⟩ := checked
    exact (Keeps.set rfl).bind fun _ _ _ _ => .pure trivial

theorem traced {trace : Array Answer} (clean : m.Sound → ∀ a ∈ trace, ¬ a.CompileFailed) :
    m.AdvancesBut j { m with trace } where
  advances := fun sound => ⟨sound.traced (clean sound), .same rfl⟩
  same := rfl

theorem passWithTrace (other : j ≠ i) (calls : call.Sound) (inside : i < m.workshop.drafts.size) (sound : m.Sound)
    (spare : m.ScriptsSpare call i j) :
    Keeps (AdvancesBut j) (fun _ => True) m (Run.passWithTrace call i) fun _ _ => True := by
  unfold Run.passWithTrace
  refine Keeps.get.bind ?_
  rintro outer _ _ ⟨rfl, rfl⟩
  refine (Keeps.modify (traced fun _ => by simp)).bind fun _ m₁ begun cleared => ?_
  subst cleared
  have ran : Keeps (AdvancesBut j) (fun _ => True) { outer with trace := #[] } (Run.pass call i) fun _ _ => True :=
    (passable other).pass inside (sound.traced (by simp)) fun link waits =>
      Machine.Resolvable.later (follows calls sound spare waits) begun
  refine ran.attempt.bind fun result m₂ _ _ => ?_
  refine Keeps.get.bind ?_
  rintro m₂ _ _ ⟨rfl, rfl⟩
  exact (Keeps.modify (traced fun _ => sound.trace)).bind fun _ _ _ _ => .pure trivial

theorem resolve (other : j ≠ i) (calls : call.Sound) (inside : i < m.workshop.drafts.size) (sound : m.Sound)
    (spare : m.ScriptsSpare call i j) :
    Keeps (AdvancesBut j) (fun _ => True) m (Run.resolve call i) fun _ _ => True := by
  unfold Run.resolve
  refine (passWithTrace other calls inside sound spare).bind fun result m₁ _ _ => ?_
  split
  · exact .pure trivial
  · exact .throw trivial

theorem compile (other : j ≠ i) (n : NodeRef) (brief : Bool) (trace : List Answer) :
    Keeps (AdvancesBut j) (fun _ => True) m (Run.compile n brief trace) fun _ _ => True := by
  have read : Calls i m.workshop (Authoring.draftAt n.draft) fun _ _ => True := .pure trivial
  have compiled : Keeps (AdvancesBut j) (fun _ => True) m (Run.compiled n) fun _ _ => True := by
    refine (author other read).bind fun d m₁ _ _ => ?_
    exact (author other (Calls.tell i m₁.workshop _)).bind fun _ _ _ _ => .pure trivial
  unfold Run.compile
  refine compiled.bind fun result m₁ _ _ => ?_
  split
  · exact .pure trivial
  · exact .throw trivial

theorem build (other : j ≠ i) (calls : call.Sound) (inside : i < m.workshop.drafts.size) (sound : m.Sound)
    (spare : m.ScriptsSpare call i j) (n : NodeRef) (brief : Bool) :
    Keeps (AdvancesBut j) (fun _ => True) m (Run.build call i n brief) fun _ _ => True := by
  have checked : Keeps Eq (fun _ => True) m
      (do Run.author (n.ofDraft i); return (.ok () : Except AuthoringError Unit)) fun _ _ => True :=
    (check (Checked.nodeOfDraft n i)).bind fun _ _ _ _ => .pure trivial
  unfold Run.build
  refine (checked.tryCatch fun e m₁ _ _ => ?_).read fun owned _ => ?_
  · split
    · exact .pure trivial
    · exact .throw trivial
  · split
    · exact .throw trivial
    · refine (passWithTrace other calls inside sound spare).bind fun result m₁ _ _ => ?_
      split
      · exact compile other n brief _
      · exact .throw trivial

end Machine.AdvancesBut

namespace Machine

structure Kept (m : Machine) : Prop where
  drafts : ∀ i, (m.workshop.draftAt i).Bound
  handles : ∀ name b, m.binding? name = some b → b.Inside m.workshop
  calls : ∀ r : Request, r.Live m.workshop → m.workshop.Evolves r.draftIndex (r.run.run m.workshop).2 ∧
    ∀ v, (r.run.run m.workshop).1 = .ok v → v.Of r.draftIndex (r.run.run m.workshop).2
  passes : ∀ meaning depth i j, i < m.workshop.drafts.size → j ≠ i → m.ScriptsSpare (callerBy meaning depth) i j →
    ((Run.resolve (callerBy meaning depth) i).run m).2.workshop.draftAt j = m.workshop.draftAt j ∧
    ∀ root brief,
      ((Run.build (callerBy meaning depth) i root brief).run m).2.workshop.draftAt j = m.workshop.draftAt j

theorem Sound.kept (sound : m.Sound) : m.Kept where
  drafts := fun i => (sound.drafts i).bound
  handles := sound.bound
  calls := fun r live => by
    obtain ⟨step, returned, _⟩ := Calls.request sound.drafts live
    exact ⟨step, returned⟩
  passes := fun meaning depth i j inside other spare => by
    have calls := callerBySound meaning depth
    exact ⟨(AdvancesBut.resolve other calls inside sound spare).kept.same,
      fun root brief => (AdvancesBut.build other calls inside sound spare root brief).kept.same⟩

theorem keysBelong (meaning : Script → Resolver) (depth : Nat) (config : Config) (program : List Step) :
    (afterBy meaning depth config program).Kept ∧
    ∀ wrong, guardedAfter Kept wrong meaning depth config program = afterBy meaning depth config program :=
  ⟨(afterBySound meaning depth config program).kept,
    fun wrong => guardedAfterSame (fun _ => Sound.kept) wrong meaning depth config program⟩

/- Two drafts. A rule of the cave waits for a script that gives back what it is called on. The moon is in the other draft
and has there the number that the cave has in its own. -/
def nightfall : List Step := [
  .mk none none (some "cave") (.newNamed "cave"),
  .mk (some "cave") none none (.branchOn "torch" "eq" (.bool true) (.deferred [])),
  .mk none none (some "sky") (.newDraft (.object [])),
  .mk none (some "sky") (some "moon") (.newNamed "moon")]

def night : Machine := afterBy .ofScript 1 {} nightfall

def moonlight : Request := .node ⟨0, 0⟩ (.linkTo (.node ⟨1, 0⟩))

theorem moonlightLive : moonlight.Live night.workshop := by
  have cave : 0 < (night.workshop.draftAt 0).nodes.size := by decide +kernel
  have moon : 0 < (night.workshop.draftAt 1).nodes.size := by decide +kernel
  refine ⟨cave, fun target given => ?_⟩
  cases given
  exact moon

theorem nightScriptsSpare : night.ScriptsSpare (callerBy .ofScript 1) 0 1 := by
  have scripts : (night.workshop.draftAt 0).pending.all (fun link => link.script.isEmpty) = true := by decide +kernel
  intro link waits m' given _ _ _ _
  have script : link.script = [] := List.isEmpty_iff.mp (List.all_eq_true.mp scripts link waits)
  have still : (((callerBy .ofScript 1) [] given).run m').2.workshop = m'.workshop := by
    rw [callerBy, callBy, onArgumentParts, restoredWorkshop]
    rfl
  rw [script]
  exact congrArg (·.draftAt 1) still

theorem nightKept : night.Kept ∧ (moonlight.run.run night.workshop).2.draftAt 1 = night.workshop.draftAt 1 ∧
    ((Run.resolve (callerBy .ofScript 1) 0).run night).2.workshop.draftAt 1 = night.workshop.draftAt 1 := by
  have kept : night.Kept := (keysBelong .ofScript 1 {} nightfall).1
  have two : 0 < night.workshop.drafts.size := by decide +kernel
  have other : 1 ≠ moonlight.draftIndex := by decide
  have linked := (kept.calls moonlight moonlightLive).1.others 1 other
  have passed := (kept.passes .ofScript 1 0 1 two (by decide) nightScriptsSpare).1
  exact ⟨kept, linked, passed⟩

end Machine
end Dialogue
