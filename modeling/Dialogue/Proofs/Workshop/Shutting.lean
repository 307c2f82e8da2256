import Dialogue.Proofs.Workshop.Checking
import Dialogue.Proofs.Workshop.Steps

/-! Drafts in a build pass. From its start to its end a pass keeps its draft shut: nothing waits on it, and no request
can register anything on it. Plain resolvers keep it so, since they begin no pass that would open it at its end. So
wherever a step of such a resolver begins the draft is shut, and after the pass nothing waits on it. -/
namespace Dialogue

variable {m m' : Machine} {w w' : Workshop} {i : Nat} {n : NodeRef} {a : ActionRef} {r : Request} {d d' : Draft}
  {links : List Deferred} {call : Run.Caller}

namespace Draft

structure SamePhase (d d' : Draft) : Prop where
  resolving : d'.resolving = d.resolving
  pending : d.resolving = true → d'.pending = d.pending

theorem SamePhase.refl (d : Draft) : d.SamePhase d := ⟨rfl, fun _ => rfl⟩

theorem SamePhase.trans {d'' : Draft} (first : d.SamePhase d') (second : d'.SamePhase d'') : d.SamePhase d'' where
  resolving := second.resolving.trans first.resolving
  pending := fun resolving =>
    (second.pending (first.resolving.trans resolving)).trans (first.pending resolving)

theorem Registers.samePhase (run : d.Registers links d') : d.SamePhase d' where
  resolving := run.resolving
  pending := fun resolving => (run.shut resolving).1

end Draft

theorem Request.registersSome (sound : w.Sound) (live : r.Live w) :
    ∃ links, w.Registers r.draftIndex links (r.run.run w).2 := by
  have registering := r.registering sound live
  unfold Registering Outcome at registering
  generalize r.run.run w = result at *
  obtain ⟨e | v, w'⟩ := result
  · exact ⟨_, registering⟩
  · exact ⟨_, registering⟩

namespace Machine

structure StaysShut (i : Nat) (m m' : Machine) : Prop where
  advances : m.Advances m'
  phase : m.Sound → i < m.workshop.drafts.size → (m.workshop.draftAt i).SamePhase (m'.workshop.draftAt i)

instance : IsPreorder Machine (StaysShut i) where
  refl := fun m => ⟨refl_of _ m, fun _ _ => .refl _⟩
  trans := fun _ _ _ first second => {
    advances := trans_of _ first.advances second.advances
    phase := fun sound inside => by
      obtain ⟨sound', grows⟩ := first.advances sound
      exact (first.phase sound inside).trans (second.phase sound' (Nat.lt_of_lt_of_le inside grows.drafts)) }

theorem StaysShut.resolvable (i : Nat) : Resolvable (fun _ => True) i (StaysShut i) where
  advances := StaysShut.advances
  calls := fun step registers _ => {
    advances := fun sound => ⟨sound.evolve step, .evolve step⟩
    phase := fun _ _ => registers.samePhase }

theorem Move.samePhase (move : m.Move m') (sound : m.workshop.Sound) (inside : i < m.workshop.drafts.size) :
    m'.workshop.Sound ∧ i < m'.workshop.drafts.size ∧ (m.workshop.draftAt i).SamePhase (m'.workshop.draftAt i) := by
  cases move with
  | still drafts =>
    refine ⟨sound.still drafts, drafts ▸ inside, ?_⟩
    rw [Workshop.draftAtStill drafts]
    exact .refl _
  | ask r live drafts =>
    have step : m.workshop.Evolves r.draftIndex (r.run.run m.workshop).2 := (Calls.request sound live).kept
    refine ⟨(step.sound sound).still drafts, by rw [drafts, step.drafts]; exact inside, ?_⟩
    rw [Workshop.draftAtStill drafts]
    by_cases own : i = r.draftIndex
    · obtain ⟨links, registers⟩ := r.registersSome sound live
      exact own ▸ registers.samePhase
    · rw [step.others i own]
      exact .refl _
  | draft config drafts =>
    refine ⟨(sound.push config).still drafts, by rw [drafts, Array.size_push]; exact Nat.lt_succ_of_lt inside, ?_⟩
    have pushed : m'.workshop.draftAt i =
        Workshop.draftAt { m.workshop with drafts := m.workshop.drafts.push { config := config } } i :=
      Workshop.draftAtStill drafts i
    rw [pushed, draftAtPush, if_neg (Nat.ne_of_lt inside)]
    exact .refl _

theorem Moves.samePhase (moves : m.Moves m') (sound : m.workshop.Sound) (inside : i < m.workshop.drafts.size) :
    (m.workshop.draftAt i).SamePhase (m'.workshop.draftAt i) := by
  have general : m'.workshop.Sound ∧ i < m'.workshop.drafts.size ∧
      (m.workshop.draftAt i).SamePhase (m'.workshop.draftAt i) := by
    induction moves with
    | refl => exact ⟨sound, inside, .refl _⟩
    | tail _ move ih =>
      obtain ⟨sound₁, inside₁, phase⟩ := ih
      obtain ⟨sound₂, inside₂, further⟩ := move.samePhase sound₁ inside₁
      exact ⟨sound₂, inside₂, phase.trans further⟩
  exact general.2.2

theorem stepStaysShut (calls : call.Sound) (sound : m.Sound) {s : Step} (plain : s.Plain) (i : Nat) :
    Keeps (StaysShut i) (fun _ => True) m (ExceptT.lift (step call s) : Run.Pass Done) fun done m' => done.Fine m' := by
  have passed := liftStep (stepSafe calls) sound s
  have moves : m.Moves ((step call s).run m).2 := by
    rw [stepLeaves]
    exact (Asks.perform sound plain).kept
  exact ⟨⟨passed.kept, fun sound inside => Moves.samePhase moves sound.drafts inside⟩, passed.returned, passed.refused⟩

theorem StaysShut.indifferent (i : Nat) : Indifferent (StaysShut i) where
  advances := StaysShut.advances
  same := fun advances same => ⟨advances, fun _ _ => by
    rw [same]
    exact .refl _⟩

theorem callerByStaysShut (meaning : Script → Resolver) (depth : Nat) {script : Script}
    (plain : (meaning script).Plain) (m : Machine) (i : Nat) :
    (callerBy meaning depth).Follows (StaysShut i) m script := fun _ _ _ sound inside =>
  callerByKeeps (StaysShut.indifferent i) (fun _ _ _ calls sound plain => stepStaysShut calls sound plain i) meaning depth
    plain sound inside

structure Shut (i : Nat) (m : Machine) : Prop where
  drafted : i < m.workshop.drafts.size
  resolving : (m.workshop.draftAt i).resolving = true
  pending : (m.workshop.draftAt i).pending = []

theorem Shut.stays (shut : m.Shut i) (sound : m.Sound) (step : m.StaysShut i m') : m'.Shut i where
  drafted := Nat.lt_of_lt_of_le shut.drafted (step.advances sound).2.drafts
  resolving := (step.phase sound shut.drafted).resolving.trans shut.resolving
  pending := ((step.phase sound shut.drafted).pending shut.resolving).trans shut.pending

theorem shutTaking (inside : i < m.workshop.drafts.size) : (m.taking i).Shut i := by
  have taken := m.workshop.draftAtTaking i i
  rw [if_pos ⟨rfl, inside⟩] at taken
  refine ⟨(m.workshop.evolvesTaking i).drafts ▸ inside, ?_, ?_⟩
  · exact congrArg (·.resolving) taken
  · exact congrArg (·.pending) taken

def PlainlyPending (meaning : Script → Resolver) (i : Nat) (m : Machine) : Prop :=
  ∀ link ∈ (m.workshop.draftAt i).pending, (meaning link.script).Plain

theorem passDrains {meaning : Script → Resolver} (depth : Nat) (sound : m.Sound) (inside : i < m.workshop.drafts.size)
    (plain : m.PlainlyPending meaning i) :
    (((Run.pass (callerBy meaning depth) i).run m).2.workshop.draftAt i).pending = [] ∧
    (((Run.pass (callerBy meaning depth) i).run m).2.workshop.draftAt i).resolving = false := by
  obtain ⟨sound₁, inside₁, within⟩ := sound.taking inside
  have resolved := (StaysShut.resolvable i).resolveAll inside₁ sound₁ (fun link mem =>
    callerByStaysShut meaning depth (plain link (List.mem_reverse.mp mem)) (m.taking i) i) within fun _ _ => trivial
  have shut := (shutTaking inside).stays sound₁ resolved.kept
  have released := Workshop.draftAtReleasing i
    ((Run.resolveAll (callerBy meaning depth) i (m.workshop.draftAt i).pending.reverse).run (m.taking i)).2.workshop i
  rw [if_pos ⟨rfl, shut.drafted⟩] at released
  rw [passParts]
  refine ⟨?_, ?_⟩
  · exact (congrArg (·.pending) released).trans shut.pending
  · exact congrArg (·.resolving) released

theorem stepPlain (call call' : Run.Caller) {s : Step} (plain : s.Plain) : step call s = step call' s := by
  obtain ⟨on, drafted, bind, verb⟩ := s
  have onDraft : ∀ i, Run.onDraft call i verb = Run.onDraft call' i verb := fun i => by
    cases verb with
    | resolve | build => exact plain.elim
    | _ => rfl
  have dispatched : Run.dispatch call on drafted verb = Run.dispatch call' on drafted verb := by
    unfold Run.dispatch
    congr 1
    funext i
    cases on with
    | none => rw [onDraft]
    | some name => rfl
  have performed : Run.perform call (.mk on drafted bind verb) = Run.perform call' (.mk on drafted bind verb) := by
    simp only [Run.perform, dispatched]
  rw [step, step, performed]

variable {P : Machine → Prop} (enough : ∀ m : Machine, m.Sound → m.Shut i → P m) (wrong : Step → StateM Machine Done)
include enough

theorem runResolverGuarded (calls : call.Sound) (call' : Run.Caller) {resolver : Resolver} (plain : resolver.Plain)
    (last : Option NodeRef) (sound : m.Sound) (shut : m.Shut i) : (runResolver (step call) last resolver).run m =
      (runResolver (guarded P wrong (step call')) last resolver).run m := by
  induction plain generalizing m last with
  | give | fail => rfl
  | next plain _ ih =>
    rename_i s rest _
    have looked : (step call s).run m = (guarded P wrong (step call') s).run m := by
      rw [stepPlain call call' plain]
      exact (if_pos (enough m sound shut)).symm
    obtain ⟨sound₁, _, fine⟩ := stepSafe calls m s sound
    have stays : m.StaysShut i ((step call s).run m).2 := (stepStaysShut calls sound plain i).kept
    have still := shut.stays sound stays
    rw [runResolverNext, runResolverNext, ← looked]
    exact ih _ _ (sound₁.answered fine) ⟨still.drafted, still.resolving, still.pending⟩

theorem passGuarded {meaning : Script → Resolver} (depth : Nat) (sound : m.Sound) (inside : i < m.workshop.drafts.size)
    (plain : m.PlainlyPending meaning i) :
    (Run.pass (guardedCaller P wrong meaning depth) i).run m = (Run.pass (callerBy meaning depth) i).run m := by
  refine ((StaysShut.resolvable i).passSame inside sound (fun link mem =>
    callerByStaysShut meaning depth (plain link mem) (m.taking i) i) fun link mem m' given step sound' here => ?_).symm
  have shut := (shutTaking inside).stays (sound.taking inside).1 step
  cases depth with
  | zero => rfl
  | succ depth =>
    have bound := sound'.bind argument here
    have ran := runResolverGuarded enough wrong (callerBySound meaning depth) (guardedCaller P wrong meaning depth)
      (plain link mem) given.node? bound ⟨shut.drafted, shut.resolving, shut.pending⟩
    show (onArgument given _).run m' = (onArgument given _).run m'
    rw [onArgumentParts, onArgumentParts, ran]

end Machine
end Dialogue
