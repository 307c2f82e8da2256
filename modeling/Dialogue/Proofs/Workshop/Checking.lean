import Dialogue.Proofs.Workshop.Resolvers

/-! Checking every step. A machine can be run by an interpreter that looks at it before each step, also before those
of resolvers inside build passes, and does something else where a property does not hold. If the property comes with
being sound, such an interpreter does what the plain one does: the property holds wherever a step begins. -/
namespace Dialogue

section Generic
variable {ε σ α β : Type} {R : σ → σ → Prop} {failed : ε → Prop} {s : σ} {x x' : ExceptT ε (StateM σ) α}
  {f f' : α → ExceptT ε (StateM σ) β} {mid : α → σ → Prop}

theorem bindFirstSame (same : x.run s = x'.run s) : (x >>= f).run s = (x' >>= f).run s := by
  rw [runBind, runBind, same]

theorem bindRestSame (first : Keeps R failed s x mid)
    (same : ∀ a s', R s s' → mid a s' → (f a).run s' = (f' a).run s') : (x >>= f).run s = (x >>= f').run s := by
  rw [runBind, runBind]
  obtain ⟨kept, returned, _⟩ := first
  generalize x.run s = result at *
  obtain ⟨e | a, s'⟩ := result
  · rfl
  · exact same a s' kept (returned a rfl)

theorem liftSame {t t' : StateM σ α} (same : t.run s = t'.run s) :
    (ExceptT.lift t : ExceptT ε (StateM σ) α).run s = (ExceptT.lift t').run s :=
  congrArg (fun result : α × σ => ((Except.ok result.1 : Except ε α), result.2)) same

end Generic

variable {m : Machine} {i : Nat} {n : NodeRef} {call call' : Run.Caller}

def Run.Caller.AlikeFrom (call call' : Run.Caller) (R : Machine → Machine → Prop) (m : Machine) (script : Script) : Prop :=
  ∀ (m' : Machine) (given : Binding), R m m' → m'.Sound → given.Inside m'.workshop →
    (call script given).run m' = (call' script given).run m'

namespace Machine.Resolvable
variable {R : Machine → Machine → Prop} [IsPreorder Machine R] (keeps : Resolvable (fun _ => True) i R)
include keeps

theorem resolveOneSame {link : Deferred} (alike : call.AlikeFrom call' R m link.script) (sound : m.Sound)
    (within : link.Within (m.workshop.draftAt i).nodes.size (m.workshop.draftAt i).actions.size) :
    (Run.resolveOne call i link).run m = (Run.resolveOne call' i link).run m := by
  rw [Run.resolveOneParts, Run.resolveOneParts]
  refine bindRestSame (keeps.opening sound within) fun given m₁ step inside => ?_
  exact bindFirstSame (alike m₁ given step (keeps.advances step sound).1 inside)

theorem resolveAllSame (inside : i < m.workshop.drafts.size) (sound : m.Sound) {links : List Deferred}
    (calls : ∀ link ∈ links, call.Follows R m link.script)
    (alike : ∀ link ∈ links, call.AlikeFrom call' R m link.script)
    (within : ∀ link ∈ links, link.Within (m.workshop.draftAt i).nodes.size (m.workshop.draftAt i).actions.size) :
    (Run.resolveAll call i links).run m = (Run.resolveAll call' i links).run m := by
  induction links generalizing m with
  | nil => rfl
  | cons link rest ih =>
    obtain ⟨first, others⟩ := List.forall_mem_cons.mp within
    obtain ⟨call₁, callsLater⟩ := List.forall_mem_cons.mp calls
    obtain ⟨alike₁, alikeLater⟩ := List.forall_mem_cons.mp alike
    have resolved := keeps.resolveOne inside call₁ sound first trivial
    refine (bindRestSame resolved fun _ m₁ step _ => ?_).trans (bindFirstSame (keeps.resolveOneSame alike₁ sound first))
    obtain ⟨sound₁, grows⟩ := keeps.advances step sound
    refine ih (Nat.lt_of_lt_of_le inside grows.drafts) sound₁ (fun link mem => later (callsLater link mem) step) ?_ ?_
    · exact fun link mem m' given further => alikeLater link mem m' given (trans_of R step further)
    · intro link mem
      exact (others link mem).grow (grows.edits i inside).nodesGrow (grows.edits i inside).actionsGrow

theorem passSame (inside : i < m.workshop.drafts.size) (sound : m.Sound)
    (calls : ∀ link ∈ (m.workshop.draftAt i).pending, call.Follows R (m.taking i) link.script)
    (alike : ∀ link ∈ (m.workshop.draftAt i).pending, call.AlikeFrom call' R (m.taking i) link.script) :
    (Run.pass call i).run m = (Run.pass call' i).run m := by
  obtain ⟨sound₁, inside₁, within⟩ := sound.taking inside
  have same : (Run.resolveAll call i (m.workshop.draftAt i).pending.reverse).run (m.taking i) =
      (Run.resolveAll call' i (m.workshop.draftAt i).pending.reverse).run (m.taking i) :=
    keeps.resolveAllSame inside₁ sound₁ (fun link mem => calls link (List.mem_reverse.mp mem))
      (fun link mem => alike link (List.mem_reverse.mp mem)) within
  rw [passParts, passParts, same]

end Machine.Resolvable

def Run.Caller.Alike (call call' : Run.Caller) : Prop := ∀ (m : Machine) (script : Script) (given : Binding), m.Sound →
  given.Inside m.workshop → (call script given).run m = (call' script given).run m

namespace Run.Caller.Alike

theorem pass (alike : call.Alike call') (calls : call.Sound) (inside : i < m.workshop.drafts.size) (sound : m.Sound) :
    (Run.pass call i).run m = (Run.pass call' i).run m :=
  (Machine.Passable.advancing i).resolvable.passSame inside sound (fun link _ => calls.follows _ link.script)
    fun link _ m' given _ => alike m' link.script given

theorem passWithTrace (alike : call.Alike call') (calls : call.Sound) (inside : i < m.workshop.drafts.size)
    (sound : m.Sound) : (Run.passWithTrace call i).run m = (Run.passWithTrace call' i).run m := by
  have begun : Runs m (MonadState.get : Run Machine) fun a m' => a = m ∧ m = m' := .get
  unfold Run.passWithTrace
  refine bindRestSame begun ?_
  rintro outer _ _ ⟨rfl, rfl⟩
  have cleared : Runs outer (modify fun m => { m with trace := #[] }) fun _ m' => m' = { outer with trace := #[] } :=
    Keeps.modify fun sound => ⟨sound.traced (by simp), .same rfl⟩
  refine bindRestSame cleared ?_
  rintro _ _ _ rfl
  exact bindFirstSame (liftSame (alike.pass calls inside (sound.traced (by simp))))

theorem resolve (alike : call.Alike call') (calls : call.Sound) (inside : i < m.workshop.drafts.size)
    (sound : m.Sound) : (Run.resolve call i).run m = (Run.resolve call' i).run m :=
  bindFirstSame (alike.passWithTrace calls inside sound)

theorem build (alike : call.Alike call') (calls : call.Sound) (inside : i < m.workshop.drafts.size)
    (sound : m.Sound) (n : NodeRef) (brief : Bool) :
    (Run.build call i n brief).run m = (Run.build call' i n brief).run m := by
  unfold Run.build
  have checked : Runs m (do Run.author (n.ofDraft i); return (.ok () : Except AuthoringError Unit)) fun _ _ => True :=
    (Runs.author (Calls.nodeOfDraft i _ n i)).bind fun _ _ _ _ => .pure trivial
  refine bindRestSame (checked.tryCatch fun e m₁ _ clean => ?_) fun own m₁ step _ => ?_
  · split
    · exact .pure trivial
    · exact .throw clean
  · obtain ⟨sound₁, grows⟩ := step sound
    split
    · rfl
    · exact bindFirstSame (alike.passWithTrace calls (Nat.lt_of_lt_of_le inside grows.drafts) sound₁)

theorem onDraft (alike : call.Alike call') (calls : call.Sound) (inside : i < m.workshop.drafts.size)
    (sound : m.Sound) (verb : Verb) : (Run.onDraft call i verb).run m = (Run.onDraft call' i verb).run m := by
  cases verb with
  | resolve => exact alike.resolve calls inside sound
  | build root brief =>
    refine bindRestSame (Reads.nodeOf sound root) fun n _ same _ => ?_
    subst same
    exact alike.build calls inside sound n brief
  | _ => rfl

theorem dispatch (alike : call.Alike call') (calls : call.Sound) (sound : m.Sound) (on drafted : Option String)
    (verb : Verb) : (Run.dispatch call on drafted verb).run m = (Run.dispatch call' on drafted verb).run m := by
  unfold Run.dispatch
  refine bindRestSame (Reads.draftOf sound _) fun i _ same inside => ?_
  subst same
  cases on with
  | none =>
    refine bindRestSame (Reads.readable m verb) fun _ _ same _ => ?_
    subst same
    exact alike.onDraft calls inside sound verb
  | some name => rfl

theorem perform (alike : call.Alike call') (calls : call.Sound) (sound : m.Sound) (s : Step) :
    (Run.perform call s).run m = (Run.perform call' s).run m := by
  obtain ⟨on, drafted, bind, verb⟩ := s
  exact bindFirstSame (alike.dispatch calls sound on drafted verb)

theorem step (alike : call.Alike call') (calls : call.Sound) (sound : m.Sound) (s : Step) :
    (Machine.step call s).run m = (Machine.step call' s).run m := by
  have same : StateT.run (Run.perform call s).run m = StateT.run (Run.perform call' s).run m :=
    alike.perform calls sound s
  unfold Machine.step
  rw [StateT.run_bind, StateT.run_bind, same]

end Run.Caller.Alike

namespace Machine
variable {step step' : Step → StateM Machine Done}

theorem runResolverSame (same : ∀ (m : Machine) (s : Step), m.Sound → (step s).run m = (step' s).run m)
    (safe : Safe step) {resolver : Resolver} {last : Option NodeRef} (sound : m.Sound) :
    (runResolver step last resolver).run m = (runResolver step' last resolver).run m := by
  induction resolver generalizing m last with
  | give | fail => rfl
  | next s rest ih =>
    obtain ⟨sound₁, _, fine⟩ := safe m s sound
    rw [runResolverNext, runResolverNext, ← same m s sound]
    exact ih _ (sound₁.answered fine)

theorem callBySame (same : ∀ (m : Machine) (s : Step), m.Sound → (step s).run m = (step' s).run m)
    (safe : Safe step) (meaning : Script → Resolver) : (callBy meaning step).Alike (callBy meaning step') := by
  intro m script given sound inside
  rw [callBy, callBy, onArgumentParts, onArgumentParts, runResolverSame same safe (sound.bind argument inside)]

noncomputable def guarded (P : Machine → Prop) (wrong step : Step → StateM Machine Done) : Step → StateM Machine Done :=
  open Classical in fun s m => if P m then step s m else wrong s m

noncomputable def guardedCaller (P : Machine → Prop) (wrong : Step → StateM Machine Done)
    (meaning : Script → Resolver) : Nat → Run.Caller
  | 0 => caller 0
  | depth + 1 => callBy meaning (guarded P wrong (Machine.step (guardedCaller P wrong meaning depth)))

noncomputable def guardedAfter (P : Machine → Prop) (wrong : Step → StateM Machine Done) (meaning : Script → Resolver)
    (depth : Nat) (config : Config) (program : List Step) : Machine :=
  program.foldl (fun m s => ((guarded P wrong (Machine.step (guardedCaller P wrong meaning depth)) s).run m).2)
    (start config)

variable {P : Machine → Prop} (enough : ∀ m : Machine, m.Sound → P m) (wrong : Step → StateM Machine Done)
include enough

theorem guardedSame (same : ∀ (m : Machine) (s : Step), m.Sound → (step s).run m = (step' s).run m) (m : Machine)
    (s : Step) (sound : m.Sound) : (step s).run m = (guarded P wrong step' s).run m :=
  (same m s sound).trans (if_pos (enough m sound)).symm

theorem guardedCallerSame (meaning : Script → Resolver) (depth : Nat) :
    (callerBy meaning depth).Alike (guardedCaller P wrong meaning depth) := by
  induction depth with
  | zero => exact fun _ _ _ _ _ => rfl
  | succ depth ih =>
    have calls := callerBySound meaning depth
    exact callBySame (guardedSame enough wrong fun m s sound => ih.step calls sound s) (stepSafe calls) meaning

theorem guardedAfterSame (meaning : Script → Resolver) (depth : Nat) (config : Config) (program : List Step) :
    guardedAfter P wrong meaning depth config program = afterBy meaning depth config program := by
  have calls := callerBySound meaning depth
  have same := guardedSame enough wrong fun m s sound =>
    (guardedCallerSame enough wrong meaning depth).step calls sound s
  have general : ∀ m : Machine, m.Sound →
      program.foldl (fun m s => ((guarded P wrong (Machine.step (guardedCaller P wrong meaning depth)) s).run m).2) m =
        program.foldl (fun m s => ((Machine.step (callerBy meaning depth) s).run m).2) m := by
    induction program with
    | nil => exact fun m sound => rfl
    | cons s rest ih =>
      intro m sound
      rw [List.foldl_cons, List.foldl_cons, ← same m s sound]
      exact ih _ (stepSafe calls m s sound).1
  exact general _ (startSound config)

end Machine
end Dialogue
