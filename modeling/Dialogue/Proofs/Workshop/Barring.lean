import Dialogue.Proofs.Workshop.Passing

/-! Requests with scripts. While a build pass runs, such a request is refused because of the pass, unless something
else bars it then as at any other time. -/
namespace Dialogue
variable {w : Workshop} {i : Nat} {n : NodeRef} {a : ActionRef} {r : Request}

def NodeRef.Sealed (n : NodeRef) (w : Workshop) : Prop :=
  ((w.draftAt n.draft).node n.key).frozen = true ∧ (w.draftAt n.draft).config.freezePolicy = .strict

namespace Request

def Barred (w : Workshop) : Request → Prop
  | .node n _ => n.Sealed w
  | .action a _ => ((w.draftAt a.draft).action a.key).frozen = true
  | .draft _ _ => False

theorem barredWhileResolving : r.Barred (w.releasing i) ↔ r.Barred w := by
  have same : ∀ j, ((w.releasing i).draftAt j).nodes = (w.draftAt j).nodes ∧
      ((w.releasing i).draftAt j).actions = (w.draftAt j).actions ∧
      ((w.releasing i).draftAt j).config = (w.draftAt j).config := fun j => by
    rw [Workshop.draftAtReleasing]
    split <;> exact ⟨rfl, rfl, rfl⟩
  cases r with
  | node n => rw [Barred, Barred, NodeRef.Sealed, NodeRef.Sealed, Draft.node, Draft.node, (same _).1, (same _).2.2]
  | action a => rw [Barred, Barred, Draft.action, Draft.action, (same _).2.1]
  | draft => exact .rfl

end Request

abbrev Barring {α : Type} (w : Workshop) (barred : Prop) (call : Authoring α) : Prop :=
  Outcome w call (fun _ _ => ¬ barred) fun e _ => barred ∨ ∃ id, e = .nestedContinuation id

namespace Barring
variable {α : Type}

theorem defer {barred : Prop} (free : ¬ barred) (j : Nat) (link : Deferred) (v : α) :
    Barring w barred (do Authoring.defer j link; return v) :=
  Outcome.bind ((Checked.defer link).weaken (fun _ _ => id) fun _ _ ⟨_, _, nested⟩ => .inr ⟨_, nested⟩)
    fun _ _ _ => .pure free

theorem onNode (here : n.Inside w) (operation : String) (make : Nat → Deferred) : Barring w (n.Sealed w) (do
    let m ← n.writable operation
    Authoring.defer m.draft (make m.key)
    return m) := by
  have opened : Barring w (n.Sealed w) (n.writable operation) := by
    refine (Checked.writable here operation).weaken (fun m w' opened => ?_) fun e w' ⟨_, frozen, strict, _⟩ => ?_
    · rintro ⟨frozen, strict⟩
      cases opened with
      | itself unfrozen => cases unfrozen.symm.trans frozen
      | copy _ policy _ => cases policy.symm.trans strict
    · exact .inl ⟨frozen, strict⟩
  exact Outcome.bind opened fun m w₁ free => defer free m.draft (make m.key) m

theorem linkTo (here : n.Inside w) (script : Script) : Barring w (n.Sealed w) (n.linkTo (.deferred script)) :=
  onNode here "link_to" (.successor · script)

theorem nodeRequest (here : n.Inside w) {what : NodeRequest} {key : Nat} (scripted : what.registers key ≠ []) :
    Barring w (n.Sealed w) (what.run n) := by
  cases what with
  | linkTo link =>
    cases link with
    | deferred script => exact linkTo here script
    | node | named => exact absurd rfl scripted
  | branchOn subject op value link =>
    cases link with
    | deferred script =>
      cases known : Operator.ofToken? op with
      | none => exact absurd (by simp [NodeRequest.registers, known]) scripted
      | some operator =>
        have named : Authoring.operator op = pure operator := by rw [Authoring.operator, known]
        show Barring w (n.Sealed w) (n.branchOn subject op value (.deferred script))
        rw [NodeRef.branchOn, named]
        exact onNode here "branch_on" (.branch · ⟨subject, ⟨operator, value⟩⟩ script)
    | node | named => exact absurd rfl scripted
  | joinWith link =>
    cases link with
    | deferred script => exact linkTo here script
    | node | named => exact absurd rfl scripted
  | returnsTo link =>
    cases link with
    | deferred script => exact onNode here "returns_to" (.returns · script)
    | node | named => exact absurd rfl scripted
  | _ => exact absurd rfl scripted

theorem asAction {barred : Prop} {call : Authoring ActionRef} (barring : Barring w barred call) :
    Barring w barred (do return Vertex.action (← call)) := Outcome.bind barring fun _ _ free => .pure free

open Request in
theorem request (live : r.Live w) {key : Nat} (scripted : r.registers key ≠ []) : Barring w (r.Barred w) r.run := by
  cases r with
  | node n what => exact Outcome.bind (nodeRequest live.1 scripted) fun _ _ free => .pure free
  | action a what =>
    cases what with
    | linkTo link =>
      cases link with
      | deferred script =>
        have opened : Barring w (Barred w (.action a (.linkTo (.deferred script)))) (a.writable "link_to") := by
          refine (Checked.actionWritable a "link_to").weaken (fun _ _ ⟨_, unfrozen⟩ frozen => ?_)
            fun _ _ ⟨_, frozen, _⟩ => ?_
          · cases unfrozen.symm.trans frozen
          · exact .inl frozen
        exact asAction (Outcome.bind opened fun _ _ free => defer free a.draft (.actionSuccessor a.key script) a)
      | node | named => exact absurd rfl scripted
    | _ => exact absurd rfl scripted
  | draft j what =>
    cases what with
    | newActionWith label script =>
      have made : Outcome w (Workshop.newAction j label) (fun _ _ => True) fun _ _ => False := trivial
      have added : Barring w False (Workshop.newActionWith j label script) :=
        Outcome.bind (made.weaken (fun _ _ => id) fun _ _ => False.elim) fun a w₁ _ =>
          defer id j (.actionBuild a.key script) a
      exact asAction added
    | _ => exact absurd rfl scripted

end Barring

namespace Request

theorem registersElsewhere {key : Nat} (other : Nat) (scripted : r.registers key ≠ []) : r.registers other ≠ [] := by
  cases r with
  | node n what =>
    cases what with
    | linkTo link | joinWith link | returnsTo link =>
      cases link with
      | deferred script => nofun
      | node | named => exact absurd rfl scripted
    | branchOn subject op value link =>
      cases link with
      | deferred script =>
        simpa [registers, NodeRequest.registers] using scripted
      | node | named => exact absurd rfl scripted
    | _ => exact absurd rfl scripted
  | action a what =>
    cases what with
    | linkTo link =>
      cases link with
      | deferred script => nofun
      | node | named => exact absurd rfl scripted
    | _ => exact absurd rfl scripted
  | draft j what =>
    cases what with
    | newActionWith => nofun
    | _ => exact absurd rfl scripted

theorem shutOut (sound : w.Sound) (live : r.Live w) (resolving : (w.draftAt r.draftIndex).resolving = true) {v : Vertex}
    (would : (r.run.run (w.releasing r.draftIndex)).1 = .ok v) (scripted : r.registers v.key ≠ []) :
    ∃ id, (r.run.run w).1 = .error (.nestedContinuation id) := by
  have free : ¬ r.Barred w := by
    have outside := Barring.request (live.later (w.evolvesReleasing r.draftIndex)) scripted
    unfold Barring Outcome at outside
    generalize r.run.run (w.releasing r.draftIndex) = result at *
    obtain ⟨e | v', w'⟩ := result
    · cases would
    · exact barredWhileResolving.not.mp outside
  have inside := Barring.request live scripted
  have registering := r.registering sound live
  unfold Registering Barring Outcome at *
  generalize r.run.run w = result at *
  obtain ⟨e | v', w'⟩ := result
  · obtain ⟨id, rfl⟩ := inside.resolve_left free
    exact ⟨id, rfl⟩
  · exact absurd (registering.shut resolving).2 (r.registersElsewhere _ scripted)

end Request

end Dialogue
