import Dialogue.Proofs.Workshop.Course
import Dialogue.Proofs.Workshop.Shutting

/-! Deferred links are neither lost nor doubled. Outside a pass, what waits on a draft is what waited, what was
registered and what copies have taken over, in the order in which it happened. A pass takes all of it, newest first,
and nothing comes to wait while it runs. -/
namespace Dialogue

structure Asked where
  request : Request
  result : Except AuthoringError Vertex

def Asked.registers (i : Nat) (a : Asked) : List Deferred :=
  match a.result with
  | .ok v => if a.request.draftIndex = i then a.request.registers v.key else []
  | .error _ => []

variable {w w' : Workshop} {i : Nat} {asked : List Asked} {m m' : Machine} {call : Run.Caller} {calls : List Called}
  {result : Except AuthoringError Unit}

inductive Workshop.Recorded (w : Workshop) : List Asked → Workshop → Prop where
  | start : Recorded w [] w
  | next {w' : Workshop} {asked : List Asked} {r : Request} (before : Recorded w asked w') (live : r.Live w') :
      Recorded w (asked ++ [⟨r, (r.run.run w').1⟩]) (r.run.run w').2

/- Request by request, the chains that were copied for it and then the links that it has registered. -/
inductive Workshop.InTurn (i : Nat) : List Asked → List Gain → Prop where
  | none : InTurn i [] []
  | next {asked : List Asked} {gains : List Gain} {a : Asked} (before : InTurn i asked gains)
      (made : List (List (Nat × Nat))) :
      InTurn i (asked ++ [a]) (gains ++ Gain.ofCall made (a.registers i))

theorem Asked.gathers {r : Request} (sound : w.Sound) (live : r.Live w) :
    w.Registers i ((⟨r, (r.run.run w).1⟩ : Asked).registers i) (r.run.run w).2 := by
  by_cases own : r.draftIndex = i
  · subst own
    have registering := r.registering sound live
    unfold Registering Outcome at registering
    generalize r.run.run w = result at *
    obtain ⟨e | v, w₂⟩ := result
    · simpa [Asked.registers] using registering
    · simpa [Asked.registers] using registering
  · have same := (Calls.request sound live).kept.others i (Ne.symm own)
    have nothing : (⟨r, (r.run.run w).1⟩ : Asked).registers i = [] := by
      unfold Asked.registers
      split
      · exact if_neg own
      · rfl
    rw [Workshop.Registers, same, nothing]
    exact .refl _

namespace Workshop.Recorded

theorem sound (run : w.Recorded asked w') (sound : w.Sound) : w'.Sound := by
  induction run with
  | start => exact sound
  | next _ live ih => exact (Calls.request ih live).kept.sound ih

theorem gathers (run : w.Recorded asked w') (sound : w.Sound) :
    ∃ gains, InTurn i asked gains ∧ (w.draftAt i).Gathers gains (w'.draftAt i) := by
  induction run with
  | start => exact ⟨[], .none, .start⟩
  | @next w₁ asked r before live ih =>
    obtain ⟨gains, inTurn, run⟩ := ih
    obtain ⟨made, further⟩ := Asked.gathers (i := i) (before.sound sound) live
    exact ⟨_, .next inTurn made, run.trans further⟩

end Workshop.Recorded

namespace Workshop

theorem InTurn.registered {gains : List Gain} (inTurn : InTurn i asked gains) :
    gains.filterMap Gain.link? = asked.flatMap (·.registers i) := by
  induction inTurn with
  | none => rfl
  | next _ made ih =>
    rw [List.filterMap_append, ih, Gain.linksOfCall, List.flatMap_append]
    simp

/- What waits after some requests, and what was cloned. Each gain is a link registered or a chain copied. -/
structure Gained (i : Nat) (asked : List Asked) (w w' : Workshop) (gains : List Gain) : Prop where
  gathers : (w.draftAt i).Gathers gains (w'.draftAt i)
  inTurn : InTurn i asked gains
  registered : gains.filterMap Gain.link? = asked.flatMap (·.registers i)
  cloned : (w'.draftAt i).clones = (w.draftAt i).clones ++ gains.flatMap Gain.copies
  waits : (w'.draftAt i).pending = gains.foldl Gain.add (w.draftAt i).pending

theorem Recorded.gained (run : w.Recorded asked w') (sound : w.Sound)
    (outside : (w.draftAt i).resolving = false) : ∃ gains, Gained i asked w w' gains := by
  obtain ⟨gains, inTurn, gathers⟩ := run.gathers (i := i) sound
  exact ⟨gains, gathers, inTurn, inTurn.registered, gathers.clones, gathers.pending outside⟩

end Workshop

theorem NodeRef.cloneTakesOver {n : NodeRef} (sound : w.Sound) (here : n.Of i w)
    (outside : (w.draftAt i).resolving = false) :
    ((n.clone.run w).2.draftAt i).clones = (w.draftAt i).clones ++ (w.draftAt i).copies n.key ∧
    ((n.clone.run w).2.draftAt i).pending =
      (w.draftAt i).pending ++ handedDown (w.draftAt i).pending ((w.draftAt i).copies n.key) := by
  obtain ⟨rfl, here⟩ := here
  have cloned : Outcome w n.clone _ fun _ _ => False := Checked.clone here
  unfold Outcome at cloned
  generalize n.clone.run w = result at *
  obtain ⟨e | copy, w'⟩ := result
  · exact cloned.elim
  · have within := ((sound n.draft).bound.successors here).nodes
    rw [cloned.2.here, Draft.pendingCloneChain within, outside]
    exact ⟨Draft.clonesCloneChain _ _, rfl⟩

namespace Machine

theorem linksAccounted (meaning : Script → Resolver) (depth : Nat) (sound : m.Sound)
    (inside : i < m.workshop.drafts.size) (outside : (m.workshop.draftAt i).resolving = false) :
    (∀ asked w', m.workshop.Recorded asked w' → ∃ gains, Workshop.Gained i asked m.workshop w' gains) ∧
    (∀ (w : Workshop) (n : NodeRef), w.Sound → n.Of i w → (w.draftAt i).resolving = false →
      ((n.clone.run w).2.draftAt i).clones = (w.draftAt i).clones ++ (w.draftAt i).copies n.key ∧
      ((n.clone.run w).2.draftAt i).pending =
        (w.draftAt i).pending ++ handedDown (w.draftAt i).pending ((w.draftAt i).copies n.key)) ∧
    (m.PlainlyPending meaning i →
      (∃ calls result m', m.Resolves (callerBy meaning depth) i calls result m') ∧
      (((Run.pass (callerBy meaning depth) i).run m).2.workshop.draftAt i).pending = [] ∧
      ∀ wrong, (Run.pass (guardedCaller (Shut i) wrong meaning depth) i).run m =
        (Run.pass (callerBy meaning depth) i).run m) := by
  refine ⟨fun asked w' run => run.gained sound.drafts outside, fun w n => NodeRef.cloneTakesOver,
    fun plain => ⟨?_, ?_, fun wrong => ?_⟩⟩
  · exact passResolves (callerBy meaning depth) i m
  · exact (passDrains depth sound inside plain).1
  · exact passGuarded (fun _ _ => id) wrong depth sound inside plain

def building : List Step := [
  .mk none none (some "hall") (.newNamed "hall"),
  .mk (some "hall") none none (.linkTo (.deferred [.mk (some "it") none none (.get "cellar")])),
  .mk (some "hall") none none .clone,
  .mk none none none (.newNamed "cellar")]

def house : Machine := afterBy .ofScript 1 {} building

theorem housePlain : house.PlainlyPending .ofScript 0 := by
  have pending : (house.workshop.draftAt 0).pending = [.successor 0 [.mk (some "it") none none (.get "cellar")],
      .successor 1 [.mk (some "it") none none (.get "cellar")]] := rfl
  intro link mem
  rw [pending] at mem
  have script : link.script = [.mk (some "it") none none (.get "cellar")] := by
    rcases List.mem_pair.mp mem with rfl | rfl <;> rfl
  rw [script]
  refine Resolver.ofScriptAll fun s mem => ?_
  cases List.mem_singleton.mp mem
  trivial

theorem houseAccounted : house.Sound ∧ 0 < house.workshop.drafts.size ∧ (house.workshop.draftAt 0).resolving = false ∧
    house.PlainlyPending .ofScript 0 ∧ ((Run.pass (callerBy .ofScript 1) 0).run house).1 = .ok 2 ∧
    (((⟨0, 0⟩ : NodeRef).clone.run house.workshop).2.draftAt 0).pending = (house.workshop.draftAt 0).pending ++
      handedDown (house.workshop.draftAt 0).pending ((house.workshop.draftAt 0).copies 0) ∧
    ∃ calls m', house.Resolves (callerBy .ofScript 1) 0 calls (.ok ()) m' := by
  have sound : house.Sound := afterBySound .ofScript 1 {} building
  have inside : 0 < house.workshop.drafts.size := by decide +kernel
  have hall : (⟨0, 0⟩ : NodeRef).Of 0 house.workshop := by
    have three : (house.workshop.draftAt 0).nodes.size = 3 := rfl
    refine ⟨rfl, ?_⟩
    show 0 < (house.workshop.draftAt 0).nodes.size
    rw [three]
    exact Nat.zero_lt_succ 2
  have passed : ((Run.pass (callerBy .ofScript 1) 0).run house).1 = .ok 2 := by decide +kernel
  obtain ⟨_, copied, plainly⟩ := linksAccounted .ofScript 1 sound inside rfl
  obtain ⟨calls, result, m', resolves⟩ := (plainly housePlain).1
  have ended : result = .ok () := by
    rw [resolves.answer] at passed
    cases result with
    | ok => rfl
    | error => cases passed
  exact ⟨sound, inside, rfl, housePlain, passed, (copied _ _ sound.drafts hall rfl).2, calls, m', ended ▸ resolves⟩

def losing : List Step := [
  .mk none none (some "lost") (.newAction "Lost"),
  .mk (some "lost") none none (.linkTo (.deferred [.mk none none none .newNode]))]

theorem orphanNotCalled : ¬ ∀ (depth : Nat) (config : Config) (program : List Step) (i : Nat) (calls : List Called)
    (result : Except AuthoringError Unit) (m' : Machine),
    (afterBy .ofScript depth config program).PlainlyPending .ofScript i →
    Run.Course (callerBy .ofScript depth) i ((afterBy .ofScript depth config program).taking i)
      ((afterBy .ofScript depth config program).workshop.draftAt i).pending.reverse calls result m' →
    calls.head?.map (·.link) = ((afterBy .ofScript depth config program).workshop.draftAt i).pending.getLast? := by
  intro called
  have waits : ((afterBy .ofScript 1 {} losing).workshop.draftAt 0).pending =
      [.actionSuccessor 0 [.mk none none none .newNode]] := rfl
  have plain : (afterBy .ofScript 1 {} losing).PlainlyPending .ofScript 0 := fun link mem => by
    rw [waits] at mem
    cases List.mem_singleton.mp mem
    refine Resolver.ofScriptAll fun s mem => ?_
    cases List.mem_singleton.mp mem
    trivial
  have course : Run.Course (callerBy .ofScript 1) 0 ((afterBy .ofScript 1 {} losing).taking 0)
      [.actionSuccessor 0 [.mk none none none .newNode]] [] _ _ := .unopened rfl
  have never := called 1 {} losing 0 [] _ _ plain course
  rw [waits] at never
  cases never

end Machine
end Dialogue
