import Dialogue.Proofs.Workshop.Ahead
import Dialogue.Proofs.Workshop.Watching

/-! Frozen actions. A call that would change one is refused before it has done anything; an action is shared by key
between a node and its clones, so copying and attaching pass it by but for the node that it hangs on. Where it leads
is changed by build passes alone, and only for a link that was deferred on it while it was not frozen. -/
namespace Dialogue
variable {w w' : Workshop} {a : ActionRef} {act : Act} {acts more : List Act}

/- Of a frozen action all stays but where it leads and what it hangs on, and the former as well unless it is led on. -/
def DraftAction.Fixed (led : Prop) (r r' : DraftAction) : Prop := r.frozen = true →
  r' = { r with next := r'.next, parent := r'.parent } ∧ (¬ led → r'.next = r.next)

namespace DraftAction.Fixed
variable {led led' : Prop} {r r' : DraftAction}

instance : IsPreorder DraftAction (DraftAction.Fixed led) where
  refl := fun _ _ => ⟨rfl, fun _ => rfl⟩
  trans := fun r r' r'' first second frozen => by
    obtain ⟨same, next⟩ := first frozen
    have still : r'.frozen = true := by
      rw [same]
      exact frozen
    obtain ⟨same', next'⟩ := second still
    refine ⟨?_, fun unled => (next' unled).trans (next unled)⟩
    rw [same', same]

theorem weaken (fixed : r.Fixed led r') (wider : led → led') : r.Fixed led' r' := fun frozen =>
  ⟨(fixed frozen).1, fun unled => (fixed frozen).2 (unled ∘ wider)⟩

theorem overlooks : Overlooks (DraftAction.Fixed led) where
  fresh := fun _ _ frozen => by cases frozen
  parent := fun _ _ _ => ⟨rfl, fun _ => rfl⟩

end DraftAction.Fixed

theorem ActionRequest.quietFixed (led : Prop) (what : ActionRequest) : what.Quiet (DraftAction.Fixed led) := by
  -- what is asked is heard only of an action that is not frozen, but for freezing one that is
  have barred : ∀ {r r' : DraftAction}, r.frozen = false → r.Fixed led r' := fun unfrozen frozen => by
    cases unfrozen.symm.trans frozen
  cases what with
  | label | setEffect | addEffect => exact fun _ => barred
  | appendText | prependText | replaceText | linkTo | join | joinNamed => exact fun _ _ => barred
  | require | allow => exact fun _ _ _ => barred
  | freeze => exact fun r frozen => ⟨by rw [← frozen], fun _ => rfl⟩

theorem Act.fixed (w : Workshop) (a : ActionRef) (act : Act) :
    (w.actionAt a).Fixed (∃ target, act = .lead a target) ((act.run w).actionAt a) :=
  DraftAction.Fixed.overlooks.act (fun what _ => what.quietFixed _) fun target is _ _ _ =>
    ⟨rfl, fun unled => absurd ⟨target, is⟩ unled⟩

theorem Workshop.Lived.fixed (lived : w.Lived acts w') (a : ActionRef) :
    (w.actionAt a).Fixed (∃ target, .lead a target ∈ acts) (w'.actionAt a) := by
  induction lived with
  | start still =>
    rw [Workshop.actionAt, Workshop.actionAt, Workshop.draftAtStill still]
    exact refl_of _ _
  | @next acts act w₁ w₂ _ _ does ih =>
    have step := act.fixed w₁ a
    rw [Workshop.actionAt, Workshop.actionAt, ← Workshop.draftAtStill does] at step
    refine trans_of _ (ih.weaken ?_) (step.weaken ?_)
    · exact Exists.imp fun target earlier => List.mem_append_left _ earlier
    · exact Exists.imp fun target last => List.mem_append_right _ (List.mem_singleton.mpr last.symm)

def ActionRequest.operation? : ActionRequest → Option String
  | .label _ => some "label"
  | .appendText _ => some "append_text"
  | .prependText _ => some "prepend_text"
  | .replaceText _ => some "replace_text"
  | .require _ op _ => (Operator.ofToken? op).map fun _ => "and"
  | .allow _ op _ => (Operator.ofToken? op).map fun _ => "or"
  | .setEffect _ _ => some "set_effect"
  | .addEffect _ _ => some "add_effect"
  | .linkTo _ => some "link_to"
  | .join | .joinNamed _ => some "join"
  | .freeze => none

namespace ActionRef
variable {what : ActionRequest} {operation : String} {α β : Type} {e : AuthoringError}

theorem refusedBind {call : Authoring α} (refused : call.run w = (.error e, w)) (rest : α → Authoring β) :
    (call >>= rest).run w = (.error e, w) := by
  rw [runBind, refused]

theorem writableFrozen (frozen : (w.actionAt a).frozen = true) (operation : String) :
    (a.writable operation).run w = (.error (.frozenAction (w.actionAt a).id operation), w) := by
  have read : a.record.run w = (.ok (w.actionAt a), w) := rfl
  rw [writable, runBind, read]
  dsimp only
  rw [if_pos frozen]
  rfl

theorem requestFrozen (frozen : (w.actionAt a).frozen = true) (changes : what.operation? = some operation) :
    (what.run a).run w = (.error (.frozenAction (w.actionAt a).id operation), w) := by
  have checked := writableFrozen frozen
  have operator : ∀ {op name : String} {call : Operator → Authoring ActionRef},
      (Operator.ofToken? op).map (fun _ => name) = some operation →
      (∀ known, (call known).run w = (.error (.frozenAction (w.actionAt a).id name), w)) →
      (Authoring.operator op >>= call).run w = (.error (.frozenAction (w.actionAt a).id operation), w) := by
    intro op name call told refused
    obtain ⟨known, is, rfl⟩ := Option.map_eq_some_iff.mp told
    rw [Authoring.operator, is]
    exact refused known
  cases what with
  | require key op value =>
    exact refusedBind (operator changes fun _ => refusedBind (checked "and") _) _
  | allow key op value =>
    exact refusedBind (operator changes fun _ => refusedBind (checked "or") _) _
  | freeze => cases changes
  | _ =>
    cases Option.some.inj changes
    exact refusedBind (refusedBind (checked _) _) _

end ActionRef

def Workshop.Awaits (w : Workshop) (a : ActionRef) (script : Script) : Prop :=
  .actionSuccessor a.key script ∈ (w.draftAt a.draft).pending

namespace Draft
variable {d d' : Draft} {links : List Deferred} {link : Deferred}

theorem handedDownNode {pending : List Deferred} {copies : List (Nat × Nat)} (among : link ∈ handedDown pending copies) :
    link.node? ≠ none := by
  obtain ⟨c, _, mem⟩ := List.mem_flatMap.mp among
  obtain ⟨original, waits, rfl⟩ := List.mem_map.mp mem
  have on : original.node? = some c.1 := by simpa using (List.mem_filter.mp waits).2
  simp [original.retargetNode, on]

theorem Gathers.ofAction {gains : List Gain} (gathers : d.Gathers gains d') (none : link.node? = none)
    (waits : link ∈ d'.pending) : link ∈ d.pending ∨ link ∈ gains.filterMap Gain.link? := by
  induction gathers with
  | start => exact .inl waits
  | still _ pending _ _ ih => exact ih (pending ▸ waits)
  | link _ new _ ih =>
    rw [List.filterMap_append]
    rcases List.mem_append.mp waits with earlier | added
    · exact (ih earlier).imp_right (List.mem_append_left _)
    · exact .inr (List.mem_append_right _ (by simpa [Gain.link?] using added))
  | copy before inside ih =>
    rw [List.filterMap_append]
    rw [pendingCloneChain inside] at waits
    rcases List.mem_append.mp waits with earlier | taken
    · exact (ih earlier).imp_right (List.mem_append_left _)
    · split at taken
      · cases taken
      · exact absurd none (handedDownNode taken)

theorem Registers.ofAction (registers : d.Registers links d') (none : link.node? = none) (waits : link ∈ d'.pending) :
    link ∈ d.pending ∨ link ∈ links := by
  obtain ⟨made, gathers⟩ := registers
  exact Gain.linksOfCall made links ▸ gathers.ofAction none waits

end Draft

theorem Workshop.Registers.ofAction {i j : Nat} {links : List Deferred} {link : Deferred} (step : w.Evolves i w')
    (registers : w.Registers i links w') (none : link.node? = none) (waits : link ∈ (w'.draftAt j).pending) :
    link ∈ (w.draftAt j).pending ∨ link ∈ links ∧ j = i := by
  by_cases own : j = i
  · subst own
    exact (Draft.Registers.ofAction registers none waits).imp_right fun mem => ⟨mem, rfl⟩
  · rw [step.others j own] at waits
    exact .inl waits

theorem Registering.ofAction {α : Type} {call : Authoring α} {links : α → List Deferred} {i j : Nat} {link : Deferred}
    (step : w.Evolves i (call.run w).2) (registering : Registering i w call links) (none : link.node? = none)
    (waits : link ∈ ((call.run w).2.draftAt j).pending) :
    link ∈ (w.draftAt j).pending ∨ j = i ∧ ∃ v, link ∈ links v := by
  unfold Registering Outcome at registering
  generalize call.run w = result at *
  obtain ⟨e | v, w'⟩ := result
  · exact (Workshop.Registers.ofAction step registering none waits).imp_right fun ⟨mem, _⟩ => nomatch mem
  · exact (Workshop.Registers.ofAction step registering none waits).imp_right fun ⟨mem, own⟩ => ⟨own, v, mem⟩

theorem NodeRequest.registersNode {key : Nat} {what : NodeRequest} {link : Deferred} (mem : link ∈ what.registers key) :
    link.node? ≠ none := by
  unfold registers at mem
  split at mem
  · simp [List.mem_singleton.mp mem, Deferred.node?]
  · simp [List.mem_singleton.mp mem, Deferred.node?]
  · obtain ⟨op, _, rfl⟩ := List.mem_map.mp mem
    simp [Deferred.node?]
  · simp [List.mem_singleton.mp mem, Deferred.node?]
  · cases mem

theorem DraftRequest.registersNoSuccessor {key k : Nat} {what : DraftRequest} {script : Script} :
    .actionSuccessor k script ∉ what.registers key := by
  cases what with
  | newActionWith => simp [registers]
  | _ => exact List.not_mem_nil

theorem ActionRef.registersOwn {b : ActionRef} {script : Script} (here : b.Inside w) :
    Registering b.draft w (Request.action b (.linkTo (.deferred script))).run
      fun _ => [.actionSuccessor b.key script] := by
  have registering : Registering b.draft w (b.linkTo (.deferred script)) fun _ => [.actionSuccessor b.key script] := by
    unfold ActionRef.linkTo
    exact Registering.after (Checked.actionWritable b _) fun _ _ => Registering.defer here.drafted rfl
  exact Registering.asAction (fun _ => [.actionSuccessor b.key script]) registering

theorem Request.waitsNew {r : Request} {i key : Nat} {script : Script} (sound : w.Sound) (live : r.Live w)
    (waits : .actionSuccessor key script ∈ ((r.run.run w).2.draftAt i).pending) :
    .actionSuccessor key script ∈ (w.draftAt i).pending ∨ r = .action ⟨i, key⟩ (.linkTo (.deferred script)) := by
  have step := (Calls.request sound live).kept
  have registered := Registering.ofAction step (Request.registering sound live) rfl waits
  cases r with
  | node n what => exact registered.imp_right fun ⟨_, _, mem⟩ => absurd rfl (NodeRequest.registersNode mem)
  | draft j what => exact registered.imp_right fun ⟨_, _, mem⟩ => absurd mem DraftRequest.registersNoSuccessor
  | action b what =>
    cases what with
    | linkTo link =>
      cases link with
      | deferred other =>
        refine (Registering.ofAction step (ActionRef.registersOwn live.1) rfl waits).imp_right ?_
        rintro ⟨rfl, _, mem⟩
        cases List.mem_singleton.mp mem
        rfl
      | node | named => exact registered.imp_right fun ⟨_, _, mem⟩ => nomatch mem
    | _ => exact registered.imp_right fun ⟨_, _, mem⟩ => nomatch mem

theorem Act.awaits (sound : w.Sound) (live : act.Live w) (frozen : (w.actionAt a).frozen = true) {script : Script}
    (waits : (act.run w).Awaits a script) : w.Awaits a script := by
  unfold Workshop.Awaits at *
  have plainly : ∀ {i : Nat}, w.Evolves i (act.run w) → w.Registers i [] (act.run w) →
      .actionSuccessor a.key script ∈ (w.draftAt a.draft).pending := fun step registers =>
    (Workshop.Registers.ofAction step registers rfl waits).resolve_right fun ⟨mem, _⟩ => nomatch mem
  cases act with
  | ask r =>
    rcases Request.waitsNew sound live waits with earlier | rfl
    · exact earlier
    · have refused : ((ActionRequest.linkTo (.deferred script)).run a).run w = _ := ActionRef.requestFrozen frozen rfl
      rw [Act.run, Request.run, refused] at waits
      exact waits
  | begin config =>
    rw [Act.run, draftAtPush] at waits
    split at waits
    · cases waits
    · exact waits
  | take i =>
    rw [Act.run, Workshop.draftAtTaking] at waits
    split at waits
    · cases waits
    · exact waits
  | release i =>
    rw [Act.run, Workshop.draftAtReleasing] at waits
    split at waits <;> exact waits
  | follow n target =>
    exact plainly (Calls.setNext sound ⟨rfl, live.1⟩ live.2).kept (Plainly.setNext sound ⟨rfl, live.1⟩ live.2).kept
  | branch n condition target =>
    exact plainly (Calls.pushRule rfl condition live.2).kept (Plainly.changeNode rfl _).kept
  | splice n target =>
    exact plainly (Calls.splice sound ⟨rfl, live.1⟩ live.2).kept (Plainly.splice sound ⟨rfl, live.1⟩ live.2).kept
  | lead b target =>
    exact plainly (Calls.actionSetNext sound ⟨rfl, live.1⟩ live.2).kept (Plainly.actionSetNext sound rfl live.2).kept

namespace Workshop
variable {script : Script}

theorem awaitsStill (drafts : w'.drafts = w.drafts) : w'.Awaits a script ↔ w.Awaits a script := by
  rw [Awaits, Awaits, draftAtStill drafts]

theorem frozenDrafted (frozen : (w.actionAt a).frozen = true) : a.draft < w.drafts.size := by
  refine Nat.lt_of_not_le fun outside => ?_
  rw [actionAt, draftAtOutside outside] at frozen
  cases frozen

theorem actionAtTaking (w : Workshop) (i : Nat) (a : ActionRef) : (w.taking i).actionAt a = w.actionAt a := by
  rw [actionAt, draftAtTaking]
  split <;> rfl

theorem actionAtReleasing (w : Workshop) (i : Nat) (a : ActionRef) : (w.releasing i).actionAt a = w.actionAt a := by
  rw [actionAt, draftAtReleasing]
  split <;> rfl

theorem Lived.frozen (lived : w.Lived acts w') (frozen : (w.actionAt a).frozen = true) :
    (w'.actionAt a).frozen = true := by
  rw [(lived.fixed a frozen).1]
  exact frozen

theorem Lived.awaits (lived : w.Lived acts w') (sound : w.Sound) (frozen : (w.actionAt a).frozen = true)
    (waits : w'.Awaits a script) : w.Awaits a script := by
  induction lived with
  | start still => exact (awaitsStill still).mp waits
  | next before live does ih =>
    exact ih (Act.awaits (before.sound sound) live (before.frozen frozen) ((awaitsStill does).mp waits))

theorem awaitsTaken (w : Workshop) (a : ActionRef) (script : Script) : ¬ (w.taking a.draft).Awaits a script := by
  intro waits
  rw [Awaits, draftAtTaking] at waits
  split at waits
  · cases waits
  · rename_i outside
    rw [draftAtOutside (Nat.le_of_not_lt fun inside => outside ⟨rfl, inside⟩)] at waits
    cases waits

theorem Taken.drained (taken : w.Taken acts a) (lived : w.Lived (acts ++ more) w') (sound : w.Sound)
    (frozen : (w.actionAt a).frozen = true) :
    (∃ script, w.Awaits a script) ∧ ∀ script, ¬ w'.Awaits a script := by
  obtain ⟨before, after, script, w₀, rfl, first, waits⟩ := taken
  refine ⟨⟨script, first.awaits sound frozen waits⟩, fun other still => ?_⟩
  have whole : before ++ .take a.draft :: after ++ more = (before ++ [.take a.draft]) ++ (after ++ more) := by simp
  obtain ⟨w₁, opened, later⟩ := Lived.split (whole ▸ lived)
  obtain ⟨w₂, _, _, takes⟩ := opened.last
  have waited := later.awaits (opened.sound sound) (opened.frozen frozen) still
  exact awaitsTaken w₂ a other ((awaitsStill takes).mp waited)

/- Of a frozen action all stays but where it leads and what it hangs on; no script comes to wait on it; it leads
elsewhere only where one is due, or where those that waited have all been taken; and calls that would change it are
refused and do nothing. -/
structure Seals (due : Prop) (a : ActionRef) (w w' : Workshop) : Prop where
  same : w'.actionAt a = { w.actionAt a with next := (w'.actionAt a).next, parent := (w'.actionAt a).parent }
  awaits : ∀ script, w'.Awaits a script → w.Awaits a script
  led : (w'.actionAt a).next ≠ (w.actionAt a).next →
    due ∨ (∃ script, w.Awaits a script) ∧ ∀ script, ¬ w'.Awaits a script
  refuses : ∀ (what : ActionRequest) operation, what.operation? = some operation →
    (what.run a).run w' = (.error (.frozenAction (w'.actionAt a).id operation), w')

end Workshop

namespace Machine
variable {m m' : Machine} {held : ActionRef → Prop}

theorem Lives.seals (lives : m.Lives held m') (sound : m.Sound) (frozen : (m.workshop.actionAt a).frozen = true) :
    m.workshop.Seals (held a) a m'.workshop := by
  obtain ⟨_, acts, lived, leads⟩ := lives
  obtain ⟨same, next⟩ := lived.fixed a frozen
  refine ⟨same, fun script => lived.awaits sound.drafts frozen, fun moved => ?_, fun what operation =>
    ActionRef.requestFrozen (lived.frozen frozen)⟩
  obtain ⟨target, led⟩ := Classical.not_not.mp fun unled => moved (next unled)
  obtain ⟨front, back, rfl⟩ := List.append_of_mem led
  exact (leads front a target back rfl).imp_right fun taken => taken.drained lived sound.drafts frozen

structure Settled (a : ActionRef) (m : Machine) : Prop where
  sound : m.Sound
  frozen : (m.workshop.actionAt a).frozen = true
  free : ∀ script, ¬ m.workshop.Awaits a script

theorem Lives.settled (lives : m.Lives held m') (settled : m.Settled a) : m'.Settled a := by
  have seals := lives.seals settled.sound settled.frozen
  refine ⟨(lives.1 settled.sound).1, ?_, fun script waits => settled.free script (seals.awaits script waits)⟩
  rw [seals.same]
  exact settled.frozen

theorem Lives.unmoved (lives : m.Lives held m') (settled : m.Settled a) (free : ¬ held a) :
    (m'.workshop.actionAt a).next = (m.workshop.actionAt a).next := by
  refine Classical.not_not.mp fun moved => ?_
  rcases (lives.seals settled.sound settled.frozen).led moved with due | ⟨⟨script, waits⟩, _⟩
  · exact free due
  · exact settled.free script waits

end Machine

namespace Run
variable {call : Caller} {i : Nat} {m m₁ m₂ m' : Machine} {link : Deferred} {links : List Deferred} {called : List Called}
  {given : Binding} {last : Option NodeRef}

theorem closingLeads {closed : Except AuthoringError Unit} (settled : m.Settled a)
    (inside : ∀ n, last = some n → n.Inside m.workshop)
    (within : link.Within (m.workshop.draftAt i).nodes.size (m.workshop.draftAt i).actions.size)
    (closing : (Run.closing i last link).run m = (closed, m₁))
    (moved : (m₁.workshop.actionAt a).next ≠ (m.workshop.actionAt a).next) :
    ∃ script target, link = .actionSuccessor a.key script ∧ last = some target := by
  have lives := closingLives settled.sound inside within closing
  obtain ⟨_, script, own⟩ := Classical.not_not.mp fun free => moved (lives.unmoved settled free)
  obtain rfl := List.mem_singleton.mp own
  cases last with
  | some target => exact ⟨script, target, rfl, rfl⟩
  | none =>
    cases closing
    exact absurd rfl moved

theorem Course.led (calls : call.Lives) {result : Except AuthoringError Unit}
    (course : Course call i m links called result m') (settled : m.Settled a) (inside : i < m.workshop.drafts.size)
    (within : ∀ link ∈ links, link.Within (m.workshop.draftAt i).nodes.size (m.workshop.draftAt i).actions.size)
    (moved : (m'.workshop.actionAt a).next ≠ (m.workshop.actionAt a).next) :
    ∃ c ∈ called, ∃ script target, c.link = .actionSuccessor a.key script ∧ c.result = .ok (some target) := by
  induction course with
  | done => exact absurd rfl moved
  | unopened opening =>
    have goes := (openingGoes settled.sound (List.forall_mem_cons.mp within).1 opening).1
    exact absurd (goes.unmoved settled id) moved
  | failed opening script =>
    have goes := (scriptGoes calls settled.sound (List.forall_mem_cons.mp within).1 opening script).1
    exact absurd (goes.unmoved settled id) moved
  | unclosed opening ran closing =>
    have first := (List.forall_mem_cons.mp within).1
    obtain ⟨goes, there⟩ := scriptGoes calls settled.sound first opening ran
    have edits := (goes.1 settled.sound).2.edits i inside
    obtain ⟨script, target, rfl, rfl⟩ := closingLeads (goes.settled settled) (there _ rfl)
      (first.grow edits.nodesGrow edits.actionsGrow) closing (goes.unmoved settled id ▸ moved)
    exact ⟨_, List.mem_singleton.mpr rfl, script, target, rfl, rfl⟩
  | @resolved _ _ m₂ m₃ _ _ _ _ _ _ _ opening ran closing later ih =>
    obtain ⟨first, others⟩ := List.forall_mem_cons.mp within
    obtain ⟨goes, there⟩ := scriptGoes calls settled.sound first opening ran
    have settled₂ := goes.settled settled
    have grows := (goes.1 settled.sound).2
    have edits := grows.edits i inside
    have closed := closingLives settled₂.sound (there _ rfl) (first.grow edits.nodesGrow edits.actionsGrow) closing
    have grows₃ := (closed.1 settled₂.sound).2
    -- this link has led the action on, or else one behind it has
    by_cases still : (m₃.workshop.actionAt a).next = (m₂.workshop.actionAt a).next
    · have further := grows.trans grows₃
      have edits₃ := further.edits i inside
      obtain ⟨c, among, leads⟩ := ih (closed.settled settled₂) (Nat.lt_of_lt_of_le inside further.drafts)
        (fun link mem => (others link mem).grow edits₃.nodesGrow edits₃.actionsGrow)
        (still.trans (goes.unmoved settled id) ▸ moved)
      exact ⟨c, List.mem_cons_of_mem _ among, leads⟩
    · obtain ⟨script, target, rfl, rfl⟩ := closingLeads settled₂ (there _ rfl)
        (first.grow edits.nodesGrow edits.actionsGrow) closing still
      exact ⟨_, List.mem_cons_self, script, target, rfl, rfl⟩

end Run

namespace Machine
variable {m : Machine}

/- A step that begins no pass leads no frozen action elsewhere, and a pass does so only where it has called a script
that waited to lead the action on, and that has come to a node. -/
structure Sealed (m : Machine) : Prop where
  passless : ∀ a, (m.workshop.actionAt a).frozen = true → ∀ meaning depth s, m.passOf? s = none →
    (((step (callerBy meaning depth) s).run m).2.workshop.actionAt a).next = (m.workshop.actionAt a).next
  passes : ∀ a, (m.workshop.actionAt a).frozen = true → ∀ meaning depth calls result m',
    m.Resolves (callerBy meaning depth) a.draft calls result m' →
    (m'.workshop.actionAt a).next ≠ (m.workshop.actionAt a).next →
    ∃ c ∈ calls, ∃ script target, c.link = .actionSuccessor a.key script ∧ c.result = .ok (some target)

theorem Sound.isSealed (sound : m.Sound) : m.Sealed where
  passless := fun a frozen meaning depth s pass => by
    have moves : m.Moves ((step (callerBy meaning depth) s).run m).2 := passlessMoves sound pass
    obtain ⟨acts, lived, quiet⟩ := moves.lived
    exact (lived.fixed a frozen).2 fun ⟨target, led⟩ => quiet a target led
  passes := fun a frozen meaning depth calls result m' resolves moved => by
    have same : (m.taking a.draft).workshop.actionAt a = m.workshop.actionAt a := m.workshop.actionAtTaking a.draft a
    obtain ⟨sound₁, inside₁, within⟩ := sound.taking (Workshop.frozenDrafted frozen)
    have settled : (m.taking a.draft).Settled a := ⟨sound₁, same ▸ frozen, m.workshop.awaitsTaken a⟩
    exact resolves.course.led (callerByLives meaning depth) settled inside₁ within (same ▸ moved)

theorem frozenActionsKept (meaning : Script → Resolver) (depth : Nat) (config : Config) (program : List Step) :
    (∀ further a, ((afterBy meaning depth config program).workshop.actionAt a).frozen = true →
      (afterBy meaning depth config program).workshop.Seals False a
        (afterBy meaning depth config (program ++ further)).workshop) ∧
    (pointsBy meaning depth config program).Pairwise (fun p q => ∀ a, (p.machine.workshop.actionAt a).frozen = true →
      p.machine.workshop.Seals (p.Due a) a q.machine.workshop) ∧
    (∀ p ∈ pointsBy meaning depth config program, p.machine.Sealed) ∧
    ∀ wrong, guardedAfter Sealed wrong meaning depth config program = afterBy meaning depth config program := by
  obtain ⟨sound, ahead⟩ := pointsAhead meaning depth config program
  have isSealed : ∀ p ∈ pointsBy meaning depth config program, p.machine.Sealed := fun p mem => (sound p mem).isSealed
  refine ⟨fun further a frozen => ?_, ahead.imp_of_mem fun mem _ ahead a frozen => ahead.lives.seals (sound _ mem) frozen,
    isSealed, fun wrong => pointsMet wrong meaning depth config program isSealed⟩
  have goes := programLives meaning depth further (afterBySound meaning depth config program)
  have onward : afterBy meaning depth config (program ++ further) =
      further.foldl (fun m s => ((Machine.step (callerBy meaning depth) s).run m).2)
        (afterBy meaning depth config program) := List.foldl_append
  rw [onward]
  exact goes.seals (afterBySound meaning depth config program) frozen

def rigging : List Step := [
  .mk none none (some "vault") (.newNamed "vault"),
  .mk none none (some "lever") (.newAction "Pull"),
  .mk (some "lever") none none (.linkTo (.deferred [.mk none none none (.newNamed "shaft")])),
  .mk (some "vault") none none (.attachAction "lever"),
  .mk (some "lever") none none .freeze]

def rigged : Machine := afterBy .ofScript 1 {} rigging

def pulling : List Step := rigging ++ [.mk none none none .resolve]

def pulled : Machine := afterBy .ofScript 1 {} pulling

def lever : ActionRef := ⟨0, 0⟩

theorem leverAmid : ∃ p ∈ programPoints .ofScript 1 pulling (start {}), p.taken.length = 1 ∧
    (p.machine.workshop.actionAt lever).frozen = true ∧ (p.machine.workshop.actionAt lever).next = none := by
  have met : (programPoints .ofScript 1 pulling (start {})).any (fun p => p.taken.length = 1 ∧
      (p.machine.workshop.actionAt lever).frozen = true ∧ (p.machine.workshop.actionAt lever).next = none) = true := by
    decide +kernel
  simpa using List.any_eq_true.mp met

theorem leverKept : (rigged.workshop.actionAt lever).frozen = true ∧ (rigged.workshop.actionAt lever).next = none ∧
    pulled.workshop.actionAt lever = { rigged.workshop.actionAt lever with next := some 1 } ∧
    (∃ script, rigged.workshop.Awaits lever script) ∧ (∀ script, ¬ pulled.workshop.Awaits lever script) ∧
    ((ActionRequest.label "Push").run lever).run pulled.workshop =
      (.error (.frozenAction "choice_0002" "label"), pulled.workshop) ∧
    (∃ p ∈ programPoints .ofScript 1 pulling (start {}), p.taken.length = 1 ∧
      (p.machine.workshop.actionAt lever).next = none ∧ p.machine.workshop.Seals (p.Due lever) lever pulled.workshop) ∧
    ∃ calls result m', rigged.Resolves (callerBy .ofScript 1) 0 calls result m' ∧
      ∃ c ∈ calls, ∃ script target, c.link = .actionSuccessor 0 script ∧ c.result = .ok (some target) := by
  obtain ⟨programs, _, isSealed, _⟩ := frozenActionsKept .ofScript 1 {} rigging
  obtain ⟨_, points, _, _⟩ := frozenActionsKept .ofScript 1 {} pulling
  have here : rigged.Sealed := isSealed ⟨[], rigged⟩ (List.mem_append_right _ (List.mem_singleton.mpr rfl))
  have frozen : (rigged.workshop.actionAt lever).frozen = true := by decide +kernel
  have before : (rigged.workshop.actionAt lever).next = none := by decide +kernel
  have after : (pulled.workshop.actionAt lever).next = some 1 := by decide +kernel
  have parent : (pulled.workshop.actionAt lever).parent = (rigged.workshop.actionAt lever).parent := by decide +kernel
  have same : (pulled.workshop.actionAt lever).id = "choice_0002" := by decide +kernel
  have seals : rigged.workshop.Seals False lever pulled.workshop := programs [.mk none none none .resolve] lever frozen
  obtain ⟨waited, taken⟩ := (seals.led (by simp [before, after])).resolve_left id
  have amid : ∃ p ∈ programPoints .ofScript 1 pulling (start {}), p.taken.length = 1 ∧
      (p.machine.workshop.actionAt lever).next = none ∧ p.machine.workshop.Seals (p.Due lever) lever pulled.workshop := by
    obtain ⟨p, mem, one, still, unled⟩ := leverAmid
    exact ⟨p, mem, one, unled, (List.pairwise_append.mp points).2.2 p mem ⟨[], pulled⟩ (by simp [pulled]) lever still⟩
  obtain ⟨calls, result, m', resolves⟩ := passResolves (callerBy .ofScript 1) 0 rigged
  have passed : (((Run.pass (callerBy .ofScript 1) 0).run rigged).2.workshop.actionAt lever).next = some 1 := by
    decide +kernel
  rw [resolves.answer, releasing, Workshop.actionAtReleasing] at passed
  have moved : (m'.workshop.actionAt lever).next ≠ (rigged.workshop.actionAt lever).next := by simp [before, passed]
  refine ⟨frozen, before, ?_, waited, taken, same ▸ seals.refuses (.label "Push") "label" rfl, amid, calls, result, m',
    resolves, ?_⟩
  · rw [seals.same, after, parent]
  · exact here.passes lever frozen .ofScript 1 calls result m' resolves moved

end Machine

end Dialogue
