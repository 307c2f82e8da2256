import Dialogue.Proofs.Workshop.Course
import Dialogue.Proofs.Workshop.Looking
import Dialogue.Proofs.Workshop.Wishes

/-! The order of links. A link to a node that is there acts at once, and one that waits acts in the pass, where the
newest comes first. So the rules of a node stand in the order of the calls for those of the first kind, and behind
them in the opposite order for those of the second; and of several successors the last to act stays. -/
namespace Dialogue

variable {w : Workshop} {i : Nat} {n : NodeRef} {m m' : Machine} {link : Deferred} {call : Run.Caller}

namespace Called

def rule? (key : Nat) (c : Called) : Option DraftRule :=
  match c.link, c.result with
  | .branch k condition _, .ok (some target) => if k = key then some ⟨condition, target.key⟩ else none
  | _, _ => none

def lead? (key : Nat) (c : Called) : Option Nat :=
  match c.link, c.result with
  | .successor k _, .ok (some target) => if k = key then some target.key else none
  | _, _ => none

end Called

theorem Outcome.inPass {α : Type} {call : Authoring α} {given : α → Workshop → Prop}
    (outcome : Outcome m.workshop call given fun _ _ => True) :
    Outcome m (Run.inPass call) (fun a m' => given a m'.workshop) fun _ _ => True := by
  unfold Outcome at *
  rw [Run.runInPass]
  generalize call.run m.workshop = result at *
  obtain ⟨e | a, w⟩ := result
  · trivial
  · exact outcome

namespace Run
variable {free : Prop} {d₀ : Draft} {key : Nat} {rules : List DraftRule} {leads : List Nat} {last : Option NodeRef}

abbrev Tracks (free : Prop) (d₀ : Draft) (key : Nat) (rules : List DraftRule) (leads : List Nat) (i : Nat) (m : Machine)
    {α : Type} (pass : Pass α) : Prop :=
  Outcome m pass (fun _ m' => Draft.Tracked free d₀ key rules leads (m'.workshop.draftAt i)) fun _ _ => True

theorem openingTracks (within : link.Within (m.workshop.draftAt i).nodes.size (m.workshop.draftAt i).actions.size)
    (tracked : Draft.Tracked free d₀ key rules leads (m.workshop.draftAt i)) :
    Tracks free d₀ key rules leads i m (opening i link) := by
  cases link with
  | successor | returns | actionBuild => exact .pure tracked
  | branch source condition script =>
    have here : (⟨i, source⟩ : NodeRef).Inside m.workshop := within
    refine (Outcome.inPass (Checked.clone here)).bind fun copy m₁ ⟨_, changed⟩ => .pure ?_
    rw [changed.here]
    exact tracked.ofExtends (Draft.cloneChainExtends _ _)
  | actionSuccessor action script =>
    have read : (inPass (⟨i, action⟩ : ActionRef).record).run m = (.ok ((m.workshop.draftAt i).action action), m) := rfl
    unfold Tracks Outcome Run.opening
    rw [runBind, read]
    dsimp only
    cases ((m.workshop.draftAt i).action action).parent with
    | none => trivial
    | some parent => exact tracked

theorem comesTo {α : Type} {rest : NodeRef → Pass α} {post : α → Machine → Prop}
    (then_ : ∀ target, last = some target → Outcome m (rest target) post fun _ _ => True) :
    Outcome m (Run.comeTo last >>= rest) post fun _ _ => True := by
  cases last with
  | none => exact .throwBind trivial
  | some target => exact then_ target rfl

theorem closingTracks (sound : m.Sound) (inside : ∀ n, last = some n → n.Inside m.workshop)
    (within : link.Within (m.workshop.draftAt i).nodes.size (m.workshop.draftAt i).actions.size)
    (plain : free → ∀ key script, link ≠ .returns key script) (given : Binding)
    (tracked : Draft.Tracked free d₀ key rules leads (m.workshop.draftAt i)) :
    Tracks free d₀ key (rules ++ ((⟨link, given, .ok last⟩ : Called).rule? key).toList)
      (leads ++ ((⟨link, given, .ok last⟩ : Called).lead? key).toList) i m (closing i last link) := by
  cases link with
  | successor source script =>
    refine comesTo fun target found => ?_
    subst found
    have here : (⟨i, source⟩ : NodeRef).Of i m.workshop := ⟨rfl, within⟩
    have linked : Rewiring (· = source) (fun _ => False) i m.workshop ((⟨i, source⟩ : NodeRef).setNext target) _ :=
      .setNext sound.drafts here (inside target rfl) rfl
    refine (Outcome.inPass linked).bind fun k m₁ ⟨rewires, _, _, next, stands⟩ => .pure ?_
    by_cases own : source = key
    · subst own
      simpa [Called.rule?, Called.lead?] using tracked.lead rewires id next stands
    · simpa [Called.rule?, Called.lead?, own] using tracked.still rewires (fun _ same => own same.symm) id
  | branch source condition script =>
    refine comesTo fun target found => ?_
    subst found
    refine (Outcome.inPass ((Checked.nodeOfDraft target i).weaken (fun _ _ => id) fun _ _ _ => trivial)).bind ?_
    rintro _ m₁ ⟨same, _⟩
    have here : (⟨i, source⟩ : NodeRef).Of i m₁.workshop := ⟨rfl, same ▸ within⟩
    rw [← same] at tracked
    refine (Outcome.inPass (Rewiring.pushRule here condition)).weaken (fun _ m₂ changed => ?_) fun _ _ => id
    rw [changed]
    by_cases own : source = key
    · subst own
      simpa [Called.rule?, Called.lead?] using tracked.rule ⟨condition, target.key⟩
    · have rewires : (m₁.workshop.draftAt i).Rewires (fun _ => False) (· = source) ((m₁.workshop.draftAt i).changeNode
          source fun r => { r with rules := r.rules ++ [⟨condition, target.key⟩] }) :=
        .changeNode (fun _ => rfl) (fun _ => rfl) (fun _ _ => rfl) fun apart => absurd rfl apart
      simpa [Called.rule?, Called.lead?, own] using tracked.still rewires (fun _ => id) fun same => own same.symm
  | returns source script =>
    refine comesTo fun target found => ?_
    subst found
    have here : (⟨i, source⟩ : NodeRef).Of i m.workshop := ⟨rfl, within⟩
    have spliced : Rewiring (fun _ => True) (fun _ => False) i m.workshop ((⟨i, source⟩ : NodeRef).splice target) _ :=
      .splice sound.drafts here (inside target rfl)
    refine (Outcome.inPass spliced).bind fun _ m₁ ⟨rewires, _⟩ => .pure ?_
    have apart : free → ¬ True := fun isFree => absurd rfl (plain isFree source script)
    simpa [Called.rule?, Called.lead?] using tracked.still rewires apart id
  | actionBuild action script => exact .pure (by simpa [Called.rule?, Called.lead?] using tracked)
  | actionSuccessor action script =>
    refine comesTo fun target found => ?_
    subst found
    have linked : Rewiring (fun _ => False) (fun _ => False) i m.workshop ((⟨i, action⟩ : ActionRef).setNext target) _ :=
      .actionSetNext rfl (inside target rfl)
    refine (Outcome.inPass linked).bind fun _ m₁ ⟨rewires, _⟩ => .pure ?_
    simpa [Called.rule?, Called.lead?] using tracked.still rewires (fun _ => id) id

theorem closingFound (on : link.node? = some key) (closed : (closing i last link).run m = (.ok (), m')) :
    ∃ target, last = some target := by
  cases last with
  | some target => exact ⟨target, rfl⟩
  | none =>
    cases link with
    | successor | branch | returns => cases closed
    | actionBuild | actionSuccessor => cases on

def Caller.Looks (call : Caller) (script : Script) : Prop := ∀ (m : Machine) (given : Binding), m.Sound →
  given.Inside m.workshop → Keeps Machine.Stays (fun _ => True) m (call script given) fun last m' =>
    ∀ n, last = some n → n.Inside m'.workshop

namespace Course
variable {links : List Deferred} {calls : List Called} {result : Except AuthoringError Unit}

theorem found (course : Course call i m links calls result m') (ok : result = .ok ()) :
    ∀ c ∈ calls, c.link.node? = some key → ∃ target, c.result = .ok (some target) := by
  induction course with
  | done => simp
  | unopened | failed | unclosed => cases ok
  | resolved _ _ closing _ ih =>
    refine List.forall_mem_cons.mpr ⟨fun on => ?_, ih ok⟩
    obtain ⟨target, rfl⟩ := closingFound on closing
    exact ⟨target, rfl⟩

theorem oneTracked {m₁ m₂ m₃ : Machine} {given : Binding} (opening : (Run.opening i link).run m = (.ok given, m₁))
    (called : (call link.script given).run m₁ = (.ok last, m₂))
    (closing : (Run.closing i last link).run m₂ = (.ok (), m₃)) (sound : m.Sound) (inside : i < m.workshop.drafts.size)
    (within : link.Within (m.workshop.draftAt i).nodes.size (m.workshop.draftAt i).actions.size)
    (looks : call.Looks link.script) (plain : free → ∀ key script, link ≠ .returns key script)
    (tracked : Draft.Tracked free d₀ key rules leads (m.workshop.draftAt i)) : m₃.Sound ∧ m.Grows m₃ ∧
      Draft.Tracked free d₀ key (rules ++ ((⟨link, given, .ok last⟩ : Called).rule? key).toList)
        (leads ++ ((⟨link, given, .ok last⟩ : Called).lead? key).toList) (m₃.workshop.draftAt i) := by
  have keeps := (Machine.Passable.advancing i).resolvable
  obtain ⟨opens, given₁⟩ := (keeps.opening sound within).ran opening
  obtain ⟨sound₁, grows₁⟩ := opens sound
  obtain ⟨stays, found⟩ := (looks m₁ given sound₁ given₁).ran called
  obtain ⟨sound₂, grows₂⟩ := stays.advances sound₁
  have edits := (grows₁.trans grows₂).edits i inside
  have within₂ := within.grow edits.nodesGrow edits.actionsGrow
  have same : m₂.workshop.draftAt i = m₁.workshop.draftAt i := by
    rw [Workshop.draftAt, stays.drafts, Workshop.draftAt]
  have tracked₂ := (openingTracks within tracked).ran opening
  rw [← same] at tracked₂
  obtain ⟨sound₃, grows₃⟩ := ((keeps.closing sound₂ found within₂ trivial).ran closing).1 sound₂
  exact ⟨sound₃, (grows₁.trans grows₂).trans grows₃, (closingTracks sound₂ found within₂ plain given tracked₂).ran closing⟩

theorem tracked (course : Course call i m links calls result m') (ok : result = .ok ()) (sound : m.Sound)
    (inside : i < m.workshop.drafts.size)
    (within : ∀ link ∈ links, link.Within (m.workshop.draftAt i).nodes.size (m.workshop.draftAt i).actions.size)
    (looks : ∀ link ∈ links, call.Looks link.script)
    (plain : free → ∀ link ∈ links, ∀ key script, link ≠ .returns key script)
    (tracked : Draft.Tracked free d₀ key rules leads (m.workshop.draftAt i)) :
    Draft.Tracked free d₀ key (rules ++ calls.filterMap (Called.rule? key)) (leads ++ calls.filterMap (Called.lead? key))
      (m'.workshop.draftAt i) := by
  induction course generalizing rules leads with
  | done => simpa using tracked
  | unopened | failed | unclosed => cases ok
  | resolved opening called closing later ih =>
    rename_i calls _
    obtain ⟨first, others⟩ := List.forall_mem_cons.mp within
    obtain ⟨look, looks⟩ := List.forall_mem_cons.mp looks
    obtain ⟨sound₁, grows, one⟩ := oneTracked opening called closing sound inside first look
      (fun isFree => plain isFree _ List.mem_cons_self) tracked
    have edits := grows.edits i inside
    have rest := ih ok sound₁ (Nat.lt_of_lt_of_le inside grows.drafts)
      (fun other mem => (others other mem).grow edits.nodesGrow edits.actionsGrow) looks
      (fun isFree other mem => plain isFree other (List.mem_cons_of_mem _ mem)) one
    have join : ∀ {β : Type} (f : Called → Option β) (c : Called),
        (f c).toList ++ calls.filterMap f = (c :: calls).filterMap f := fun f c => by
      rw [List.filterMap_cons]
      cases f c <;> rfl
    rwa [List.append_assoc, join, List.append_assoc, join] at rest

end Course
end Run

namespace Machine

theorem passTracked {calls : List Called} {m₁ : Machine} {free : Prop} {d₀ : Draft} {key : Nat} {rules : List DraftRule}
    {leads : List Nat} {meaning : Script → Resolver} {depth : Nat} (sound : m.Sound) (inside : i < m.workshop.drafts.size)
    (resolves : m.Resolves (callerBy meaning depth) i calls (.ok ()) m₁)
    (looks : ∀ link ∈ (m.workshop.draftAt i).pending, (meaning link.script).Looks)
    (plain : free → ∀ link ∈ (m.workshop.draftAt i).pending, ∀ key script, link ≠ .returns key script)
    (tracked : Draft.Tracked free d₀ key rules leads (m.workshop.draftAt i)) :
    Draft.Tracked free d₀ key (rules ++ calls.filterMap (Called.rule? key)) (leads ++ calls.filterMap (Called.lead? key))
      ((m₁.releasing i).workshop.draftAt i) := by
  obtain ⟨sound₁, inside₁, within⟩ := sound.taking inside
  have taken : ((m.taking i).workshop.draftAt i).nodes = (m.workshop.draftAt i).nodes := by
    rw [Machine.taking, Workshop.draftAtTaking]
    split <;> rfl
  have released : ((m₁.releasing i).workshop.draftAt i).nodes = (m₁.workshop.draftAt i).nodes := by
    rw [Machine.releasing, Workshop.draftAtReleasing]
    split <;> rfl
  have resolved := resolves.course.tracked rfl sound₁ inside₁ within
    (fun link mem _ _ => callerByStays meaning depth (looks link (List.mem_reverse.mp mem)))
    (fun isFree link mem => plain isFree link (List.mem_reverse.mp mem)) (tracked.sameNodes taken)
  exact resolved.sameNodes released

theorem linksInOrder {wishes : List Wish} {count : Nat} (meaning : Script → Resolver) (depth : Nat) (drafts : w.Sound)
    (here : n.Inside w) (opened : n.Open w) (linked : n.Linked w wishes m.workshop) (sound : m.Sound)
    (looks : ∀ link ∈ (m.workshop.draftAt n.draft).pending, (meaning link.script).Looks)
    (passed : (Run.pass (callerBy meaning depth) n.draft).run m = (.ok count, m')) :
    ∃ calls m₁, m.Resolves (callerBy meaning depth) n.draft calls (.ok ()) m₁ ∧
      Draft.linksOf n.key (calls.map (·.link)) =
        ((w.draftAt n.draft).waitingOn n.key ++ wishes.filterMap (Wish.deferred? n.key)).reverse ∧
      (∀ c ∈ calls, c.link.node? = some n.key → ∃ target, c.result = .ok (some target)) ∧
      ((m'.workshop.draftAt n.draft).node n.key).rules = ((w.draftAt n.draft).node n.key).rules ++
        (wishes.filterMap Wish.rule? ++ calls.filterMap (Called.rule? n.key)) ∧
      ((∀ link ∈ (m.workshop.draftAt n.draft).pending, ∀ key script, link ≠ .returns key script) →
        (m'.workshop.draftAt n.draft).ComesTo (wishes.filterMap Wish.lead? ++ calls.filterMap (Called.lead? n.key))
          ((w.draftAt n.draft).node n.key).next ((m'.workshop.draftAt n.draft).node n.key).next) := by
  let free := ∀ link ∈ (m.workshop.draftAt n.draft).pending, ∀ key script, link ≠ Deferred.returns key script
  obtain ⟨_, heeds⟩ : _ ∧ Draft.Heeds free (w.draftAt n.draft) n.key wishes (m.workshop.draftAt n.draft) :=
    linked.heeds drafts here opened
  have inside : n.draft < m.workshop.drafts.size := NodeRef.Inside.drafted (n := n) heeds.tracked.here
  obtain ⟨calls, result, m₁, resolves⟩ := passResolves (callerBy meaning depth) n.draft m
  obtain ⟨done, rfl⟩ := Prod.mk.inj (resolves.answer.symm.trans passed)
  obtain rfl : result = .ok () := by
    cases result with
    | ok => rfl
    | error => cases done
  have ended := passTracked sound inside resolves looks (fun isFree => isFree) heeds.tracked
  refine ⟨calls, m₁, resolves, ?_, resolves.course.found rfl, ?_, fun isFree => ?_⟩
  · rw [(resolves.whole rfl).1, ← heeds.waits, Draft.linksOf, List.filter_reverse]
    rfl
  · rw [ended.rules]
  · exact ended.next isFree

def roads : List Step := [
  .mk none none (some "gate") (.newNamed "gate"),
  .mk none none none (.newNamed "north"),
  .mk none none none (.newNamed "south")]

def finding (name : String) : Script := [.mk none none none (.get name)]

def signs : List Step := [
  .mk (some "gate") none none (.branchOn "rain" "eq" (.bool true) (.deferred (finding "north"))),
  .mk (some "gate") none none (.branchOn "snow" "eq" (.bool true) (.named "south")),
  .mk (some "gate") none none (.linkTo (.deferred (finding "south"))),
  .mk (some "gate") none none (.linkTo (.named "north"))]

def signposted (count : Nat) : Machine := afterBy .ofScript 1 {} (roads ++ signs.take count)

def gate : NodeRef := ⟨0, 0⟩

def rain : Condition := ⟨"rain", ⟨.equals, .bool true⟩⟩

def snow : Condition := ⟨"snow", ⟨.equals, .bool true⟩⟩

def signWishes : List Wish :=
  [.branch rain (.inr (finding "north")), .branch snow (.inl 2), .lead (.inr (finding "south")), .lead (.inl 1)]

theorem gateLinked : gate.Linked (signposted 0).workshop signWishes (signposted 4).workshop := by
  have first : (gate.branchOn "rain" "eq" (.bool true) (.deferred (finding "north"))).run (signposted 0).workshop =
      (.ok gate, (signposted 1).workshop) := rfl
  have second : (gate.branchOn "snow" "eq" (.bool true) (.named "south")).run (signposted 1).workshop =
      (.ok gate, (signposted 2).workshop) := rfl
  have third : (gate.linkTo (.deferred (finding "south"))).run (signposted 2).workshop =
      (.ok gate, (signposted 3).workshop) := rfl
  have fourth : (gate.linkTo (.named "north")).run (signposted 3).workshop =
      (.ok gate, (signposted 4).workshop) := rfl
  have branched : gate.Linked (signposted 0).workshop _ (signposted 2).workshop :=
    .branchOn (.branchOn .start (fun _ given => by cases given) rfl rfl first) (fun _ given => by cases given) rfl rfl
      second
  exact .linkTo (.linkTo branched (fun _ given => by cases given) rfl third) (fun _ given => by cases given) rfl fourth

theorem gatePending : ((signposted 4).workshop.draftAt gate.draft).pending =
    [.branch 0 rain (finding "north"), .successor 0 (finding "south")] := rfl

theorem gateLooks : ∀ link ∈ ((signposted 4).workshop.draftAt gate.draft).pending,
    (Resolver.ofScript link.script).Looks := by
  have plainly : ∀ name, (Resolver.ofScript (finding name)).Looks := fun name =>
    Resolver.ofScriptAll fun s mem => by
      cases List.mem_singleton.mp mem
      trivial
  intro link mem
  rw [gatePending] at mem
  rcases List.mem_pair.mp mem with rfl | rfl
  · exact plainly "north"
  · exact plainly "south"

theorem gateInside : gate.Inside (signposted 0).workshop := by
  show 0 < ((signposted 0).workshop.draftAt 0).nodes.size
  decide +kernel

theorem gateSound (count : Nat) : (signposted count).Sound := afterBySound .ofScript 1 {} _

def afterGate : Machine := ((Run.pass (callerBy .ofScript 1) gate.draft).run (signposted 4)).2

theorem gatePassed : (Run.pass (callerBy .ofScript 1) gate.draft).run (signposted 4) = (.ok 2, afterGate) := by
  have ended : ((Run.pass (callerBy .ofScript 1) gate.draft).run (signposted 4)).1 = .ok 2 := by decide +kernel
  rw [← ended]
  exact (Prod.eta _).symm

theorem gateInOrder : (signposted 0).workshop.Sound ∧ gate.Inside (signposted 0).workshop ∧
    gate.Open (signposted 0).workshop ∧ gate.Linked (signposted 0).workshop signWishes (signposted 4).workshop ∧
    (signposted 4).Sound ∧
    (∀ link ∈ ((signposted 4).workshop.draftAt gate.draft).pending, (Resolver.ofScript link.script).Looks) ∧
    (Run.pass (callerBy .ofScript 1) gate.draft).run (signposted 4) = (.ok 2, afterGate) ∧
    ∃ calls : List Called, calls.map (·.link) = [.successor 0 (finding "south"), .branch 0 rain (finding "north")] ∧
      ((afterGate.workshop.draftAt gate.draft).node gate.key).rules =
        ((signposted 0).workshop.draftAt gate.draft |>.node gate.key).rules ++
          (signWishes.filterMap Wish.rule? ++ calls.filterMap (Called.rule? gate.key)) ∧
      (afterGate.workshop.draftAt gate.draft).ComesTo
        (signWishes.filterMap Wish.lead? ++ calls.filterMap (Called.lead? gate.key))
        ((signposted 0).workshop.draftAt gate.draft |>.node gate.key).next
        ((afterGate.workshop.draftAt gate.draft).node gate.key).next := by
  have drafts : (signposted 0).workshop.Sound := (gateSound 0).drafts
  have opened : gate.Open (signposted 0).workshop := rfl
  obtain ⟨calls, m₁, resolves, _, _, rules, next⟩ :=
    linksInOrder .ofScript 1 drafts gateInside opened gateLinked (gateSound 4) gateLooks gatePassed
  refine ⟨drafts, gateInside, opened, gateLinked, gateSound 4, gateLooks, gatePassed, calls, ?_, rules, next ?_⟩
  · rw [(resolves.whole rfl).1, gatePending]
    rfl
  · intro link mem
    rw [gatePending] at mem
    rcases List.mem_pair.mp mem with rfl | rfl <;> exact fun _ _ => nofun

theorem ruleOrderChanged : ¬ ∀ (w : Workshop) (n : NodeRef) (wishes : List Wish) (m m' : Machine) (count : Nat), w.Sound →
    n.Inside w → n.Open w → n.Linked w wishes m.workshop → m.Sound →
    (∀ link ∈ (m.workshop.draftAt n.draft).pending, (Resolver.ofScript link.script).Looks) →
    (Run.pass (callerBy .ofScript 1) n.draft).run m = (.ok count, m') →
    ((m'.workshop.draftAt n.draft).node n.key).rules.map (·.condition) =
      ((w.draftAt n.draft).node n.key).rules.map (·.condition) ++ wishes.filterMap Wish.condition? := by
  intro kept
  have same := kept _ gate signWishes _ _ 2 (gateSound 0).drafts gateInside rfl gateLinked (gateSound 4) gateLooks
    gatePassed
  have turned : ((afterGate.workshop.draftAt gate.draft).node gate.key).rules.map (·.condition) ≠
      ((signposted 0).workshop.draftAt gate.draft |>.node gate.key).rules.map (·.condition) ++
        signWishes.filterMap Wish.condition? := by decide +kernel
  exact turned same

end Machine
end Dialogue
