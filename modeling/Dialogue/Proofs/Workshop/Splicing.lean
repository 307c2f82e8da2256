import Dialogue.Proofs.Workshop.Programs
import Dialogue.Proofs.Workshop.Templates

/-! Bringing a chain in. A returning link rewires its node before it looks for the end of the chain that it brings in,
so the search runs through the new link where that chain comes to the node. Whatever the shape of the chains, the node
that was the successor can be reached afterwards. -/
namespace Dialogue
variable {w w' : Workshop} {n target : NodeRef}

namespace Draft
variable {d d' : Draft} {key start goal last k : Nat} {l : List Nat}

structure Inserted (d : Draft) (key : Nat) (l : List Nat) (goal : Nat) (d' : Draft) : Prop where
  onward : ∀ more, (goal :: more).IsChain (fun a b => (d.node a).next = some b ∧ a ∉ l ∧ a ≠ key) →
    (key :: l ++ goal :: more).IsChain fun a b => (d'.node a).next = some b
  whole : ∀ t : Trail, t.Walks (fun k => (d.node k).next) goal → (∀ k ∈ t.nodes, k ∉ l ∧ k ≠ key) →
    (⟨key :: l ++ t.nodes, t.reentry⟩ : Trail).Walks (fun k => (d'.node k).next) key

/- The chain from `start` stands behind a node that led to `goal`. No node has changed but for where it comes from and
leads to, and at most one of the others leads elsewhere. -/
structure Splices (d : Draft) (key start goal : Nat) (d' : Draft) : Prop where
  led : (d'.node key).next = some start
  others : ∃ last, ∀ k < d.nodes.size, k ≠ key → k ≠ last → (d'.node k).next = (d.node k).next
  kept : ∀ k < d.nodes.size, ∃ prev next, d'.node k = { d.node k with prev, next }
  reached : ∃ back, d'.Leads key back ∧
    (back = goal ∨ (d.node goal).frozen = true ∧ ¬ (d.linked key start).Leads start goal ∧
      d.nodes.size ≤ back ∧ (d'.node back).template = some goal)
  inserted : ∀ l, (⟨l, none⟩ : Trail).Walks (fun k => (d.node k).next) start → key ∉ l → goal ∉ l →
    (d.node goal).frozen = false → d.Inserted key l goal d'

theorem keptLinked (d : Draft) (key target k : Nat) :
    ∃ prev next, (d.linked key target).node k = { d.node k with prev, next } := by
  have first : ∃ prev, (d.changeNode target fun n => { n with prev := some key }).node k = { d.node k with prev } := by
    rw [nodeChangeNode]
    split
    · exact ⟨_, rfl⟩
    · exact ⟨(d.node k).prev, rfl⟩
  obtain ⟨prev, same⟩ := first
  rw [linked, nodeChangeNode, same]
  split
  · exact ⟨_, _, rfl⟩
  · exact ⟨prev, (d.node k).next, rfl⟩

@[simp] theorem sizeLinked (d : Draft) (key target : Nat) : (d.linked key target).nodes.size = d.nodes.size := by
  simp [linked]

theorem Bound.linked (bound : d.Bound) (here : key < d.nodes.size) (there : start < d.nodes.size) :
    (d.linked key start).Bound := by
  have back : Edits d (d.changeNode start fun n => { n with prev := some key }) := .one (.prev here)
  exact (back.trans (.one (.next (by simpa using there)))).bound bound

theorem Bound.leadsUpTo (bound : d.Bound) (here : start < d.nodes.size) (leads : d.Leads start last)
    (agree : ∀ k < d.nodes.size, k ≠ last → (d'.node k).next = (d.node k).next) : d'.Leads start last := by
  induction leads using Relation.ReflTransGen.head_induction_on with
  | refl => exact .refl
  | @head a b next _ ih =>
    by_cases done : a = last
    · exact done ▸ .refl
    · exact .head ((agree a here done).trans next) (ih ((bound.nodes a).next b next))

/- The end that the search finds is not the node that has been rewired: a chain that comes to the node comes back to
its start through the new link, and ends there. -/
theorem endApart (here : key < d.nodes.size) (apart : start ≠ key) (ends : (d.linked key start).tailBefore? start goal = some last) : last ≠ key := by
  have walks := (d.linked key start).successorsWalk start
  intro same
  have mem := (tailBeforeApart ends).1
  have again := walks.back (same ▸ mem) ((nextLinked here start key).trans (if_pos rfl))
  have tail := tailBeforeTail ends
  rw [tail, Draft.tail, Trail.stop, again] at same
  exact apart same

inductive Closes (d : Draft) (last goal : Nat) : Nat → Draft → Prop where
  | itself (opened : (d.node goal).frozen = false) : Closes d last goal goal (d.linked last goal)
  | copy (frozen : (d.node goal).frozen = true) :
      Closes d last goal d.nodes.size ((d.cloneChain goal).1.linked last d.nodes.size)

namespace Closes
variable {back : Nat}

theorem next (closes : d.Closes last goal back d') (inside : last < d.nodes.size) (old : k < d.nodes.size) :
    (d'.node k).next = if k = last then some back else (d.node k).next := by
  cases closes with
  | itself => exact nextLinked inside _ k
  | copy =>
    have more := cloneChainExtends d goal
    rw [nextLinked (Nat.lt_of_lt_of_le inside more.nodes), more.node k old]

theorem kept (closes : d.Closes last goal back d') (old : k < d.nodes.size) :
    ∃ prev next, d'.node k = { d.node k with prev, next } := by
  cases closes with
  | itself => exact keptLinked d last goal k
  | copy =>
    obtain ⟨prev, next, same⟩ := keptLinked (d.cloneChain goal).1 last d.nodes.size k
    rw [(cloneChainExtends d goal).node k old] at same
    exact ⟨prev, next, same⟩

theorem which (closes : d.Closes last goal back d') :
    back = goal ∨ (d.node goal).frozen = true ∧ back = d.nodes.size ∧ (d'.node back).template = some goal := by
  cases closes with
  | itself => exact .inl rfl
  | copy frozen =>
    obtain ⟨prev, next, same⟩ := keptLinked (d.cloneChain goal).1 last d.nodes.size d.nodes.size
    exact .inr ⟨frozen, rfl, by rw [same, cloneChainTemplate]⟩

end Closes

inductive Spliced (d : Draft) (key start goal : Nat) : Draft → Prop where
  | rejoins (leads : (d.linked key start).Leads start goal) : Spliced d key start goal (d.linked key start)
  | closed {d' : Draft} {last back : Nat} (ends : (d.linked key start).tailBefore? start goal = some last)
      (closes : (d.linked key start).Closes last goal back d') : Spliced d key start goal d'

namespace Spliced

theorem nextBoth {back : Nat} (closes : (d.linked key start).Closes last goal back d') (here : key < d.nodes.size)
    (inside : last < d.nodes.size) (old : k < d.nodes.size) : (d'.node k).next =
      if k = last then some back else if k = key then some start else (d.node k).next := by
  rw [closes.next (by simpa using inside) (by simpa using old), nextLinked here]

theorem insertsOnward (next : ∀ k, (d'.node k).next =
      if k = last then some goal else if k = key then some start else (d.node k).next)
    (walks : (⟨l, none⟩ : Trail).Walks (fun k => (d.node k).next) start) (ends : l.getLast? = some last)
    (apart : key ∉ l) {more : List Nat}
    (clear : (goal :: more).IsChain fun a b => (d.node a).next = some b ∧ a ∉ l ∧ a ≠ key) :
    (key :: l ++ goal :: more).IsChain fun a b => (d'.node a).next = some b := by
  have among : last ∈ l := List.mem_of_getLast? ends
  have other : key ≠ last := fun same => apart (same ▸ among)
  have brought : l.IsChain fun a b => (d'.node a).next = some b := by
    refine walks.follows.imp_of_mem_imp fun a b memA _ goes => ?_
    have stops : (d.node last).next = none := walks.ends last ends
    have before : a ≠ last := fun same => by cases (same ▸ goes).symm.trans stops
    have unled : a ≠ key := fun same => apart (same ▸ memA)
    rw [next, if_neg before, if_neg unled]
    exact goes
  have after : (goal :: more).IsChain fun a b => (d'.node a).next = some b := by
    refine clear.imp fun a b ⟨goes, clearA, otherA⟩ => ?_
    have behind : a ≠ last := fun same => clearA (same ▸ among)
    rw [next, if_neg behind, if_neg otherA]
    exact goes
  rw [List.cons_append, List.isChain_cons, List.isChain_append]
  refine ⟨fun b first => ?_, brought, after, fun a final b first => ?_⟩
  · rw [List.head?_append, walks.begins] at first
    rw [next, if_neg other, if_pos rfl, Option.mem_some.mp first]
  · cases ends.symm.trans final
    cases Option.mem_some.mp first
    rw [next, if_pos rfl]

theorem inserts (next : ∀ k, (d'.node k).next =
      if k = last then some goal else if k = key then some start else (d.node k).next)
    (walks : (⟨l, none⟩ : Trail).Walks (fun k => (d.node k).next) start) (ends : l.getLast? = some last)
    (apart : key ∉ l) : d.Inserted key l goal d' where
  onward := fun _ => insertsOnward next walks ends apart
  whole := fun t trail clear => by
    have among : last ∈ l := List.mem_of_getLast? ends
    obtain ⟨more, whole⟩ := List.head?_eq_some_iff.mp trail.begins
    refine ⟨rfl, ?_, ?_, fun k final => ?_, fun k again => ?_⟩
    · rw [List.cons_append, List.nodup_cons, List.nodup_append]
      refine ⟨fun mem => ?_, walks.once, trail.once, fun a memA b memB same => (clear b memB).1 (same ▸ memA)⟩
      exact (List.mem_append.mp mem).elim apart fun mem => (clear key mem).2 rfl
    · rw [whole]
      refine insertsOnward next walks ends apart ?_
      rw [← whole]
      exact trail.follows.imp_of_mem_imp fun a b memA _ goes => ⟨goes, clear a memA⟩
    · have final : t.nodes.getLast? = some k := by
        rwa [List.getLast?_append_of_ne_nil _ (List.ne_nil_of_mem trail.starts)] at final
      have mem := List.mem_of_getLast? final
      have behind : k ≠ last := fun same => (clear k mem).1 (same ▸ among)
      rw [next, if_neg behind, if_neg (clear k mem).2]
      exact trail.ends k final
    · exact List.mem_append_right _ (trail.again k again)

theorem successorsStill (here : key < d.nodes.size)
    (walks : (⟨l, none⟩ : Trail).Walks (fun k => (d.node k).next) start) (clear : key ∉ l) :
    (d.linked key start).successors start = ⟨l, none⟩ := by
  refine ((d.linked key start).successorsWalk start).unique (walks.congr fun k mem => ?_)
  have other : k ≠ key := fun same => clear (same ▸ mem)
  rw [nextLinked here, if_neg other]

theorem splicesRejoined (leads : (d.linked key start).Leads start goal) (here : key < d.nodes.size) :
    d.Splices key start goal (d.linked key start) := by
  have led : ((d.linked key start).node key).next = some start := by rw [nextLinked here, if_pos rfl]
  refine {
    led := led
    others := ⟨key, fun k _ other _ => ?_⟩
    kept := fun k _ => keptLinked d key start k
    reached := ⟨goal, .head led leads, .inl rfl⟩
    inserted := fun l walks clear off => ?_ }
  · rw [nextLinked here, if_neg other]
  · have met := memSuccessors.mpr leads
    rw [successorsStill here walks clear] at met
    exact absurd met off

theorem splicesClosed {back : Nat} (ends : (d.linked key start).tailBefore? start goal = some last)
    (closes : (d.linked key start).Closes last goal back d') (bound : (d.linked key start).Bound)
    (here : key < d.nodes.size) (there : start < d.nodes.size) (apart : start ≠ key) :
    d.Splices key start goal d' := by
  have there₁ : start < (d.linked key start).nodes.size := sizeLinked d key start ▸ there
  have inside : last < d.nodes.size := sizeLinked d key start ▸ bound.tailBefore there₁ ends
  have other := endApart here apart ends
  have next := fun {k} (old : k < d.nodes.size) => nextBoth closes here inside old
  have led : (d'.node key).next = some start := by rw [next here, if_neg other.symm, if_pos rfl]
  have closing : (d'.node last).next = some back := by rw [next inside, if_pos rfl]
  have reached : d'.Leads start last := by
    refine bound.leadsUpTo there₁ (memSuccessors.mp (tailBeforeApart ends).1) ?_
    intro k old before
    rw [closes.next (sizeLinked d key start ▸ inside) old, if_neg before]
  refine {
    led := led
    others := ⟨last, fun k old unled before => ?_⟩
    kept := fun k old => ?_
    reached := ⟨back, .tail (.head led reached) closing, ?_⟩
    inserted := fun l walks clear off opened => ?_ }
  · rw [next old, if_neg before, if_neg unled]
  · obtain ⟨_, _, first⟩ := keptLinked d key start k
    obtain ⟨prev, next, second⟩ := closes.kept (sizeLinked d key start ▸ old)
    exact ⟨prev, next, by rw [second, first]⟩
  · refine closes.which.imp_right fun ⟨frozen, new, template⟩ => ?_
    refine ⟨(frozenLinked d key start goal).symm.trans frozen, fun leads => ?_, ?_, template⟩
    · cases (tailBeforeNone.mpr leads).symm.trans ends
    · exact Nat.le_of_eq (new.trans (sizeLinked d key start)).symm
  · cases closes with
    | itself =>
      have final : l.getLast? = some last := by
        have tail := tailBeforeTail ends
        rw [Draft.tail, successorsStill here walks clear, Trail.stop] at tail
        obtain ⟨more, rfl⟩ := List.head?_eq_some_iff.mp walks.begins
        rw [tail]
        simp [List.getLast?_cons]
      refine inserts (fun k => ?_) walks final clear
      rw [nextLinked (by simpa using inside), nextLinked here]
    | copy frozen => cases (frozen.symm.trans (frozenLinked d key start goal)).trans opened

theorem splices (spliced : d.Spliced key start goal d') (bound : d.Bound)
    (here : key < d.nodes.size) (there : start < d.nodes.size) (apart : start ≠ key) :
    d.Splices key start goal d' := by
  have linked := bound.linked here there
  cases spliced with
  | rejoins leads => exact splicesRejoined leads here
  | closed ends closes => exact splicesClosed ends closes linked here there apart

end Spliced
end Draft

structure Workshop.Spliced (w : Workshop) (n target : NodeRef) (p : Nat) (w' : Workshop) : Prop where
  others : ∀ j, j ≠ n.draft → w'.draftAt j = w.draftAt j
  own : (w.draftAt n.draft).Spliced n.key target.key p (w'.draftAt n.draft)

namespace NodeRef

theorem spliced (sound : w.Sound) (here : n.Inside w) (there : target.Inside w) (opened : target.Open w) {p : Nat}
    (leads : ((w.draftAt n.draft).node n.key).next = some p) :
    Outcome w (n.splice target) (fun m w' => m = n ∧ w.Spliced n target p w') fun _ _ => True := by
  unfold NodeRef.splice
  refine Checked.nodeRecord ?_
  rw [leads]
  have previous : (⟨n.draft, p⟩ : NodeRef).Inside w := ((sound n.draft).bound.nodes n.key).next p leads
  refine ((Tending.setNextLinks here there).both (Calls.setNext sound ⟨rfl, here⟩ there)).bind ?_
  rintro m w₁ ⟨step, given, _, links⟩
  have sound₁ := step.sound sound
  have begins : m.key < (w₁.draftAt n.draft).nodes.size := given.1 ▸ given.2
  obtain ⟨same, first⟩ : m.key = target.key ∧ w₁.draftAt n.draft = (w.draftAt n.draft).linked n.key target.key := by
    cases links with
    | itself _ same linked => exact ⟨same, linked⟩
    | copy frozen => exact absurd opened frozen
  refine Checked.draftAt ?_
  dsimp only
  split
  · rename_i last ends
    have lastInside : (⟨n.draft, last⟩ : NodeRef).Inside w₁ := (sound₁ n.draft).bound.tailBefore begins ends
    refine ((Tending.setNextLinks lastInside (previous.later step)).both
      (Calls.setNext sound₁ ⟨rfl, lastInside⟩ (previous.later step))).bind ?_
    rintro back w₂ ⟨step₂, _, _, links₂⟩
    rw [same, first] at ends
    refine ⟨rfl, fun j other => (step₂.others j other).trans (step.others j other), ?_⟩
    refine .closed ends (?_ : Draft.Closes _ last p back.key (w₂.draftAt n.draft))
    obtain ⟨opened, backSame, second⟩ | ⟨frozen, backSame, second⟩ := links₂
    · rw [second, backSame, ← first]
      exact .itself opened
    · rw [second, backSame, ← first]
      exact .copy (by simpa [NodeRef.Open] using frozen)
  · rename_i rejoins
    refine ⟨rfl, fun j other => step.others j other, ?_⟩
    have met := Draft.tailBeforeNone.mp rejoins
    change Draft.Spliced _ _ _ _ (w₁.draftAt n.draft)
    rw [same, first] at met
    rw [first]
    exact .rejoins met

theorem splicedSurely (sound : w.Sound) (here : n.Inside w) (there : target.Inside w) (own : target.draft = n.draft)
    (apart : target.key ≠ n.key) (opened : target.Open w) {p : Nat}
    (leads : ((w.draftAt n.draft).node n.key).next = some p) :
    Outcome w (n.splice target) (fun m w' => m = n ∧ w.Spliced n target p w') fun _ _ => False := by
  refine ((spliced sound here there opened leads).meet (Checked.splice sound here there)).weaken
    (fun _ _ => And.left) ?_
  rintro _ _ ⟨_, _, ⟨nowhere, _⟩ | foreign | itself⟩
  · cases leads.symm.trans nowhere
  · exact foreign own
  · exact apart itself

theorem ofOwnDraft (own : target.draft = n.draft) :
    Outcome w (NodeRef.linkOfDraft (.node target) n.draft) (fun _ w' => w' = w) fun _ _ => False :=
  (Checked.nodeOfDraft target n.draft).weaken (fun _ _ => And.left) fun _ _ ⟨_, foreign, _⟩ => foreign own

theorem writableOpen (here : n.Inside w) (opened : n.Open w) (operation : String) :
    Outcome w (n.writable operation) (fun m w' => m = n ∧ w' = w) fun _ _ => False := by
  refine (Checked.writable here operation).weaken (fun m w' which => ?_) fun _ _ ⟨_, frozen, _⟩ => ?_
  · cases which with
    | itself => exact ⟨rfl, rfl⟩
    | copy frozen => cases frozen.symm.trans opened
  · cases frozen.symm.trans opened

theorem returnSplices (sound : w.Sound) (here : n.Inside w) (there : target.Inside w) (own : target.draft = n.draft)
    (apart : target.key ≠ n.key) (opened : n.Open w) (targetOpened : target.Open w) {p : Nat}
    (leads : ((w.draftAt n.draft).node n.key).next = some p) :
    ∃ w', (n.returnsTo (.node target)).run w = (.ok n, w') ∧ (∀ j, j ≠ n.draft → w'.draftAt j = w.draftAt j) ∧
      (w.draftAt n.draft).Splices n.key target.key p (w'.draftAt n.draft) := by
  have called : Outcome w (n.returnsTo (.node target)) (fun m w' => m = n ∧ w.Spliced n target p w')
      fun _ _ => False := by
    unfold NodeRef.returnsTo
    refine (ofOwnDraft own).bind ?_
    rintro _ _ rfl
    refine (writableOpen here opened "returns_to").bind ?_
    rintro _ _ ⟨rfl, rfl⟩
    exact splicedSurely sound here there own apart targetOpened leads
  obtain ⟨m, w', ran, rfl, others, spliced⟩ := called.returns
  obtain ⟨i, start⟩ := target
  obtain rfl : i = m.draft := own
  exact ⟨w', ran, others, spliced.splices (sound m.draft).bound here there apart⟩

def journey : Workshop := (Machine.after Machine.passDepth {} [
  .mk none none (some "town") (.newNamed "town"),
  .mk (some "town") none (some "castle") (.joinNamed "castle"),
  .mk none none (some "cave") (.newNamed "cave"),
  .mk (some "cave") none (some "tunnel") (.joinNamed "tunnel")]).workshop

theorem journeyReturns : journey.Sound ∧ (⟨0, 0⟩ : NodeRef).Inside journey ∧ (⟨0, 2⟩ : NodeRef).Inside journey ∧
    (⟨0, 0⟩ : NodeRef).Open journey ∧ (⟨0, 2⟩ : NodeRef).Open journey ∧
    ((journey.draftAt 0).node 0).next = some 1 ∧
    ∃ w', ((⟨0, 0⟩ : NodeRef).returnsTo (.node ⟨0, 2⟩)).run journey = (.ok ⟨0, 0⟩, w') ∧
      [0, 2, 3, 1].IsChain fun a b => ((w'.draftAt 0).node a).next = some b := by
  have sound : journey.Sound := (Machine.afterSound _ _ _).drafts
  have town : (⟨0, 0⟩ : NodeRef).Inside journey := by
    show 0 < (journey.draftAt 0).nodes.size
    decide
  have cave : (⟨0, 2⟩ : NodeRef).Inside journey := by
    show 2 < (journey.draftAt 0).nodes.size
    decide
  have leads : ((journey.draftAt 0).node 0).next = some 1 := rfl
  obtain ⟨w', ran, _, splices⟩ := returnSplices sound town cave rfl (by decide) rfl rfl leads
  have walks : (⟨[2, 3], none⟩ : Trail).Walks (fun k => ((journey.draftAt 0).node k).next) 2 := by
    refine ⟨rfl, by decide, .cons_cons rfl (.singleton _), fun last is => ?_, nofun⟩
    cases Option.some.inj is
    rfl
  have inserted := splices.inserted [2, 3] walks (by decide) (by decide) rfl
  exact ⟨sound, town, cave, rfl, rfl, leads, w', ran, inserted.onward [] (.singleton _)⟩

end NodeRef
end Dialogue
