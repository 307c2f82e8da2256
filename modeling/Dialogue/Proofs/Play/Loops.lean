import Dialogue.Proofs.Play.Moves
import Dialogue.Proofs.Value.Alike

/-! Looking for loops does not change where a route leads. Left to itself routing crosses one node after the other
until one stops it (`Routed`). A node that is crossed a second time in a context that equals the first one is left for
the same successor, in contexts that look alike, so whoever gives up there gives up a route without an end. -/
namespace Dialogue.Play

structure Passes (story : Story) (s : State) (target : NodeId) (s' : State) (next : NodeId) (node : StoryNode) :
    Prop where
  found : story.node? target = some node
  routing : node.texts = []
  left : Concluded node (landed node s) s' (some next)

/- The crossings done on the way from one target to another, the last one first: the node each of them aimed at and
the context that it left. -/
inductive Crossing (story : Story) (s : State) (target : NodeId) : Crossed → State → NodeId → Prop where
  | start : Crossing story s target [] s target
  | onward {crossed : Crossed} {t t' : State} {last next : NodeId} {node : StoryNode}
      (before : Crossing story s target crossed t last) (passes : Passes story t last t' next node) :
      Crossing story s target ((last, t'.context) :: crossed) t' next

def Repeats (story : Story) (s : State) (target : NodeId) : Prop :=
  ∃ crossed t last t' next node, Crossing story s target crossed t last ∧ Passes story t last t' next node ∧
    crossed.has last t'.context = true

variable {story : Story} {node : StoryNode} {s s' t t' u : State} {target next last : NodeId} {entered : List NodeId}
  {crossed : Crossed} {limit : Nat} {e : PlayError}

theorem Passes.state (passes : Passes story s target s' next node) : s' = landed node s := by
  cases passes.left with
  | leaves => rfl

theorem Passes.leads (passes : Passes story s target s' next node) :
    node.visibleActions (landed node s).context = [] ∧ node.successor (landed node s).context = some next := by
  cases passes.left with
  | leaves quiet chosen => exact ⟨quiet, chosen⟩

theorem landedAlike (alike : s.context.Alike u.context) (node : StoryNode) :
    (landed node s).context.Alike (landed node u).context := alike.applyAll node.effects

theorem Passes.alike (passes : Passes story s target s' next node) (alike : s.context.Alike u.context) :
    ∃ u', Passes story u target u' next node ∧ s'.context.Alike u'.context := by
  have inside := landedAlike alike node
  obtain ⟨quiet, chosen⟩ := passes.leads
  rw [passes.state]
  refine ⟨landed node u, ⟨passes.found, passes.routing, .leaves ?_ ?_⟩, inside⟩
  · rw [← inside.visibleActions node]
    exact quiet
  · exact (inside.successor node).symm.trans chosen

namespace Crossing

theorem alike (crossing : Crossing story s target crossed t last) (alike : s.context.Alike u.context) :
    ∃ again u', Crossing story u target again u' last ∧ again.length = crossed.length ∧
      t.context.Alike u'.context := by
  induction crossing with
  | start => exact ⟨[], u, .start, rfl, alike⟩
  | onward _ passes ih =>
    obtain ⟨again, u', before, same, looks⟩ := ih
    obtain ⟨u'', passes, looks⟩ := passes.alike looks
    exact ⟨_, u'', .onward before passes, by simp [same], looks⟩

theorem trans {more : Crossed} (first : Crossing story s target crossed t last)
    (later : Crossing story t last more u next) : Crossing story s target (more ++ crossed) u next := by
  induction later with
  | start => exact first
  | onward _ passes ih => exact .onward ih passes

theorem shorter (crossing : Crossing story s target crossed t last) {n : Nat} (few : n ≤ crossed.length) :
    ∃ part u next, Crossing story s target part u next ∧ part.length = n := by
  induction crossing with
  | start => exact ⟨[], _, _, .start, (Nat.le_zero.mp few).symm⟩
  | @onward crossed _ _ _ _ _ before passes ih =>
    rcases Nat.lt_or_ge crossed.length n with all | less
    · exact ⟨_, _, _, .onward before passes, Nat.le_antisymm all few⟩
    · exact ih less

theorem split (crossing : Crossing story s target crossed t last) {c : NodeId × Context} (mem : c ∈ crossed) :
    ∃ u u' next node after, Passes story u c.1 u' next node ∧ u'.context = c.2 ∧
      Crossing story u' next after t last := by
  induction crossing with
  | start => cases mem
  | onward before passes ih =>
    rcases List.mem_cons.mp mem with rfl | earlier
    · exact ⟨_, _, _, _, [], passes, rfl, .start⟩
    · obtain ⟨u, u', next, node, after, crossed, left, behind⟩ := ih earlier
      exact ⟨u, u', next, node, _, crossed, left, .onward behind passes⟩

end Crossing

theorem Concluded.unique {next : Option NodeId} {other : Option NodeId} (this : Concluded node s t next)
    (that : Concluded node s u other) : t = u ∧ next = other := by
  cases this with
  | awaits offered =>
    cases that with
    | awaits => exact ⟨rfl, rfl⟩
    | ends quiet => exact absurd quiet offered
    | leaves quiet => exact absurd quiet offered
  | ends quiet last =>
    cases that with
    | awaits offered => exact absurd quiet offered
    | ends => exact ⟨rfl, rfl⟩
    | leaves _ chosen => simp [last] at chosen
  | leaves quiet chosen =>
    cases that with
    | awaits offered => exact absurd quiet offered
    | ends _ last => simp [last] at chosen
    | leaves _ also => exact ⟨rfl, chosen.symm.trans also⟩

theorem Passes.unique {other : StoryNode} {after : NodeId} (this : Passes story s target s' next node)
    (that : Passes story s target u after other) : s' = u ∧ next = after := by
  cases this.found.symm.trans that.found
  obtain ⟨same, chosen⟩ := this.left.unique that.left
  exact ⟨same, Option.some.inj chosen⟩

theorem Passes.routed (passes : Passes story s target s' next node) (routed : Routed story s target u entered) :
    ∃ rest, Routed story s' next u rest ∧ entered = node.id :: rest := by
  cases routed with
  | shown found text =>
    cases passes.found.symm.trans found
    exact absurd passes.routing text
  | rested found _ rest =>
    cases passes.found.symm.trans found
    exact absurd (passes.left.unique rest).2 (by simp)
  | @crossed _ _ _ _ after _ rest found _ left onward =>
    cases passes.found.symm.trans found
    obtain ⟨rfl, same⟩ := passes.left.unique left
    cases same
    exact ⟨rest, onward, rfl⟩

theorem Routed.enters (routed : Routed story s target u entered) : entered ≠ [] := by
  cases routed <;> simp

theorem Routed.unique {v : State} {others : List NodeId} (this : Routed story s target u entered)
    (that : Routed story s target v others) : u = v ∧ entered = others := by
  induction this generalizing others with
  | shown found text =>
    cases that with
    | shown also =>
      cases found.symm.trans also
      exact ⟨rfl, rfl⟩
    | rested also routing =>
      cases found.symm.trans also
      exact absurd routing text
    | crossed also routing =>
      cases found.symm.trans also
      exact absurd routing text
  | rested found routing rest =>
    cases that with
    | shown also text =>
      cases found.symm.trans also
      exact absurd routing text
    | rested also _ rests =>
      cases found.symm.trans also
      exact ⟨(rest.unique rests).1, rfl⟩
    | crossed also _ left =>
      cases found.symm.trans also
      exact absurd (rest.unique left).2 (by simp)
  | crossed found routing left _ ih =>
    obtain ⟨rest, onward, rfl⟩ := Passes.routed ⟨found, routing, left⟩ that
    obtain ⟨same, names⟩ := ih onward
    exact ⟨same, congrArg _ names⟩

namespace Crossing

theorem routed (crossing : Crossing story s target crossed t last) (routed : Routed story s target u entered) :
    ∃ rest, Routed story t last u rest ∧ entered.length = crossed.length + rest.length := by
  induction crossing with
  | start => exact ⟨entered, routed, by simp⟩
  | onward _ passes ih =>
    obtain ⟨_, onward, count⟩ := ih
    obtain ⟨rest, further, rfl⟩ := passes.routed onward
    exact ⟨rest, further, by simp only [count, List.length_cons]; omega⟩

theorem less (crossing : Crossing story s target crossed t last) (routed : Routed story s target u entered) :
    crossed.length < entered.length := by
  obtain ⟨rest, onward, count⟩ := crossing.routed routed
  have some : 0 < rest.length := List.length_pos_iff.mpr onward.enters
  omega

theorem found (crossing : Crossing story s target crossed t last) (routed : Routed story s target u entered) :
    story.node? last ≠ none := by
  obtain ⟨_, onward, _⟩ := crossing.routed routed
  cases onward <;> simp [*]

theorem sameEnd {others : Crossed} (this : Crossing story s target crossed t last)
    (that : Crossing story s target others u next) (count : crossed.length = others.length) : t = u ∧ last = next := by
  induction this generalizing others u next with
  | start =>
    cases that with
    | start => exact ⟨rfl, rfl⟩
    | onward => simp at count
  | onward _ passes ih =>
    cases that with
    | start => simp at count
    | onward before also =>
      obtain ⟨rfl, rfl⟩ := ih before (by simpa using count)
      exact passes.unique also

theorem missing {others : Crossed} (crossing : Crossing story s target crossed t last) (lost : story.node? last = none)
    (other : Crossing story s target others u next) : others.length ≤ crossed.length := by
  rcases Nat.lt_or_ge crossed.length others.length with more | all
  · obtain ⟨part, v, _, beyond, count⟩ := other.shorter more
    cases beyond with
    | start => simp at count
    | onward before passes =>
      obtain ⟨rfl, rfl⟩ := crossing.sameEnd before (by simpa using count.symm)
      exact absurd passes.found (by simp [lost])
  · exact all

theorem around (loop : Crossing story s target crossed t target) (some : crossed ≠ [])
    (alike : s.context.Alike t.context) (n : Nat) :
    ∃ longer u, Crossing story s target longer u target ∧ n ≤ longer.length := by
  induction n generalizing s t crossed with
  | zero => exact ⟨crossed, t, loop, Nat.zero_le _⟩
  | succ n ih =>
    obtain ⟨again, u, repeated, count, looks⟩ := loop.alike alike
    have onward : again ≠ [] := by simpa [← List.length_pos_iff, count] using some
    obtain ⟨longer, v, later, long⟩ := ih repeated onward looks
    have step : 0 < crossed.length := List.length_pos_iff.mpr some
    exact ⟨_, v, loop.trans later, by simp only [List.length_append]; omega⟩

end Crossing

theorem Repeats.endless (repeats : Repeats story s target) (n : Nat) :
    ∃ crossed t next, Crossing story s target crossed t next ∧ crossed.length = n := by
  obtain ⟨crossed, t, last, t', next, node, before, passes, seen⟩ := repeats
  obtain ⟨⟨_, context⟩, mem, seen⟩ := List.any_eq_true.mp seen
  simp only [Bool.and_eq_true, beq_iff_eq] at seen
  obtain ⟨rfl, same⟩ := seen
  obtain ⟨u, u', first, other, after, earlier, rfl, back⟩ := before.split mem
  have alike : u'.context.Alike t'.context := .ofSame same
  cases earlier.found.symm.trans passes.found
  -- the rules choose the same successor in both contexts
  have onward : first = next := by
    have chosen := alike.successor node
    rw [earlier.state, passes.state, earlier.leads.2, passes.leads.2] at chosen
    exact Option.some.inj chosen
  subst onward
  obtain ⟨again, w, round, count, looks⟩ := (Crossing.onward back passes).alike alike
  have some : again ≠ [] := by simp [← List.length_pos_iff, count]
  obtain ⟨longer, v, later, long⟩ := round.around some looks n
  exact ((before.onward passes).trans later).shorter (by simp only [List.length_append]; omega)

theorem Repeats.restless (repeats : Repeats story s target) : ¬ Routed story s target u entered := by
  intro routed
  obtain ⟨crossed, t, next, crossing, count⟩ := repeats.endless entered.length
  have less := crossing.less routed
  omega

theorem advanceWithin {route : Route} (ok : (advance story limit crossed s target).result = .ok route) :
    route.entered.length ≤ limit + 1 := by
  induction limit generalizing crossed s target route with
  | zero =>
    rw [advance] at ok
    obtain ⟨⟨node, s', next⟩, hopped, ok⟩ := Told.bindOk ok
    cases next with
    | none =>
      cases Except.ok.inj ok
      simp
    | some next => contradiction
  | succ limit ih =>
    rw [advance] at ok
    obtain ⟨⟨node, s', next⟩, hopped, ok⟩ := Told.bindOk ok
    cases next with
    | none =>
      cases Except.ok.inj ok
      simp
    | some next =>
      dsimp only at ok
      split at ok
      · contradiction
      · obtain ⟨route, result, ok⟩ := Told.bindOk ok
        cases Except.ok.inj ok
        simpa using ih result

inductive Fails (story : Story) (s : State) (target : NodeId) (limit : Nat) : PlayError → Prop where
  | missing {crossed : Crossed} {t : State} {id : NodeId} (crossing : Crossing story s target crossed t id)
      (within : crossed.length ≤ limit) (lost : story.node? id = none) : Fails story s target limit (.unknownNode id)
  | repeats (id : NodeId) (again : Repeats story s target) : Fails story s target limit (.routingLoop id)
  | exceeds {crossed : Crossed} {t : State} {next : NodeId} (id : NodeId)
      (crossing : Crossing story s target crossed t next) (beyond : crossed.length = limit + 1) :
      Fails story s target limit (.routingLoop id)

theorem advanceFails (before : Crossing story s target crossed t last)
    (failed : (advance story limit crossed t last).result = .error e) :
    Fails story s target (crossed.length + limit) e := by
  induction limit generalizing crossed t last with
  | zero =>
    rw [advance] at failed
    rcases Told.bindError failed with unhopped | ⟨⟨node, t', next⟩, hopped, failed⟩
    · obtain ⟨rfl, lost⟩ := hopError unhopped
      exact .missing before (Nat.le_add_right _ _) lost
    · cases next with
      | none => contradiction
      | some next =>
        obtain ⟨found, routing, left⟩ := hopCrosses hopped
        cases Except.error.inj failed
        exact .exceeds _ (.onward before ⟨found, routing, left⟩) rfl
  | succ limit ih =>
    rw [advance] at failed
    rcases Told.bindError failed with unhopped | ⟨⟨node, t', next⟩, hopped, failed⟩
    · obtain ⟨rfl, lost⟩ := hopError unhopped
      exact .missing before (Nat.le_add_right _ _) lost
    · cases next with
      | none => contradiction
      | some next =>
        obtain ⟨found, routing, left⟩ := hopCrosses hopped
        have passes : Passes story t last t' next node := ⟨found, routing, left⟩
        dsimp only at failed
        split at failed
        · rename_i seen
          cases Except.error.inj failed
          exact .repeats _ ⟨crossed, t, last, t', next, node, before, passes, seen⟩
        · rcases Told.bindError failed with inside | ⟨_, _, failed⟩
          · have fails := ih (before.onward passes) inside
            rwa [List.length_cons, Nat.add_assoc, Nat.add_comm 1] at fails
          · contradiction

theorem Fails.unrouted (fails : Fails story s target limit e) (routed : Routed story s target u entered)
    (within : entered.length ≤ limit + 1) : False := by
  cases fails with
  | missing crossing _ lost => exact crossing.found routed lost
  | repeats _ again => exact again.restless routed
  | exceeds _ crossing beyond =>
    have less := crossing.less routed
    omega

theorem Fails.lost (fails : Fails story s target limit e) (crossing : Crossing story s target crossed t last)
    (within : crossed.length ≤ limit) (lost : story.node? last = none) : e = .unknownNode last := by
  cases fails with
  | missing other _ also =>
    have count := Nat.le_antisymm (other.missing also crossing) (crossing.missing lost other)
    rw [(crossing.sameEnd other count).2]
  | repeats _ again =>
    obtain ⟨_, _, _, longer, count⟩ := again.endless (crossed.length + 1)
    have less := crossing.missing lost longer
    omega
  | exceeds _ longer beyond =>
    have less := crossing.missing lost longer
    omega

theorem advanceStops {route : Route} : (advance story limit [] s target).result = .ok route ↔
    Routed story s target route.state route.entered ∧ route.entered.length ≤ limit + 1 := by
  constructor
  · intro ok
    exact ⟨advanceRouted ok, advanceWithin ok⟩
  · intro ⟨routed, within⟩
    cases result : (advance story limit [] s target).result with
    | ok other =>
      obtain ⟨state, entered⟩ := (advanceRouted result).unique routed
      cases other
      cases route
      simp_all
    | error e =>
      have fails := advanceFails .start result
      exact (fails.unrouted routed (by simpa using within)).elim

theorem advanceMisses {id : NodeId} : (advance story limit [] s target).result = .error (.unknownNode id) ↔
    ∃ crossed t, Crossing story s target crossed t id ∧ crossed.length ≤ limit ∧ story.node? id = none := by
  constructor
  · intro failed
    have fails := advanceFails .start failed
    rw [List.length_nil, Nat.zero_add] at fails
    cases fails with
    | missing crossing within lost => exact ⟨_, _, crossing, within, lost⟩
  · intro ⟨crossed, t, crossing, within, lost⟩
    cases result : (advance story limit [] s target).result with
    | ok route => exact absurd lost (crossing.found (advanceRouted result))
    | error e =>
      have fails := advanceFails .start result
      rw [List.length_nil, Nat.zero_add] at fails
      rw [fails.lost crossing within lost]

theorem routesPlainly (story : Story) (s : State) (target : NodeId) :
    (∀ route : Route, (advance story crossingLimit [] s target).result = .ok route ↔
      Routed story s target route.state route.entered ∧ route.entered.length ≤ crossingLimit + 1) ∧
    (∀ id, (advance story crossingLimit [] s target).result = .error (.unknownNode id) ↔
      ∃ crossed t, Crossing story s target crossed t id ∧ crossed.length ≤ crossingLimit ∧ story.node? id = none) ∧
    ((∃ id, (advance story crossingLimit [] s target).result = .error (.routingLoop id)) ↔
      (∀ t entered, Routed story s target t entered → crossingLimit + 1 < entered.length) ∧
      ∀ crossed t id, Crossing story s target crossed t id → story.node? id = none →
        crossingLimit < crossed.length) ∧
    (Repeats story s target →
      (∀ t entered, ¬ Routed story s target t entered) ∧
      ∀ n, ∃ crossed t next, Crossing story s target crossed t next ∧ crossed.length = n) := by
  refine ⟨fun _ => advanceStops, fun _ => advanceMisses, ⟨?_, ?_⟩, ?_⟩
  · intro ⟨id, failed⟩
    constructor
    · intro t entered routed
      apply Nat.lt_of_not_le
      intro within
      have ok : (advance story crossingLimit [] s target).result = .ok ⟨t, entered⟩ :=
        advanceStops.mpr ⟨routed, within⟩
      simp [failed] at ok
    · intro crossed t id crossing lost
      apply Nat.lt_of_not_le
      intro within
      have missing := advanceMisses.mpr ⟨crossed, t, crossing, within, lost⟩
      simp [failed] at missing
  · intro ⟨endless, found⟩
    cases result : (advance story crossingLimit [] s target).result with
    | ok route =>
      obtain ⟨routed, within⟩ := advanceStops.mp result
      exact absurd (endless _ _ routed) (Nat.not_lt.mpr within)
    | error e =>
      have fails := advanceFails .start result
      rw [List.length_nil, Nat.zero_add] at fails
      cases fails with
      | missing crossing within lost => exact absurd (found _ _ _ crossing lost) (Nat.not_lt.mpr within)
      | repeats id => exact ⟨id, rfl⟩
      | exceeds id => exact ⟨id, rfl⟩
  · intro repeats
    exact ⟨fun _ _ => repeats.restless, repeats.endless⟩

def beacon : Story where
  rootId := "dark"
  nodes := .ofList [
    ("dark", { id := "dark", texts := [], nextId := some "lit", rules := [], actions := []
               effects := [.setting "light" (.bool true)] }),
    ("lit", { id := "lit", texts := [], nextId := some "dark", rules := [], actions := []
              effects := [.setting "light" (.bool false)] })]

theorem beaconGoesRound : let s := State.start "dark" .empty
    Repeats beacon s "dark" ∧ (∀ t entered, ¬ Routed beacon s "dark" t entered) ∧
      ∀ n, ∃ crossed t next, Crossing beacon s "dark" crossed t next ∧ crossed.length = n := by
  intro s
  have repeats : Repeats beacon s "dark" :=
    ⟨_, _, _, _, _, _, .onward (.onward .start ⟨rfl, rfl, .leaves rfl rfl⟩) ⟨rfl, rfl, .leaves rfl rfl⟩,
      ⟨rfl, rfl, .leaves rfl rfl⟩, rfl⟩
  exact ⟨repeats, (routesPlainly beacon s "dark").2.2.2 repeats⟩

end Dialogue.Play
