import Dialogue.Proofs.Play.Runs
import Dialogue.Proofs.Story.Closed

/-! What a move does to a state, told by the list of the nodes it entered alone. The effects of those nodes are done
one after the other, and where play goes from each of them is decided in the context right behind its own effects.
Neither the limit of a route nor the crossings behind it show in the account. -/
namespace Dialogue.Play

inductive Decides (node : StoryNode) (context : Context) : Option NodeId → Prop where
  | rule {before later : List BranchRule} {rule : BranchRule} (order : node.rules = before ++ rule :: later)
      (passed : ∀ r ∈ before, r.applies context = false) (applies : rule.applies context = true) :
      Decides node context (some rule.targetId)
  | otherwise (passed : ∀ r ∈ node.rules, r.applies context = false) : Decides node context node.nextId

def effectsAt (story : Story) (id : NodeId) : List Effect :=
  match story.node? id with
  | some node => node.effects
  | none => []

def contextAfter (story : Story) (s : State) (chosen : List Effect) (entered : List NodeId) : Context :=
  (chosen ++ entered.flatMap (effectsAt story)).foldl (fun context e => e.apply context) s.context

/- How a move that starts with the effects of a choice and may enter `first` leads from `s` to `t`. -/
structure Follows (story : Story) (s : State) (chosen : List Effect) (first : Option NodeId) (t : State)
    (entered : List NodeId) : Prop where
  context : t.context = contextAfter story s chosen entered
  visit : t.visit = s.visit + entered.length
  place : t.nodeId = entered.getLast?.getD s.nodeId
  begins : ∀ id, entered.head? = some id → first = some id
  onward : ∀ i id next, entered[i]? = some id → entered[i + 1]? = some next →
    ∃ node, story.node? id = some node ∧ node.texts = [] ∧
      (∀ a ∈ node.actions, a.visible (contextAfter story s chosen (entered.take (i + 1))) = false) ∧
      Decides node (contextAfter story s chosen (entered.take (i + 1))) (some next)
  decided : ∀ id, entered.getLast? = some id → ∃ node, story.node? id = some node ∧ Decides node t.context t.nextId
  stays : entered = [] → t.nextId = s.nextId

variable {story : Story} {node : StoryNode} {s s' t : State} {target next : NodeId} {entered : List NodeId}
  {first : Option NodeId}

theorem successorDecides (node : StoryNode) (context : Context) : Decides node context (node.successor context) := by
  unfold StoryNode.successor BranchRule.choose
  cases found : node.rules.find? (·.applies context) with
  | none =>
    refine .otherwise fun r mem => ?_
    simpa using List.find?_eq_none.mp found r mem
  | some rule =>
    obtain ⟨applies, before, later, order, passed⟩ := List.find?_eq_some_iff_append.mp found
    exact .rule order (by simpa using passed) applies

theorem effectsAtFound (found : story.node? target = some node) : effectsAt story target = node.effects := by
  simp [effectsAt, found]

theorem quietAt {context : Context} (quiet : node.visibleActions context = []) :
    ∀ a ∈ node.actions, a.visible context = false := by
  intro a mem
  simpa using List.filter_eq_nil_iff.mp quiet a mem

namespace Follows

theorem landed (closed : story.Closed) (found : story.node? target = some node) (s : State) :
    Follows story s [] (some target) (landed node s) [node.id] where
  context := by simp [contextAfter, Play.landed, Effect.applyAll, closed.idOf found, effectsAtFound found]
  visit := rfl
  place := rfl
  begins := by simp [closed.idOf found]
  onward := by simp
  decided := by
    intro id last
    cases Option.some.inj last
    exact ⟨node, by rw [closed.idOf found]; exact found, successorDecides node _⟩
  stays := by simp

theorem rested {chosen : List Effect} (follows : Follows story s chosen first t entered)
    (rest : Concluded node t s' none) : Follows story s chosen first s' entered := by
  cases rest <;>
    exact ⟨follows.context, follows.visit, follows.place, follows.begins, follows.onward, follows.decided, follows.stays⟩

theorem crossed (closed : story.Closed) (found : story.node? target = some node) (routing : node.texts = [])
    (left : Concluded node (Play.landed node s) s' (some next)) (nonempty : entered ≠ [])
    (onward : Follows story s' [] (some next) t entered) : Follows story s [] (some target) t (node.id :: entered) := by
  have named := closed.idOf found
  have shift : ∀ more, contextAfter story (Play.landed node s) [] more = contextAfter story s [] (target :: more) := by
    intro more
    simp only [contextAfter, Play.landed, Effect.applyAll, List.nil_append, List.flatMap_cons, effectsAtFound found,
      List.foldl_append]
  cases left with
  | leaves quiet chosen =>
    rw [named]
    refine ⟨?_, ?_, ?_, by simp, ?_, ?_, by simp⟩
    · rw [onward.context, shift]
    · have visit : (Play.landed node s).visit = s.visit + 1 := rfl
      rw [onward.visit, visit, List.length_cons]
      omega
    · rw [onward.place, List.getLast?_cons_of_ne_nil nonempty]
      simp [List.getLast?_eq_some_getLast nonempty]
    · intro i id after here there
      cases i with
      | zero =>
        cases Option.some.inj here
        have head : entered.head? = some after := by simpa [List.head?_eq_getElem?] using there
        cases Option.some.inj (onward.begins after head)
        have context : (Play.landed node s).context = contextAfter story s [] [target] := shift []
        refine ⟨node, found, routing, ?_, ?_⟩
        · exact quietAt (context ▸ quiet)
        · rw [← chosen]
          exact context ▸ successorDecides node _
      | succ i =>
        obtain ⟨n, known, text, quiet, decides⟩ := onward.onward i id after (by simpa using here) (by simpa using there)
        rw [shift] at quiet decides
        exact ⟨n, known, text, quiet, decides⟩
    · intro id last
      rw [List.getLast?_cons_of_ne_nil nonempty] at last
      exact onward.decided id last

theorem chosen {action : StoryAction} (follows : Follows story (taken action s) [] first t entered) :
    Follows story s action.effects first t entered := by
  have shift : ∀ more, contextAfter story (taken action s) [] more = contextAfter story s action.effects more := by
    intro more
    simp only [contextAfter, taken, Effect.applyAll, List.nil_append, List.foldl_append]
  refine ⟨?_, follows.visit, follows.place, follows.begins, ?_, follows.decided, follows.stays⟩
  · rw [follows.context, shift]
  · intro i id next here there
    rw [← shift]
    exact follows.onward i id next here there

theorem still (s : State) (first : Option NodeId) : Follows story s [] first s [] := by
  constructor <;> simp [contextAfter]

end Follows

theorem routedFollows (closed : story.Closed) (routed : Routed story s target t entered) :
    entered ≠ [] ∧ Follows story s [] (some target) t entered := by
  induction routed with
  | @shown s _ _ found text => exact ⟨by simp, .landed closed found s⟩
  | @rested s _ _ _ found _ rest => exact ⟨by simp, (Follows.landed closed found s).rested rest⟩
  | crossed found routing left _ ih => exact ⟨by simp, Follows.crossed closed found routing left ih.1 ih.2⟩

theorem settledFollows (closed : story.Closed) (settling : Settled story node s t entered) :
    Follows story s [] s.nextId t entered := by
  cases settling with
  | rested rest => exact (Follows.still s _).rested rest
  | routed left onward =>
    cases left with
    | leaves quiet chosen => exact chosen ▸ (routedFollows closed onward).2

theorem transitionFollows (valid : story.validate = .ok ()) (context : Context) :
    (∀ s out, (start story context).result = .ok (s, out) → out.entered ≠ [] ∧
      Follows story (.start story.rootId context) [] (some story.rootId) s out.entered) ∧
    ∀ s event t out, (step story s event).result = .ok (t, out) →
      match event with
      | .revealed _ => Follows story s [] s.nextId t out.entered
      | .select id => ∃ node action, story.node? s.nodeId = some node ∧ node.action? id = some action ∧
          action.visible s.context = true ∧ (action.nextId ≠ none → out.entered ≠ []) ∧
          Follows story s action.effects (action.nextId <|> s.nextId) t out.entered := by
  have closed := Story.validateOk.mp valid
  constructor
  · intro s out started
    obtain ⟨entered, routed, rfl⟩ := startRouted started
    exact routedFollows closed routed
  · intro s event t out ok
    obtain ⟨m, moves, rfl, rfl⟩ := stepMoves ok
    cases moves with
    | stale => exact .still s _
    | segment => exact { Follows.still s s.nextId with }
    | settled _ _ _ settling => exact settledFollows closed settling
    | @followed node action _ _ _ _ _ found chosen visible leads onward =>
      obtain ⟨nonempty, follows⟩ := routedFollows closed onward
      refine ⟨node, action, found, chosen, visible, fun _ => nonempty, ?_⟩
      rw [leads]
      exact follows.chosen
    | @stayed node action _ _ _ _ found chosen visible leads settling =>
      refine ⟨node, action, found, chosen, visible, fun goes => absurd leads goes, ?_⟩
      rw [leads]
      exact (settledFollows closed settling).chosen

theorem ferryTransitionFollows : ferry.validate = .ok () ∧
    ∃ t out, (step ferry ferryPaid (.select "board")).result = .ok (t, out) ∧ out.entered = ["deck", "bow"] ∧
      ∃ node action, ferry.node? "quay" = some node ∧ node.action? "board" = some action ∧
        Follows ferry ferryPaid action.effects (action.nextId <|> none) t ["deck", "bow"] := by
  have valid : ferry.validate = .ok () := rfl
  obtain ⟨node, action, here, chosen, _, _, follows⟩ :=
    (transitionFollows valid .empty).2 ferryPaid (.select "board") _ _ rfl
  exact ⟨valid, _, _, rfl, rfl, node, action, here, chosen, follows⟩

end Dialogue.Play
