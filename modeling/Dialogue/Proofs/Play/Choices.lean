import Dialogue.Proofs.Play.Safety
import Dialogue.Proofs.Workshop.Compilation

/-! Taking what is on offer. A choice takes the first action of the node with the id that is named. So an offer is
taken as it stands unless another action with its id stands before it: that one is taken instead if it is visible, and
if it is not the choice is refused. -/
namespace Dialogue.Play

def take (story : Story) (node : StoryNode) (s : State) (action : StoryAction) : Told Moved :=
  match action.nextId with
  | some next => follow story (taken action s) next
  | none => settle story node (taken action s)

structure Picks (story : Story) (node : StoryNode) (s : State) (id : ActionId) (action : StoryAction) : Prop where
  takes : (step story s (.select id)).result = (take story node s action).result.map (shown story)
  loops : ∀ e, (step story s (.select id)).result = .error e → ∃ target, e = .routingLoop target

structure Answered (story : Story) (node : StoryNode) (s : State) (offer : Offer) (action first : StoryAction) :
    Prop where
  stands : offer = ⟨action.id, action.label⟩
  named : node.action? offer.id = some first
  visible : first.visible s.context = true → Picks story node s offer.id first
  hidden : first.visible s.context = false →
    (step story s (.select offer.id)).result = .error (.actionNotVisible s.nodeId offer.id)
  alone : (∀ other ∈ node.actions, other.id = offer.id → other = action) →
    first = action ∧ Picks story node s offer.id action

variable {story : Story} {node : StoryNode} {s : State} {action first : StoryAction} {id : ActionId} {e : PlayError}

theorem chooseTakes (awaiting : s.awaitingChoice = true) (here : story.node? s.nodeId = some node)
    (named : node.action? id = some action) (visible : action.visible s.context = true) :
    (choose story s id).result = (take story node s action).result := by
  have effects : (applyEffects action.effects s).result =
      .ok { s with context := Effect.applyAll action.effects s.context } := rfl
  cases leads : action.nextId <;>
    simp only [choose, awaiting, if_true, Told.result_bind, lookUpResult, here, named, visible, Told.result_tell,
      effects, Except.bind, take, taken, leads]

theorem chooseRefuses (awaiting : s.awaitingChoice = true) (here : story.node? s.nodeId = some node)
    (named : node.action? id = some action) (hidden : action.visible s.context = false) :
    (choose story s id).result = .error (.actionNotVisible node.id id) := by
  simp [choose, awaiting, lookUpResult, here, named, hidden, Except.bind]

theorem stepOfMove (event : Event) :
    (step story s event).result = (move story s event).result.map (shown story) := by
  simp only [step, Told.result_bind]
  cases (move story s event).result <;> rfl

theorem takeFault (closed : story.Closed) (on : On story node s) (awaiting : s.awaitingChoice = true)
    (mem : action ∈ node.actions) (failed : (take story node s action).result = .error e) :
    ∃ target, e = .routingLoop target := by
  unfold take at failed
  split at failed
  · rename_i leads
    exact followFault closed (closed.actionFound on.here mem leads) failed
  · exact settleFault closed (on.takenLive awaiting action) failed

theorem picks (closed : story.Closed) (on : On story node s) (awaiting : s.awaitingChoice = true)
    (named : node.action? id = some action) (visible : action.visible s.context = true) :
    Picks story node s id action := by
  have takes : (step story s (.select id)).result = (take story node s action).result.map (shown story) := by
    rw [stepOfMove, move, chooseTakes awaiting on.here named visible]
  refine ⟨takes, fun e failed => ?_⟩
  have failed : (take story node s action).result = .error e := by
    rw [takes] at failed
    cases result : (take story node s action).result with
    | error other => simpa [result, Except.map] using failed
    | ok m => simp [result, Except.map] at failed
  exact takeFault closed on awaiting (List.mem_of_find?_eq_some named) failed

theorem answered (closed : story.Closed) (on : On story node s) (awaiting : s.awaitingChoice = true)
    (shown : action ∈ node.visibleActions s.context) :
    ∃ first, Answered story node s ⟨action.id, action.label⟩ action first := by
  obtain ⟨mem, visible⟩ := List.mem_filter.mp shown
  have known : (node.action? action.id).isSome := List.find?_isSome.mpr ⟨action, mem, by simp⟩
  obtain ⟨first, named⟩ := Option.isSome_iff_exists.mp known
  refine ⟨first, rfl, named, picks closed on awaiting named, fun hidden => ?_, fun alone => ?_⟩
  · rw [stepOfMove, move, chooseRefuses awaiting on.here named hidden, closed.idOf on.here]
    rfl
  · have same : first = action :=
      alone first (List.mem_of_find?_eq_some named) (by simpa using List.find?_some named)
    exact ⟨same, picks closed on awaiting (same ▸ named) visible⟩

theorem compiledPicks {d : Draft} {root : Nat} (flattened : Flattened d root story) (closed : story.Closed)
    (on : On story node s) (awaiting : s.awaitingChoice = true) (shown : action ∈ node.visibleActions s.context) :
    Picks story node s action.id action := by
  obtain ⟨first, how⟩ := answered closed on awaiting shown
  have mem : action ∈ node.actions := List.mem_of_mem_filter shown
  exact (how.alone fun other there same =>
    flattened.actionsAgree _ _ node node on.here on.here other there action mem same).2

theorem offersAnswered (valid : story.validate = .ok ()) {context : Context} (reached : Reached story context s)
    (awaiting : s.awaitingChoice = true) : ∃ node, story.node? s.nodeId = some node ∧
      ∀ (i : Nat) offer, (offers story s)[i]? = some offer →
        ∃ action first, (node.visibleActions s.context)[i]? = some action ∧
          Answered story node s offer action first := by
  have closed := Story.validateOk.mp valid
  obtain ⟨node, on⟩ := reachedOn closed reached
  refine ⟨node, on.here, fun i offer listed => ?_⟩
  simp only [offers, on.here, List.getElem?_map, Option.map_eq_some_iff] at listed
  obtain ⟨action, found, rfl⟩ := listed
  obtain ⟨first, how⟩ := answered closed on awaiting (List.mem_of_getElem? found)
  exact ⟨action, first, found, how⟩

theorem ferryOffersAnswered : ferry.validate = .ok () ∧ Reached ferry .empty ferryPaid ∧ ferryPaid.awaitingChoice = true ∧
    (offers ferry ferryPaid)[1]? = some ⟨"board", "Board"⟩ ∧
    ∃ node, ferry.node? "quay" = some node ∧ ∃ action first, (node.visibleActions ferryPaid.context)[1]? = some action ∧
      Answered ferry node ferryPaid ⟨"board", "Board"⟩ action first := by
  have valid : ferry.validate = .ok () := rfl
  obtain ⟨node, here, answers⟩ := offersAnswered valid ferryPaidReached rfl
  exact ⟨valid, ferryPaidReached, rfl, rfl, node, here, answers 1 ⟨"board", "Board"⟩ rfl⟩

/- A gate with two ways of one id. The first is not open, so the second, which is on offer, cannot be taken. -/
def gate : Story where
  rootId := "gate"
  nodes := .ofList [
    ("gate", { id := "gate", texts := [⟨"A gate.", 200, 500⟩], nextId := none, rules := [], effects := []
               actions := [⟨"on", "Unlock it", some ⟨.ofList [("key", ⟨.equals, .bool true⟩)], .empty⟩, [], some "yard"⟩,
                 ⟨"on", "Climb over", none, [], some "yard"⟩] }),
    ("yard", { id := "yard", texts := [⟨"A yard.", 200, 500⟩], nextId := none, rules := [], effects := []
               actions := [] })]

def atGate : State := ⟨"gate", .empty, true, 0, none, 1, false⟩

theorem gateRefusesOffer : gate.validate = .ok () ∧ Reached gate .empty atGate ∧ atGate.awaitingChoice = true ∧
    (offers gate atGate)[0]? = some ⟨"on", "Climb over"⟩ ∧
    (step gate atGate (.select "on")).result = .error (.actionNotVisible "gate" "on") :=
  ⟨rfl, ⟨_, _, [.revealed ⟨"gate", 0, 1⟩], rfl, rfl⟩, rfl, rfl, rfl⟩

end Dialogue.Play
