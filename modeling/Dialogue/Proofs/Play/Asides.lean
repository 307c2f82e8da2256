import Dialogue.Proofs.Play.Choices
import Dialogue.Proofs.Play.Loops

/-! Text on an action. Play shows it on a node of its own and goes on from there where the action leads. Routing
neither counts visits nor looks where actions lead, so the only trace of the text is one visit more. -/
namespace Dialogue

def StoryAction.unled (a : StoryAction) : StoryAction := { a with nextId := none }

def StoryNode.unled (n : StoryNode) : StoryNode := { n with actions := n.actions.map StoryAction.unled }

def StoryNode.led (n : StoryNode) (id : ActionId) (target : NodeId) : StoryNode :=
  { n with actions := n.actions.map fun a => if a.id = id then { a with nextId := some target } else a }

namespace Story

def led (story : Story) (place : NodeId) (id : ActionId) (target : NodeId) : Story :=
  match story.node? place with
  | some n => { story with nodes := story.nodes.insert place (n.led id target) }
  | none => story

/- The stories differ at most in where their actions lead. -/
def Parallel (story other : Story) : Prop :=
  ∀ id, (other.node? id).map StoryNode.unled = (story.node? id).map StoryNode.unled

end Story

variable {story other : Story} {node n m : StoryNode} {place target next : NodeId} {id : ActionId} {context : Context}

theorem StoryNode.unledLed (n : StoryNode) (id : ActionId) (target : NodeId) : (n.led id target).unled = n.unled := by
  have each : ∀ a : StoryAction, (if a.id = id then { a with nextId := some target } else a).unled = a.unled := by
    intro a
    split <;> rfl
  simp [led, unled, each]

theorem StoryNode.sameUnled (same : m.unled = n.unled) : m.id = n.id ∧ m.texts = n.texts := by
  have named : m.unled.id = n.unled.id := by rw [same]
  have texts : m.unled.texts = n.unled.texts := by rw [same]
  exact ⟨named, texts⟩

theorem StoryNode.visibleActionsUnled (n : StoryNode) (context : Context) :
    n.unled.visibleActions context = (n.visibleActions context).map StoryAction.unled := by
  simp only [visibleActions, unled, List.filter_map]
  rfl

theorem Story.nodeLed (story : Story) (place : NodeId) (id : ActionId) (target key : NodeId) :
    (story.led place id target).node? key =
      (story.node? key).map fun n => if key = place then n.led id target else n := by
  unfold led
  cases found : story.node? place with
  | none =>
    by_cases same : key = place
    · simp [same, found]
    · simp [same]
  | some n =>
    by_cases same : key = place
    · subst same
      have here : story.nodes.get? key = some n := found
      simp [node?, here]
    · simp [same, node?, Table.get?_insert_ne same]

theorem Story.parallelLed (story : Story) (place : NodeId) (id : ActionId) (target : NodeId) :
    (story.led place id target).Parallel story := by
  intro key
  rw [nodeLed, Option.map_map]
  refine Option.map_congr fun n _ => ?_
  simp only [Function.comp_apply]
  split
  · exact (n.unledLed id target).symm
  · rfl

theorem Story.Parallel.found (parallel : story.Parallel other) (here : story.node? target = some n) :
    ∃ m, other.node? target = some m ∧ m.unled = n.unled := by
  have same := parallel target
  rw [here] at same
  exact Option.map_eq_some_iff.mp same

theorem Story.Parallel.missing (parallel : story.Parallel other) (lost : story.node? target = none) :
    other.node? target = none := by
  have same := parallel target
  rw [lost] at same
  exact Option.map_eq_none_iff.mp same

namespace Play
variable {s s' u : State} {limit : Nat} {crossed : Crossed}

def State.later (s : State) : State := { s with visit := s.visit + 1 }

def Route.later (r : Route) : Route := { r with state := r.state.later }

def Moved.later (m : Moved) : Moved := { m with state := m.state.later }

theorem landedAlong (same : m.unled = n.unled) (context : u.context = s.context) (visit : u.visit = s.visit + 1) :
    landed m u = (landed n s).later := by
  have fields : landed m u = landed m.unled u := rfl
  rw [fields, same]
  simp [landed, State.later, StoryNode.unled, StoryNode.successor, context, visit]

theorem quietAlong (same : m.unled = n.unled) (context : Context) :
    m.visibleActions context = [] ↔ n.visibleActions context = [] := by
  have actions := congrArg (·.visibleActions context) same
  simp only [StoryNode.visibleActionsUnled] at actions
  rw [← List.map_eq_nil_iff (f := StoryAction.unled), actions, List.map_eq_nil_iff]

theorem Concluded.along {next : Option NodeId} (how : Concluded n s s' next) (same : m.unled = n.unled) :
    Concluded m s.later s'.later next := by
  have quiet := quietAlong same s.context
  cases how with
  | awaits offered => exact .awaits (mt quiet.mp offered)
  | ends none last => exact .ends (quiet.mpr none) last
  | leaves none chosen => exact .leaves (quiet.mpr none) chosen

theorem hopTo {next : Option NodeId} (here : story.node? target = some n)
    (how : n.texts ≠ [] ∧ s' = landed n s ∧ next = none ∨ n.texts = [] ∧ Concluded n (landed n s) s' next) :
    (hop story s target).result = .ok (n, s', next) := by
  cases result : (hop story s target).result with
  | error e => exact absurd (here.symm.trans (hopError result).2) (by simp)
  | ok hopped =>
    obtain ⟨node, t, after⟩ := hopped
    obtain ⟨found, which⟩ := hopFound result
    cases here.symm.trans found
    rcases how with ⟨text, rfl, rfl⟩ | ⟨routing, concluded⟩
    · rcases which with ⟨_, rfl, rfl⟩ | ⟨routing, _⟩
      · rfl
      · exact absurd routing text
    · rcases which with ⟨text, _⟩ | ⟨_, also⟩
      · exact absurd routing text
      · obtain ⟨rfl, rfl⟩ := concluded.unique also
        rfl

theorem hopAlong (parallel : story.Parallel other) (context : u.context = s.context) (visit : u.visit = s.visit + 1)
    {next : Option NodeId} (hopped : (hop story s target).result = .ok (n, s', next)) :
    ∃ m, m.id = n.id ∧ (hop other u target).result = .ok (m, s'.later, next) := by
  obtain ⟨found, which⟩ := hopFound hopped
  obtain ⟨m, here, same⟩ := parallel.found found
  obtain ⟨named, texts⟩ := StoryNode.sameUnled same
  refine ⟨m, named, hopTo here ?_⟩
  rw [texts, landedAlong same context visit]
  rcases which with ⟨text, rfl, none⟩ | ⟨routing, concluded⟩
  · exact .inl ⟨text, rfl, none⟩
  · exact .inr ⟨routing, concluded.along same⟩

theorem hopLost (parallel : story.Parallel other) {e : PlayError} (failed : (hop story s target).result = .error e)
    (u : State) : (hop other u target).result = .error e := by
  obtain ⟨rfl, lost⟩ := hopError failed
  simp [hop, Told.result_bind, enterResult, parallel.missing lost, Except.bind]

theorem advanceAlong (parallel : story.Parallel other) (context : u.context = s.context)
    (visit : u.visit = s.visit + 1) : (advance other limit crossed u target).result =
      (advance story limit crossed s target).result.map Route.later := by
  -- both routes have crossed the same nodes in the same contexts, so they give up at the same place
  induction limit generalizing crossed s u target with
  | zero =>
    rw [advance, advance, Told.result_bind, Told.result_bind]
    cases hopped : (hop story s target).result with
    | error e =>
      rw [hopLost parallel hopped u]
      rfl
    | ok stop =>
      obtain ⟨n, s', next⟩ := stop
      obtain ⟨m, named, also⟩ := hopAlong parallel context visit hopped
      rw [also]
      cases next with
      | none => simp [Except.bind, Except.map, Route.later, named]
      | some next => rfl
  | succ limit ih =>
    rw [advance, advance, Told.result_bind, Told.result_bind]
    cases hopped : (hop story s target).result with
    | error e =>
      rw [hopLost parallel hopped u]
      rfl
    | ok stop =>
      obtain ⟨n, s', next⟩ := stop
      obtain ⟨m, named, also⟩ := hopAlong parallel context visit hopped
      rw [also]
      cases next with
      | none => simp [Except.bind, Except.map, Route.later, named]
      | some next =>
        have left : s'.later.context = s'.context := rfl
        have visits : s'.later.visit = s'.visit + 1 := rfl
        simp only [Except.bind, left]
        split
        · rfl
        · rw [Told.result_bind, Told.result_bind, ih left visits]
          cases (advance story limit ((target, s'.context) :: crossed) s' next).result with
          | error e => rfl
          | ok route => simp [Except.bind, Except.map, Route.later, named]

theorem followAlong (parallel : story.Parallel other) (context : u.context = s.context)
    (visit : u.visit = s.visit + 1) :
    (follow other u target).result = (follow story s target).result.map Moved.later := by
  simp only [follow, Told.result_bind, advanceAlong parallel context visit]
  cases (advance story crossingLimit [] s target).result <;> rfl

def visitMore (r : State × Output) : State × Output := (r.1.later, r.2)

theorem describeAlong (parallel : story.Parallel other) (entered : List NodeId) (stale : Bool) (s : State) :
    describe other entered stale s.later = describe story entered stale s := by
  have here : s.later = ⟨s.nodeId, s.context, s.awaitingChoice, s.revealIndex, s.nextId, s.visit + 1, s.finished⟩ := rfl
  cases found : story.node? s.nodeId with
  | none => simp [describe, revealedText, liveSegment, offers, here, found, parallel.missing found]
  | some n =>
    obtain ⟨m, there, same⟩ := parallel.found found
    have texts := (StoryNode.sameUnled same).2
    have labels : ∀ k : StoryNode, (k.visibleActions s.context).map (fun a => (⟨a.id, a.label⟩ : Offer)) =
        (k.unled.visibleActions s.context).map fun a => ⟨a.id, a.label⟩ := fun k => by
      rw [StoryNode.visibleActionsUnled, List.map_map]
      rfl
    have offered : offers other s.later = offers story s := by
      simp only [offers, here, there, found]
      rw [labels m, labels n, same]
    rw [here] at offered ⊢
    simp [describe, offered, revealedText, liveSegment, there, found, texts]

theorem shownAlong (parallel : story.Parallel other) (m : Moved) :
    shown other m.later = visitMore (shown story m) :=
  congrArg (Prod.mk m.state.later) (describeAlong parallel m.entered m.stale m.state)

def tale (id : NodeId) (texts : List Segment) (next : NodeId) : StoryNode where
  id := id
  texts := texts
  nextId := some next
  rules := []
  effects := []
  actions := []

def told (aside next : NodeId) (action : StoryAction) (s : State) (behind : Nat) : State where
  nodeId := aside
  context := (taken action s).context
  awaitingChoice := false
  revealIndex := behind
  nextId := some next
  visit := s.visit + 1
  finished := false

def telling (aside : NodeId) (texts : List Segment) (behind : Nat) : Output where
  entered := if behind = 0 then [aside] else []
  text := String.join ((texts.take (behind + 1)).map (·.text))
  segment := texts[behind]?
  actions := []
  stale := false
  finished := false

variable {node : StoryNode} {action : StoryAction} {aside : NodeId} {texts : List Segment}

theorem describeTold (there : story.node? aside = some (tale aside texts next)) (action : StoryAction) (s : State)
    (entered : List NodeId) (i : Nat) : describe story entered false (told aside next action s i) =
      { telling aside texts i with entered := entered } := by
  simp [describe, revealedText, liveSegment, told, telling, there, tale]

theorem taleEntered (there : story.node? aside = some (tale aside texts next)) (some : texts ≠ [])
    (action : StoryAction) (s : State) : (follow story (taken action s) aside).result =
      .ok ⟨told aside next action s 0, [aside], false⟩ := by
  have routed : Routed story (taken action s) aside (told aside next action s 0) [aside] := .shown there some
  have advanced : (advance story crossingLimit [] (taken action s) aside).result =
      .ok ⟨told aside next action s 0, [aside]⟩ := advanceStops.mpr ⟨routed, by simp⟩
  simp [follow, advanced, Except.bind]

theorem revealLive (free : s.finished = false ∧ s.awaitingChoice = false) (here : story.node? s.nodeId = some node) :
    (reveal story s s.ticket).result = if s.revealIndex + 1 < node.texts.length then
        .ok ⟨{ s with revealIndex := s.revealIndex + 1 }, [], false⟩
      else (settle story node s).result := by
  unfold reveal
  rw [if_neg (by simp [free])]
  simp only [Told.result_bind, lookUpResult, here, Except.bind]
  split <;> rfl

theorem taleLeft (aside : NodeId) (texts : List Segment) (action : StoryAction) (s : State) (i : Nat) :
    (settle story (tale aside texts next) (told aside next action s i)).result =
      (follow story (told aside next action s i) next).result := by
  simp [settle, conclude, tale, told, StoryNode.visibleActions, Except.bind]

/- A choice leads to the first of the segments, each of them to the next one, and the last one to where the choice
leads in the other story. -/
structure Inserts (story direct : Story) (s : State) (id : ActionId) (texts : List Segment) (place : Nat → State)
    (out : Nat → Output) : Prop where
  begins : (step story s (.select id)).result = .ok (place 0, out 0)
  onward : ∀ i, i + 1 < texts.length →
    (step story (place i) (.revealed (place i).ticket)).result = .ok (place (i + 1), out (i + 1))
  ends : ∀ i, i + 1 = texts.length →
    (step story (place i) (.revealed (place i).ticket)).result = (step direct s (.select id)).result.map visitMore

theorem choiceLed (named : node.action? id = some action) (target : NodeId) :
    (node.led id target).action? id = some { action with nextId := some target } := by
  have each : ∀ a : StoryAction, (if a.id = id then { a with nextId := some target } else a).id = a.id := by
    intro a
    split <;> rfl
  have own : action.id = id := by simpa using List.find?_some named
  unfold StoryNode.action? StoryNode.led at *
  simp only [List.find?_map, Function.comp_def, each, named, Option.map_some, own, if_true]

theorem asideInserts (here : story.node? s.nodeId = some node) (awaiting : s.awaitingChoice = true)
    (named : node.action? id = some action) (visible : action.visible s.context = true)
    (leads : action.nextId = some aside) (there : story.node? aside = some (tale aside texts next))
    (some : texts ≠ []) : Inserts story (story.led s.nodeId id next) s id texts (told aside next action s)
      (telling aside texts) := by
  have revealed : ∀ i, (move story (told aside next action s i) (.revealed (told aside next action s i).ticket)).result =
      if i + 1 < texts.length then .ok ⟨told aside next action s (i + 1), [], false⟩
      else (follow story (told aside next action s i) next).result := fun i => by
    rw [← taleLeft aside texts]
    exact revealLive (s := told aside next action s i) ⟨rfl, rfl⟩ there
  constructor
  · rw [stepOfMove, move, chooseTakes awaiting here named visible, take, leads]
    dsimp only
    rw [taleEntered there some, Except.map, shown, describeTold there]
    rfl
  · intro i more
    rw [stepOfMove, revealed, if_pos more, Except.map, shown, describeTold there]
    rfl
  · intro i last
    have parallel := story.parallelLed s.nodeId id next
    have direct : (story.led s.nodeId id next).node? s.nodeId = Option.some (node.led id next) := by
      rw [story.nodeLed, here]
      simp
    have goes := chooseTakes awaiting direct (choiceLed named next) visible
    have along : (follow story (told aside next action s i) next).result =
        (follow (story.led s.nodeId id next) (taken action s) next).result.map Moved.later :=
      followAlong parallel rfl rfl
    rw [stepOfMove, revealed, if_neg (by omega), along, stepOfMove, move, goes]
    show _ = (Except.map _ (follow (story.led s.nodeId id next) (taken action s) next).result).map visitMore
    cases (follow (story.led s.nodeId id next) (taken action s) next).result with
    | error e => rfl
    | ok m => exact congrArg Except.ok (shownAlong parallel m)

theorem actionOffered {d : Draft} (made : d.Made) {k a : Nat} (attached : a ∈ (d.node k).actions) :
    (d.nodeOf k).action? (d.action a).id = some (d.actionOf a) := by
  have inside : ∀ {b}, b ∈ (d.node k).actions → b < d.actions.size := (made.bound.nodes k).actions _
  have mem : d.actionOf a ∈ (d.nodeOf k).actions := List.mem_map_of_mem attached
  cases found : (d.nodeOf k).action? (d.action a).id with
  | none => exact absurd (beq_self_eq_true (d.action a).id) (List.find?_eq_none.mp found _ mem)
  | some first =>
    obtain ⟨b, also, rfl⟩ := List.mem_map.mp (List.mem_of_find?_eq_some found)
    have same := List.find?_some found
    rw [made.numbered.actionIds (inside also) (inside attached) (beq_iff_eq.mp same)]

theorem textInserted (meaning : Script → Resolver) (depth : Nat) (config : Config) (program : List Step) {d : Draft}
    {i root k a m : Nat} (drafted : (Machine.afterBy meaning depth config program).workshop.draftAt i = d)
    (inside : root < d.nodes.size)
    (compiled : (d.compile root).result = .ok story) (met : d.Reaches root k) (attached : a ∈ (d.node k).actions)
    (texted : (d.action a).texts ≠ []) (leads : (d.action a).next = some m) (here : s.nodeId = (d.node k).id)
    (awaiting : s.awaitingChoice = true) (visible : (d.actionOf a).visible s.context = true) :
    Inserts story (story.led (d.node k).id (d.action a).id (d.node m).id) s (d.action a).id (d.action a).texts
      (told ("btn_" ++ (d.action a).id) (d.node m).id (d.actionOf a) s)
      (telling ("btn_" ++ (d.action a).id) (d.action a).texts) := by
  have made : d.Made := drafted ▸ (Machine.afterBySound meaning depth config program).drafts i
  obtain ⟨other, ok, _, _, holds⟩ := Draft.compileOk made inside
  cases compiled.symm.trans ok
  have node : story.node? s.nodeId = some (d.nodeOf k) := (holds _ _).mpr ⟨.node met, here.symm⟩
  have text : story.node? ("btn_" ++ (d.action a).id) = some (d.textNodeOf a) :=
    (holds _ _).mpr ⟨.text met attached texted, rfl⟩
  have shows : d.textNodeOf a = tale ("btn_" ++ (d.action a).id) (d.action a).texts (d.node m).id := by
    simp [Draft.textNodeOf, tale, StoryAction.textNodeId, Draft.idOf, leads]
  have goes : (d.actionOf a).nextId = some ("btn_" ++ (d.action a).id) := (d.actionOfEntry a).shown texted
  rw [← here]
  exact asideInserts node awaiting (actionOffered made attached) visible goes (shows ▸ text) texted

def stall : List Step := [
  .mk none none (some "stall") (.newNamed "stall"),
  .mk (some "stall") none none (.appendText [.fragment (.segment ⟨"A stall.", 200, 500⟩)]),
  .mk none none (some "apple") (.newAction "Take an apple"),
  .mk (some "apple") none none (.appendText [.fragment (.segment ⟨"It is red.", 200, 500⟩),
    .fragment (.segment ⟨"It is sweet.", 200, 500⟩)]),
  .mk (some "apple") none none (.setEffect "apple" (.bool true)),
  .mk (some "stall") none none (.attachAction "apple"),
  .mk (some "apple") none (some "well") (.joinNamed "well")]

def stallDraft : Draft := (Machine.afterBy .ofScript Machine.passDepth {} stall).workshop.draftAt 0

def atStall : State := ⟨"stall_0001", .empty, true, 0, none, 1, false⟩

theorem appleInserted : ∃ story : Story, (stallDraft.compile 0).result = .ok story ∧ Reached story .empty atStall ∧
    atStall.awaitingChoice = true ∧ (stallDraft.actionOf 0).visible atStall.context = true ∧
    Inserts story (story.led "stall_0001" "choice_0002" "well_0003") atStall "choice_0002" (stallDraft.action 0).texts
      (told "btn_choice_0002" "well_0003" (stallDraft.actionOf 0) atStall)
      (telling "btn_choice_0002" (stallDraft.action 0).texts) := by
  have compiled : (stallDraft.compile 0).result = .ok ⟨"stall_0001", .ofList [
      ("stall_0001", stallDraft.nodeOf 0), ("btn_choice_0002", stallDraft.textNodeOf 0),
      ("well_0003", stallDraft.nodeOf 1)]⟩ := rfl
  have attached : 0 ∈ (stallDraft.node 0).actions := by decide
  have texted : (stallDraft.action 0).texts ≠ [] := by decide
  refine ⟨_, compiled, ⟨_, _, [.revealed ⟨"stall_0001", 0, 1⟩], rfl, rfl⟩, rfl, rfl, ?_⟩
  exact textInserted .ofScript Machine.passDepth {} stall rfl (by decide) compiled .root attached texted rfl rfl rfl rfl

end Play
end Dialogue
