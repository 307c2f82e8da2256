import Dialogue.Proofs.Play.Listening
import Dialogue.Proofs.Play.Tickets
import Dialogue.Proofs.Story.Closed

/-! Play on a part of the table. Play comes only to nodes that successors, rules and actions lead to from the root: a
state stands on such a node, and the successor that it has chosen is one. So two stories that agree on these nodes are
played alike, whatever else is in their tables, down to what is told on the way and where it fails. -/
namespace Dialogue

namespace Story

inductive Reaches (story : Story) : NodeId → Prop where
  | root : Reaches story story.rootId
  | next {id target : NodeId} {n : StoryNode} (met : Reaches story id) (found : story.node? id = some n)
      (leads : n.nextId = some target) : Reaches story target
  | rule {id : NodeId} {n : StoryNode} {rule : BranchRule} (met : Reaches story id) (found : story.node? id = some n)
      (mem : rule ∈ n.rules) : Reaches story rule.targetId
  | action {id target : NodeId} {n : StoryNode} {action : StoryAction} (met : Reaches story id)
      (found : story.node? id = some n) (mem : action ∈ n.actions) (leads : action.nextId = some target) :
      Reaches story target

structure Shares (story other : Story) : Prop where
  root : other.rootId = story.rootId
  entries : ∀ id, story.Reaches id → other.node? id = story.node? id

variable {story : Story} {id target : NodeId} {n : StoryNode}

theorem Reaches.successor (met : story.Reaches id) (found : story.node? id = some n) {context : Context}
    (chosen : n.successor context = some target) : story.Reaches target := by
  unfold StoryNode.successor at chosen
  cases ruled : BranchRule.choose n.rules context with
  | none =>
    rw [ruled] at chosen
    exact .next met found (by simpa using chosen)
  | some other =>
    rw [ruled] at chosen
    cases Option.some.inj chosen
    obtain ⟨rule, first, rfl⟩ := Option.map_eq_some_iff.mp ruled
    exact .rule met found (List.mem_of_find?_eq_some first)

theorem Reaches.found (closed : story.Closed) (met : story.Reaches id) : ∃ n, story.node? id = some n := by
  cases met with
  | root => exact closed.rootFound
  | next _ found leads => exact closed.nextFound found leads
  | rule _ found mem => exact closed.ruleFound found mem
  | action _ found mem leads => exact closed.actionFound found mem leads

theorem insertShares (closed : story.Closed) (absent : story.node? id = none) (n : StoryNode) :
    story.Shares { story with nodes := story.nodes.insert id n } where
  root := rfl
  entries := by
    intro met reaches
    obtain ⟨m, found⟩ := reaches.found closed
    have other : met ≠ id := by
      intro same
      rw [same, absent] at found
      contradiction
    exact Table.get?_insert_ne other _ n

end Story

namespace Play

structure Within (story : Story) (s : State) : Prop where
  here : story.Reaches s.nodeId
  next : ∀ id, s.nextId = some id → story.Reaches id

variable {story other : Story} {node : StoryNode} {s s' t : State} {target : NodeId} {entered : List NodeId}
  {event : Event} {context : Context} {m : Moved}

theorem landedWithin (closed : story.Closed) (met : story.Reaches target) (found : story.node? target = some node)
    (s : State) : Within story (landed node s) where
  here := by
    rw [← closed.idOf found] at met
    exact met
  next := fun _ chosen => met.successor found chosen

theorem Within.concluded {next : Option NodeId} (within : Within story s) (how : Concluded node s s' next) :
    Within story s' ∧ ∀ id, next = some id → story.Reaches id := by
  cases how with
  | awaits => exact ⟨⟨within.here, within.next⟩, nofun⟩
  | ends => exact ⟨⟨within.here, within.next⟩, nofun⟩
  | leaves _ chosen =>
    refine ⟨within, fun id same => ?_⟩
    cases same
    exact within.next _ chosen

theorem routedWithin (closed : story.Closed) (routed : Routed story s target t entered) (met : story.Reaches target) :
    Within story t := by
  induction routed with
  | shown found => exact landedWithin closed met found _
  | rested found _ rest => exact ((landedWithin closed met found _).concluded rest).1
  | crossed found _ left _ ih => exact ih (((landedWithin closed met found _).concluded left).2 _ rfl)

theorem Within.settled (closed : story.Closed) (within : Within story s) (settling : Settled story node s t entered) :
    Within story t := by
  cases settling with
  | rested rest => exact (within.concluded rest).1
  | routed left onward => exact routedWithin closed onward ((within.concluded left).2 _ rfl)

theorem Within.taken (within : Within story s) (action : StoryAction) : Within story (Play.taken action s) :=
  ⟨within.here, within.next⟩

theorem Within.moved (closed : story.Closed) (within : Within story s) (moves : Moves story s event m) :
    Within story m.state := by
  cases moves with
  | stale => exact within
  | segment => exact ⟨within.here, within.next⟩
  | settled _ _ _ settling => exact within.settled closed settling
  | followed _ found chosen _ leads onward =>
    exact routedWithin closed onward (.action within.here found (List.mem_of_find?_eq_some chosen) leads)
  | @stayed _ action _ _ _ _ _ _ _ _ settling => exact (within.taken action).settled closed settling

theorem startWithin (closed : story.Closed) {out : Output} (ok : (start story context).result = .ok (s, out)) :
    Within story s := by
  obtain ⟨_, routed, _⟩ := startRouted ok
  exact routedWithin closed routed .root

theorem Within.after (closed : story.Closed) (within : Within story s) (event : Event) :
    Within story (Play.after story s event) := by
  rcases afterCases story s event with same | ⟨m, moves, same⟩
  · rw [same]
    exact within
  · rw [same]
    exact within.moved closed moves

theorem reachedWithin (closed : story.Closed) (reached : Reached story context s) : Within story s :=
  reachedKeeps (fun _ _ started => startWithin closed started) (fun _ event within => within.after closed event) reached

theorem Told.bindSame {α β : Type} {x : Told α} {f g : α → Told β} (impartial : x.Impartial)
    (same : ∀ a, x.result = .ok a → f a = g a) : (x >>= f) = (x >>= g) := by
  have heard : ∀ filter, (x >>= f).under filter = (x >>= g).under filter := by
    intro filter
    show (Told.bind x f).under filter = (Told.bind x g).under filter
    unfold Told.bind
    dsimp only
    cases result : (x.under filter).result with
    | error e => rfl
    | ok a => simp only [same a ((impartial.plainly filter).symm.trans result)]
  exact congrArg Told.mk (funext heard)

section
variable (shares : story.Shares other)
include shares

theorem lookUpShared (met : story.Reaches target) : lookUp other target = lookUp story target := by
  unfold lookUp
  rw [shares.entries target met]

theorem hopShared (met : story.Reaches target) (s : State) : hop other s target = hop story s target := by
  unfold hop enter
  rw [lookUpShared shares met]

theorem advanceShared (closed : story.Closed) (met : story.Reaches target) (limit : Nat) (crossed : Crossed) (s : State) :
    advance other limit crossed s target = advance story limit crossed s target := by
  induction limit generalizing crossed s target with
  | zero =>
    rw [advance, advance, hopShared shares met]
  | succ limit ih =>
    rw [advance, advance, hopShared shares met]
    refine Told.bindSame (.hop story s target) fun hopped ok => ?_
    obtain ⟨node, s', next⟩ := hopped
    cases next with
    | none => rfl
    | some next =>
      obtain ⟨found, _, left⟩ := hopCrosses ok
      have onward := ((landedWithin closed met found s).concluded left).2 next rfl
      dsimp only
      rw [ih onward]

theorem followShared (closed : story.Closed) (met : story.Reaches target) (s : State) :
    follow other s target = follow story s target := by
  rw [follow, follow, advanceShared shares closed met]

theorem settleShared (closed : story.Closed) (within : Within story s) (node : StoryNode) :
    settle other node s = settle story node s := by
  refine Told.bindSame (.conclude node s) fun concluded ok => ?_
  obtain ⟨s', next, result, how⟩ := concludeResult node s
  cases result.symm.trans ok
  cases next with
  | none => rfl
  | some next => exact followShared shares closed ((within.concluded how).2 next rfl) s'

theorem revealShared (closed : story.Closed) (within : Within story s) (ticket : Ticket) :
    reveal other s ticket = reveal story s ticket := by
  unfold reveal
  simp only [lookUpShared shares within.here, settleShared shares closed within]

theorem chooseShared (closed : story.Closed) (within : Within story s) (id : ActionId) :
    choose other s id = choose story s id := by
  unfold choose
  rw [lookUpShared shares within.here]
  split
  · refine Told.bindSame (.lookUp story s.nodeId) fun node ok => ?_
    have found := lookUpOk ok
    split
    · rfl
    · rename_i action chosen
      split
      · refine Told.bindSame (.tell _) fun _ _ => Told.bindSame (.applyEffects action.effects s) fun _ applied => ?_
        cases applied
        dsimp only
        split
        · rename_i next leads
          exact followShared shares closed (.action within.here found (List.mem_of_find?_eq_some chosen) leads) _
        · exact settleShared shares closed (within.taken action) node
      · rfl
  · rfl

theorem moveShared (closed : story.Closed) (within : Within story s) (event : Event) :
    move other s event = move story s event := by
  cases event with
  | revealed ticket => exact revealShared shares closed within ticket
  | select id => exact chooseShared shares closed within id

theorem shownShared (within : Within story m.state) : shown other m = shown story m := by
  simp only [shown, describe, revealedText, liveSegment, offers, shares.entries _ within.here]

theorem stepShared (closed : story.Closed) (within : Within story s) (event : Event) :
    step other s event = step story s event := by
  rw [step, step, moveShared shares closed within]
  refine Told.bindSame (.move story s event) fun m ok => ?_
  rw [shownShared shares (within.moved closed (moveMoves ok))]

theorem startShared (closed : story.Closed) (context : Context) : start other context = start story context := by
  unfold start
  rw [shares.root, followShared shares closed .root]
  refine Told.bindSame (.tell _) fun _ _ => ?_
  refine Told.bindSame (.follow story (.start story.rootId context) story.rootId) fun m ok => ?_
  have within : Within story m.state := routedWithin closed (followRouted ok).1 .root
  rw [shownShared shares within]

theorem afterShared (closed : story.Closed) (within : Within story s) (event : Event) :
    after other s event = after story s event := by
  unfold after
  rw [stepShared shares closed within]

theorem answersShared (closed : story.Closed) (within : Within story s) (events : List Event) :
    answers other s events = answers story s events := by
  induction events generalizing s with
  | nil => rw [answers, answers]
  | cons event events ih =>
    rw [answers, answers, stepShared shares closed within, afterShared shares closed within,
      ih (within.after closed event)]

theorem runShared (closed : story.Closed) (within : Within story s) (events : List Event) :
    run other s events = run story s events := by
  induction events generalizing s with
  | nil => rw [run, run, List.foldl_nil, List.foldl_nil]
  | cons event events ih =>
    unfold run at ih ⊢
    rw [List.foldl_cons, List.foldl_cons, afterShared shares closed within]
    exact ih (within.after closed event)

end

theorem unreachedUnseen (valid : story.validate = .ok ()) (shares : story.Shares other) (context : Context) :
    start other context = start story context ∧
    (∀ s, Reached story context s → ∀ event, step other s event = step story s event) ∧
    ∀ first out, (start story context).result = .ok (first, out) → ∀ events,
      answers other first events = answers story first events ∧ run other first events = run story first events := by
  have closed := Story.validateOk.mp valid
  refine ⟨startShared shares closed context, ?_, ?_⟩
  · intro s reached event
    exact stepShared shares closed (reachedWithin closed reached) event
  · intro first out started events
    have within := startWithin closed started
    exact ⟨answersShared shares closed within events, runShared shares closed within events⟩

def hold : StoryNode where
  id := "hold"
  texts := [⟨"Bilge.", 200, 500⟩]
  nextId := some "bow"
  rules := []
  effects := []
  actions := []

def ferryHold : Story := { ferry with nodes := ferry.nodes.insert "hold" hold }

theorem holdUnseen : ferry.validate = .ok () ∧ ferryHold.validate = .ok () ∧ ferry.Shares ferryHold ∧
    start ferryHold .empty = start ferry .empty ∧
    step ferryHold ferryPaid (.select "board") = step ferry ferryPaid (.select "board") ∧
    ∃ first out, (start ferry .empty).result = .ok (first, out) ∧
      answers ferryHold first [.revealed first.ticket, .select "board"] =
        answers ferry first [.revealed first.ticket, .select "board"] := by
  have valid : ferry.validate = .ok () := rfl
  have shares : ferry.Shares ferryHold := Story.insertShares (Story.validateOk.mp valid) rfl _
  obtain ⟨started, answered, runs⟩ := unreachedUnseen valid shares .empty
  exact ⟨valid, rfl, shares, started, answered ferryPaid ferryPaidReached _, _, _, rfl, (runs _ _ rfl _).1⟩

end Play
end Dialogue
