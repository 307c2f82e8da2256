import Dialogue.Play.Session

/-! Filters choose what is heard of a play, and nothing else. Each notice goes through the filter where it is told, in
the middle of a route as well as at its end; but no move looks at the filter, so what comes of it is the same under
every one, and what is heard under one of them is what it lets through of all that is told. -/
namespace Dialogue

namespace NoticeFilter

theorem verbosePasses (n : Notice) : verbose.passes n = true := by
  unfold passes
  cases n.category? with
  | none => rfl
  | some category => cases category <;> cases n.level <;> rfl

theorem passesAllowed (f : NoticeFilter) (n : Notice) :
    f.passes n = n.category?.all fun category => f.allows category n.level := by
  unfold passes
  cases n.category? <;> rfl

theorem verboseHears (notices : List Notice) : notices.filter verbose.passes = notices :=
  List.filter_eq_self.mpr fun n _ => verbosePasses n

end NoticeFilter

namespace Play
variable {α β : Type}

/- The same comes of it under every filter, and what is heard is what the filter lets through of all that is told. -/
structure Told.Impartial (x : Told α) : Prop where
  result : ∀ filter, (x.under filter).result = (x.under .verbose).result
  log : ∀ filter, (x.under filter).log = (x.under .verbose).log.filter filter.passes

namespace Told.Impartial

theorem pure (a : α) : (Pure.pure a : Told α).Impartial := ⟨fun _ => rfl, fun _ => rfl⟩

theorem fail (e : PlayError) : (Told.fail e : Told α).Impartial := ⟨fun _ => rfl, fun _ => rfl⟩

theorem tell (notices : List Notice) : (Told.tell notices).Impartial where
  result := fun _ => rfl
  log := fun filter => by simp [Told.tell, NoticeFilter.verboseHears]

theorem bind {x : Told α} {f : α → Told β} (first : x.Impartial) (rest : ∀ a, (f a).Impartial) :
    (x >>= f).Impartial := by
  have parts : ∀ filter, (x >>= f).under filter = (Told.bind x f).under filter := fun _ => rfl
  constructor
  · intro filter
    simp only [parts, Told.bind, first.result filter]
    cases (x.under .verbose).result with
    | error e => rfl
    | ok a => exact (rest a).result filter
  · intro filter
    simp only [parts, Told.bind, first.result filter, first.log filter]
    cases (x.under .verbose).result with
    | error e => rfl
    | ok a => simp [(rest a).log filter]

variable {story : Story} {s : State}

theorem lookUp (story : Story) (id : NodeId) : (Play.lookUp story id).Impartial := by
  unfold Play.lookUp
  split
  · exact pure _
  · exact fail _

theorem applyEffects (effects : List Effect) (s : State) : (Play.applyEffects effects s).Impartial :=
  (tell _).bind fun _ => pure _

theorem enter (story : Story) (s : State) (target : NodeId) : (Play.enter story s target).Impartial :=
  (lookUp story target).bind fun node => (tell _).bind fun _ =>
    (applyEffects node.effects _).bind fun _ => (tell _).bind fun _ => pure _

theorem conclude (node : StoryNode) (s : State) : (Play.conclude node s).Impartial := by
  unfold Play.conclude
  split
  · split
    · exact pure _
    · exact (tell _).bind fun _ => pure _
  · exact (tell _).bind fun _ => pure _

theorem hop (story : Story) (s : State) (target : NodeId) : (Play.hop story s target).Impartial := by
  refine (enter story s target).bind fun entered => ?_
  dsimp only
  split
  · exact (conclude _ _).bind fun _ => pure _
  · exact pure _

theorem advance (story : Story) (limit : Nat) (crossed : Crossed) (s : State) (target : NodeId) :
    (Play.advance story limit crossed s target).Impartial := by
  induction limit generalizing crossed s target with
  | zero =>
    refine (hop story s target).bind fun hopped => ?_
    dsimp only
    split
    · exact pure _
    · exact fail _
  | succ limit ih =>
    refine (hop story s target).bind fun hopped => ?_
    dsimp only
    split
    · exact pure _
    · split
      · exact fail _
      · exact (ih _ _ _).bind fun _ => pure _

theorem follow (story : Story) (s : State) (target : NodeId) : (Play.follow story s target).Impartial :=
  (advance story crossingLimit [] s target).bind fun _ => pure _

theorem settle (story : Story) (node : StoryNode) (s : State) : (Play.settle story node s).Impartial := by
  refine (conclude node s).bind fun concluded => ?_
  dsimp only
  split
  · exact follow story _ _
  · exact pure _

theorem reveal (story : Story) (s : State) (ticket : Ticket) : (Play.reveal story s ticket).Impartial := by
  unfold Play.reveal
  split
  · exact (tell _).bind fun _ => pure _
  · refine (lookUp story s.nodeId).bind fun node => ?_
    split
    · exact (tell _).bind fun _ => pure _
    · exact settle story node s

theorem choose (story : Story) (s : State) (id : ActionId) : (Play.choose story s id).Impartial := by
  unfold Play.choose
  split
  · refine (lookUp story s.nodeId).bind fun node => ?_
    split
    · exact fail _
    · rename_i action _
      split
      · refine (tell _).bind fun _ => (applyEffects action.effects s).bind fun _ => ?_
        dsimp only
        split
        · exact follow story _ _
        · exact settle story node _
      · exact fail _
  · exact fail _

theorem move (story : Story) (s : State) (event : Event) : (Play.move story s event).Impartial := by
  cases event with
  | revealed ticket => exact reveal story s ticket
  | select id => exact choose story s id

theorem start (story : Story) (context : Context) : (Play.start story context).Impartial :=
  (tell _).bind fun _ => (follow story _ story.rootId).bind fun _ => pure _

theorem step (story : Story) (s : State) (event : Event) : (Play.step story s event).Impartial :=
  (move story s event).bind fun _ => pure _

theorem plainly {x : Told α} (impartial : x.Impartial) (filter : NoticeFilter) : (x.under filter).result = x.result :=
  (impartial.result filter).trans (impartial.result .quiet).symm

end Told.Impartial

namespace Session

def heardBy (s : Session) (filter : NoticeFilter) : Session := { s with filter := filter }

def after (s : Session) (event : Event) : Session :=
  match (s.apply event).result with
  | .ok next => next
  | .error _ => s

def history : Session → List Event → List (Logged Session)
  | _, [] => []
  | s, event :: events => s.apply event :: history (s.after event) events

def played (story : Story) (context : Context) (filter : NoticeFilter) (events : List Event) : List (Logged Session) :=
  let first := begin story context filter
  match first.result with
  | .ok s => first :: s.history events
  | .error _ => [first]

end Session

def Logged.heardBy (x : Logged Session) (filter : NoticeFilter) : Logged Session where
  log := x.log.filter fun n => n.category?.all fun category => filter.allows category n.level
  result := x.result.map (·.heardBy filter)

variable {s : Session} {filter : NoticeFilter}

theorem applyHeardBy (verbose : s.filter = .verbose) (filter : NoticeFilter) (event : Event) :
    (s.heardBy filter).apply event = (s.apply event).heardBy filter := by
  have impartial := Told.Impartial.step s.story s.state event
  simp only [Session.apply, Session.heardBy, Logged.heardBy, verbose, impartial.result filter, impartial.log filter,
    ← NoticeFilter.passesAllowed]
  cases ((step s.story s.state event).under .verbose).result <;> rfl

theorem afterHeardBy (verbose : s.filter = .verbose) (filter : NoticeFilter) (event : Event) :
    (s.heardBy filter).after event = (s.after event).heardBy filter := by
  unfold Session.after
  rw [applyHeardBy verbose, Logged.heardBy]
  cases (s.apply event).result <;> rfl

theorem afterFilter (s : Session) (event : Event) : (s.after event).filter = s.filter := by
  unfold Session.after Session.apply
  dsimp only
  cases ((step s.story s.state event).under s.filter).result <;> rfl

theorem historyHeardBy (verbose : s.filter = .verbose) (filter : NoticeFilter) (events : List Event) :
    (s.heardBy filter).history events = (s.history events).map (·.heardBy filter) := by
  induction events generalizing s with
  | nil => rfl
  | cons event events ih =>
    rw [Session.history, Session.history, List.map_cons, applyHeardBy verbose, afterHeardBy verbose,
      ih ((afterFilter s event).trans verbose)]

theorem beginHeardBy (story : Story) (context : Context) (filter : NoticeFilter) :
    Session.begin story context filter = (Session.begin story context .verbose).heardBy filter := by
  have impartial := Told.Impartial.start story context
  simp only [Session.begin, Logged.heardBy, impartial.result filter, impartial.log filter, ← NoticeFilter.passesAllowed]
  cases ((start story context).under .verbose).result <;> rfl

theorem beginFilter {story : Story} {context : Context} (ok : (Session.begin story context filter).result = .ok s) :
    s.filter = filter := by
  unfold Session.begin at ok
  dsimp only at ok
  cases result : ((start story context).under filter).result with
  | error e => simp [result, Except.map] at ok
  | ok first =>
    rw [result] at ok
    cases ok
    rfl

theorem filterDropsNotices (story : Story) (context : Context) (filter : NoticeFilter) (events : List Event) :
    Session.played story context filter events =
      (Session.played story context .verbose events).map (·.heardBy filter) := by
  unfold Session.played
  dsimp only
  rw [beginHeardBy story context filter]
  cases result : (Session.begin story context .verbose).result with
  | error e => simp [Logged.heardBy, result, Except.map]
  | ok s =>
    have through := historyHeardBy (beginFilter result) filter events
    simp [Logged.heardBy, result, Except.map, through]

end Play
end Dialogue
