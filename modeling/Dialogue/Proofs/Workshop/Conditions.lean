import Dialogue.Proofs.Story.Saving
import Dialogue.Proofs.Workshop.Compilation
import Dialogue.Proofs.Workshop.Histories
import Dialogue.Proofs.Workshop.Watching

/-! When an action is on offer. Of two checks of one kind for one key the later counts, and the tables of an action
hold the last check of each key. The table action has them as its predicate, and what is saved and loaded is that
action again, as long as the numbers in its checks are read as they were printed. -/
namespace Dialogue

inductive Side where
  | requirement
  | alternative
  deriving DecidableEq, Repr

def Predicate.table (p : Predicate) : Side → Table Check
  | .requirement => p.requirements
  | .alternative => p.alternatives

structure CheckCall where
  side : Side
  key : String
  check : Check
  deriving DecidableEq, Repr

namespace CheckCall

def enter (c : CheckCall) (p : Predicate) : Predicate :=
  match c.side with
  | .requirement => { p with requirements := p.requirements.insert c.key c.check }
  | .alternative => { p with alternatives := p.alternatives.insert c.key c.check }

def write (c : CheckCall) (r : DraftAction) : DraftAction :=
  let p := c.enter r.predicate
  { r with requirements := p.requirements, alternatives := p.alternatives }

def last? (side : Side) (key : String) (calls : List CheckCall) : Option Check :=
  (calls.reverse.find? fun c => c.side = side ∧ c.key = key).map (·.check)

/- Whether calls leave an action on offer: one alternative is enough where there are any, and where there are none every
requirement has to hold. -/
def Admit (calls : List CheckCall) (context : Context) : Prop :=
  if ∃ c ∈ calls, c.side = .alternative then
    ∃ key check, last? .alternative key calls = some check ∧ check.holds key context = true
  else ∀ key check, last? .requirement key calls = some check → check.holds key context = true

variable {c : CheckCall} {calls : List CheckCall} {side : Side} {key : String} {check : Check} {p : Predicate}

theorem tableEnter (c : CheckCall) (p : Predicate) (side : Side) (key : String) : ((c.enter p).table side).get? key =
    if c.side = side ∧ c.key = key then some c.check else (p.table side).get? key := by
  obtain ⟨at_, name, check⟩ := c
  by_cases own : name = key
  · subst own
    cases at_ <;> cases side <;> simp [enter, Predicate.table]
  · cases at_ <;> cases side <;> simp [enter, Predicate.table, own, Table.get?_insert_ne (Ne.symm own)]

theorem lastConcat (side : Side) (key : String) (calls : List CheckCall) (c : CheckCall) :
    last? side key (calls ++ [c]) = if c.side = side ∧ c.key = key then some c.check else last? side key calls := by
  unfold last?
  rw [List.reverse_append, List.reverse_singleton, List.singleton_append, List.find?_cons]
  by_cases own : c.side = side ∧ c.key = key
  · simp [own]
  · simp [own]

theorem lastSome : (∃ key check, last? side key calls = some check) ↔ ∃ c ∈ calls, c.side = side := by
  constructor
  · rintro ⟨key, check, found⟩
    obtain ⟨c, among, _⟩ := Option.map_eq_some_iff.mp found
    have holds := List.find?_some among
    exact ⟨c, List.mem_reverse.mp (List.mem_of_find?_eq_some among), (of_decide_eq_true holds).1⟩
  · rintro ⟨c, among, own⟩
    cases none : last? side c.key calls with
    | some check => exact ⟨c.key, check, none⟩
    | none =>
      have unfound := List.find?_eq_none.mp (Option.map_eq_none_iff.mp none) c (List.mem_reverse.mpr among)
      simp [own] at unfound

@[simp] theorem predicateWrite (c : CheckCall) (r : DraftAction) : (c.write r).predicate = c.enter r.predicate := rfl

@[simp] theorem frozenWrite (c : CheckCall) (r : DraftAction) : (c.write r).frozen = r.frozen := rfl

theorem satisfiedAdmit (entered : ∀ side key, (p.table side).get? key = last? side key calls) (context : Context) :
    p.satisfied context = true ↔ Admit calls context := by
  have held : ∀ side (e : String × Check), e ∈ (p.table side).entries ↔ last? side e.1 calls = some e.2 :=
    fun side e => by rw [← entered side e.1, Table.get?_eq_some_iff]
  have none : p.alternatives.isEmpty = true ↔ ¬ ∃ c ∈ calls, c.side = .alternative := by
    rw [← lastSome, Table.isEmpty, List.isEmpty_iff, List.eq_nil_iff_forall_not_mem]
    simp only [not_exists]
    exact ⟨fun empty key check last => empty _ ((held .alternative (key, check)).mpr last),
      fun never e mem => never e.1 e.2 ((held .alternative e).mp mem)⟩
  unfold Predicate.satisfied Admit
  by_cases any : ∃ c ∈ calls, c.side = .alternative
  · rw [if_pos any, if_neg fun empty => none.mp empty any, List.any_eq_true]
    exact ⟨fun ⟨e, mem, holds⟩ => ⟨e.1, e.2, (held .alternative e).mp mem, holds⟩,
      fun ⟨key, check, last, holds⟩ => ⟨(key, check), (held .alternative (key, check)).mpr last, holds⟩⟩
  · rw [if_neg any, if_pos (none.mpr any), List.all_eq_true]
    exact ⟨fun all key check last => all _ ((held .requirement (key, check)).mpr last),
      fun all e mem => all e.1 e.2 ((held .requirement e).mp mem)⟩

theorem admitOne (key : String) (check : Check) (context : Context) :
    Admit [⟨.requirement, key, check⟩] context ↔ check.holds key context = true := by
  have last : ∀ name, last? .requirement name [⟨.requirement, key, check⟩] = if key = name then some check else none :=
    fun name => (lastConcat .requirement name [] _).trans (by simp [last?])
  rw [Admit, if_neg (by simp)]
  simp only [last, Option.ite_none_right_eq_some, Option.some.injEq]
  exact ⟨fun all => all key check ⟨rfl, rfl⟩, fun holds _ _ own => own.1 ▸ own.2 ▸ holds⟩

end CheckCall

def ActionRequest.checkCall? : ActionRequest → Option CheckCall
  | .require key op value => (Operator.ofToken? op).map fun known => ⟨.requirement, key, ⟨known, value⟩⟩
  | .allow key op value => (Operator.ofToken? op).map fun known => ⟨.alternative, key, ⟨known, value⟩⟩
  | _ => none

namespace Act

def checkCall? (a : ActionRef) : Act → Option CheckCall
  | .ask (.action b what) => if b = a then what.checkCall? else none
  | _ => none

def freezes (a : ActionRef) : Act → Bool
  | .ask (.action b .freeze) => b = a
  | _ => false

theorem givenBy {a : ActionRef} {act : Act} {c : CheckCall} (given : act.checkCall? a = some c) :
    ∃ what, act = .ask (.action a what) ∧ what.checkCall? = some c := by
  unfold checkCall? at given
  split at given
  · split at given
    · rename_i own
      exact ⟨_, own ▸ rfl, given⟩
    · contradiction
  · contradiction

theorem freezesBy {a : ActionRef} {act : Act} (frozen : act.freezes a = true) : act = .ask (.action a .freeze) := by
  unfold freezes at frozen
  split at frozen
  · rw [of_decide_eq_true frozen]
  · contradiction

theorem freezesSilent {a : ActionRef} {act : Act} (frozen : act.freezes a = true) : act.checkCall? a = none := by
  rw [freezesBy frozen]
  simp [checkCall?, ActionRequest.checkCall?]

end Act

namespace ActionRef

/- The calls that give an action a check before it is frozen. Later ones are refused. -/
def heard (a : ActionRef) (acts : List Act) : List CheckCall :=
  (acts.takeWhile fun act => !act.freezes a).filterMap (·.checkCall? a)

variable {w : Workshop} {a : ActionRef} {acts : List Act} {act : Act}

theorem heardConcat (a : ActionRef) (acts : List Act) (act : Act) : a.heard (acts ++ [act]) =
    if acts.any (·.freezes a) then a.heard acts else a.heard acts ++ (act.checkCall? a).toList := by
  unfold heard
  induction acts with
  | nil =>
    cases frozen : act.freezes a with
    | true => simp [frozen, Act.freezesSilent frozen]
    | false => cases given : act.checkCall? a <;> simp [frozen, given]
  | cons first rest ih =>
    cases frozen : first.freezes a with
    | true => simp [frozen]
    | false =>
      simp only [List.cons_append, List.takeWhile_cons, frozen, Bool.not_false, if_true, List.filterMap_cons,
        List.any_cons, Bool.false_or, ih]
      split <;> split <;> rfl

theorem changeAt (here : a.Inside w) (f : DraftAction → DraftAction) :
    Workshop.actionAt ((a.change f).run w).2 a = f (w.actionAt a) := by
  show Draft.action (Workshop.draftAt { w with drafts := w.drafts.modify a.draft _ } a.draft) a.key = _
  rw [Calls.draftAtChanged, if_pos ⟨rfl, here.drafted⟩, Draft.actionChangeAction, if_pos ⟨rfl, here⟩]
  rfl

theorem editAt (here : a.Inside w) (operation : String) (f : DraftAction → DraftAction) :
    Workshop.actionAt ((a.edit operation f).run w).2 a =
      if (w.actionAt a).frozen then w.actionAt a else f (w.actionAt a) := by
  have checked := Checked.actionWritable (w := w) a operation
  unfold Checked Outcome at checked
  rw [edit, runBind]
  generalize (a.writable operation).run w = result at *
  obtain ⟨e | _, w'⟩ := result
  · obtain ⟨rfl, frozen, _⟩ := checked
    exact (if_pos frozen).symm
  · obtain ⟨rfl, unfrozen⟩ := checked
    have kept : ((a.change f >>= fun _ => pure a).run w').2 = ((a.change f).run w').2 := runReturn _ _ _
    refine Eq.trans ?_ (if_neg (by simp [Workshop.actionAt, unfrozen])).symm
    exact (congrArg (·.actionAt a) kept).trans (changeAt here f)

theorem checkAt (here : a.Inside w) {what : ActionRequest} {c : CheckCall} (given : what.checkCall? = some c) :
    Workshop.actionAt ((what.run a).run w).2 a =
      if (w.actionAt a).frozen then w.actionAt a else c.write (w.actionAt a) := by
  cases what with
  | require key op value =>
    obtain ⟨known, told, rfl⟩ := Option.map_eq_some_iff.mp given
    rw [ActionRequest.run, runReturn, require, Authoring.operator, told]
    exact editAt here "and" _
  | allow key op value =>
    obtain ⟨known, told, rfl⟩ := Option.map_eq_some_iff.mp given
    rw [ActionRequest.run, runReturn, allow, Authoring.operator, told]
    exact editAt here "or" _
  | _ => cases given

theorem freezeAt (here : a.Inside w) :
    Workshop.actionAt ((ActionRequest.freeze.run a).run w).2 a = { w.actionAt a with frozen := true } := by
  rw [ActionRequest.run, runReturn]
  exact changeAt here _

end ActionRef

def DraftAction.SameGate (r r' : DraftAction) : Prop := r'.predicate = r.predicate ∧ r'.frozen = r.frozen

instance : IsPreorder DraftAction DraftAction.SameGate where
  refl := fun _ => ⟨rfl, rfl⟩
  trans := fun _ _ _ first second => ⟨second.1.trans first.1, second.2.trans first.2⟩

theorem DraftAction.SameGate.overlooks : Overlooks DraftAction.SameGate where
  fresh := fun _ _ => ⟨rfl, rfl⟩
  parent := fun _ _ => ⟨rfl, rfl⟩

namespace Act
variable {w : Workshop} {a : ActionRef} {act : Act}

theorem gateStill (silent : act.checkCall? a = none) (open_ : act.freezes a = false) :
    (w.actionAt a).SameGate ((act.run w).actionAt a) := by
  refine DraftAction.SameGate.overlooks.act (fun what is => ?_) fun _ _ _ _ => ⟨rfl, rfl⟩
  subst is
  cases what with
  | label | setEffect | addEffect => exact fun _ _ => ⟨rfl, rfl⟩
  | appendText | prependText | replaceText => exact fun _ _ _ => ⟨rfl, rfl⟩
  | require key op value | allow key op value =>
    intro known told
    simp [checkCall?, ActionRequest.checkCall?, told] at silent
  | linkTo | join | joinNamed => exact fun _ _ _ => ⟨rfl, rfl⟩
  | freeze => simp [freezes] at open_

theorem gateStep (live : act.Live w) :
    ((act.run w).actionAt a).frozen = ((w.actionAt a).frozen || act.freezes a) ∧
    ((act.run w).actionAt a).predicate = if (w.actionAt a).frozen then (w.actionAt a).predicate
      else (act.checkCall? a).elim (w.actionAt a).predicate fun c => c.enter (w.actionAt a).predicate := by
  cases given : act.checkCall? a with
  | some c =>
    obtain ⟨what, rfl, told⟩ := givenBy given
    have unfrozen : Act.freezes a (.ask (.action a what)) = false := by
      cases frozen : Act.freezes a (.ask (.action a what)) with
      | false => rfl
      | true => simp [freezesSilent frozen] at given
    rw [run, Request.run, ActionRef.checkAt live.1 told, unfrozen]
    split <;> simp_all
  | none =>
    cases frozen : act.freezes a with
    | false =>
      obtain ⟨predicate, still⟩ := gateStill (w := w) given frozen
      simp [predicate, still]
    | true =>
      obtain rfl := freezesBy frozen
      rw [run, Request.run, ActionRef.freezeAt live.1]
      simp [DraftAction.predicate]

end Act

variable {config : Config} {w : Workshop} {acts : List Act}

theorem startBlank (config : Config) (a : ActionRef) : (Machine.start config).workshop.actionAt a = default := by
  rw [Workshop.actionAt, Draft.actionOutside]
  cases i : a.draft with
  | zero => exact Nat.zero_le _
  | succ i => exact Nat.zero_le _

theorem Workshop.Lived.gate (lived : (Machine.start config).workshop.Lived acts w) (a : ActionRef) :
    (w.actionAt a).frozen = acts.any (·.freezes a) ∧
    ∀ side key, ((w.actionAt a).predicate.table side).get? key = CheckCall.last? side key (a.heard acts) := by
  induction lived with
  | start still =>
    rw [Workshop.actionAt, Workshop.draftAtStill still, ← Workshop.actionAt, startBlank]
    exact ⟨rfl, fun side key => by cases side <;> rfl⟩
  | @next acts act w' w'' _ live does ih =>
    obtain ⟨frozen, entered⟩ := ih
    obtain ⟨freezes, predicate⟩ := Act.gateStep (a := a) live
    rw [Workshop.actionAt, Workshop.draftAtStill does, ← Workshop.actionAt, freezes, predicate, frozen,
      ActionRef.heardConcat]
    refine ⟨by simp, fun side key => ?_⟩
    cases acts.any (·.freezes a) with
    | true => exact entered side key
    | false =>
      cases act.checkCall? a with
      | none => simpa using entered side key
      | some c => simp [CheckCall.tableEnter, CheckCall.lastConcat, entered]

theorem ActionEntry.visible {d : Draft} {a : Nat} {x : StoryAction} (entry : ActionEntry d a x) (context : Context) :
    x.visible context = (d.action a).predicate.satisfied context := by
  unfold StoryAction.visible
  split
  · rename_i p found
    rw [entry.bound p found, DraftAction.predicate]
  · rename_i none
    obtain ⟨requirements, alternatives⟩ := entry.free.mp none
    have empty : (d.action a).requirements.entries = [] := List.isEmpty_iff.mp requirements
    simp [Predicate.satisfied, DraftAction.predicate, alternatives, empty]

def Story.Admits (story : Story) (w : Workshop) (root : NodeRef) (acts : List Act) : Prop :=
  ∀ k, (w.draftAt root.draft).Reaches root.key k → ∃ e, story.node? ((w.draftAt root.draft).node k).id = some e ∧
    List.Forall₂ (fun a x => x.id = ((w.draftAt root.draft).action a).id ∧
      ∀ context, x.visible context = true ↔ CheckCall.Admit (ActionRef.heard ⟨root.draft, a⟩ acts) context)
      ((w.draftAt root.draft).node k).actions e.actions

theorem Workshop.Lived.compiled (lived : (Machine.start config).workshop.Lived acts w) {root : NodeRef}
    (inside : root.Inside w) : ∃ story : Story, ((w.draftAt root.draft).compile root.key).result = .ok story ∧
      story.validate = .ok () ∧ story.Admits w root acts := by
  have sound := lived.sound (Machine.startSound config).drafts
  obtain ⟨story, ok, flat⟩ := Draft.flattened (sound root.draft) inside
  obtain ⟨_, compiled, valid, _⟩ := Draft.compileOk (sound root.draft) inside
  obtain rfl := Except.ok.inj (compiled.symm.trans ok)
  refine ⟨_, ok, valid, fun k reached => ?_⟩
  obtain ⟨e, found, entry⟩ := flat.nodes k reached
  refine ⟨e, found, entry.actions.imp fun a x action => ⟨action.id, fun context => ?_⟩⟩
  rw [action.visible]
  exact CheckCall.satisfiedAdmit (lived.gate ⟨root.draft, a⟩).2 context

theorem conditionsPlayed (config : Config) :
    (∀ meaning depth program, ∃ acts,
      (Machine.start config).workshop.Lived acts (Machine.afterBy meaning depth config program).workshop) ∧
    ∀ acts w, (Machine.start config).workshop.Lived acts w → ∀ root : NodeRef, root.Inside w →
      ∃ story : Story, ((w.draftAt root.draft).compile root.key).result = .ok story ∧ story.Admits w root acts ∧
      (story.Held → story.toJson.nesting ≤ Json.depthLimit → story.Rereads →
        ∃ back, Story.load story.save = .ok back ∧ back.Admits w root acts) := by
  refine ⟨fun meaning depth program => Machine.afterByLives meaning depth config program, ?_⟩
  intro acts w lived root inside
  obtain ⟨story, ok, valid, admits⟩ := lived.compiled inside
  exact ⟨story, ok, admits, fun held deep rereads => ⟨story, Story.loadSaved valid held deep rereads, admits⟩⟩

def tollActs : List Act := [
  .ask (.draft 0 (.newNamed "toll")),
  .ask (.draft 0 (.newAction "Cross")),
  .ask (.action ⟨0, 0⟩ (.require "coins" "gt" (Json.ofNat 1))),
  .ask (.action ⟨0, 0⟩ (.allow "pass" "=" (.bool false))),
  .ask (.node ⟨0, 0⟩ (.attachAction ⟨0, 0⟩)),
  .ask (.action ⟨0, 0⟩ (.allow "pass" "equals" (.bool true))),
  .ask (.action ⟨0, 0⟩ .freeze),
  .ask (.action ⟨0, 0⟩ (.allow "rank" ">" (Json.ofNat 3)))]

def toll : Workshop := tollActs.foldl Act.run (Machine.start {}).workshop

def tollStory : Story where
  rootId := "toll_0001"
  nodes := .ofList [
    ("toll_0001", { id := "toll_0001", texts := [], nextId := none, rules := [], effects := []
                    actions := [⟨"choice_0002", "Cross", some ⟨.ofList [("coins", ⟨.greaterThan, Json.ofNat 1⟩)],
                      .ofList [("pass", ⟨.equals, .bool true⟩)]⟩, [], none⟩] })]

theorem tollLived : (Machine.start {}).workshop.Lived tollActs toll := by
  refine .runs ⟨⟨?_, trivial⟩, ⟨?_, trivial⟩, ⟨?_, trivial⟩, ⟨?_, trivial⟩, ⟨?_, ?_⟩, ⟨?_, trivial⟩, ⟨?_, trivial⟩,
    ⟨?_, trivial⟩, trivial⟩ <;> exact Nat.zero_lt_one

theorem tollSize : (toll.draftAt 0).nodes.size = 1 := by decide +kernel

theorem tollCompiles : ((toll.draftAt 0).compile 0).result = .ok tollStory := by decide +kernel

theorem tollAdmits : (Machine.start {}).workshop.Lived tollActs toll ∧ (⟨0, 0⟩ : NodeRef).Inside toll ∧
    ActionRef.heard ⟨0, 0⟩ tollActs = [⟨.requirement, "coins", ⟨.greaterThan, Json.ofNat 1⟩⟩,
      ⟨.alternative, "pass", ⟨.equals, .bool false⟩⟩, ⟨.alternative, "pass", ⟨.equals, .bool true⟩⟩] ∧
    tollStory.Admits toll ⟨0, 0⟩ tollActs ∧
    ∃ back, Story.load tollStory.save = .ok back ∧ back.Admits toll ⟨0, 0⟩ tollActs := by
  have inside : (⟨0, 0⟩ : NodeRef).Inside toll := Nat.lt_of_lt_of_eq Nat.zero_lt_one tollSize.symm
  obtain ⟨story, ok, admits, saved⟩ := (conditionsPlayed {}).2 tollActs toll tollLived ⟨0, 0⟩ inside
  obtain rfl : tollStory = story := Except.ok.inj (tollCompiles.symm.trans ok)
  have valid : tollStory.validate = .ok () := by decide +kernel
  have loaded : Story.load tollStory.save = .ok tollStory := Story.loadAs valid (by decide +kernel) (by decide +kernel)
  obtain ⟨_, held, deep⟩ := Story.loadedTaken loaded
  exact ⟨tollLived, inside, by decide +kernel, admits, saved held deep (by decide +kernel)⟩

def dial : Float := 6.497447842833619e-60

def safeActs : List Act := [
  .ask (.draft 0 (.newNamed "safe")),
  .ask (.draft 0 (.newAction "Open")),
  .ask (.action ⟨0, 0⟩ (.require "dial" "eq" (.number (.double dial)))),
  .ask (.node ⟨0, 0⟩ (.attachAction ⟨0, 0⟩))]

def safe : Workshop := safeActs.foldl Act.run (Machine.start {}).workshop

def safeNode (x : Float) : StoryNode :=
  { id := "safe_0001", texts := [], nextId := none, rules := [], effects := []
    actions := [⟨"choice_0002", "Open", some ⟨.ofList [("dial", ⟨.equals, .number (.double x)⟩)], .empty⟩, [], none⟩] }

def safeStory (x : Float) : Story := ⟨"safe_0001", .ofList [("safe_0001", safeNode x)]⟩

theorem safeLived : (Machine.start {}).workshop.Lived safeActs safe := by
  refine .runs ⟨⟨?_, trivial⟩, ⟨?_, trivial⟩, ⟨?_, trivial⟩, ⟨?_, ?_⟩, trivial⟩ <;> exact Nat.zero_lt_one

theorem safeCompiles : ((safe.draftAt 0).compile 0).result = .ok (safeStory dial) := by decide +kernel

theorem safeJams : ¬ ∀ config acts w, (Machine.start config).workshop.Lived acts w → ∀ root : NodeRef, root.Inside w →
    ∃ story : Story, ((w.draftAt root.draft).compile root.key).result = .ok story ∧ story.Admits w root acts ∧
    (story.Held → story.toJson.nesting ≤ Json.depthLimit →
      ∃ back, Story.load story.save = .ok back ∧ back.Admits w root acts) := by
  intro claim
  obtain ⟨story, ok, _, saved⟩ := claim {} safeActs safe safeLived ⟨0, 0⟩ Nat.zero_lt_one
  obtain rfl : safeStory dial = story := Except.ok.inj (safeCompiles.symm.trans ok)
  -- the text of another story is loaded as this one, so this one has only values that are taken
  have given : Story.load (safeStory 6.497447842833618e-60).save = .ok (safeStory dial) :=
    Story.loadAs rfl (by decide +kernel) (by decide +kernel)
  have jammed : Story.load (safeStory dial).save = .ok (safeStory 6.49744784283362e-60) :=
    Story.loadAs rfl (by decide +kernel) (by decide +kernel)
  obtain ⟨_, held, deep⟩ := Story.loadedTaken given
  obtain ⟨back, loaded, admits⟩ := saved held deep
  obtain rfl : safeStory 6.49744784283362e-60 = back := Except.ok.inj (jammed.symm.trans loaded)
  obtain ⟨e, found, actions⟩ := admits 0 .root
  obtain rfl : safeNode 6.49744784283362e-60 = e := Option.some.inj found
  cases actions with
  | cons first _ =>
    have heard : ActionRef.heard ⟨0, 0⟩ safeActs = [⟨.requirement, "dial", ⟨.equals, .number (.double dial)⟩⟩] := by
      decide +kernel
    have dialled := first.2 (.ofList [("dial", .number (.double dial))])
    rw [heard, CheckCall.admitOne] at dialled
    exact absurd (dialled.mpr (by decide +kernel)) (by decide +kernel)

end Dialogue
