import Dialogue.Proofs.Workshop.Rewiring

/-! What is asked of a node. A call to link it asks for a successor or for a rule, and names a node or a script that
is to find one. A link to a node acts at once: the rule stands behind the others, the successor takes the place of the
one before. A link with a script waits, behind those that wait already. -/
namespace Dialogue

inductive Wish where
  | lead (target : Nat ⊕ Script)
  | branch (condition : Condition) (target : Nat ⊕ Script)

namespace Wish

def rule? : Wish → Option DraftRule
  | .branch condition (.inl target) => some ⟨condition, target⟩
  | _ => none

def lead? : Wish → Option Nat
  | .lead (.inl target) => some target
  | _ => none

def deferred? (key : Nat) : Wish → Option Deferred
  | .lead (.inr script) => some (.successor key script)
  | .branch condition (.inr script) => some (.branch key condition script)
  | _ => none

def condition? : Wish → Option Condition
  | .lead _ => none
  | .branch condition _ => some condition

end Wish

def Link.aim? (w : Workshop) (i : Nat) : Link → Option (Nat ⊕ Script)
  | .deferred script => some (.inr script)
  | link => (link.finds w i).map fun target => .inl target.key

namespace Draft

def linksOf (key : Nat) (links : List Deferred) : List Deferred := links.filter fun link => link.node? == some key

def waitingOn (d : Draft) (key : Nat) : List Deferred := linksOf key d.pending

structure Leaves (key : Nat) (d d' : Draft) : Prop where
  frozen : (d'.node key).frozen = (d.node key).frozen
  next : (d'.node key).next = (d.node key).next
  rules : (d'.node key).rules = (d.node key).rules
  waits : d'.waitingOn key = d.waitingOn key

end Draft

/- Calls on a node that all succeed, with what each asks for. Between them anything may be authored that leaves the node
with its links as it is. -/
inductive NodeRef.Linked (n : NodeRef) (w : Workshop) : List Wish → Workshop → Prop where
  | start : Linked n w [] w
  | linkTo {wishes : List Wish} {w₁ w₂ : Workshop} {link : Link} {aim : Nat ⊕ Script} {k : NodeRef}
      (before : Linked n w wishes w₁) (there : Calls.Inside w₁ link) (aims : link.aim? w₁ n.draft = some aim)
      (ok : (n.linkTo link).run w₁ = (.ok k, w₂)) : Linked n w (wishes ++ [.lead aim]) w₂
  | branchOn {wishes : List Wish} {w₁ w₂ : Workshop} {key op : String} {value : Json} {operator : Operator} {link : Link}
      {aim : Nat ⊕ Script} {k : NodeRef} (before : Linked n w wishes w₁) (there : Calls.Inside w₁ link)
      (aims : link.aim? w₁ n.draft = some aim) (known : Operator.ofToken? op = some operator)
      (ok : (n.branchOn key op value link).run w₁ = (.ok k, w₂)) :
      Linked n w (wishes ++ [.branch ⟨key, ⟨operator, value⟩⟩ aim]) w₂
  | between {wishes : List Wish} {w₁ : Workshop} {r : Request} (before : Linked n w wishes w₁) (live : r.Live w₁)
      (leaves : (w₁.draftAt n.draft).Leaves n.key ((r.run.run w₁).2.draftAt n.draft)) : Linked n w wishes (r.run.run w₁).2

variable {w w' : Workshop} {n target : NodeRef}

namespace Draft
variable {d d₀ d' : Draft} {free : Prop} {key : Nat} {rules : List DraftRule} {leads : List Nat} {led ruled : Nat → Prop}
  {wishes : List Wish}

def ComesTo (d : Draft) (leads : List Nat) (before after : Option Nat) : Prop :=
  leads = [] ∧ after = before ∨ ∃ target k, leads.getLast? = some target ∧ after = some k ∧ d.Stands target k

theorem ComesTo.later {before after : Option Nat} (comes : d.ComesTo leads before after) (retains : d.Retains d') :
    d'.ComesTo leads before after := by
  obtain ⟨none, same⟩ | ⟨target, k, last, leads, stands⟩ := comes
  · exact .inl ⟨none, same⟩
  · exact .inr ⟨target, k, last, leads, stands.later retains⟩

/- A node with the rules and the successors that it has been given since. Its successor is accounted for as long as links
are all that may give it one. -/
structure Tracked (free : Prop) (d₀ : Draft) (key : Nat) (rules : List DraftRule) (leads : List Nat) (d : Draft) :
    Prop where
  here : key < d.nodes.size
  unfrozen : (d.node key).frozen = false
  rules : (d.node key).rules = (d₀.node key).rules ++ rules
  next : free → d.ComesTo leads (d₀.node key).next (d.node key).next

namespace Tracked

theorem start (here : key < d.nodes.size) (unfrozen : (d.node key).frozen = false) : Tracked free d key [] [] d where
  here := here
  unfrozen := unfrozen
  rules := (List.append_nil _).symm
  next := fun _ => .inl ⟨rfl, rfl⟩

theorem left (tracked : Tracked free d₀ key rules leads d) (retains : d.Retains d') (leaves : d.Leaves key d') :
    Tracked free d₀ key rules leads d' where
  here := Nat.lt_of_lt_of_le tracked.here retains.grows
  unfrozen := leaves.frozen.trans tracked.unfrozen
  rules := leaves.rules.trans tracked.rules
  next := fun isFree => leaves.next ▸ (tracked.next isFree).later retains

theorem still (tracked : Tracked free d₀ key rules leads d) (rewires : d.Rewires led ruled d') (unled : free → ¬ led key)
    (unruled : ¬ ruled key) : Tracked free d₀ key rules leads d' where
  here := Nat.lt_of_lt_of_le tracked.here rewires.grows
  unfrozen := (rewires.frozen key tracked.here).trans tracked.unfrozen
  rules := (rewires.rules key tracked.here unruled).trans tracked.rules
  next := fun isFree => rewires.next key tracked.here (unled isFree) ▸ (tracked.next isFree).later rewires.retains

theorem unled (tracked : Tracked free d₀ key rules leads d) (rewires : d.Rewires (fun _ => False) (fun _ => False) d') :
    Tracked free d₀ key rules leads d' :=
  tracked.still rewires (fun _ => id) id

theorem ofExtends (tracked : Tracked free d₀ key rules leads d) (more : d.Extends d') :
    Tracked free d₀ key rules leads d' :=
  tracked.unled (.ofExtends more)

theorem sameNodes (tracked : Tracked free d₀ key rules leads d) (nodes : d'.nodes = d.nodes) :
    Tracked free d₀ key rules leads d' :=
  tracked.unled (.sameNodes nodes)

theorem lead (tracked : Tracked free d₀ key rules leads d) (rewires : d.Rewires led ruled d') (unruled : ¬ ruled key)
    {target k : Nat} (next : (d'.node key).next = some k) (stands : d'.Stands target k) :
    Tracked free d₀ key rules (leads ++ [target]) d' where
  here := Nat.lt_of_lt_of_le tracked.here rewires.grows
  unfrozen := (rewires.frozen key tracked.here).trans tracked.unfrozen
  rules := (rewires.rules key tracked.here unruled).trans tracked.rules
  next := fun _ => .inr ⟨target, k, by simp, next, stands⟩

theorem rule (tracked : Tracked free d₀ key rules leads d) (rule : DraftRule) : Tracked free d₀ key (rules ++ [rule]) leads
    (d.changeNode key fun r => { r with rules := r.rules ++ [rule] }) := by
  have rewires : d.Rewires (fun _ => False) (fun _ => True)
      (d.changeNode key fun r => { r with rules := r.rules ++ [rule] }) :=
    .changeNode (fun _ => rfl) (fun _ => rfl) (fun _ _ => rfl) fun apart => absurd trivial apart
  have only := nodeChangeNode d key key fun r => { r with rules := r.rules ++ [rule] }
  rw [if_pos ⟨rfl, tracked.here⟩] at only
  refine ⟨Nat.lt_of_lt_of_le tracked.here rewires.grows, (rewires.frozen key tracked.here).trans tracked.unfrozen, ?_, ?_⟩
  · rw [only, ← List.append_assoc, ← tracked.rules]
  · exact fun isFree => rewires.next key tracked.here id ▸ (tracked.next isFree).later rewires.retains

end Tracked

structure Heeds (free : Prop) (d₀ : Draft) (key : Nat) (wishes : List Wish) (d : Draft) : Prop where
  tracked : Tracked free d₀ key (wishes.filterMap Wish.rule?) (wishes.filterMap Wish.lead?) d
  waits : d.waitingOn key = d₀.waitingOn key ++ wishes.filterMap (Wish.deferred? key)

namespace Heeds

theorem lead (heeds : Heeds free d₀ key wishes d) (rewires : d.Rewires led ruled d') (unruled : ¬ ruled key)
    (waits : d'.waitingOn key = d.waitingOn key) {target k : Nat} (next : (d'.node key).next = some k)
    (stands : d'.Stands target k) : Heeds free d₀ key (wishes ++ [.lead (.inl target)]) d' where
  tracked := by simpa [List.filterMap_cons, Wish.rule?, Wish.lead?] using heeds.tracked.lead rewires unruled next stands
  waits := by simpa [List.filterMap_cons, Wish.deferred?] using waits.trans heeds.waits

theorem rule (heeds : Heeds free d₀ key wishes d) (condition : Condition) (target : Nat) :
    Heeds free d₀ key (wishes ++ [.branch condition (.inl target)])
      (d.changeNode key fun r => { r with rules := r.rules ++ [⟨condition, target⟩] }) where
  tracked := by simpa [List.filterMap_cons, Wish.rule?, Wish.lead?] using heeds.tracked.rule ⟨condition, target⟩
  waits := by
    have same : (d.changeNode key fun r => { r with rules := r.rules ++ [⟨condition, target⟩] }).waitingOn key =
      d.waitingOn key := rfl
    simpa [List.filterMap_cons, Wish.deferred?] using same.trans heeds.waits

theorem waiting (heeds : Heeds free d₀ key wishes d) {wish : Wish} {link : Deferred}
    (later : wish.deferred? key = some link) (on : link.node? = some key) (ruled : wish.rule? = none) (led : wish.lead? = none) :
    Heeds free d₀ key (wishes ++ [wish]) { d with pending := d.pending ++ [link] } where
  tracked := by
    have still : Tracked free d₀ key _ _ { d with pending := d.pending ++ [link] } := heeds.tracked.sameNodes rfl
    simpa [ruled, led] using still
  waits := by
    have waits := heeds.waits
    simp only [waitingOn, linksOf] at waits ⊢
    simp [waits, later, on]

end Heeds

theorem waitingOnCloneChain {start k : Nat} (inside : ∀ k ∈ (d.successors start).nodes, k < d.nodes.size)
    (old : k < d.nodes.size) : (d.cloneChain start).1.waitingOn k = d.waitingOn k := by
  rw [waitingOn, linksOf, pendingCloneChain inside, List.filter_append, waitingOn, linksOf]
  refine List.append_right_eq_self.mpr (List.filter_eq_nil_iff.mpr fun link mem => ?_)
  split at mem
  · cases mem
  · obtain ⟨c, among, taken⟩ := List.mem_flatMap.mp mem
    obtain ⟨original, waits, rfl⟩ := List.mem_map.mp taken
    have new := (List.mem_range'_1.mp (List.of_mem_zip among).2).1
    have on : original.node? = some c.1 := by simpa using (List.mem_filter.mp waits).2
    rw [original.retargetNode, on]
    simp only [Option.map_some, beq_iff_eq, Option.some.injEq]
    omega

end Draft

theorem Workshop.Links.waitingOn {key k : Nat} (links : w.Links n target key w') (sound : w.Sound)
    (there : target.Inside w) (own : target.draft = n.draft) (old : k < (w.draftAt n.draft).nodes.size) :
    (w'.draftAt n.draft).waitingOn k = (w.draftAt n.draft).waitingOn k := by
  obtain ⟨j, start⟩ := target
  obtain rfl : j = n.draft := own
  have same : ∀ (d : Draft) (key target : Nat), (d.linked key target).waitingOn k = d.waitingOn k := fun _ _ _ => rfl
  obtain ⟨_, rfl, linked⟩ | ⟨_, rfl, linked⟩ := links
  · rw [linked, same]
  · rw [linked, same]
    exact Draft.waitingOnCloneChain ((sound n.draft).bound.successors there).nodes old

abbrev Heeding (free : Prop) (d₀ : Draft) (n : NodeRef) (wishes : List Wish) (w : Workshop) {α : Type}
    (call : Authoring α) : Prop :=
  Outcome w call (fun _ w' => Draft.Heeds free d₀ n.key wishes (w'.draftAt n.draft)) fun _ _ => True

namespace Heeding
variable {free : Prop} {d₀ : Draft} {wishes : List Wish} {link : Link} {aim : Nat ⊕ Script}

theorem setNext (sound : w.Sound) (there : target.Inside w)
    (heeds : Draft.Heeds free d₀ n.key wishes (w.draftAt n.draft)) :
    Heeding free d₀ n (wishes ++ [.lead (.inl target.key)]) w (n.setNext target) := by
  have here : n.Inside w := heeds.tracked.here
  refine (Tending.setNextLinks here there).weaken (fun k w' ⟨own, links⟩ => ?_) fun _ _ => id
  obtain ⟨rewires, next, stands⟩ : (w.draftAt n.draft).Rewires (· = n.key) (fun _ => False) (w'.draftAt n.draft) ∧ _ ∧ _ :=
    links.rewires sound here there own rfl
  exact heeds.lead rewires id (links.waitingOn sound there own here) next stands

theorem pushRule (heeds : Draft.Heeds free d₀ n.key wishes (w.draftAt n.draft)) (condition : Condition)
    (target : NodeRef) : Heeding free d₀ n (wishes ++ [.branch condition (.inl target.key)]) w (n.pushRule condition target) := by
  have here : n.Inside w := heeds.tracked.here
  refine (Rewiring.pushRule ⟨rfl, here⟩ condition).weaken (fun _ w' changed => ?_) fun _ _ => id
  exact changed ▸ heeds.rule condition target.key

theorem defer (heeds : Draft.Heeds free d₀ n.key wishes (w.draftAt n.draft)) {wish : Wish} {link : Deferred}
    (later : wish.deferred? n.key = some link) (on : link.node? = some n.key) (ruled : wish.rule? = none)
    (led : wish.lead? = none) : Heeding free d₀ n (wishes ++ [wish]) w (Authoring.defer n.draft link) := by
  have here : n.Inside w := heeds.tracked.here
  refine (Checked.defers here.drafted link).weaken (fun _ w' changed => ?_) fun _ _ => id
  exact changed.here ▸ heeds.waiting later on ruled led

theorem writable {α : Type} {rest : NodeRef → Authoring α} {wishes' : List Wish} (operation : String)
    (heeds : Draft.Heeds free d₀ n.key wishes (w.draftAt n.draft)) (then_ : Heeding free d₀ n wishes' w (rest n)) :
    Heeding free d₀ n wishes' w (n.writable operation >>= rest) := by
  have here : n.Inside w := heeds.tracked.here
  refine Outcome.bind ((Checked.writable here operation).weaken (fun _ _ => id) fun _ _ _ => trivial) fun k w₁ opened => ?_
  cases opened with
  | itself => exact then_
  | copy frozen => cases frozen.symm.trans heeds.tracked.unfrozen

theorem linkTo (sound : w.Sound) (there : Calls.Inside w link) (aims : link.aim? w n.draft = some aim)
    (heeds : Draft.Heeds free d₀ n.key wishes (w.draftAt n.draft)) :
    Heeding free d₀ n (wishes ++ [.lead aim]) w (n.linkTo link) := by
  unfold NodeRef.linkTo
  refine Checked.after (Checked.linkOfDraft link n.draft) fun _ _ => ?_
  refine writable "link_to" heeds ?_
  cases link with
  | deferred script =>
    obtain rfl := Option.some.inj aims
    exact (defer heeds rfl rfl rfl rfl).bind fun _ _ done => .pure done
  | node target =>
    obtain rfl := Option.some.inj aims
    exact (setNext sound (there target rfl) heeds).bind fun _ _ done => .pure done
  | named name =>
    refine Checked.after (Checked.lookUp name) ?_
    rintro ⟨i, key⟩ ⟨rfl, known⟩
    obtain rfl : .inl key = aim := by simpa [Link.aim?, Link.finds, known] using aims
    have inside : (⟨n.draft, key⟩ : NodeRef).Inside w := (sound n.draft).bound.names name key known
    exact (setNext sound inside heeds).bind fun _ _ done => .pure done

theorem branchOn (aims : link.aim? w n.draft = some aim) {key op : String} {value : Json}
    {operator : Operator} (known : Operator.ofToken? op = some operator)
    (heeds : Draft.Heeds free d₀ n.key wishes (w.draftAt n.draft)) :
    Heeding free d₀ n (wishes ++ [.branch ⟨key, ⟨operator, value⟩⟩ aim]) w (n.branchOn key op value link) := by
  unfold NodeRef.branchOn
  refine Checked.after (Checked.operator op) fun _ same => ?_
  cases known.symm.trans same
  refine Checked.after (Checked.linkOfDraft link n.draft) fun _ _ => ?_
  refine writable "branch_on" heeds ?_
  cases link with
  | deferred script =>
    obtain rfl := Option.some.inj aims
    exact (defer heeds rfl rfl rfl rfl).bind fun _ _ done => .pure done
  | node target =>
    obtain rfl := Option.some.inj aims
    exact (pushRule heeds _ target).bind fun _ _ done => .pure done
  | named name =>
    refine Checked.after (Checked.lookUp name) ?_
    rintro ⟨i, key⟩ ⟨rfl, found⟩
    obtain rfl : .inl key = aim := by simpa [Link.aim?, Link.finds, found] using aims
    exact (pushRule heeds _ ⟨n.draft, key⟩).bind fun _ _ done => .pure done

end Heeding

theorem Request.nodeRan {what : NodeRequest} {k : NodeRef} (ok : (what.run n).run w = (.ok k, w')) :
    ((Request.node n what).run.run w).2 = w' := by
  unfold Request.run
  dsimp only
  rw [runBind, ok]
  rfl

theorem NodeRef.Linked.heeds {free : Prop} {wishes : List Wish} (linked : n.Linked w wishes w') (sound : w.Sound)
    (here : n.Inside w) (opened : n.Open w) : w.Authored (fun _ _ => True) w' ∧
      Draft.Heeds free (w.draftAt n.draft) n.key wishes (w'.draftAt n.draft) := by
  have requested : ∀ (what : NodeRequest) {w₁ w₂ : Workshop} {k : NodeRef}, w.Authored (fun _ _ => True) w₁ →
      n.Inside w₁ → what.Live w₁ → (what.run n).run w₁ = (.ok k, w₂) → w.Authored (fun _ _ => True) w₂ :=
    fun _ _ _ _ before here live ok => Request.nodeRan ok ▸ before.next ⟨here, live⟩ trivial
  induction linked with
  | start => exact ⟨.start, .start here opened, (List.append_nil _).symm⟩
  | linkTo _ there aims ok ih =>
    obtain ⟨authored, heeds⟩ := ih
    exact ⟨requested (.linkTo _) authored heeds.tracked.here there ok,
      (Heeding.linkTo (authored.sound sound) there aims heeds).ran ok⟩
  | branchOn _ there aims known ok ih =>
    obtain ⟨authored, heeds⟩ := ih
    exact ⟨requested (.branchOn _ _ _ _) authored heeds.tracked.here there ok,
      (Heeding.branchOn aims known heeds).ran ok⟩
  | between _ live leaves ih =>
    obtain ⟨authored, heeds⟩ := ih
    have step := (Calls.request (authored.sound sound) live).kept
    have retains := Draft.Retains.ofEdits (step.editsAt n.draft)
    exact ⟨authored.next live trivial, heeds.tracked.left retains leaves, leaves.waits.trans heeds.waits⟩

end Dialogue
