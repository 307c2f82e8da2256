import Dialogue.Proofs.Story.Closed
import Dialogue.Proofs.Workshop.Reach

/-! The table of a draft. Every node that can be reached has one entry under its id and every action with text on such
a node has one under its text node's id. The counts in these ids are all different, so no entry is in the way of
another; and whatever an entry refers to can be reached as well, so the table is closed. -/
namespace Dialogue.Draft
variable {d : Draft} {root j k a b : Nat} {shown keys : List Nat} {e : StoryNode}

namespace Numbered

theorem nodeIds (numbered : d.Numbered) (insideJ : j < d.nodes.size) (insideK : k < d.nodes.size)
    (same : (d.node j).id = (d.node k).id) : j = k :=
  numbered.nodesApart j k insideJ insideK (congrArg serial same)

theorem actionIds (numbered : d.Numbered) (insideA : a < d.actions.size) (insideB : b < d.actions.size)
    (same : (d.action a).id = (d.action b).id) : a = b :=
  numbered.actionsApart a b insideA insideB (congrArg serial same)

theorem serialText (numbered : d.Numbered) (inside : a < d.actions.size) :
    serial (StoryAction.textNodeId (d.action a).id) = serial (d.action a).id := by
  obtain ⟨c, _, same⟩ := numbered.actions a inside
  rw [same, textNodeIdNumbered, serialNumbered, serialNumbered]

theorem textIds (numbered : d.Numbered) (insideA : a < d.actions.size) (insideB : b < d.actions.size)
    (same : StoryAction.textNodeId (d.action a).id = StoryAction.textNodeId (d.action b).id) : a = b := by
  refine numbered.actionsApart a b insideA insideB ?_
  rw [← numbered.serialText insideA, ← numbered.serialText insideB, same]

theorem textIdOther (numbered : d.Numbered) (insideA : a < d.actions.size) (insideK : k < d.nodes.size) :
    StoryAction.textNodeId (d.action a).id ≠ (d.node k).id := fun same => by
  refine numbered.apart k a insideK insideA ?_
  rw [← numbered.serialText insideA, same]

end Numbered

def Texted (d : Draft) (a : Nat) : Prop := (d.action a).texts ≠ []

def takeText (d : Draft) (shown new : List Nat) (key : Nat) : List Nat :=
  if (d.action key).texts.isEmpty || key ∈ shown || key ∈ new then new else new ++ [key]

theorem memTakeText {new : List Nat} :
    a ∈ d.takeText shown new k ↔ a ∈ new ∨ a = k ∧ Texted d a ∧ a ∉ shown := by
  unfold takeText
  split
  · rename_i skipped
    simp only [Bool.or_eq_true, List.isEmpty_iff, decide_eq_true_eq] at skipped
    constructor
    · exact .inl
    · rintro (already | ⟨rfl, texted, notShown⟩)
      · exact already
      · rcases skipped with (blank | earlier) | already
        · exact absurd blank texted
        · exact absurd earlier notShown
        · exact already
  · rename_i taken
    simp only [Bool.or_eq_true, List.isEmpty_iff, decide_eq_true_eq, not_or] at taken
    rw [List.mem_append, List.mem_singleton]
    constructor
    · rintro (already | rfl)
      · exact .inl already
      · exact .inr ⟨rfl, taken.1⟩
    · rintro (already | ⟨rfl, _⟩)
      · exact .inl already
      · exact .inr rfl

theorem takeTextNodup {new : List Nat} (once : new.Nodup) : (d.takeText shown new k).Nodup := by
  unfold takeText
  split
  · exact once
  · rename_i taken
    refine List.nodup_append.mpr ⟨once, by simp, fun x among y last same => taken ?_⟩
    cases List.mem_singleton.mp last
    simp [← same, among]

theorem withTextFold (d : Draft) (shown keys : List Nat) : d.withText shown keys = keys.foldl (d.takeText shown) [] :=
  rfl

theorem memWithText : a ∈ d.withText shown keys ↔ a ∈ keys ∧ Texted d a ∧ a ∉ shown := by
  have general : ∀ new, a ∈ keys.foldl (d.takeText shown) new ↔ a ∈ new ∨ a ∈ keys ∧ Texted d a ∧ a ∉ shown := by
    induction keys with
    | nil => simp
    | cons key rest ih =>
      intro new
      rw [List.foldl_cons, ih, memTakeText, List.mem_cons, or_assoc, ← or_and_right]
  rw [withTextFold, general]
  simp

theorem withTextNodup (d : Draft) (shown keys : List Nat) : (d.withText shown keys).Nodup := by
  have general : ∀ new : List Nat, new.Nodup → (keys.foldl (d.takeText shown) new).Nodup := by
    induction keys with
    | nil => exact fun _ once => once
    | cons key rest ih => exact fun new once => ih _ (takeTextNodup once)
  exact general [] .nil

theorem memEntriesOf : e ∈ d.entriesOf shown keys ↔ (∃ k ∈ keys, e = d.nodeOf k) ∨
    ∃ k ∈ keys, ∃ a ∈ (d.node k).actions, Texted d a ∧ a ∉ shown ∧ e = d.textNodeOf a := by
  induction keys generalizing shown with
  | nil => simp [entriesOf]
  | cons key rest ih =>
    simp only [entriesOf, List.mem_append, List.mem_map, List.mem_cons, ih, memWithText]
    constructor
    · rintro (⟨a, ⟨among, texted, fresh⟩, rfl⟩ | rfl | ⟨k, later, rfl⟩ | ⟨k, later, a, among, texted, fresh, rfl⟩)
      · exact .inr ⟨key, .inl rfl, a, among, texted, fresh, rfl⟩
      · exact .inl ⟨key, .inl rfl, rfl⟩
      · exact .inl ⟨k, .inr later, rfl⟩
      · exact .inr ⟨k, .inr later, a, among, texted, fun shown => fresh (.inl shown), rfl⟩
    · rintro (⟨k, rfl | later, rfl⟩ | ⟨k, rfl | later, a, among, texted, fresh, rfl⟩)
      · exact .inr (.inl rfl)
      · exact .inr (.inr (.inl ⟨k, later, rfl⟩))
      · exact .inl ⟨a, ⟨among, texted, fresh⟩, rfl⟩
      -- an action that several nodes have is entered with the first of them
      · by_cases here : a ∈ (d.node key).actions
        · exact .inl ⟨a, ⟨here, texted, fresh⟩, rfl⟩
        · refine .inr (.inr (.inr ⟨k, later, a, among, texted, ?_, rfl⟩))
          rintro (shown | ⟨new, _⟩)
          · exact fresh shown
          · exact here new

theorem entriesApart (numbered : d.Numbered) (bound : d.Bound) (shown : List Nat) (once : keys.Nodup)
    (inside : ∀ k ∈ keys, k < d.nodes.size) : (d.entriesOf shown keys).Pairwise fun x y => x.id ≠ y.id := by
  induction keys generalizing shown with
  | nil => exact .nil
  | cons key rest ih =>
    obtain ⟨here, inside⟩ := List.forall_mem_cons.mp inside
    obtain ⟨notLater, once⟩ := List.nodup_cons.mp once
    have attached : ∀ k, ∀ a ∈ (d.node k).actions, a < d.actions.size := fun k => (bound.nodes k).actions
    have among : ∀ a ∈ d.withText shown (d.node key).actions, a < d.actions.size := fun a mem =>
      attached key a (memWithText.mp mem).1
    have texts : ((d.withText shown (d.node key).actions).map d.textNodeOf).Pairwise fun x y => x.id ≠ y.id := by
      refine List.pairwise_map.mpr ((withTextNodup d shown _).imp_of_mem fun insideA insideB other same => ?_)
      exact other (numbered.textIds (among _ insideA) (among _ insideB) same)
    have others : ∀ e ∈ d.entriesOf (shown ++ d.withText shown (d.node key).actions) rest,
        (d.nodeOf key).id ≠ e.id := by
      intro e mem same
      rcases memEntriesOf.mp mem with ⟨k, later, rfl⟩ | ⟨k, later, a, on, _, _, rfl⟩
      · exact notLater (numbered.nodeIds here (inside k later) same ▸ later)
      · exact numbered.textIdOther (attached k a on) here same.symm
    have tail := List.pairwise_cons.mpr ⟨others, ih _ once inside⟩
    refine List.pairwise_append.mpr ⟨texts, tail, fun x new y mem same => ?_⟩
    obtain ⟨a, taken, rfl⟩ := List.mem_map.mp new
    rcases List.mem_cons.mp mem with rfl | mem
    · exact numbered.textIdOther (among a taken) here same
    · rcases memEntriesOf.mp mem with ⟨k, later, rfl⟩ | ⟨k, later, b, on, _, fresh, rfl⟩
      · exact numbered.textIdOther (among a taken) (inside k later) same
      · -- an action that a later node shares has its text node already
        cases numbered.textIds (among a taken) (attached k b on) same
        exact fresh (List.mem_append_right _ taken)

theorem collectOk (done : Table StoryNode) {entries : List StoryNode} (apart : entries.Pairwise fun x y => x.id ≠ y.id)
    (free : ∀ e ∈ entries, done.contains e.id = false) : ∃ t, (collect done entries).2 = .ok t ∧
      ∀ id e, t.get? id = some e ↔ done.get? id = some e ∨ e ∈ entries ∧ e.id = id := by
  induction entries generalizing done with
  | nil => exact ⟨done, rfl, by simp⟩
  | cons n rest ih =>
    obtain ⟨others, apart⟩ := List.pairwise_cons.mp apart
    obtain ⟨here, free⟩ := List.forall_mem_cons.mp free
    have stillFree : ∀ e ∈ rest, (done.insert n.id n).contains e.id = false := fun e mem => by
      rw [Table.contains, Table.get?_insert_ne (Ne.symm (others e mem))]
      exact free e mem
    obtain ⟨t, ok, holds⟩ := ih _ apart stillFree
    have unfolded : (collect done (n :: rest)).2 = (collect (done.insert n.id n) rest).2 := by
      rw [collect, if_neg (by simp [here])]
    refine ⟨t, unfolded.trans ok, fun id e => (holds id e).trans ?_⟩
    by_cases same : id = n.id
    · subst same
      have absent : done.get? n.id = none := by simpa [Table.contains] using here
      rw [Table.get?_insert_self, absent, List.mem_cons]
      constructor
      · rintro (first | ⟨later, id⟩)
        · cases Option.some.inj first
          exact .inr ⟨.inl rfl, rfl⟩
        · exact .inr ⟨.inr later, id⟩
      · rintro (none | ⟨rfl | later, id⟩)
        · cases none
        · exact .inl rfl
        · exact .inr ⟨later, id⟩
    · rw [Table.get?_insert_ne same, List.mem_cons]
      constructor
      · rintro (earlier | ⟨later, id⟩)
        · exact .inl earlier
        · exact .inr ⟨.inr later, id⟩
      · rintro (earlier | ⟨rfl | later, id⟩)
        · exact .inl earlier
        · exact absurd id.symm same
        · exact .inr ⟨later, id⟩

inductive Entry (d : Draft) (root : Nat) : StoryNode → Prop where
  | node {k : Nat} (reached : Reaches d root k) : Entry d root (d.nodeOf k)
  | text {k a : Nat} (reached : Reaches d root k) (attached : a ∈ (d.node k).actions) (texted : Texted d a) :
      Entry d root (d.textNodeOf a)

theorem memEntries (bound : d.Bound) (inside : root < d.nodes.size) :
    e ∈ d.entriesOf [] (d.reach root) ↔ Entry d root e := by
  rw [memEntriesOf]
  constructor
  · rintro (⟨k, mem, rfl⟩ | ⟨k, mem, a, attached, texted, _, rfl⟩)
    · exact .node ((memReach bound inside).mp mem)
    · exact .text ((memReach bound inside).mp mem) attached texted
  · intro entry
    cases entry with
    | node reached => exact .inl ⟨_, (memReach bound inside).mpr reached, rfl⟩
    | text reached attached texted =>
      exact .inr ⟨_, (memReach bound inside).mpr reached, _, attached, texted, by simp, rfl⟩

theorem reachedApart (made : d.Made) (inside : root < d.nodes.size) :
    (d.entriesOf [] (d.reach root)).Pairwise fun x y => x.id ≠ y.id := by
  have bound := made.bound
  refine entriesApart made.numbered bound [] (reachNodup bound inside) fun k mem => ?_
  exact bound.reaches inside ((memReach bound inside).mp mem)

theorem collected (made : d.Made) (inside : root < d.nodes.size) :
    ∃ t, (collect .empty (d.entriesOf [] (d.reach root))).2 = .ok t ∧
      ∀ id e, t.get? id = some e ↔ Entry d root e ∧ e.id = id := by
  obtain ⟨t, ok, holds⟩ := collectOk .empty (reachedApart made inside) fun _ _ => rfl
  exact ⟨t, ok, fun id e => (holds id e).trans (by simp [memEntries made.bound inside])⟩

theorem tableClosed {t : Table StoryNode} (holds : ∀ id e, t.get? id = some e ↔ Entry d root e ∧ e.id = id) :
    (⟨(d.node root).id, t⟩ : Story).Closed := by
  have entered : ∀ {n}, Entry d root n → t.contains n.id = true := fun entry =>
    Table.contains_iff.mpr ⟨_, (holds _ _).mpr ⟨entry, rfl⟩⟩
  have followed : ∀ {next target}, (∀ k, next = some k → Reaches d root k) → d.idOf next = some target →
      t.contains target = true := fun reached leads => by
    obtain ⟨k, next, rfl⟩ := Option.map_eq_some_iff.mp leads
    exact entered (.node (reached k next))
  refine ⟨entered (.node .root), fun e mem => ?_, fun e mem => ?_⟩
  · exact ((holds _ _).mp (Table.get?_eq_some_iff.mpr mem)).2.symm
  · have entry := ((holds _ _).mp (Table.get?_eq_some_iff.mpr mem)).1
    generalize e.2 = n at entry
    refine (Story.referencesAll (P := fun target => t.contains target = true)).mpr ?_
    cases entry with
    | node reached =>
      refine ⟨fun target => followed fun k next => .successor reached next, fun rule mem => ?_, fun action mem => ?_⟩
      · obtain ⟨r, among, rfl⟩ := List.mem_map.mp mem
        exact entered (.node (.rule reached among))
      · obtain ⟨a, attached, rfl⟩ := List.mem_map.mp mem
        intro target leads
        simp only [actionOf] at leads
        split at leads
        · exact followed (fun k next => .action reached attached next) leads
        · rename_i texted
          cases Option.some.inj leads
          exact entered (.text reached attached fun blank => texted (by simp [blank]))
    | text reached attached texted =>
      exact ⟨fun target => followed fun k next => .action reached attached next, by simp [textNodeOf],
        by simp [textNodeOf]⟩

theorem compileOk (made : d.Made) (inside : root < d.nodes.size) : ∃ story : Story,
    (d.compile root).result = .ok story ∧ story.validate = .ok () ∧ story.rootId = (d.node root).id ∧
      ∀ id e, story.node? id = some e ↔ Entry d root e ∧ e.id = id := by
  obtain ⟨t, ok, holds⟩ := collected made inside
  have valid : (⟨(d.node root).id, t⟩ : Story).validate = .ok () := Story.validateOk.mpr (tableClosed holds)
  refine ⟨_, ?_, valid, rfl, holds⟩
  simp only [compile, ok, valid]

end Dialogue.Draft
