import Dialogue.Proofs.Workshop.Histories

/-! The list of clones against the templates that nodes keep. No change adds to one without the other. The question is
put with the bare number of a node: a handle of another draft stands for the node of the same number. -/
namespace Dialogue

namespace Draft
variable {d d' : Draft} {key : Nat}

def Listed (d : Draft) : Prop :=
  d.clones = (List.range d.nodes.size).filterMap fun k => (d.node k).template.map fun source => (source, k)

namespace Listed

theorem fresh (config : Config) : Listed { config := config } := rfl

theorem same (listed : d.Listed) (clones : d'.clones = d.clones) (nodes : d'.nodes.size = d.nodes.size)
    (templates : ∀ k, (d'.node k).template = (d.node k).template) : d'.Listed := by
  unfold Listed
  rw [clones, listed, nodes]
  simp only [templates]

theorem changeNode (listed : d.Listed) {f : DraftNode → DraftNode} (keeps : ∀ n, (f n).template = n.template) :
    (d.changeNode key f).Listed := by
  refine listed.same rfl (nodesChangeNode d key f) fun k => ?_
  rw [nodeChangeNode]
  split
  · exact keeps _
  · rfl

theorem oneMore (listed : d.Listed) (nodes : d'.nodes.size = d.nodes.size + 1)
    (old : ∀ k, k ≠ d.nodes.size → d'.node k = d.node k)
    (clones : d'.clones = d.clones ++
      ((d'.node d.nodes.size).template.map fun source => (source, d.nodes.size)).toList) : d'.Listed := by
  have before : (List.range d.nodes.size).filterMap (fun k => (d'.node k).template.map fun source => (source, k)) =
      (List.range d.nodes.size).filterMap fun k => (d.node k).template.map fun source => (source, k) :=
    List.filterMap_congr fun k mem => by rw [old k (Nat.ne_of_lt (List.mem_range.mp mem))]
  unfold Listed
  rw [clones, listed, nodes, List.range_succ, List.filterMap_append, before, List.filterMap_cons]
  cases (d'.node d.nodes.size).template <;> rfl

end Listed

theorem Edit.listed (edit : Edit d d') (listed : d.Listed) : d'.Listed := by
  cases edit with
  | node name =>
    refine listed.oneMore (nodesAddNode d name) (fun k other => by rw [nodeAddNode, if_neg other]) ?_
    rw [nodeAddNode, if_pos rfl]
    exact (List.append_nil _).symm
  | @copy source before =>
    refine listed.oneMore (nodesCloneNode d source before) (fun k other => by rw [nodeCloneNode, if_neg other]) ?_
    rw [nodeCloneNode, if_pos rfl]
    rfl
  | content only => exact listed.changeNode fun n => by rw [only n]
  | rule | attach | next | prev | freeze => exact listed.changeNode fun _ => rfl
  | register name =>
    unfold Draft.register
    split
    · exact listed
    · exact listed.same rfl rfl fun _ => rfl
  | action | detail | lead | parent | lock | defer | take | release => exact listed.same rfl rfl fun _ => rfl

theorem Made.listed (made : d.Made) : d.Listed := by
  obtain ⟨config, edits⟩ := made
  exact edits.keep (fun _ _ => Edit.listed) (.fresh config)

theorem Listed.clonesOf (listed : d.Listed) (key : Nat) :
    d.clonesOf key = (List.range d.nodes.size).filter fun k => (d.node k).template = some key := by
  rw [Draft.clonesOf, listed]
  induction List.range d.nodes.size with
  | nil => rfl
  | cons k rest ih =>
    cases template : (d.node k).template with
    | none => simpa [template] using ih
    | some source =>
      by_cases same : source = key
      · simpa [template, same] using ih
      · simpa [template, same] using ih

end Draft

namespace Workshop
variable {w : Workshop} {config : Config} {acts : List Act}

def nodesOf (w : Workshop) (i : Nat) : List NodeRef := (List.range (w.draftAt i).nodes.size).map fun k => ⟨i, k⟩

def templateOf (w : Workshop) (c : NodeRef) : Option NodeRef :=
  ((w.draftAt c.draft).node c.key).template.map fun k => ⟨c.draft, k⟩

theorem Sound.clonesOf (sound : w.Sound) (i : Nat) (n : NodeRef) : (Workshop.clonesOf i n).run w =
    (.ok ((w.nodesOf i).filter fun c => w.templateOf c = some ⟨i, n.key⟩), w) := by
  have ran : (Workshop.clonesOf i n).run w = (.ok (((w.draftAt i).clonesOf n.key).map fun k => ⟨i, k⟩), w) := rfl
  have same : ∀ k, (w.templateOf ⟨i, k⟩ = some ⟨i, n.key⟩) ↔ ((w.draftAt i).node k).template = some n.key := by
    intro k
    simp [templateOf]
  rw [ran, (sound i).listed.clonesOf, nodesOf, List.filter_map]
  simp only [Function.comp_def, same]

theorem clonesListed (config : Config) :
    (∀ meaning depth program, ∃ acts,
      (Machine.start config).workshop.Lived acts (Machine.afterBy meaning depth config program).workshop) ∧
    ∀ acts w, (Machine.start config).workshop.Lived acts w → ∀ i n, (Workshop.clonesOf i n).run w =
      (.ok ((w.nodesOf i).filter fun c => w.templateOf c = some ⟨i, n.key⟩), w) :=
  ⟨fun meaning depth program => Machine.afterByLives meaning depth config program,
    fun _ _ lived => (lived.sound (Machine.startSound config).drafts).clonesOf⟩

def millActs : List Act := [
  .ask (.draft 0 (.newNamed "mill")),
  .ask (.node ⟨0, 0⟩ .clone),
  .begin {},
  .ask (.draft 1 (.newNamed "well"))]

def mill : Workshop := millActs.foldl Act.run (Machine.start {}).workshop

theorem millLived : (Machine.start {}).workshop.Lived millActs mill :=
  .runs ⟨⟨Nat.zero_lt_one, trivial⟩, ⟨Nat.zero_lt_one, trivial⟩, trivial, ⟨Nat.one_lt_two, trivial⟩, trivial⟩

theorem millListed : (Machine.start {}).workshop.Lived millActs mill ∧
    mill.nodesOf 0 = [⟨0, 0⟩, ⟨0, 1⟩] ∧ mill.templateOf ⟨0, 1⟩ = some ⟨0, 0⟩ ∧
    (Workshop.clonesOf 0 ⟨0, 0⟩).run mill = (.ok [⟨0, 1⟩], mill) ∧
    (Workshop.clonesOf 0 ⟨1, 0⟩).run mill = (.ok [⟨0, 1⟩], mill) := by
  have listed := (clonesListed {}).2 millActs mill millLived 0
  refine ⟨millLived, rfl, rfl, (listed ⟨0, 0⟩).trans rfl, (listed ⟨1, 0⟩).trans rfl⟩

theorem wellListsMill : ¬ ∀ config acts w, (Machine.start config).workshop.Lived acts w → ∀ i n, n.Inside w →
    (Workshop.clonesOf i n).run w = (.ok ((w.nodesOf i).filter fun c => w.templateOf c = some n), w) := by
  intro claim
  have well : (⟨1, 0⟩ : NodeRef).Inside mill := by
    show 0 < (mill.draftAt 1).nodes.size
    decide
  have given : ((Workshop.clonesOf 0 ⟨1, 0⟩).run mill).1 = .ok [⟨0, 1⟩] := rfl
  have none := congrArg Prod.fst (claim {} millActs mill millLived 0 ⟨1, 0⟩ well)
  cases given.symm.trans none

end Workshop
end Dialogue
