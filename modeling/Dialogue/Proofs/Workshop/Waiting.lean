import Dialogue.Proofs.Workshop.Copies

/-! What waits on a draft. A link is added behind the ones that wait already, and a copy of a chain adds, for each
node of the chain in its order, the links that wait on the node, led to the copy of it. While a build pass runs
neither adds anything. What a draft has gained since some time tells what waits on it. -/
namespace Dialogue

def handedDown (pending : List Deferred) (copies : List (Nat × Nat)) : List Deferred :=
  copies.flatMap fun c => (pending.filter fun link => link.node? == some c.1).map (·.retarget c.2)

inductive Gain where
  | registered (link : Deferred)
  | cloned (copies : List (Nat × Nat))

namespace Gain

def add (pending : List Deferred) : Gain → List Deferred
  | .registered link => pending ++ [link]
  | .cloned copies => pending ++ handedDown pending copies

def link? : Gain → Option Deferred
  | .registered link => some link
  | .cloned _ => none

def copies : Gain → List (Nat × Nat)
  | .registered _ => []
  | .cloned made => made

def ofCall (made : List (List (Nat × Nat))) (links : List Deferred) : List Gain :=
  made.map cloned ++ links.map registered

theorem linksOfCall (made : List (List (Nat × Nat))) (links : List Deferred) :
    (ofCall made links).filterMap link? = links := by
  simp [ofCall, List.filterMap_map, Function.comp_def, link?]

end Gain

theorem Deferred.retargetNode (link : Deferred) (copy : Nat) :
    (link.retarget copy).node? = link.node?.map fun _ => copy := by
  cases link <;> rfl

namespace Draft
variable {d d' d'' : Draft} {gains gains' : List Gain} {start : Nat}

def copies (d : Draft) (start : Nat) : List (Nat × Nat) :=
  (d.successors start).nodes.zip (List.range' d.nodes.size (d.successors start).nodes.length)

theorem handedDownOld {pending more : List Deferred} {copies : List (Nat × Nat)}
    (apart : ∀ link ∈ more, ∀ c ∈ copies, link.node? ≠ some c.1) :
    handedDown (pending ++ more) copies = handedDown pending copies := by
  refine List.flatMap_congr fun c mem => ?_
  have none : (more.filter fun link => link.node? == some c.1) = [] :=
    List.filter_eq_nil_iff.mpr fun link among => by simpa using apart link among c mem
  rw [List.filter_append, none, List.append_nil]

theorem inheritedOn {source : Nat} {link : Deferred} (mem : link ∈ d.inherited source) :
    link.node? = some d.nodes.size := by
  unfold inherited at mem
  split at mem
  · cases mem
  · obtain ⟨original, waits, rfl⟩ := List.mem_map.mp mem
    have on : original.node? = some source := by simpa using (List.mem_filter.mp waits).2
    rw [original.retargetNode, on]
    rfl

theorem inheritedHandedDown (d : Draft) (source : Nat) :
    d.inherited source = if d.resolving then [] else handedDown d.pending [(source, d.nodes.size)] := by
  unfold inherited handedDown
  simp

theorem restCloneNodes (d : Draft) (before : Option Nat) (sources : List Nat) :
    (d.cloneNodes before sources).1.resolving = d.resolving ∧
    (d.cloneNodes before sources).1.clones =
      d.clones ++ sources.zip (List.range' d.nodes.size sources.length) := by
  induction sources generalizing d before with
  | nil => simp [cloneNodes]
  | cons source rest ih =>
    obtain ⟨resolving, clones⟩ := ih (d.cloneNode source before).1 (some d.nodes.size)
    refine ⟨resolving, clones.trans ?_⟩
    rw [clonesCloneNode, nodesCloneNode, List.length_cons, List.range'_succ, List.zip_cons_cons, List.append_assoc,
      List.singleton_append]

theorem pendingCloneNodes (d : Draft) (before : Option Nat) {sources : List Nat}
    (inside : ∀ k ∈ sources, k < d.nodes.size) : (d.cloneNodes before sources).1.pending =
      d.pending ++ if d.resolving then []
        else handedDown d.pending (sources.zip (List.range' d.nodes.size sources.length)) := by
  induction sources generalizing d before with
  | nil => simp [cloneNodes, handedDown]
  | cons source rest ih =>
    obtain ⟨_, later⟩ := List.forall_mem_cons.mp inside
    have unfolded : (d.cloneNodes before (source :: rest)).1 =
        ((d.cloneNode source before).1.cloneNodes (some d.nodes.size) rest).1 := rfl
    have resolving : (d.cloneNode source before).1.resolving = d.resolving := rfl
    have further := ih (d.cloneNode source before).1 (some d.nodes.size) fun k mem => by
      rw [nodesCloneNode]
      exact Nat.lt_succ_of_lt (later k mem)
    rw [unfolded, further, pendingCloneNode, resolving, nodesCloneNode, List.append_assoc]
    refine congrArg (d.pending ++ ·) ?_
    cases phase : d.resolving with
    | true => simp [inherited, phase]
    | false =>
      -- what the first copy has taken over waits on that copy, which is none of the nodes still to be copied
      have same : handedDown (d.pending ++ d.inherited source) (rest.zip (List.range' (d.nodes.size + 1) rest.length)) =
          handedDown d.pending (rest.zip (List.range' (d.nodes.size + 1) rest.length)) := by
        refine handedDownOld fun link mem c among on => ?_
        have old := later c.1 (List.of_mem_zip among).1
        rw [inheritedOn mem] at on
        exact Nat.ne_of_gt old (Option.some.inj on)
      rw [if_neg (by simp), if_neg (by simp), same, inheritedHandedDown, if_neg (by simp [phase]), List.length_cons,
        List.range'_succ, List.zip_cons_cons]
      simp [handedDown]

theorem restLinkInOrder (d : Draft) (keys : List Nat) :
    d.linkInOrder keys = { d with nodes := (d.linkInOrder keys).nodes } := by
  induction keys generalizing d with
  | nil => rfl
  | cons first rest ih =>
    cases rest with
    | nil => rfl
    | cons second rest => exact ih (d.changeNode first fun n => { n with next := some second })

theorem cloneChainRest (d : Draft) (start : Nat) : (d.cloneChain start).1 =
    { (d.cloneNodes none (d.successors start).nodes).1 with nodes := (d.cloneChain start).1.nodes } := by
  rw [cloneChainUnfolded]
  exact restLinkInOrder _ _

theorem resolvingCloneChain (d : Draft) (start : Nat) : (d.cloneChain start).1.resolving = d.resolving := by
  rw [cloneChainRest]
  exact (restCloneNodes d none _).1

theorem clonesCloneChain (d : Draft) (start : Nat) : (d.cloneChain start).1.clones = d.clones ++ d.copies start := by
  rw [cloneChainRest]
  exact (restCloneNodes d none _).2

theorem pendingCloneChain (inside : ∀ k ∈ (d.successors start).nodes, k < d.nodes.size) :
    (d.cloneChain start).1.pending =
      d.pending ++ if d.resolving then [] else handedDown d.pending (d.copies start) := by
  rw [cloneChainRest]
  exact pendingCloneNodes d none inside

/- The changes that add to what waits, in their order, with any changes between them that leave it as it is. -/
inductive Gathers (d : Draft) : List Gain → Draft → Prop where
  | start : Gathers d [] d
  | still {gains : List Gain} {d' d'' : Draft} (before : Gathers d gains d') (pending : d''.pending = d'.pending)
      (clones : d''.clones = d'.clones) (resolving : d''.resolving = d'.resolving) : Gathers d gains d''
  | link {gains : List Gain} {d' : Draft} (before : Gathers d gains d') (link : Deferred)
      (outside : d'.resolving = false) :
      Gathers d (gains ++ [.registered link]) { d' with pending := d'.pending ++ [link] }
  | copy {gains : List Gain} {d' : Draft} {start : Nat} (before : Gathers d gains d')
      (inside : ∀ k ∈ (d'.successors start).nodes, k < d'.nodes.size) :
      Gathers d (gains ++ [.cloned (d'.copies start)]) (d'.cloneChain start).1

namespace Gathers

theorem trans (first : d.Gathers gains d') (second : d'.Gathers gains' d'') : d.Gathers (gains ++ gains') d'' := by
  induction second with
  | start => simpa using first
  | still _ pending clones resolving ih => exact ih.still pending clones resolving
  | link _ link outside ih =>
    rw [← List.append_assoc]
    exact ih.link link outside
  | copy _ inside ih =>
    rw [← List.append_assoc]
    exact ih.copy inside

theorem resolving (run : d.Gathers gains d') : d'.resolving = d.resolving := by
  induction run with
  | start => rfl
  | still _ _ _ resolving ih => exact resolving.trans ih
  | link _ _ _ ih => exact ih
  | copy _ _ ih => exact (resolvingCloneChain _ _).trans ih

theorem clones (run : d.Gathers gains d') : d'.clones = d.clones ++ gains.flatMap Gain.copies := by
  induction run with
  | start => simp
  | still _ _ clones _ ih => exact clones.trans ih
  | link _ _ _ ih =>
    rw [List.flatMap_append, ← List.append_assoc, ← ih]
    simp [Gain.copies]
  | copy _ _ ih =>
    rw [clonesCloneChain, ih, List.flatMap_append, List.append_assoc]
    simp [Gain.copies]

theorem pending (run : d.Gathers gains d') (outside : d.resolving = false) :
    d'.pending = gains.foldl Gain.add d.pending := by
  induction run with
  | start => rfl
  | still _ pending _ _ ih => exact pending.trans ih
  | link _ link _ ih => rw [List.foldl_concat, ← ih, Gain.add]
  | copy before inside ih =>
    rw [pendingCloneChain inside, before.resolving, outside, List.foldl_concat, ← ih, Gain.add]
    rfl

theorem shut (run : d.Gathers gains d') (resolving : d.resolving = true) :
    d'.pending = d.pending ∧ gains.filterMap Gain.link? = [] := by
  induction run with
  | start => exact ⟨rfl, rfl⟩
  | still _ pending _ _ ih => exact ⟨pending.trans ih.1, ih.2⟩
  | link before _ outside => cases (outside.symm.trans before.resolving).trans resolving
  | copy before inside ih =>
    refine ⟨?_, ?_⟩
    · rw [pendingCloneChain inside, before.resolving, resolving]
      simpa using ih.1
    · simp [List.filterMap_append, ih.2, Gain.link?]

end Gathers
end Draft
end Dialogue
