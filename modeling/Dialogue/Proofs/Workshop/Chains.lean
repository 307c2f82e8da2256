import Dialogue.Proofs.Workshop.Edits

/-! Chains stay within their draft, and so do the walks along them. Copying a chain and freezing it are sequences of
changes to single nodes. -/
namespace Dialogue
variable {size fuel start : Nat} {step : Nat → Option Nat} {met : List Nat}

structure Trail.Within (size : Nat) (t : Trail) : Prop where
  nodes : ∀ k ∈ t.nodes, k < size
  reentry : ∀ k, t.reentry = some k → k < size

theorem trailAfterWithin (inside : ∀ j k, j < size → step j = some k → k < size) (earlier : ∀ k ∈ met, k < size)
    (here : start < size) : (trailAfter step fuel met start).Within size := by
  induction fuel generalizing met start with
  | zero => exact ⟨earlier, by simp [trailAfter]⟩
  | succ fuel ih =>
    have further : ∀ k ∈ met ++ [start], k < size := fun k mem => by
      rcases List.mem_append.mp mem with before | last
      · exact earlier k before
      · exact List.mem_singleton.mp last ▸ here
    unfold trailAfter
    split
    · exact ⟨earlier, fun k same => Option.some.inj same ▸ here⟩
    · split
      · exact ⟨further, by simp⟩
      · rename_i next leads
        exact ih further (inside start next here leads)

theorem Trail.Within.stop {t : Trail} (within : t.Within size) (here : start < size) : t.stop start < size := by
  unfold Trail.stop
  split
  · rename_i k again
    exact within.reentry k again
  · cases last : t.nodes.getLast? with
    | none => exact here
    | some k => exact within.nodes k (List.mem_of_getLast? last)

namespace Draft
variable {d : Draft} {key : Nat}

namespace Bound

theorem successors (bound : d.Bound) (here : key < d.nodes.size) : (d.successors key).Within d.nodes.size :=
  trailAfterWithin (fun j k _ => (bound.nodes j).next k) (by simp) here

theorem predecessors (bound : d.Bound) (here : key < d.nodes.size) : (d.predecessors key).Within d.nodes.size :=
  trailAfterWithin (fun j k _ => (bound.nodes j).prev k) (by simp) here

theorem head (bound : d.Bound) (here : key < d.nodes.size) : d.head key < d.nodes.size :=
  (bound.predecessors here).stop here

theorem tail (bound : d.Bound) (here : key < d.nodes.size) : d.tail key < d.nodes.size :=
  (bound.successors here).stop here

theorem tailBefore (bound : d.Bound) (here : key < d.nodes.size) {goal last : Nat}
    (ends : d.tailBefore? key goal = some last) : last < d.nodes.size := by
  simp only [tailBefore?] at ends
  split at ends
  · contradiction
  · cases Option.some.inj ends
    exact (bound.successors here).stop here

end Bound

theorem freezeAllEdits (d : Draft) (keys : List Nat) : Edits d (d.freezeAll keys) := by
  induction keys generalizing d with
  | nil => exact .refl
  | cons key rest ih => exact (Edits.one .freeze).trans (ih _)

theorem nodeFreezeAll (d : Draft) (keys : List Nat) (k : Nat) : (d.freezeAll keys).node k =
    if k ∈ keys ∧ k < d.nodes.size then { d.node k with frozen := true } else d.node k := by
  induction keys generalizing d with
  | nil => simp [freezeAll]
  | cons key rest ih =>
    have first : d.freezeAll (key :: rest) = (d.changeNode key fun n => { n with frozen := true }).freezeAll rest := rfl
    rw [first, ih, nodesChangeNode, nodeChangeNode]
    by_cases inside : k < d.nodes.size
    · by_cases same : k = key
      · subst same
        simp [inside]
      · simp [inside, same]
    · rw [if_neg (by simp [inside]), if_neg (by omega), if_neg (by simp [inside])]

theorem restFreezeAll (d : Draft) (keys : List Nat) :
    d.freezeAll keys = { d with nodes := (d.freezeAll keys).nodes } ∧
    (d.freezeAll keys).nodes.size = d.nodes.size := by
  induction keys generalizing d with
  | nil => exact ⟨rfl, rfl⟩
  | cons key rest ih =>
    obtain ⟨same, size⟩ := ih (d.changeNode key fun n => { n with frozen := true })
    exact ⟨same, size.trans (nodesChangeNode d key _)⟩

theorem linkInOrderEdits {keys : List Nat} (inside : ∀ k ∈ keys, k < d.nodes.size) : Edits d (d.linkInOrder keys) := by
  induction keys generalizing d with
  | nil => exact .refl
  | cons first rest ih =>
    cases rest with
    | nil => exact .refl
    | cons second rest =>
      have later : ∀ k ∈ second :: rest, k < d.nodes.size := fun k mem => inside k (List.mem_cons_of_mem _ mem)
      refine (Edits.one (.next (later second List.mem_cons_self))).trans (ih ?_)
      rw [nodesChangeNode]
      exact later

theorem cloneNodesEdits (before : Option Nat) {sources : List Nat} (inside : ∀ k ∈ sources, k < d.nodes.size)
    (behind : ∀ b, before = some b → b < d.nodes.size) :
    Edits d (d.cloneNodes before sources).1 ∧
    ∀ k ∈ (d.cloneNodes before sources).2.1, k < (d.cloneNodes before sources).1.nodes.size := by
  induction sources generalizing d before with
  | nil => exact ⟨.refl, by simp [cloneNodes]⟩
  | cons source rest ih =>
    have copied : Edits d (d.cloneNode source before).1 := .one (.copy (inside source List.mem_cons_self) behind)
    have later : ∀ k ∈ rest, k < (d.cloneNode source before).1.nodes.size := fun k mem =>
      Nat.lt_of_lt_of_le (inside k (List.mem_cons_of_mem _ mem)) copied.nodesGrow
    obtain ⟨edits, copies⟩ := ih (some d.nodes.size) later (fun b same => by
      cases Option.some.inj same
      simp)
    refine ⟨copied.trans edits, fun k mem => ?_⟩
    rcases List.mem_cons.mp mem with first | others
    · have here : d.nodes.size < (d.cloneNode source before).1.nodes.size := by simp
      exact first ▸ Nat.lt_of_lt_of_le here edits.nodesGrow
    · exact copies k others

theorem cloneChainEdits (bound : d.Bound) (here : key < d.nodes.size) :
    Edits d (d.cloneChain key).1 ∧ (d.cloneChain key).2.1 < (d.cloneChain key).1.nodes.size := by
  obtain ⟨cloned, copies⟩ := cloneNodesEdits none (bound.successors here).nodes (by simp)
  have linked : Edits (d.cloneNodes none (d.successors key).nodes).1 (d.cloneChain key).1 := by
    refine linkInOrderEdits fun k mem => copies k ?_
    rcases List.mem_append.mp mem with copy | closing
    · exact copy
    · obtain ⟨again, _, found⟩ := Option.bind_eq_some_iff.mp (Option.mem_toList.mp closing)
      obtain ⟨pair, first, rfl⟩ := Option.map_eq_some_iff.mp found
      exact (List.of_mem_zip (List.mem_of_find?_eq_some first)).2
  refine ⟨cloned.trans linked, ?_⟩
  have answer : (d.cloneChain key).2.1 = (d.cloneNodes none (d.successors key).nodes).2.1.headD key := rfl
  rw [answer]
  cases made : (d.cloneNodes none (d.successors key).nodes).2.1 with
  | nil => exact Nat.lt_of_lt_of_le here (cloned.trans linked).nodesGrow
  | cons first rest => exact Nat.lt_of_lt_of_le (copies first (by simp [made])) linked.nodesGrow

end Draft
end Dialogue
