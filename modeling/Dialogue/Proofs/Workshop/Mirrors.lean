import Dialogue.Proofs.Workshop.Programs
import Dialogue.Proofs.Workshop.Waiting

/-! What the copy of a chain is like. Each node of the chain has one copy, and the copy goes on where its node does,
to the copy of the next one. So the copy of a chain that ends ends as well, and the copy of a chain that comes back to
one of its nodes comes back to the copy of that node. -/
namespace Dialogue.Draft
variable {d : Draft} {before : Option Nat} {front rest keys : List Nat} {start x y k : Nat}

structure Comes (d : Draft) (start : Nat) (way : List Nat) (x : Nat) : Prop where
  begins : way.head? = some start
  follows : (way ++ [x]).IsChain fun a b => (d.node a).next = some b
  first : x ∉ way

/- A record that is like a node, but leads to the copy of what the node leads to. Rules and actions are those of the
node itself. -/
structure Mirrors (d : Draft) (copy : Nat → Nat) (x : Nat) (r : DraftNode) : Prop where
  texts : r.texts = (d.node x).texts
  effects : r.effects = (d.node x).effects
  rules : r.rules = (d.node x).rules
  actions : r.actions = (d.node x).actions
  frozen : r.frozen = false
  template : r.template = some x
  next : r.next = (d.node x).next.map copy

structure Copied (d : Draft) (start : Nat) (copy : Nat → Nat) (d' : Draft) : Prop where
  old : d.Extends d'
  actions : d'.actions = d.actions
  names : d'.names = d.names
  fresh : ∀ x, d.Leads start x → d.nodes.size ≤ copy x ∧ copy x < d'.nodes.size
  apart : ∀ x y, d.Leads start x → d.Leads start y → copy x = copy y → x = y
  only : ∀ k, d.nodes.size ≤ k → k < d'.nodes.size → ∃ x, d.Leads start x ∧ copy x = k
  mirrors : ∀ x, d.Leads start x → d.Mirrors copy x (d'.node (copy x))
  first : (d'.node (copy start)).prev = (d.node start).prev
  behind : ∀ x, d.Leads start x → x ≠ start →
    ∃ way y, d.Comes start (way ++ [y]) x ∧ (d'.node (copy x)).prev = some (copy y)
  listed : ∀ x, d.Leads start x → d'.clonesOf x = d.clonesOf x ++ [copy x]
  unlisted : ∀ x, ¬ d.Leads start x → d'.clonesOf x = d.clonesOf x

theorem nodesCloneNodes (d : Draft) (before : Option Nat) (sources : List Nat) :
    (d.cloneNodes before sources).1.nodes.size = d.nodes.size + sources.length := by
  induction sources generalizing d before with
  | nil => rfl
  | cons source rest ih =>
    have unfolded : (d.cloneNodes before (source :: rest)).1 =
        ((d.cloneNode source before).1.cloneNodes (some d.nodes.size) rest).1 := rfl
    rw [unfolded, ih, nodesCloneNode, List.length_cons]
    omega

theorem sizeCloneChain (d : Draft) (start : Nat) :
    (d.cloneChain start).1.nodes.size = d.nodes.size + (d.successors start).nodes.length := by
  rw [cloneChainUnfolded, (sizeLinkInOrder _ _).1, nodesCloneNodes]

theorem actionsCloneChain (d : Draft) (start : Nat) : (d.cloneChain start).1.actions = d.actions := by
  have copied : ∀ (d : Draft) (before : Option Nat) (sources : List Nat),
      (d.cloneNodes before sources).1.actions = d.actions := fun d before sources => by
    induction sources generalizing d before with
    | nil => rfl
    | cons source rest ih => exact (ih (d.cloneNode source before).1 _).trans (actionsCloneNode d source before)
  rw [cloneChainUnfolded, (sizeLinkInOrder _ _).2, copied]

def behind (before : Option Nat) (size : Nat) (front : List Nat) : Option Nat :=
  if front = [] then before else some (size + front.length - 1)

theorem nodeCloneNodes (before : Option Nat) (inside : ∀ k ∈ front ++ x :: rest, k < d.nodes.size) :
    ∃ id, (d.cloneNodes before (front ++ x :: rest)).1.node (d.nodes.size + front.length) =
      { id
        name := cloneName (d.node x).name
        texts := (d.node x).texts
        prev := behind before d.nodes.size front <|> (d.node x).prev
        rules := (d.node x).rules
        effects := (d.node x).effects
        actions := (d.node x).actions
        template := some x } := by
  induction front generalizing d before with
  | nil =>
    have here : d.nodes.size < (d.cloneNode x before).1.nodes.size := by simp
    have copied := (Extends.cloneNodes (d.cloneNode x before).1 (some d.nodes.size) rest).node _ here
    rw [nodeCloneNode, if_pos rfl] at copied
    exact ⟨_, copied⟩
  | cons source front ih =>
    obtain ⟨_, later⟩ := List.forall_mem_cons.mp inside
    have old : ∀ k ∈ front ++ x :: rest, k < (d.cloneNode source before).1.nodes.size := fun k mem => by
      rw [nodesCloneNode]
      exact Nat.lt_succ_of_lt (later k mem)
    have same : (d.cloneNode source before).1.node x = d.node x :=
      (Extends.cloneNode d source before).node x (later x (by simp))
    obtain ⟨id, copied⟩ := ih (some d.nodes.size) old
    rw [same, nodesCloneNode] at copied
    refine ⟨id, ?_⟩
    have position : d.nodes.size + (source :: front).length = d.nodes.size + 1 + front.length := by
      rw [List.length_cons]
      omega
    have prev : behind before d.nodes.size (source :: front) =
        behind (some d.nodes.size) (d.nodes.size + 1) front := by
      unfold behind
      rw [if_neg (List.cons_ne_nil _ _), position]
      split
      · rename_i none
        simp [none]
      · rfl
    rw [position, prev]
    exact copied

theorem linkInOrderNext (once : (front ++ x :: y :: rest).dropLast.Nodup)
    (inside : ∀ k ∈ front ++ x :: y :: rest, k < d.nodes.size) :
    ((d.linkInOrder (front ++ x :: y :: rest)).node x).next = some y := by
  induction front generalizing d with
  | nil =>
    have apart : x ∉ (y :: rest).dropLast := by
      rw [List.nil_append, List.dropLast_cons_cons] at once
      exact (List.nodup_cons.mp once).1
    have linked : d.linkInOrder ([] ++ x :: y :: rest) =
        (d.changeNode x fun n => { n with next := some y }).linkInOrder (y :: rest) := rfl
    rw [linked, linkInOrderApart apart, nodeChangeNode, if_pos ⟨rfl, inside x (by simp)⟩]
  | cons first front ih =>
    obtain ⟨second, more, whole⟩ : ∃ second more, front ++ x :: y :: rest = second :: more := by
      cases front with
      | nil => exact ⟨_, _, rfl⟩
      | cons second more => exact ⟨_, _, rfl⟩
    have linked : d.linkInOrder (first :: front ++ x :: y :: rest) =
        (d.changeNode first fun n => { n with next := some second }).linkInOrder (front ++ x :: y :: rest) := by
      rw [List.cons_append, whole]
      rfl
    rw [linked]
    refine ih ?_ fun k mem => ?_
    · rw [List.cons_append, whole, List.dropLast_cons_cons] at once
      rw [whole]
      exact (List.nodup_cons.mp once).2
    · rw [nodesChangeNode]
      exact inside k (List.mem_cons_of_mem _ mem)

def copyOf (d : Draft) (start x : Nat) : Nat := d.nodes.size + (d.successors start).nodes.idxOf x

theorem copyAt (once : (d.successors start).nodes.Nodup) (whole : (d.successors start).nodes = front ++ x :: rest) :
    d.copyOf start x = d.nodes.size + front.length := by
  rw [whole] at once
  have unmet : x ∉ front := fun mem => (List.nodup_append.mp once).2.2 x mem x List.mem_cons_self rfl
  rw [copyOf, whole, List.idxOf_append_of_notMem unmet, List.idxOf_cons_self, Nat.add_zero]

theorem numbersAt (once : (d.successors start).nodes.Nodup) (whole : (d.successors start).nodes = front ++ x :: rest) :
    List.range' d.nodes.size (d.successors start).nodes.length = List.range' d.nodes.size front.length ++
      d.copyOf start x :: List.range' (d.nodes.size + front.length + 1) rest.length := by
  rw [copyAt once whole, whole, List.length_append, List.length_cons, ← List.range'_append_1, List.range'_succ]

theorem zipApart {sources copies : List Nat} (apart : x ∉ sources) :
    (sources.zip copies).filter (·.1 == x) = [] := by
  refine List.filter_eq_nil_iff.mpr fun c mem same => apart ?_
  have equal : c.1 = x := by simpa using same
  exact equal ▸ (List.of_mem_zip mem).1

theorem copiesOf (once : (d.successors start).nodes.Nodup) (mem : x ∈ (d.successors start).nodes) :
    (d.copies start).filter (·.1 == x) = [(x, d.copyOf start x)] := by
  obtain ⟨front, rest, whole⟩ := List.append_of_mem mem
  have apart := List.nodup_append.mp (whole ▸ once)
  have before : x ∉ front := fun mem => apart.2.2 x mem x List.mem_cons_self rfl
  have behind : x ∉ rest := (List.nodup_cons.mp apart.2.1).1
  rw [copies, numbersAt once whole, whole, List.zip_append (by simp), List.zip_cons_cons, List.filter_append,
    zipApart before, List.nil_append, List.filter_cons_of_pos (by simp), zipApart behind]

theorem closingAt (once : (d.successors start).nodes.Nodup)
    (again : ∀ k, (d.successors start).reentry = some k → k ∈ (d.successors start).nodes) :
    d.closing start = ((d.successors start).reentry.map (d.copyOf start)).toList := by
  have found : ∀ k, (d.successors start).reentry = some k →
      ((d.copies start).find? (·.1 == k)).map (·.2) = some (d.copyOf start k) := fun k is => by
    rw [← List.head?_filter, copiesOf once (again k is)]
    rfl
  simp only [closing, copiesNumbered]
  cases is : (d.successors start).reentry with
  | none => rfl
  | some k => exact congrArg Option.toList (found k is)

def copyKeys (d : Draft) (start : Nat) : List Nat :=
  List.range' d.nodes.size (d.successors start).nodes.length ++
    ((d.successors start).reentry.map (d.copyOf start)).toList

theorem copyKeysOnce (d : Draft) (start : Nat) : (d.copyKeys start).dropLast.Nodup := by
  have once : (List.range' d.nodes.size (d.successors start).nodes.length).Nodup := List.nodup_range'
  unfold copyKeys
  cases (d.successors start).reentry with
  | none => exact (by simpa using once.sublist (List.dropLast_sublist _))
  | some k => simpa using once

theorem copyKeysAmid (once : (d.successors start).nodes.Nodup)
    (whole : (d.successors start).nodes = front ++ x :: y :: rest) :
    ∃ more, d.copyKeys start = List.range' d.nodes.size front.length ++ d.copyOf start x :: d.copyOf start y :: more := by
  have split : (d.successors start).nodes = (front ++ [x]) ++ y :: rest := by simp [whole]
  have second : d.copyOf start y = d.nodes.size + front.length + 1 := by
    rw [copyAt once split]
    simp [Nat.add_assoc]
  rw [copyKeys, numbersAt once whole, List.length_cons, List.range'_succ, ← second, List.append_assoc,
    List.cons_append, List.cons_append]
  exact ⟨_, rfl⟩

theorem copyKeysEnd (once : (d.successors start).nodes.Nodup) (whole : (d.successors start).nodes = front ++ [x]) :
    d.copyKeys start = List.range' d.nodes.size front.length ++
      d.copyOf start x :: ((d.successors start).reentry.map (d.copyOf start)).toList := by
  rw [copyKeys, numbersAt once whole, List.append_assoc]
  rfl

theorem copyFresh (leads : d.Leads start x) :
    d.nodes.size ≤ d.copyOf start x ∧ d.copyOf start x < (d.cloneChain start).1.nodes.size := by
  have place := List.idxOf_lt_length_of_mem (memSuccessors.mpr leads)
  rw [sizeCloneChain, copyOf]
  omega

theorem cloneChainLinked (d : Draft) (start : Nat) : (d.cloneChain start).1 =
    (d.cloneNodes none (d.successors start).nodes).1.linkInOrder (d.copyKeys start) := by
  have walks := d.successorsWalk start
  rw [cloneChainUnfolded, closingAt walks.once walks.again, copyKeys]

theorem copyKeysInside (mem : k ∈ d.copyKeys start) :
    k < (d.cloneNodes none (d.successors start).nodes).1.nodes.size := by
  rw [nodesCloneNodes]
  rcases List.mem_append.mp mem with copy | closing
  · exact (List.mem_range'_1.mp copy).2
  · obtain ⟨again, is, rfl⟩ := Option.map_eq_some_iff.mp (Option.mem_toList.mp closing)
    have among := (d.successorsWalk start).again again is
    exact Nat.add_lt_add_left (List.idxOf_lt_length_of_mem among) _

theorem copyKeysLinked (keys : d.copyKeys start = front ++ x :: y :: rest) :
    ((d.cloneChain start).1.node x).next = some y := by
  have once := keys ▸ copyKeysOnce d start
  have inside : ∀ k ∈ front ++ x :: y :: rest, k < (d.cloneNodes none (d.successors start).nodes).1.nodes.size :=
    fun k mem => copyKeysInside (keys ▸ mem)
  rw [cloneChainLinked, keys]
  exact linkInOrderNext once inside

theorem copyLinked (leads : d.Leads start x) :
    ((d.cloneChain start).1.node (d.copyOf start x)).next = (d.node x).next.map (d.copyOf start) := by
  have walks := d.successorsWalk start
  rcases walks.onward (memSuccessors.mpr leads) with ⟨front, y, rest, whole, goes⟩ | ⟨⟨front, whole⟩, stops⟩
  · obtain ⟨more, keys⟩ := copyKeysAmid walks.once whole
    rw [goes, copyKeysLinked keys]
    rfl
  · have keys := copyKeysEnd walks.once whole
    rw [stops]
    cases is : (d.successors start).reentry with
    | none =>
      have last : d.copyOf start x ∉ (d.copyKeys start).dropLast := by
        rw [keys, is, Option.map_none, Option.toList_none, List.dropLast_concat, copyAt walks.once whole]
        exact fun mem => Nat.lt_irrefl _ (List.mem_range'_1.mp mem).2
      rw [cloneChainLinked, linkInOrderApart last]
      exact (copiesFresh d none _ (Nat.le_add_right _ _)).2
    | some k =>
      rw [is] at keys
      exact copyKeysLinked keys

namespace Bound

theorem copyRecord (bound : d.Bound) (here : start < d.nodes.size)
    (whole : (d.successors start).nodes = front ++ x :: rest) :
    ∃ id next, (d.cloneChain start).1.node (d.copyOf start x) =
      { id, next
        name := cloneName (d.node x).name
        texts := (d.node x).texts
        prev := behind none d.nodes.size front <|> (d.node x).prev
        rules := (d.node x).rules
        effects := (d.node x).effects
        actions := (d.node x).actions
        template := some x } := by
  have inside := (bound.successors here).nodes
  rw [whole] at inside
  obtain ⟨id, copied⟩ := nodeCloneNodes none inside
  rw [← whole, ← copyAt (d.successorsWalk start).once whole] at copied
  rw [cloneChainUnfolded]
  obtain ⟨next, linked⟩ := nodeLinkInOrder (d.cloneNodes none (d.successors start).nodes).1
    (List.range' d.nodes.size (d.successors start).nodes.length ++ d.closing start) (d.copyOf start x)
  rw [copied] at linked
  exact ⟨id, next, linked⟩

theorem copyMirrors (bound : d.Bound) (here : start < d.nodes.size) (leads : d.Leads start x) :
    d.Mirrors (d.copyOf start) x ((d.cloneChain start).1.node (d.copyOf start x)) := by
  obtain ⟨front, rest, whole⟩ := List.append_of_mem (memSuccessors.mpr leads)
  have next := copyLinked leads
  obtain ⟨id, after, copied⟩ := bound.copyRecord here whole
  rw [copied] at next ⊢
  exact ⟨rfl, rfl, rfl, rfl, rfl, rfl, next⟩

theorem copyFirst (bound : d.Bound) (here : start < d.nodes.size) :
    ((d.cloneChain start).1.node (d.copyOf start start)).prev = (d.node start).prev := by
  obtain ⟨rest, whole⟩ : ∃ rest, (d.successors start).nodes = [] ++ start :: rest :=
    List.head?_eq_some_iff.mp (d.successorsBegin start)
  obtain ⟨id, next, copied⟩ := bound.copyRecord here whole
  rw [copied]
  rfl

theorem copyBehind (bound : d.Bound) (here : start < d.nodes.size) (leads : d.Leads start x) (other : x ≠ start) :
    ∃ way y, d.Comes start (way ++ [y]) x ∧
      ((d.cloneChain start).1.node (d.copyOf start x)).prev = some (d.copyOf start y) := by
  have walks := d.successorsWalk start
  obtain ⟨front, rest, whole⟩ := List.append_of_mem (memSuccessors.mpr leads)
  have begins := walks.begins
  have follows := walks.follows
  have once := walks.once
  rcases List.eq_nil_or_concat' front with rfl | ⟨way, y, rfl⟩
  · rw [whole] at begins
    exact absurd (Option.some.inj begins) other
  · refine ⟨way, y, ⟨?_, ?_, ?_⟩, ?_⟩
    · rwa [whole, List.head?_append_of_ne_nil _ (by simp)] at begins
    · rw [whole, List.append_cons] at follows
      exact follows.left_of_append
    · rw [whole] at once
      exact fun mem => (List.nodup_append.mp once).2.2 x mem x List.mem_cons_self rfl
    · obtain ⟨id, next, copied⟩ := bound.copyRecord here whole
      have split : (d.successors start).nodes = way ++ y :: x :: rest := by simp [whole]
      rw [copied, copyAt once split]
      simp [behind]

theorem chainCopied (bound : d.Bound) (here : start < d.nodes.size) :
    ∃ copy : Nat → Nat, (d.cloneChain start).2.1 = copy start ∧ d.Copied start copy (d.cloneChain start).1 := by
  have walks := d.successorsWalk start
  have reached : ∀ {x}, x ∈ (d.successors start).nodes ↔ d.Leads start x := memSuccessors
  refine ⟨d.copyOf start, ?_, ?_⟩
  · obtain ⟨rest, whole⟩ : ∃ rest, (d.successors start).nodes = [] ++ start :: rest :=
      List.head?_eq_some_iff.mp walks.begins
    rw [cloneChainKey, copyAt walks.once whole]
    rfl
  · refine {
      old := cloneChainExtends d start
      actions := actionsCloneChain d start
      names := cloneChainNames d start
      fresh := fun x => copyFresh
      apart := fun x y leads _ same => ?_
      only := fun k new old => ?_
      mirrors := fun x => bound.copyMirrors here
      first := bound.copyFirst here
      behind := fun x => bound.copyBehind here
      listed := fun x leads => ?_
      unlisted := fun x apart => ?_ }
    · exact (List.idxOf_inj (reached.mpr leads)).mp (Nat.add_left_cancel same)
    · rw [sizeCloneChain] at old
      have place : k - d.nodes.size < (d.successors start).nodes.length := by omega
      refine ⟨(d.successors start).nodes[k - d.nodes.size], reached.mp (List.getElem_mem place), ?_⟩
      rw [copyOf, walks.once.idxOf_getElem]
      omega
    · rw [clonesOf, clonesCloneChain, List.filter_append, copiesOf walks.once (reached.mpr leads), List.map_append]
      rfl
    · rw [clonesOf, clonesCloneChain, List.filter_append, copies, zipApart fun mem => apart (reached.mp mem),
        List.append_nil]
      rfl

end Bound

def days : Draft := (Machine.after Machine.passDepth {} [
  .mk none none (some "dawn") (.newNamed "dawn"),
  .mk (some "dawn") none (some "noon") (.joinNamed "noon"),
  .mk (some "noon") none (some "dusk") (.joinNamed "dusk"),
  .mk (some "dusk") none none (.linkTo (.node "noon"))]).workshop.draftAt 0

theorem daysCopied : days.Bound ∧ 0 < days.nodes.size ∧ ∃ copy : Nat → Nat, (days.cloneChain 0).2.1 = copy 0 ∧
    ((days.cloneChain 0).1.node (copy 2)).next = some (copy 1) ∧
    ((days.cloneChain 0).1.node (copy 1)).next = some (copy 2) := by
  have bound : days.Bound := ((Machine.afterSound _ _ _).drafts 0).bound
  have here : 0 < days.nodes.size := by decide
  obtain ⟨copy, returned, copied⟩ := bound.chainCopied here
  have noon : days.Leads 0 1 := .single rfl
  have dusk : days.Leads 0 2 := noon.tail rfl
  exact ⟨bound, here, copy, returned, (copied.mirrors 2 dusk).next, (copied.mirrors 1 noon).next⟩

end Dialogue.Draft
