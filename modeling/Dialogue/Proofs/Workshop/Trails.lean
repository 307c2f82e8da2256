import Mathlib.Data.List.Chain
import Mathlib.Data.List.Nodup
import Dialogue.Proofs.Workshop.Chains

/-! Trails, told apart from the search that finds them. A trail begins at its start, meets no node twice, goes on
where the step leads, and stops where the step ends or comes back. Only one trail does so: it stays the same as long
as the step stays the same on its nodes, and it holds just what can be reached from its start. -/
namespace Dialogue
variable {size fuel start current : Nat} {step step' : Nat → Option Nat} {met : List Nat} {t t' : Trail}

structure Trail.Walks (step : Nat → Option Nat) (start : Nat) (t : Trail) : Prop where
  begins : t.nodes.head? = some start
  once : t.nodes.Nodup
  follows : t.nodes.IsChain fun a b => step a = some b
  ends : ∀ last, t.nodes.getLast? = some last → step last = t.reentry
  again : ∀ k, t.reentry = some k → k ∈ t.nodes

structure Walking (step : Nat → Option Nat) (start : Nat) (met : List Nat) (current : Nat) : Prop where
  begins : (met ++ [current]).head? = some start
  once : met.Nodup
  follows : (met ++ [current]).IsChain fun a b => step a = some b
  onward : ∀ k ∈ met, (step k).isSome

namespace Walking

theorem fresh (step : Nat → Option Nat) (start : Nat) : Walking step start [] start where
  begins := rfl
  once := List.nodup_nil
  follows := .singleton _
  onward := by simp

theorem few (walking : Walking step start met current) (outside : ∀ k, size ≤ k → step k = none) :
    met.length ≤ size := by
  have within : met ⊆ List.range size := fun k mem => by
    refine List.mem_range.mpr (Nat.lt_of_not_le fun far => ?_)
    simpa [outside k far] using walking.onward k mem
  simpa using List.Nodup.length_le_of_subset walking.once within

theorem further (walking : Walking step start met current) (unmet : current ∉ met) :
    (met ++ [current]).Nodup := by
  rw [List.nodup_append]
  refine ⟨walking.once, by simp, fun k mem last same => ?_⟩
  intro equal
  exact unmet ((equal.trans (List.mem_singleton.mp same)) ▸ mem)

theorem next (walking : Walking step start met current) (unmet : current ∉ met) {after : Nat}
    (leads : step current = some after) : Walking step start (met ++ [current]) after where
  begins := by
    rw [List.head?_append, walking.begins]
    rfl
  once := walking.further unmet
  follows := by
    rw [List.append_assoc, List.singleton_append, List.isChain_append_cons_cons]
    exact ⟨walking.follows, leads, .singleton _⟩
  onward := fun k mem => by
    rcases List.mem_append.mp mem with earlier | last
    · exact walking.onward k earlier
    · rw [List.mem_singleton.mp last, leads]
      rfl

end Walking

theorem trailAfterMet (step : Nat → Option Nat) (fuel : Nat) (met : List Nat) (current : Nat) :
    met <+: (trailAfter step fuel met current).nodes := by
  induction fuel generalizing met current with
  | zero => exact List.prefix_rfl
  | succ fuel ih =>
    unfold trailAfter
    split
    · exact List.prefix_rfl
    · split
      · exact List.prefix_append _ _
      · exact (List.prefix_append _ _).trans (ih _ _)

theorem trailAfterWalks (outside : ∀ k, size ≤ k → step k = none) (walking : Walking step start met current)
    (enough : size < fuel + met.length) : (trailAfter step fuel met current).Walks step start := by
  -- the fuel makes up for the nodes not met yet, so it never runs out
  induction fuel generalizing met current with
  | zero =>
    have few := walking.few outside
    omega
  | succ fuel ih =>
    unfold trailAfter
    split
    · rename_i known
      refine ⟨?_, walking.once, walking.follows.left_of_append, ?_, ?_⟩
      · have nonempty : met ≠ [] := List.ne_nil_of_mem known
        rw [← walking.begins, List.head?_append_of_ne_nil _ nonempty]
      · intro last is
        obtain ⟨front, rfl⟩ := List.getLast?_eq_some_iff.mp is
        have follows := walking.follows
        rw [List.append_assoc, List.singleton_append, List.isChain_append_cons_cons] at follows
        exact follows.2.1
      · intro k same
        exact Option.some.inj same ▸ known
    · rename_i unmet
      split
      · rename_i nowhere
        refine ⟨walking.begins, walking.further unmet, walking.follows, ?_, by simp⟩
        intro last is
        rw [List.getLast?_concat] at is
        exact Option.some.inj is ▸ nowhere
      · rename_i after leads
        refine ih (walking.next unmet leads) ?_
        rw [List.length_append, List.length_singleton]
        omega

namespace Trail.Walks

theorem starts (walks : t.Walks step start) : start ∈ t.nodes := List.mem_of_mem_head? walks.begins

theorem onward (walks : t.Walks step start) {a : Nat} (mem : a ∈ t.nodes) :
    (∃ front b rest, t.nodes = front ++ a :: b :: rest ∧ step a = some b) ∨
    (∃ front, t.nodes = front ++ [a]) ∧ step a = t.reentry := by
  obtain ⟨front, rest, split⟩ := List.append_of_mem mem
  cases rest with
  | nil => exact .inr ⟨⟨front, split⟩, walks.ends a (by simp [split])⟩
  | cons b rest =>
    have follows := walks.follows
    rw [split, List.isChain_append_cons_cons] at follows
    exact .inl ⟨front, b, rest, split, follows.2.1⟩

theorem closed (walks : t.Walks step start) {a b : Nat} (mem : a ∈ t.nodes) (leads : step a = some b) :
    b ∈ t.nodes := by
  rcases walks.onward mem with ⟨front, c, rest, split, goes⟩ | ⟨_, stops⟩
  · cases Option.some.inj (leads.symm.trans goes)
    simp [split]
  · exact walks.again b (stops.symm.trans leads)

theorem memIff (walks : t.Walks step start) {k : Nat} :
    k ∈ t.nodes ↔ Relation.ReflTransGen (fun a b => step a = some b) start k := by
  constructor
  · have nonempty : t.nodes ≠ [] := List.ne_nil_of_mem walks.starts
    have first : t.nodes.head nonempty = start := by
      rw [← Option.some_inj, ← List.head?_eq_some_head, walks.begins]
    exact walks.follows.induction (Relation.ReflTransGen _ start) _ (fun _ _ leads before => before.tail leads)
      (fun _ => first ▸ .refl) k
  · intro reached
    induction reached with
    | refl => exact walks.starts
    | tail _ leads ih => exact walks.closed ih leads

theorem back (walks : t.Walks step start) {a : Nat} (mem : a ∈ t.nodes) (leads : step a = some start) :
    t.reentry = some start := by
  rcases walks.onward mem with ⟨front, b, rest, split, goes⟩ | ⟨_, stops⟩
  · -- otherwise the start would stand behind the node and at the front, and so twice
    cases Option.some.inj (leads.symm.trans goes)
    have begins := walks.begins
    have once := walks.once
    rw [split] at begins once
    cases front with
    | nil =>
      cases Option.some.inj begins
      simp at once
    | cons c front =>
      cases Option.some.inj begins
      simp at once
  · exact stops.symm.trans leads

theorem congr (walks : t.Walks step start) (agree : ∀ k ∈ t.nodes, step' k = step k) : t.Walks step' start where
  begins := walks.begins
  once := walks.once
  follows := walks.follows.imp_of_mem_imp fun a _ memA _ leads => (agree a memA).trans leads
  ends := fun last is => (agree last (List.mem_of_getLast? is)).trans (walks.ends last is)
  again := walks.again

theorem sameWay {l l' : List Nat} (follows : (current :: l).IsChain fun a b => step a = some b)
    (follows' : (current :: l').IsChain fun a b => step a = some b) : l <+: l' ∨ l' <+: l := by
  induction l generalizing current l' with
  | nil => exact .inl List.nil_prefix
  | cons a l ih =>
    cases l' with
    | nil => exact .inr List.nil_prefix
    | cons b l' =>
      obtain ⟨leads, follows⟩ := List.isChain_cons_cons.mp follows
      obtain ⟨leads', follows'⟩ := List.isChain_cons_cons.mp follows'
      cases Option.some.inj (leads.symm.trans leads')
      simpa using ih follows follows'

theorem noLonger (walks : t.Walks step start) (walks' : t'.Walks step start) (before : t.nodes <+: t'.nodes) :
    t = t' := by
  obtain ⟨more, longer⟩ := before
  have nonempty : t.nodes ≠ [] := List.ne_nil_of_mem walks.starts
  obtain ⟨front, last, whole⟩ := List.eq_nil_or_concat' t.nodes |>.resolve_left nonempty
  have ends := walks.ends last (by simp [whole])
  have same : t.nodes = t'.nodes := by
    cases more with
    | nil => simpa using longer
    | cons a more =>
      have follows := walks'.follows
      have once := walks'.once
      rw [← longer, whole, List.append_assoc, List.singleton_append] at follows once
      have leads := (List.isChain_append_cons_cons.mp follows).2.1
      have known := walks.again a (ends.symm.trans leads)
      rw [whole] at known
      have apart := List.nodup_append.mp (by simpa using once : ((front ++ [last]) ++ a :: more).Nodup)
      exact absurd rfl (apart.2.2 a known a List.mem_cons_self)
  have ends' := walks'.ends last (by simp [← same, whole])
  have reentry : t.reentry = t'.reentry := ends.symm.trans ends'
  cases t
  cases t'
  simp_all

theorem unique (walks : t.Walks step start) (walks' : t'.Walks step start) : t = t' := by
  have split : ∀ {l : List Nat}, l.head? = some start → ∃ rest, l = start :: rest := fun begins => by
    obtain ⟨rest, whole⟩ := List.head?_eq_some_iff.mp begins
    exact ⟨rest, whole⟩
  obtain ⟨rest, whole⟩ := split walks.begins
  obtain ⟨rest', whole'⟩ := split walks'.begins
  rcases sameWay (whole ▸ walks.follows) (whole' ▸ walks'.follows) with shorter | longer
  · exact walks.noLonger walks' (by simpa [whole, whole'] using shorter)
  · exact (walks'.noLonger walks (by simpa [whole, whole'] using longer)).symm

theorem stopMem (walks : t.Walks step start) : t.stop start ∈ t.nodes := by
  unfold Trail.stop
  split
  · rename_i k again
    exact walks.again k again
  · cases last : t.nodes.getLast? with
    | none => exact walks.starts
    | some k => exact List.mem_of_getLast? last

end Trail.Walks

namespace Draft
variable {d d' : Draft} {key k : Nat}

theorem successorsBegin (d : Draft) (start : Nat) : (d.successors start).nodes.head? = some start := by
  have met : [start] <+: (d.successors start).nodes := by
    unfold successors trail trailAfter
    rw [if_neg List.not_mem_nil]
    split
    · exact List.prefix_rfl
    · exact trailAfterMet _ _ _ _
  obtain ⟨rest, whole⟩ := met
  rw [← whole]
  rfl

def Leads (d : Draft) : Nat → Nat → Prop := Relation.ReflTransGen fun a b => (d.node a).next = some b

def LeadsBack (d : Draft) : Nat → Nat → Prop := Relation.ReflTransGen fun a b => (d.node a).prev = some b

theorem successorsWalk (d : Draft) (key : Nat) : (d.successors key).Walks (fun k => (d.node k).next) key :=
  trailAfterWalks (fun k far => congrArg DraftNode.next (nodeOutside d k far)) (.fresh _ key) (Nat.lt_succ_self _)

theorem predecessorsWalk (d : Draft) (key : Nat) : (d.predecessors key).Walks (fun k => (d.node k).prev) key :=
  trailAfterWalks (fun k far => congrArg DraftNode.prev (nodeOutside d k far)) (.fresh _ key) (Nat.lt_succ_self _)

theorem memSuccessors : k ∈ (d.successors key).nodes ↔ d.Leads key k := (d.successorsWalk key).memIff

theorem tailBeforeNone {goal : Nat} : d.tailBefore? key goal = none ↔ d.Leads key goal := by
  rw [tailBefore?, ← memSuccessors]
  simp

theorem tailBeforeApart {goal last : Nat} (ends : d.tailBefore? key goal = some last) :
    last ∈ (d.successors key).nodes ∧ last ≠ goal := by
  simp only [tailBefore?] at ends
  split at ends
  · contradiction
  · rename_i unmet
    have mem := (d.successorsWalk key).stopMem
    rw [Option.some.inj ends] at mem
    exact ⟨mem, fun same => unmet (same ▸ mem)⟩

theorem headReached (d : Draft) (key : Nat) : d.LeadsBack key (d.head key) :=
  (d.predecessorsWalk key).memIff.mp (d.predecessorsWalk key).stopMem

theorem Bound.leads (bound : d.Bound) (here : key < d.nodes.size) (leads : d.Leads key k) : k < d.nodes.size :=
  (bound.successors here).nodes k (memSuccessors.mpr leads)
end Draft
end Dialogue
