import Dialogue.Workshop.Compile
import Dialogue.Proofs.Workshop.Edits

/-! What can be reached. The search keeps a stack of nodes that it has met and not yet visited; the nodes met and not
on the stack are the ones visited, so the fuel is enough as long as it makes up for the nodes not met. It comes to
every node that can be reached, once, and to no other, whether or not the links run in circles. -/
namespace Dialogue.Draft
variable {d : Draft} {root key : Nat}

inductive Reaches (d : Draft) (root : Nat) : Nat → Prop where
  | root : Reaches d root root
  | successor {k target : Nat} (here : Reaches d root k) (next : (d.node k).next = some target) : Reaches d root target
  | rule {k : Nat} {r : DraftRule} (here : Reaches d root k) (mem : r ∈ (d.node k).rules) : Reaches d root r.target
  | action {k a target : Nat} (here : Reaches d root k) (mem : a ∈ (d.node k).actions)
      (next : (d.action a).next = some target) : Reaches d root target

theorem memNeighbours {target : Nat} : target ∈ d.neighbours key ↔
    (∃ r ∈ (d.node key).rules, r.target = target) ∨ (∃ a ∈ (d.node key).actions, (d.action a).next = some target) ∨
    (d.node key).next = some target := by
  simp [neighbours]

theorem Reaches.neighbour {target : Nat} (here : Reaches d root key) (leads : target ∈ d.neighbours key) :
    Reaches d root target := by
  rcases memNeighbours.mp leads with ⟨r, mem, rfl⟩ | ⟨a, mem, next⟩ | next
  · exact .rule here mem
  · exact .action here mem next
  · exact .successor here next

theorem Bound.neighbour (bound : d.Bound) {target : Nat} (leads : target ∈ d.neighbours key) :
    target < d.nodes.size := by
  rcases memNeighbours.mp leads with ⟨r, mem, rfl⟩ | ⟨a, _, next⟩ | next
  · exact (bound.nodes key).rules r mem
  · exact (bound.actions a).next _ next
  · exact (bound.nodes key).next _ next

theorem Bound.reaches (bound : d.Bound) (inside : root < d.nodes.size) (reached : Reaches d root key) :
    key < d.nodes.size := by
  cases reached with
  | root => exact inside
  | successor _ next => exact bound.neighbour (memNeighbours.mpr (.inr (.inr next)))
  | rule _ mem => exact bound.neighbour (memNeighbours.mpr (.inl ⟨_, mem, rfl⟩))
  | action _ mem next => exact bound.neighbour (memNeighbours.mpr (.inr (.inl ⟨_, mem, next⟩)))

theorem pushNew (stack seen keys : List Nat) : ∃ new, push stack seen keys = (new ++ stack, new ++ seen) ∧ new.Nodup ∧
    (∀ k ∈ new, k ∈ keys ∧ k ∉ seen) ∧ ∀ k ∈ keys, k ∈ new ++ seen := by
  induction keys with
  | nil => exact ⟨[], rfl, by simp, by simp, by simp⟩
  | cons key rest ih =>
    obtain ⟨new, same, once, fresh, met⟩ := ih
    have unfolded : push stack seen (key :: rest) =
        if key ∈ (push stack seen rest).2 then push stack seen rest
        else (key :: (push stack seen rest).1, key :: (push stack seen rest).2) := rfl
    rw [unfolded, same]
    split
    · rename_i known
      refine ⟨new, rfl, once, fun k mem => ?_, fun k mem => ?_⟩
      · exact ⟨List.mem_cons_of_mem _ (fresh k mem).1, (fresh k mem).2⟩
      · rcases List.mem_cons.mp mem with rfl | later
        · exact known
        · exact met k later
    · rename_i unknown
      obtain ⟨notNew, notSeen⟩ := not_or.mp fun either => unknown (List.mem_append.mpr either)
      refine ⟨key :: new, rfl, List.nodup_cons.mpr ⟨notNew, once⟩, fun k mem => ?_, fun k mem => ?_⟩
      · rcases List.mem_cons.mp mem with rfl | later
        · exact ⟨List.mem_cons_self, notSeen⟩
        · exact ⟨List.mem_cons_of_mem _ (fresh k later).1, (fresh k later).2⟩
      · rcases List.mem_cons.mp mem with rfl | later
        · exact List.mem_cons_self
        · exact List.mem_cons_of_mem _ (met k later)

structure Search (d : Draft) (fuel : Nat) (stack seen : List Nat) : Prop where
  once : stack.Nodup
  met : ∀ k ∈ stack, k ∈ seen
  seenOnce : seen.Nodup
  inside : ∀ k ∈ seen, k < d.nodes.size
  enough : d.nodes.size + stack.length ≤ fuel + seen.length

variable {fuel : Nat} {stack seen : List Nat}

namespace Search

theorem start (inside : root < d.nodes.size) : Search d d.nodes.size [root] [root] where
  once := by simp
  met := by simp
  seenOnce := by simp
  inside := by simpa using inside
  enough := Nat.le_refl _

theorem seenFew (search : Search d fuel stack seen) : seen.length ≤ d.nodes.size := by
  have subset : seen ⊆ List.range d.nodes.size := fun k mem => List.mem_range.mpr (search.inside k mem)
  simpa using List.Nodup.length_le_of_subset search.seenOnce subset

theorem next (search : Search d (fuel + 1) (key :: stack) seen) (bound : d.Bound) {new : List Nat} (once : new.Nodup)
    (fresh : ∀ k ∈ new, k ∈ d.neighbours key ∧ k ∉ seen) : Search d fuel (new ++ stack) (new ++ seen) where
  once := by
    refine List.nodup_append.mpr ⟨once, (List.nodup_cons.mp search.once).2, fun k added _ earlier same => ?_⟩
    exact (fresh k added).2 (search.met k (List.mem_cons_of_mem _ (same ▸ earlier)))
  met := fun k mem => by
    rcases List.mem_append.mp mem with added | earlier
    · exact List.mem_append_left _ added
    · exact List.mem_append_right _ (search.met k (List.mem_cons_of_mem _ earlier))
  seenOnce := by
    refine List.nodup_append.mpr ⟨once, search.seenOnce, fun k added _ earlier same => ?_⟩
    exact (fresh k added).2 (same ▸ earlier)
  inside := fun k mem => by
    rcases List.mem_append.mp mem with added | earlier
    · exact bound.neighbour (fresh k added).1
    · exact search.inside k earlier
  enough := by
    have := search.enough
    simp only [List.length_cons, List.length_append] at *
    omega

end Search

structure Visits (d : Draft) (stack seen out : List Nat) : Prop where
  once : out.Nodup
  origin : ∀ k ∈ out, k ∈ stack ∨ k ∉ seen
  all : ∀ k ∈ stack, k ∈ out
  closed : ∀ k ∈ out, ∀ target ∈ d.neighbours k, target ∈ out ∨ target ∈ seen
  least : ∀ P : Nat → Prop, (∀ k ∈ stack, P k) → (∀ k target, P k → target ∈ d.neighbours k → P target) → ∀ k ∈ out, P k

theorem reachVisits (bound : d.Bound) (search : Search d fuel stack seen) :
    Visits d stack seen (d.reachAfter fuel stack seen) := by
  induction fuel generalizing stack seen with
  | zero =>
    -- every node has been met, so none is left on the stack
    have none : stack = [] := by
      have := search.enough
      have := search.seenFew
      exact List.eq_nil_of_length_eq_zero (by omega)
    subst none
    constructor <;> simp [reachAfter]
  | succ fuel ih =>
    cases stack with
    | nil => constructor <;> simp [reachAfter]
    | cons key stack =>
      obtain ⟨new, pushed, once, fresh, met⟩ := pushNew stack seen (d.neighbours key)
      have visits := ih (search.next bound once fresh)
      have unfolded : d.reachAfter (fuel + 1) (key :: stack) seen =
          key :: d.reachAfter fuel (new ++ stack) (new ++ seen) := by
        rw [reachAfter, pushed]
      rw [unfolded]
      have keySeen : key ∈ seen := search.met key List.mem_cons_self
      constructor
      · refine List.nodup_cons.mpr ⟨fun again => ?_, visits.once⟩
        rcases visits.origin key again with onStack | notSeen
        · rcases List.mem_append.mp onStack with added | earlier
          · exact (fresh key added).2 keySeen
          · exact (List.nodup_cons.mp search.once).1 earlier
        · exact notSeen (List.mem_append_right _ keySeen)
      · intro k mem
        rcases List.mem_cons.mp mem with rfl | later
        · exact .inl List.mem_cons_self
        · rcases visits.origin k later with onStack | notSeen
          · rcases List.mem_append.mp onStack with added | earlier
            · exact .inr (fresh k added).2
            · exact .inl (List.mem_cons_of_mem _ earlier)
          · exact .inr fun seen => notSeen (List.mem_append_right _ seen)
      · intro k mem
        rcases List.mem_cons.mp mem with rfl | later
        · exact List.mem_cons_self
        · exact List.mem_cons_of_mem _ (visits.all k (List.mem_append_right _ later))
      · have known : ∀ target ∈ new ++ seen, target ∈ key :: d.reachAfter fuel (new ++ stack) (new ++ seen) ∨
            target ∈ seen := fun target mem => by
          rcases List.mem_append.mp mem with added | earlier
          · exact .inl (List.mem_cons_of_mem _ (visits.all target (List.mem_append_left _ added)))
          · exact .inr earlier
        intro k mem target leads
        rcases List.mem_cons.mp mem with rfl | later
        · exact known target (met target leads)
        · rcases visits.closed k later target leads with visited | seen
          · exact .inl (List.mem_cons_of_mem _ visited)
          · exact known target seen
      · intro P begun step k mem
        have here : P key := begun key List.mem_cons_self
        rcases List.mem_cons.mp mem with rfl | later
        · exact here
        · refine visits.least P (fun k mem => ?_) step k later
          rcases List.mem_append.mp mem with added | earlier
          · exact step key k here (fresh k added).1
          · exact begun k (List.mem_cons_of_mem _ earlier)

theorem reachNodup (bound : d.Bound) (inside : root < d.nodes.size) : (d.reach root).Nodup :=
  (reachVisits bound (.start inside)).once

theorem memReach (bound : d.Bound) (inside : root < d.nodes.size) : key ∈ d.reach root ↔ Reaches d root key := by
  have visits := reachVisits bound (.start inside)
  constructor
  · refine visits.least (Reaches d root) ?_ (fun k target here leads => here.neighbour leads) key
    intro k mem
    cases List.mem_singleton.mp mem
    exact .root
  · have first : root ∈ d.reach root := visits.all root (by simp)
    have onward : ∀ k target, k ∈ d.reach root → target ∈ d.neighbours k → target ∈ d.reach root := by
      intro k target here leads
      rcases visits.closed k here target leads with visited | seen
      · exact visited
      · cases List.mem_singleton.mp seen
        exact first
    intro reached
    induction reached with
    | root => exact first
    | successor _ next ih => exact onward _ _ ih (memNeighbours.mpr (.inr (.inr next)))
    | rule _ mem ih => exact onward _ _ ih (memNeighbours.mpr (.inl ⟨_, mem, rfl⟩))
    | action _ mem next ih => exact onward _ _ ih (memNeighbours.mpr (.inr (.inl ⟨_, mem, next⟩)))

end Dialogue.Draft
