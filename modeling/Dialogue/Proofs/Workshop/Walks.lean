import Dialogue.Proofs.Workshop.Freezing
import Dialogue.Proofs.Workshop.Mirrors

/-! Walks along a chain to where it stops. A chain that ends is walked to its last node. One that does not has come
back to a node, since only the nodes of the draft lead on, and the first node that it comes back to is the first one
on its cycle. -/
namespace Dialogue
variable {step : Nat → Option Nat} {size fuel start current stop a k : Nat} {met : List Nat} {t : Trail}

def linksOn (step : Nat → Option Nat) (start : Nat) : Nat → Option Nat
  | 0 => some start
  | n + 1 => (linksOn step start n).bind step

def OnCycle (step : Nat → Option Nat) (k : Nat) : Prop := ∃ n, 0 < n ∧ linksOn step k n = some k

structure StopsAt (step : Nat → Option Nat) (start stop : Nat) : Prop where
  ended : (∃ n, linksOn step start n = none) → ∃ n, linksOn step start n = some stop ∧ step stop = none
  endless : (∀ n, linksOn step start n ≠ none) → ∃ n, linksOn step start n = some stop ∧ OnCycle step stop ∧
    ∀ m < n, ∀ k, linksOn step start m = some k → ¬ OnCycle step k

/- The rounds of a loop that walks a chain and keeps the nodes it has met. Nothing bounds their number. -/
inductive Rounds (step : Nat → Option Nat) : List Nat → Nat → Nat → Prop where
  | again {met : List Nat} {current : Nat} (known : current ∈ met) : Rounds step met current current
  | ends {met : List Nat} {current : Nat} (unmet : current ∉ met) (nowhere : step current = none) :
      Rounds step met current current
  | onward {met : List Nat} {current after stop : Nat} (unmet : current ∉ met) (leads : step current = some after)
      (later : Rounds step (met ++ [current]) after stop) : Rounds step met current stop

theorem trailAfterRounds (outside : ∀ k, size ≤ k → step k = none) (walking : Walking step start met current)
    (enough : size < fuel + met.length) :
    Rounds step met current ((trailAfter step fuel met current).stop start) := by
  induction fuel generalizing met current with
  | zero =>
    have few := walking.few outside
    omega
  | succ fuel ih =>
    unfold trailAfter
    split
    · rename_i known
      exact .again known
    · rename_i unmet
      split
      · rename_i nowhere
        rw [Trail.stop, List.getLast?_concat, Option.getD_some]
        exact .ends unmet nowhere
      · rename_i after leads
        refine .onward unmet leads (ih (walking.next unmet leads) ?_)
        rw [List.length_append, List.length_singleton]
        omega

theorem linksOnAdd (step : Nat → Option Nat) (start m n : Nat) :
    linksOn step start (m + n) = (linksOn step start m).bind fun k => linksOn step k n := by
  induction n with
  | zero => simp [linksOn]
  | succ n ih => rw [← Nat.add_assoc, linksOn, ih, Option.bind_assoc]; rfl

namespace Trail.Walks

theorem place (walks : t.Walks step start) {n : Nat} (here : t.nodes[n]? = some a) : linksOn step start n = some a := by
  induction n generalizing a with
  | zero =>
    rw [← List.head?_eq_getElem?, walks.begins] at here
    exact here
  | succ n ih =>
    obtain ⟨inside, rfl⟩ := List.getElem?_eq_some_iff.mp here
    have before := ih (List.getElem?_eq_getElem (Nat.lt_of_succ_lt inside))
    rw [linksOn, before]
    exact List.isChain_iff_getElem.mp walks.follows n inside

theorem linksOnMem (walks : t.Walks step start) {n : Nat} (goes : linksOn step start n = some a) : a ∈ t.nodes := by
  induction n generalizing a with
  | zero => exact Option.some.inj goes ▸ walks.starts
  | succ n ih =>
    obtain ⟨b, before, leads⟩ := Option.bind_eq_some_iff.mp goes
    exact walks.closed (ih before) leads

theorem last (walks : t.Walks step start) : ∃ n last, t.nodes.length = n + 1 ∧ linksOn step start n = some last ∧
    t.nodes.getLast? = some last ∧ step last = t.reentry := by
  obtain ⟨front, last, whole⟩ := List.eq_nil_or_concat' t.nodes |>.resolve_left (List.ne_nil_of_mem walks.starts)
  have final : t.nodes.getLast? = some last := by simp [whole]
  exact ⟨front.length, last, by simp [whole], walks.place (by simp [whole]), final, walks.ends last final⟩

theorem leadsOn (walks : t.Walks step start) (mem : a ∈ t.nodes) (enters : t.reentry = some k) : step a ≠ none := by
  rcases walks.onward mem with ⟨_, b, _, _, goes⟩ | ⟨_, stops⟩
  · simp [goes]
  · simp [stops, enters]

theorem neverEnds (walks : t.Walks step start) (enters : t.reentry = some k) (n : Nat) : linksOn step start n ≠ none := by
  induction n with
  | zero => simp [linksOn]
  | succ n ih =>
    obtain ⟨a, goes⟩ := Option.ne_none_iff_exists'.mp ih
    rw [linksOn, goes]
    exact walks.leadsOn (walks.linksOnMem goes) enters

theorem placeBehind (walks : t.Walks step start) (enters : t.reentry = some k) {j p m : Nat} (before : m < j)
    (back : t.nodes[j]? = some k) (here : t.nodes[p]? = some a) (behind : m ≤ p) :
    ∃ q b, m < q ∧ t.nodes[q]? = some b ∧ step a = some b := by
  obtain ⟨inside, rfl⟩ := List.getElem?_eq_some_iff.mp here
  by_cases more : p + 1 < t.nodes.length
  · exact ⟨p + 1, _, Nat.lt_succ_of_le behind, List.getElem?_eq_getElem more,
      List.isChain_iff_getElem.mp walks.follows p more⟩
  · have final : t.nodes.getLast? = some t.nodes[p] := by
      rw [List.getLast?_eq_getElem?, ← List.getElem?_eq_getElem inside]
      congr 1
      omega
    exact ⟨j, k, before, back, (walks.ends _ final).trans enters⟩

theorem comesRound (walks : t.Walks step start) (enters : t.reentry = some k) {j : Nat}
    (back : t.nodes[j]? = some k) : OnCycle step k := by
  obtain ⟨n, last, long, goes, _, leads⟩ := walks.last
  have inside := (List.getElem?_eq_some_iff.mp back).1
  refine ⟨n + 1 - j, by omega, ?_⟩
  have around : linksOn step start (j + (n + 1 - j)) = some k := by
    rw [Nat.add_sub_cancel' (by omega), linksOn, goes]
    exact leads.trans enters
  rw [linksOnAdd, walks.place back] at around
  exact around

/- No node before that one does. Its chain only comes to places behind its own, on which no node stands twice. -/
theorem neverRound (walks : t.Walks step start) (enters : t.reentry = some k) {m j : Nat} (before : m < j)
    (back : t.nodes[j]? = some k) (here : t.nodes[m]? = some a) : ¬ OnCycle step a := by
  have beyond : ∀ n, ∃ p b, m < p ∧ t.nodes[p]? = some b ∧ linksOn step a (n + 1) = some b := by
    intro n
    induction n with
    | zero => exact walks.placeBehind enters before back here (Nat.le_refl m)
    | succ n ih =>
      obtain ⟨p, b, behind, there, goes⟩ := ih
      obtain ⟨q, c, farther, next, leads⟩ := walks.placeBehind enters before back there (Nat.le_of_lt behind)
      exact ⟨q, c, farther, next, by rw [linksOn, goes]; exact leads⟩
  rintro ⟨c, positive, comes⟩
  obtain ⟨p, b, behind, there, goes⟩ := beyond (c - 1)
  rw [Nat.sub_add_cancel positive, comes] at goes
  have inside := (List.getElem?_eq_some_iff.mp here).1
  have same := (List.getElem?_inj inside walks.once).mp (here.trans (goes.trans there.symm))
  omega

theorem stopsAt (walks : t.Walks step start) : StopsAt step start (t.stop start) := by
  obtain ⟨n, last, _, goes, final, leads⟩ := walks.last
  unfold Trail.stop
  split
  · rename_i k enters
    refine ⟨fun ⟨n, ended⟩ => absurd ended (walks.neverEnds enters n), fun _ => ?_⟩
    obtain ⟨j, back⟩ := List.getElem?_of_mem (walks.again k enters)
    refine ⟨j, walks.place back, walks.comesRound enters back, fun m earlier a goes => ?_⟩
    have inside : m < t.nodes.length := Nat.lt_trans earlier (List.getElem?_eq_some_iff.mp back).1
    have here := List.getElem?_eq_getElem inside
    obtain rfl := Option.some.inj (goes.symm.trans (walks.place here))
    exact walks.neverRound enters earlier back here
  · rename_i finite
    rw [final, Option.getD_some]
    have ended : linksOn step start (n + 1) = none := by
      rw [linksOn, goes]
      exact leads.trans finite
    exact ⟨fun _ => ⟨n, goes, leads.trans finite⟩, fun endless => absurd ended (endless (n + 1))⟩

end Trail.Walks

namespace Draft
variable {d : Draft}

theorem tailBeforeSome {goal : Nat} (apart : ¬ d.Leads start goal) :
    d.tailBefore? start goal = some (d.tail start) := by
  rw [tailBefore?, if_neg fun met => apart (memSuccessors.mp met)]
  rfl

theorem tailRounds (d : Draft) (start : Nat) : Rounds (fun k => (d.node k).next) [] start (d.tail start) :=
  trailAfterRounds (fun k far => congrArg DraftNode.next (nodeOutside d k far)) (.fresh _ start) (Nat.lt_succ_self _)

theorem headRounds (d : Draft) (start : Nat) : Rounds (fun k => (d.node k).prev) [] start (d.head start) :=
  trailAfterRounds (fun k far => congrArg DraftNode.prev (nodeOutside d k far)) (.fresh _ start) (Nat.lt_succ_self _)

theorem walksFind (d : Draft) (start : Nat) :
    Rounds (fun k => (d.node k).prev) [] start (d.head start) ∧
    StopsAt (fun k => (d.node k).prev) start (d.head start) ∧
    Rounds (fun k => (d.node k).next) [] start (d.tail start) ∧
    StopsAt (fun k => (d.node k).next) start (d.tail start) ∧
    (∀ goal, (d.tailBefore? start goal = none ↔ d.Leads start goal) ∧
      (¬ d.Leads start goal → d.tailBefore? start goal = some (d.tail start))) ∧
    d.Froze start (d.freezeChain start) :=
  ⟨d.headRounds start, (d.predecessorsWalk start).stopsAt, d.tailRounds start, (d.successorsWalk start).stopsAt,
    fun _ => ⟨tailBeforeNone, tailBeforeSome⟩, d.freezeChainFroze start⟩

theorem daysWalked : (∃ n, linksOn (fun k => (days.node k).prev) 0 n = some (days.head 0)) ∧
    (∃ n, linksOn (fun k => (days.node k).next) 0 n = some (days.tail 0) ∧
      OnCycle (fun k => (days.node k).next) (days.tail 0)) ∧ days.tail 0 = 1 ∧
    days.tailBefore? 0 2 = none ∧ days.tailBefore? 1 0 = some (days.tail 1) ∧
    ((days.freezeChain 1).node 0).frozen = false ∧ ((days.freezeChain 1).node 2).frozen = true := by
  obtain ⟨_, head, _, tail, before, _⟩ := walksFind days 0
  obtain ⟨_, _, _, _, before₁, froze⟩ := walksFind days 1
  have noon : (days.node 0).next = some 1 := rfl
  have dusk : (days.node 1).next = some 2 := rfl
  have endless : ∀ n, linksOn (fun k => (days.node k).next) 0 n ≠ none := fun n =>
    (days.successorsWalk 0).neverEnds (k := 1) (by decide) n
  have apart : ¬ days.Leads 1 0 := fun leads => by
    have met : 0 ∈ (days.successors 1).nodes := memSuccessors.mpr leads
    revert met
    decide
  obtain ⟨n, first, _⟩ := head.ended ⟨1, rfl⟩
  obtain ⟨m, goes, cycle, _⟩ := tail.endless endless
  refine ⟨⟨n, first⟩, ⟨m, goes, cycle⟩, by decide, (before 2).1.mpr ?_, (before₁ 0).2 apart, ?_, ?_⟩
  · exact .tail (.single noon) dusk
  · rw [froze.others 0 apart]
    rfl
  · rw [froze.marked 2 (by decide) (.single dusk)]

end Draft
end Dialogue
