import Mathlib.Data.List.FinRange
import Mathlib.Data.List.Sort
import Mathlib.Logic.Equiv.Defs
import Dialogue.Effect

/-! Effects key by key. An effect reads and writes the entry of its own key, so what a list of effects makes of one
key is told by the effects on that key alone, and of those by the last one that sets it and by the ones behind it. Two
lists with the same effects on every key, in the same order, leave one context. -/
namespace Dialogue

theorem Table.insertSame {α : Type} {t u : Table α} {key other : String} (same : t.get? other = u.get? other) (v : α) :
    (t.insert key v).get? other = (u.insert key v).get? other := by
  by_cases own : other = key
  · subst own
    rw [Table.get?_insert_self, Table.get?_insert_self]
  · rw [Table.get?_insert_ne own, Table.get?_insert_ne own, same]

namespace Effect
variable {es fs : List Effect} {e : Effect} {c d : Context} {key : String}

theorem applyOther (other : e.key ≠ key) : (e.apply c).get? key = c.get? key :=
  Table.get?_insert_ne (Ne.symm other) c _

theorem applySame (same : c.get? key = d.get? key) : (e.apply c).get? key = (e.apply d).get? key := by
  by_cases own : e.key = key
  · subst own
    show (c.insert _ _).get? _ = (d.insert _ _).get? _
    rw [same]
    exact Table.insertSame same _
  · rw [applyOther own, applyOther own, same]

theorem applyAllSame (same : c.get? key = d.get? key) (es : List Effect) :
    (applyAll es c).get? key = (applyAll es d).get? key := by
  induction es generalizing c d with
  | nil => exact same
  | cons e es ih => exact ih (applySame same)

theorem applyAllOther (others : ∀ e ∈ es, e.key ≠ key) : (applyAll es c).get? key = c.get? key := by
  induction es generalizing c with
  | nil => rfl
  | cons e es ih =>
    refine (ih fun x inside => others x (List.mem_cons_of_mem _ inside)).trans ?_
    exact applyOther (others e List.mem_cons_self)

def onKey (key : String) (es : List Effect) : List Effect := es.filter fun e => e.key = key

theorem applyAllOnKey (es : List Effect) (c : Context) (key : String) :
    (applyAll es c).get? key = (applyAll (onKey key es) c).get? key := by
  induction es generalizing c with
  | nil => rfl
  | cons e es ih =>
    by_cases own : e.key = key
    · rw [onKey, List.filter_cons_of_pos (by simpa using own)]
      exact ih (e.apply c)
    · rw [onKey, List.filter_cons_of_neg (by simpa using own)]
      exact (applyAllSame (applyOther own) es).trans (ih c)

theorem applySets (own : e.key = key) (sets : e.op = .set) : (e.apply c).get? key = some e.value := by
  subst own
  show (c.insert e.key _).get? e.key = _
  rw [Table.get?_insert_self, updated, sets]

theorem applyAllBehind (own : e.key = key) (sets : e.op = .set) (front front' back : List Effect) (c c' : Context) :
    (applyAll (front ++ e :: back) c).get? key = (applyAll (front' ++ e :: back) c').get? key := by
  rw [applyAll, applyAll, List.foldl_append, List.foldl_append]
  refine applyAllSame (c := e.apply _) (d := e.apply _) ?_ back
  rw [applySets own sets, applySets own sets]

theorem applyAllAgree (agree : ∀ key, onKey key es = onKey key fs) (c : Context) : applyAll es c = applyAll fs c := by
  refine Table.ext_get? fun key => ?_
  rw [applyAllOnKey es, applyAllOnKey fs, agree key]

def permuted (es : List Effect) (σ : Equiv.Perm (Fin es.length)) : List Effect := List.ofFn fun i => es[σ i]

/- Effects with equal keys follow each other as they did. -/
def KeepsOrder (es : List Effect) (σ : Equiv.Perm (Fin es.length)) : Prop :=
  ∀ i j, i < j → es[σ i].key = es[σ j].key → σ i < σ j

instance (es : List Effect) (σ : Equiv.Perm (Fin es.length)) : Decidable (KeepsOrder es σ) := by
  unfold KeepsOrder
  infer_instance

variable {σ τ : Equiv.Perm (Fin es.length)}

theorem KeepsOrder.places (keeps : KeepsOrder es σ) (key : String) :
    ((List.finRange es.length).filter fun i => es[σ i].key = key).map σ =
      (List.finRange es.length).filter fun i => es[i].key = key := by
  have ascends : (List.finRange es.length).Pairwise (· < ·) := (List.sortedLT_finRange _).pairwise
  refine List.Pairwise.eq_of_mem_iff (r := (· < ·)) ?_ (ascends.filter _) fun place => ?_
  · refine List.pairwise_map.mpr ((ascends.filter _).imp_of_mem fun {i j} first later before => ?_)
    have onFirst : es[σ i].key = key := by simpa using (List.mem_filter.mp first).2
    have onLater : es[σ j].key = key := by simpa using (List.mem_filter.mp later).2
    exact keeps i j before (onFirst.trans onLater.symm)
  · simp only [List.mem_map, List.mem_filter, List.mem_finRange, true_and, decide_eq_true_eq]
    constructor
    · rintro ⟨i, own, rfl⟩
      exact own
    · intro own
      exact ⟨σ.symm place, by simpa using own, by simp⟩

theorem KeepsOrder.onKey (keeps : KeepsOrder es σ) (key : String) :
    Effect.onKey key (permuted es σ) = Effect.onKey key es := by
  have listed : es = (List.finRange es.length).map fun i => es[i] := (List.map_getElem_finRange es).symm
  calc Effect.onKey key (permuted es σ)
      = ((List.finRange es.length).filter fun i => es[σ i].key = key).map fun i => es[σ i] := by
        rw [Effect.onKey, permuted, List.ofFn_eq_map, List.filter_map]
        rfl
    _ = (((List.finRange es.length).filter fun i => es[σ i].key = key).map σ).map fun i => es[i] := by
        rw [List.map_map]
        rfl
    _ = ((List.finRange es.length).filter fun i => es[i].key = key).map fun i => es[i] := by rw [keeps.places key]
    _ = Effect.onKey key es := by
        conv_rhs => rw [Effect.onKey, listed, List.filter_map]
        rfl

theorem KeepsOrder.applyAll (keeps : KeepsOrder es σ) (c : Context) :
    Effect.applyAll (permuted es σ) c = Effect.applyAll es c :=
  applyAllAgree keeps.onKey c

theorem keysApart (es : List Effect) (c : Context) :
    (∀ key, (applyAll es c).get? key = (applyAll (onKey key es) c).get? key) ∧
    (∀ front e back, es = front ++ e :: back → e.op = .set → ∀ front' c',
      (applyAll es c).get? e.key = (applyAll (front' ++ e :: back) c').get? e.key) ∧
    (∀ key, (∀ e ∈ es, e.key ≠ key) → (applyAll es c).get? key = c.get? key) ∧
    ∀ σ τ, KeepsOrder es σ → KeepsOrder es τ → applyAll (permuted es σ) c = applyAll (permuted es τ) c := by
  refine ⟨applyAllOnKey es c, ?_, fun key => applyAllOther, fun σ τ first second => ?_⟩
  · rintro front e back rfl sets front' c'
    exact applyAllBehind rfl sets front front' back c c'
  · rw [first.applyAll, second.applyAll]

def bridge : List Effect :=
  [.setting "purse" (.number (.integer 5)), .adding "mood" (.number (.integer 1)),
    .adding "purse" (.number (.integer (-2))), .setting "mood" (.number (.integer 3)),
    .adding "mood" (.number (.integer 1))]

def traveller : Context := .ofList [("mood", .string "sour"), ("name", .string "Ada")]

def bridgeSwapped : Equiv.Perm (Fin bridge.length) := Equiv.swap ⟨1, by decide⟩ ⟨2, by decide⟩

theorem bridgeApart :
    (applyAll bridge traveller).get? "purse" =
      (applyAll [.setting "purse" (.number (.integer 5)), .adding "purse" (.number (.integer (-2)))] traveller).get?
        "purse" ∧
    (applyAll bridge traveller).get? "mood" =
      (applyAll [.setting "mood" (.number (.integer 3)), .adding "mood" (.number (.integer 1))] .empty).get? "mood" ∧
    (applyAll bridge traveller).get? "name" = some (.string "Ada") ∧
    applyAll (permuted bridge bridgeSwapped) traveller = applyAll (permuted bridge (Equiv.refl _)) traveller := by
  obtain ⟨told, behind, others, orders⟩ := keysApart bridge traveller
  have swapped : KeepsOrder bridge bridgeSwapped := by decide
  have kept : KeepsOrder bridge (Equiv.refl _) := by decide
  refine ⟨told "purse", ?_, (others "name" (by decide)).trans rfl, orders _ _ swapped kept⟩
  exact behind (bridge.take 3) (.setting "mood" (.number (.integer 3))) _ rfl rfl [] .empty

end Effect
end Dialogue
