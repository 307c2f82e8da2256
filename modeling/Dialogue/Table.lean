/-! Tables from names to entries, kept in the byte order of their names. For valid text the order of code points,
which `String` compares by, is the order of the bytes. A name stands at most once, so two tables with the same answers
are the same table (`Table.ext_get?`). -/
namespace Dialogue

def insertEntry {α : Type} (key : String) (value : α) : List (String × α) → List (String × α)
  | [] => [(key, value)]
  | (k, v) :: rest =>
    if key < k then (key, value) :: (k, v) :: rest
    else if key = k then (key, value) :: rest
    else (k, v) :: insertEntry key value rest

def lookupEntry {α : Type} (key : String) : List (String × α) → Option α
  | [] => none
  | (k, v) :: rest => if key = k then some v else lookupEntry key rest

theorem nameBefore {a b : String} (after : ¬ a < b) (other : a ≠ b) : b < a := by
  have le : b ≤ a := String.not_lt.mp after
  rcases Classical.em (b < a) with h | h
  · exact h
  · exact absurd (String.le_antisymm (String.not_lt.mp h) le) other

theorem memInsertEntry {α : Type} {key : String} {value : α} {e : String × α} {l : List (String × α)}
    (h : e ∈ insertEntry key value l) : e = (key, value) ∨ e ∈ l := by
  induction l with
  | nil => simpa [insertEntry] using h
  | cons head rest ih =>
    unfold insertEntry at h
    split at h
    · simpa using h
    · split at h
      · rcases List.mem_cons.mp h with same | inside
        · exact .inl same
        · exact .inr (List.mem_cons_of_mem _ inside)
      · rcases List.mem_cons.mp h with same | inside
        · exact .inr (same ▸ List.mem_cons_self)
        · exact (ih inside).imp id (List.mem_cons_of_mem _)

theorem insertEntryAscends {α : Type} {key : String} {value : α} {l : List (String × α)}
    (h : l.Pairwise (fun a b => a.1 < b.1)) :
    (insertEntry key value l).Pairwise (fun a b => a.1 < b.1) := by
  induction l with
  | nil => simp [insertEntry]
  | cons head rest ih =>
    obtain ⟨below, tail⟩ := List.pairwise_cons.mp h
    unfold insertEntry
    split
    · rename_i before
      refine List.pairwise_cons.mpr ⟨fun e inside => ?_, h⟩
      rcases List.mem_cons.mp inside with same | later
      · exact same ▸ before
      · exact String.lt_trans before (below e later)
    · split
      · rename_i same
        exact List.pairwise_cons.mpr ⟨fun e later => by simpa [same] using below e later, tail⟩
      · rename_i after other
        refine List.pairwise_cons.mpr ⟨fun e inside => ?_, ih tail⟩
        rcases memInsertEntry inside with same | later
        · exact same ▸ nameBefore after other
        · exact below e later

structure Table (α : Type) where
  entries : List (String × α)
  ascends : entries.Pairwise (fun a b => a.1 < b.1)
  deriving DecidableEq, Repr

namespace Table
variable {α β : Type}

def empty : Table α := ⟨[], .nil⟩

instance : Inhabited (Table α) := ⟨empty⟩

def get? (t : Table α) (key : String) : Option α := lookupEntry key t.entries

def contains (t : Table α) (key : String) : Bool := (t.get? key).isSome

def insert (t : Table α) (key : String) (value : α) : Table α :=
  ⟨insertEntry key value t.entries, insertEntryAscends t.ascends⟩

def ofList (l : List (String × α)) : Table α := l.foldl (fun t e => t.insert e.1 e.2) empty

def size (t : Table α) : Nat := t.entries.length

def isEmpty (t : Table α) : Bool := t.entries.isEmpty

def keys (t : Table α) : List String := t.entries.map (·.1)

def map (f : α → β) (t : Table α) : Table β :=
  ⟨t.entries.map fun e => (e.1, f e.2), List.pairwise_map.mpr t.ascends⟩

theorem lookupInsertSelf (key : String) (value : α) (l : List (String × α)) :
    lookupEntry key (insertEntry key value l) = some value := by
  induction l with
  | nil => simp [insertEntry, lookupEntry]
  | cons head rest ih =>
    unfold insertEntry
    split
    · simp [lookupEntry]
    · split
      · simp [lookupEntry]
      · rename_i other
        simp [lookupEntry, other, ih]

theorem lookupInsertOther {key other : String} (ne : other ≠ key) (value : α) (l : List (String × α)) :
    lookupEntry other (insertEntry key value l) = lookupEntry other l := by
  induction l with
  | nil => simp [insertEntry, lookupEntry, ne]
  | cons head rest ih =>
    unfold insertEntry
    split
    · simp [lookupEntry, ne]
    · split
      · rename_i same
        subst same
        simp [lookupEntry, ne]
      · simp [lookupEntry, ih]

@[simp] theorem get?_insert_self (t : Table α) (key : String) (value : α) :
    (t.insert key value).get? key = some value := lookupInsertSelf key value t.entries

theorem get?_insert_ne {key other : String} (ne : other ≠ key) (t : Table α) (value : α) :
    (t.insert key value).get? other = t.get? other := lookupInsertOther ne value t.entries

@[simp] theorem get?_empty (key : String) : (empty : Table α).get? key = none := rfl

theorem lookupNone {key : String} {l : List (String × α)} (h : ∀ e ∈ l, key ≠ e.1) :
    lookupEntry key l = none := by
  induction l with
  | nil => rfl
  | cons head rest ih =>
    have first := h head List.mem_cons_self
    simp [lookupEntry, first, ih fun e inside => h e (List.mem_cons_of_mem _ inside)]

theorem entriesExt {a b : List (String × α)} (ha : a.Pairwise (fun x y => x.1 < y.1))
    (hb : b.Pairwise (fun x y => x.1 < y.1)) (same : ∀ key, lookupEntry key a = lookupEntry key b) :
    a = b := by
  induction a generalizing b with
  | nil =>
    cases b with
    | nil => rfl
    | cons y ys => simpa [lookupEntry] using same y.1
  | cons x xs ih =>
    cases b with
    | nil => simpa [lookupEntry] using same x.1
    | cons y ys =>
      obtain ⟨xBelow, xTail⟩ := List.pairwise_cons.mp ha
      obtain ⟨yBelow, yTail⟩ := List.pairwise_cons.mp hb
      have key : x.1 = y.1 := by
        rcases Classical.em (x.1 = y.1) with h | h
        · exact h
        · rcases Classical.em (x.1 < y.1) with less | notLess
          · have found := same x.1
            rw [lookupNone (l := y :: ys) (fun e inside => ?_)] at found
            · simp [lookupEntry] at found
            · rcases List.mem_cons.mp inside with eq | later
              · exact eq ▸ h
              · exact fun eq => String.lt_irrefl _ (eq ▸ String.lt_trans less (yBelow e later))
          · have less := nameBefore notLess h
            have found := same y.1
            rw [lookupNone (l := x :: xs) (fun e inside => ?_)] at found
            · simp [lookupEntry] at found
            · rcases List.mem_cons.mp inside with eq | later
              · exact eq ▸ Ne.symm h
              · exact fun eq => String.lt_irrefl _ (eq ▸ String.lt_trans less (xBelow e later))
      have value : x.2 = y.2 := by simpa [lookupEntry, key] using same x.1
      have rest : xs = ys := by
        refine ih xTail yTail fun k => ?_
        rcases Classical.em (k = x.1) with eq | ne
        · rw [lookupNone fun e inside => ?_, lookupNone fun e inside => ?_]
          · exact fun h => String.lt_irrefl _ (h ▸ eq ▸ key ▸ yBelow e inside)
          · exact fun h => String.lt_irrefl _ (h ▸ eq ▸ xBelow e inside)
        · simpa [lookupEntry, ne, key ▸ ne] using same k
      rw [rest, Prod.ext key value]

theorem lookupMem {key : String} {value : α} {l : List (String × α)} (found : lookupEntry key l = some value) :
    (key, value) ∈ l := by
  induction l with
  | nil => simp [lookupEntry] at found
  | cons head rest ih =>
    unfold lookupEntry at found
    split at found
    · rename_i same
      cases Option.some.inj found
      exact same ▸ List.mem_cons_self
    · exact List.mem_cons_of_mem _ (ih found)

theorem lookupOfMem {key : String} {value : α} {l : List (String × α)}
    (ascends : l.Pairwise (fun a b => a.1 < b.1)) (mem : (key, value) ∈ l) : lookupEntry key l = some value := by
  induction l with
  | nil => simp at mem
  | cons head rest ih =>
    obtain ⟨below, tail⟩ := List.pairwise_cons.mp ascends
    rcases List.mem_cons.mp mem with same | inside
    · simp [lookupEntry, ← same]
    · have other : key ≠ head.1 := fun same => String.lt_irrefl _ (same ▸ below _ inside)
      simp [lookupEntry, other, ih tail inside]

theorem get?_eq_some_iff {t : Table α} {key : String} {value : α} :
    t.get? key = some value ↔ (key, value) ∈ t.entries :=
  ⟨lookupMem, lookupOfMem t.ascends⟩

theorem contains_iff {t : Table α} {key : String} : t.contains key = true ↔ ∃ value, t.get? key = some value := by
  simp [contains, Option.isSome_iff_exists]

theorem ext_get? {s t : Table α} (same : ∀ key, s.get? key = t.get? key) : s = t := by
  cases s
  cases t
  simpa using entriesExt ‹_› ‹_› same

end Table
end Dialogue
