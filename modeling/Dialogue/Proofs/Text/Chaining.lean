import Dialogue.Pacing

/-! Directives in a row. All that a text learns from its directives is the pause to make and the tempo to take, and of
either the last word counts. So it is one and the same whether calls are chained on a single directive or spread over
several that stand one behind the other. -/
namespace Dialogue

inductive Tempo where
  | perChar (ms : Nat)
  | whole (ms : Nat)
  deriving DecidableEq, Repr

namespace Tempo

def time (text : String) : Tempo → Nat
  | .perChar ms => min (ms * text.length) timeLimit
  | .whole ms => ms

end Tempo

inductive PaceCall where
  | wait (ms : Nat)
  | ms (ms : Nat)
  | spread (ms : Nat)
  deriving DecidableEq, Repr

namespace PaceCall

def on (p : Pace) : PaceCall → Pace
  | .wait n => p.wait n
  | .ms n => p.ms n
  | .spread n => p.spread n

end PaceCall

namespace Pace

def built (calls : List PaceCall) : Pace := calls.foldl PaceCall.on none

def Exclusive (p : Pace) : Prop := p.msPerChar = Option.none ∨ p.duration = Option.none

def tempo (p : Pace) : Option Tempo := (p.duration.map Tempo.whole).or (p.msPerChar.map Tempo.perChar)

structure Alike (p q : Pace) : Prop where
  timeout : p.timeout = q.timeout
  tempo : p.tempo = q.tempo

variable {p q r s : Pace} {calls : List PaceCall}

@[simp] theorem mergeNone (p : Pace) : p.merge none = p := rfl

@[simp] theorem mergeTimeout (p q : Pace) : (p.merge q).timeout = q.timeout.or p.timeout := by
  obtain ⟨_ | _, _ | _, _ | _⟩ := q <;> rfl

@[simp] theorem mergeTempo (p q : Pace) : (p.merge q).tempo = q.tempo.or p.tempo := by
  obtain ⟨_ | _, _ | _, _ | _⟩ := q <;> rfl

theorem alikeSelf (p : Pace) : p.Alike p := ⟨rfl, rfl⟩

theorem Alike.symm (alike : p.Alike q) : q.Alike p := ⟨alike.timeout.symm, alike.tempo.symm⟩

theorem Alike.trans (first : p.Alike q) (second : q.Alike r) : p.Alike r :=
  ⟨first.timeout.trans second.timeout, first.tempo.trans second.tempo⟩

theorem Alike.merge (first : p.Alike q) (later : r.Alike s) : (p.merge r).Alike (q.merge s) where
  timeout := by simp [first.timeout, later.timeout]
  tempo := by simp [first.tempo, later.tempo]

theorem Alike.merged (alike : p.Alike q) (later : List Pace) :
    (later.foldl Pace.merge p).Alike (later.foldl Pace.merge q) := by
  induction later generalizing p q with
  | nil => exact alike
  | cons pace rest ih => exact ih (alike.merge (alikeSelf pace))

def heard (pace : Pace) : Option Pace → Pace
  | some p => p.merge pace
  | Option.none => pace

theorem heardAlike (pending : Option Pace) (pace : Pace) : (pace.heard pending).Alike ((pending.getD none).merge pace) where
  timeout := by cases pending <;> simp [heard, none]
  tempo := by
    cases pending with
    | none => exact ((mergeTempo none pace).trans Option.or_none).symm
    | some p => rfl

theorem segmentByTempo (p : Pace) (d : PacingDefaults) (text : String) :
    p.segment d text =
      ⟨text, (p.tempo.getD (.perChar d.msPerChar)).time text, p.timeout.getD d.timeoutMs⟩ := by
  obtain ⟨_ | _, _ | _, _ | _⟩ := p <;> rfl

theorem Alike.segment (alike : p.Alike q) (d : PacingDefaults) (text : String) :
    p.segment d text = q.segment d text := by
  rw [segmentByTempo, segmentByTempo, alike.tempo, alike.timeout]

/- A later directive is merged field by field, in an order of its own. A further call on it still has the last word. -/
theorem mergeOn (p q : Pace) (call : PaceCall) : p.merge (call.on q) = call.on (p.merge q) := by
  obtain ⟨_ | _, _ | _, _ | _⟩ := q <;> cases call <;> rfl

theorem mergeCalls (p : Pace) (calls : List PaceCall) : p.merge (built calls) = calls.foldl PaceCall.on p := by
  have last : ∀ q : Pace, p.merge (calls.foldl PaceCall.on q) = calls.foldl PaceCall.on (p.merge q) := by
    induction calls with
    | nil => exact fun _ => rfl
    | cons call rest ih =>
      intro q
      rw [List.foldl_cons, ih, mergeOn, List.foldl_cons]
  exact last none

theorem mergeBuilt (a b : List PaceCall) : (built a).merge (built b) = built (a ++ b) := by
  rw [mergeCalls, built, built, List.foldl_append]

theorem mergedBuilt (p : Pace) (groups : List (List PaceCall)) :
    (groups.map built).foldl merge p = p.merge (built groups.flatten) := by
  rw [mergeCalls, List.foldl_flatten, List.foldl_map]
  congr
  funext q group
  exact mergeCalls q group

theorem Exclusive.on (only : p.Exclusive) (call : PaceCall) : (call.on p).Exclusive := by
  cases call with
  | wait n => exact only
  | ms n => exact .inr rfl
  | spread n => exact .inl rfl

theorem builtExclusive (calls : List PaceCall) : (built calls).Exclusive := by
  have kept : ∀ p : Pace, p.Exclusive → (calls.foldl PaceCall.on p).Exclusive := by
    induction calls with
    | nil => exact fun _ only => only
    | cons call rest ih => exact fun p only => ih (call.on p) (only.on call)
  exact kept none (.inl rfl)

end Pace

namespace PacingDefaults

variable (d : PacingDefaults)

theorem segmentsDirective (pending : Option Pace) (pace : Pace) (rest : List Fragment) :
    d.segmentsAfter pending (.directive pace :: rest) = d.segmentsAfter (some (pace.heard pending)) rest := by
  cases pending <;> rfl

theorem segmentsAlike {one other : Option Pace} (fragments : List Fragment)
    (alike : (one.getD Pace.none).Alike (other.getD Pace.none)) :
    d.segmentsAfter one fragments = d.segmentsAfter other fragments := by
  induction fragments generalizing one other with
  | nil => rfl
  | cons fragment rest ih =>
    cases fragment with
    | literal text => simp only [segmentsAfter, alike.segment]
    | segment s => rfl
    | directive pace =>
      rw [segmentsDirective, segmentsDirective]
      apply ih
      have merged := alike.merge (Pace.alikeSelf pace)
      exact ((Pace.heardAlike one pace).trans merged).trans (Pace.heardAlike other pace).symm

theorem segmentsDirectives (pending : Option Pace) (paces : List Pace) (rest : List Fragment) :
    d.segmentsAfter pending (paces.map Fragment.directive ++ rest) =
      d.segmentsAfter (some (paces.foldl Pace.merge (pending.getD Pace.none))) rest := by
  induction paces generalizing pending with
  | nil => exact d.segmentsAlike rest (Pace.alikeSelf _)
  | cons pace later ih =>
    rw [List.map_cons, List.cons_append, segmentsDirective, ih]
    exact d.segmentsAlike rest ((Pace.heardAlike pending pace).merged later)

end PacingDefaults

namespace Fragment

def pendingAfter : Option Pace → List Fragment → Option Pace
  | pending, [] => pending
  | pending, .directive pace :: rest => pendingAfter (some (pace.heard pending)) rest
  | _, .literal _ :: rest => pendingAfter none rest
  | _, .segment _ :: rest => pendingAfter none rest

end Fragment

theorem PacingDefaults.segmentsBehind (d : PacingDefaults) (pending : Option Pace) (before rest : List Fragment) :
    d.segmentsAfter pending (before ++ rest) =
      d.segmentsAfter pending before ++ d.segmentsAfter (Fragment.pendingAfter pending before) rest := by
  induction before generalizing pending with
  | nil => rfl
  | cons fragment later ih =>
    cases fragment with
    | literal text =>
      by_cases blank : Text.allBlank text
      · simp only [List.cons_append, segmentsAfter, blank, if_true, ih, Fragment.pendingAfter]
      · simp only [List.cons_append, segmentsAfter, blank, if_false, ih, Fragment.pendingAfter, Bool.false_eq_true]
    | segment s => simp only [List.cons_append, segmentsAfter, ih, Fragment.pendingAfter]
    | directive pace => rw [List.cons_append, segmentsDirective, segmentsDirective, ih, Fragment.pendingAfter]

open Pace in
theorem chainedOrInRow :
    (∀ groups : List (List PaceCall), (groups.map built).foldl merge none = built groups.flatten) ∧
    (∀ a b c : List PaceCall, ((built a).merge (built b)).merge (built c) = (built a).merge ((built b).merge (built c))) ∧
    (∀ a : List PaceCall, none.merge (built a) = built a ∧ (built a).merge none = built a) ∧
    (∀ a b : List PaceCall, (built a).Exclusive ∧ ((built a).merge (built b)).Exclusive) ∧
    ∀ (d : PacingDefaults) (before after : List Fragment) (groups : List (List PaceCall)),
      d.segments (before ++ groups.map (fun group => .directive (built group)) ++ after) =
        d.segments (before ++ .directive (built groups.flatten) :: after) := by
  refine ⟨?_, ?_, ?_, ?_, ?_⟩
  · intro groups
    exact (mergedBuilt none groups).trans (mergeCalls none groups.flatten)
  · intro a b c
    simp only [mergeBuilt, List.append_assoc]
  · exact fun a => ⟨mergeCalls none a, mergeNone (built a)⟩
  · intro a b
    rw [mergeBuilt]
    exact ⟨builtExclusive a, builtExclusive (a ++ b)⟩
  · intro d before after groups
    have among : ∀ paces : List Pace, d.segments (before ++ (paces.map .directive ++ after)) = d.segments before ++
        d.segmentsAfter (some (paces.foldl merge ((Fragment.pendingAfter .none before).getD none))) after := by
      intro paces
      rw [PacingDefaults.segments, d.segmentsBehind, d.segmentsDirectives, PacingDefaults.segments]
    have row : groups.map (fun group => Fragment.directive (built group)) = (groups.map built).map .directive := by simp
    rw [List.append_assoc, row, among, mergedBuilt]
    exact (among [built groups.flatten]).symm

end Dialogue
