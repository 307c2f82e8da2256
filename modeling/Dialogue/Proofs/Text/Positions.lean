import Dialogue.Proofs.Text.Chaining
import Mathlib.Data.List.DropRight

/-! Segments by position. The compiler keeps the directives it has heard until a literal or a finished segment comes
and takes them. What comes of it can be told without that: each fragment gives its segment by itself, from the run of
directives right before it. -/
namespace Dialogue

namespace Fragment

def pace? : Fragment → Option Pace
  | .directive pace => some pace
  | .literal _ => none
  | .segment _ => none

def isDirective (f : Fragment) : Bool := f.pace?.isSome

def runAtEnd (fragments : List Fragment) : List Pace := (fragments.rtakeWhile isDirective).filterMap pace?

end Fragment

def Pace.lastWait (run : List Pace) : Option Nat := (run.filterMap Pace.timeout).getLast?

def Pace.lastTempo (run : List Pace) : Option Tempo := (run.filterMap Pace.tempo).getLast?

namespace PacingDefaults

variable (d : PacingDefaults)

def tempoFor (run : List Pace) : Tempo := (Pace.lastTempo run).getD (.perChar d.msPerChar)

def paced (run : List Pace) (text : String) : Segment where
  text := text
  duration := (d.tempoFor run).time text
  timeout := (Pace.lastWait run).getD d.timeoutMs

def segmentAt (before : List Fragment) : Fragment → Option Segment
  | .literal text => if text.toList.any fun c => ! Text.isBlank c then some (d.paced (Fragment.runAtEnd before) text) else none
  | .segment s => some s
  | .directive _ => none

end PacingDefaults

structure Pace.Reads (pending : Option Pace) (run : List Pace) : Prop where
  timeout : (pending.getD none).timeout = lastWait run
  tempo : (pending.getD none).tempo = lastTempo run

variable {pending : Option Pace} {pace : Pace} {run : List Pace} {before fragments : List Fragment} {f : Fragment}

theorem Pace.readsNothing : Reads .none [] := ⟨rfl, rfl⟩

theorem Pace.lastOf {α : Type} (read : Pace → Option α) (run : List Pace) (pace : Pace) :
    ((run ++ [pace]).filterMap read).getLast? = (read pace).or (run.filterMap read).getLast? := by
  cases word : read pace <;> simp [word]

theorem Pace.Reads.heard (reads : Reads pending run) (pace : Pace) : Reads (some (pace.heard pending)) (run ++ [pace]) where
  timeout := by
    have merged := (heardAlike pending pace).timeout
    rw [mergeTimeout, reads.timeout] at merged
    exact merged.trans (lastOf Pace.timeout run pace).symm
  tempo := by
    have merged := (heardAlike pending pace).tempo
    rw [mergeTempo, reads.tempo] at merged
    exact merged.trans (lastOf Pace.tempo run pace).symm

theorem Pace.Reads.segment (reads : Reads pending run) (d : PacingDefaults) (text : String) :
    (pending.getD none).segment d text = d.paced run text := by
  rw [segmentByTempo, reads.tempo, reads.timeout]
  rfl

theorem Fragment.runAfterDirective (before : List Fragment) (pace : Pace) :
    runAtEnd (before ++ [.directive pace]) = runAtEnd before ++ [pace] := by
  rw [runAtEnd, List.rtakeWhile_concat_pos _ _ _ rfl, List.filterMap_append]
  rfl

theorem Fragment.runAfterOther (before : List Fragment) (other : f.isDirective = false) : runAtEnd (before ++ [f]) = [] := by
  rw [runAtEnd, List.rtakeWhile_concat_neg _ _ _ (by simp [other])]
  rfl

theorem Fragment.pendingAfterOther (pending : Option Pace) (before : List Fragment) (other : f.isDirective = false) :
    pendingAfter pending (before ++ [f]) = none := by
  induction before generalizing pending with
  | nil =>
    cases f with
    | directive pace => nomatch other
    | literal text => rfl
    | segment s => rfl
  | cons g rest ih => cases g <;> exact ih _

theorem Fragment.pendingAfterWhole (ends : ∀ pace, fragments.getLast? ≠ some (.directive pace)) :
    pendingAfter none fragments = none := by
  rcases List.eq_nil_or_concat' fragments with rfl | ⟨before, f, rfl⟩
  · rfl
  · cases f with
    | directive pace => exact absurd List.getLast?_concat (ends pace)
    | literal text => exact pendingAfterOther none before rfl
    | segment s => exact pendingAfterOther none before rfl

namespace PacingDefaults

theorem seenOrBlank (text : String) : (text.toList.any fun c => ! Text.isBlank c) = ! Text.allBlank text := by
  simp [Text.allBlank, List.all_eq_not_any_not]

theorem segmentsByPosition (d : PacingDefaults) (before fragments : List Fragment)
    (reads : Pace.Reads pending (Fragment.runAtEnd before)) :
    d.segmentsAfter pending fragments = (fragments.zipIdx before.length).filterMap fun f =>
      d.segmentAt ((before ++ fragments).take f.2) f.1 := by
  induction fragments generalizing before pending with
  | nil => rfl
  | cons fragment rest ih =>
    have behind : ∀ {next : Option Pace}, Pace.Reads next (Fragment.runAtEnd (before ++ [fragment])) →
        d.segmentsAfter next rest = (rest.zipIdx (before.length + 1)).filterMap fun f =>
          d.segmentAt ((before ++ fragment :: rest).take f.2) f.1 := by
      intro next reads
      simpa using ih (before ++ [fragment]) reads
    rw [List.zipIdx_cons, List.filterMap_cons, List.take_left]
    cases fragment with
    | directive pace =>
      rw [segmentsDirective, segmentAt]
      exact behind (by rw [Fragment.runAfterDirective]; exact reads.heard pace)
    | segment s =>
      rw [segmentsAfter, behind (by rw [Fragment.runAfterOther before rfl]; exact Pace.readsNothing)]
      rfl
    | literal text =>
      have taken := behind (by rw [Fragment.runAfterOther before rfl]; exact Pace.readsNothing)
      by_cases blank : Text.allBlank text
      · simp [segmentsAfter, segmentAt, seenOrBlank, blank, taken]
      · simp [segmentsAfter, segmentAt, seenOrBlank, blank, taken, reads.segment]

theorem msPerCharBack {d : PacingDefaults} {text : String} {ms : Nat} (seen : text.length ≠ 0)
    (perChar : d.tempoFor run = .perChar ms) (small : ms * text.length ≤ timeLimit) :
    (d.paced run text).msPerChar = ms := by
  have time : (d.paced run text).duration = ms * text.length := by
    rw [paced, perChar, Tempo.time, min_eq_left small]
  have same : (d.paced run text).text = text := rfl
  rw [Segment.msPerChar, time, same, if_neg seen]
  exact Nat.mul_div_cancel ms (Nat.pos_of_ne_zero seen)

theorem seenLength {text : String} (seen : (text.toList.any fun c => ! Text.isBlank c) = true) : text.length ≠ 0 := by
  obtain ⟨c, among, -⟩ := List.any_eq_true.mp seen
  rw [← String.length_toList]
  exact Nat.ne_of_gt (List.length_pos_of_mem among)

theorem segmentsPositional (d : PacingDefaults) :
    (∀ fragments : List Fragment, d.segments fragments =
      fragments.zipIdx.filterMap fun f => d.segmentAt (fragments.take f.2) f.1) ∧
    (∀ a b : List Fragment, (∀ pace, a.getLast? ≠ some (.directive pace)) → d.segments (a ++ b) = d.segments a ++ d.segments b) ∧
    ∀ (before : List Fragment) (text : String) (s : Segment) (ms : Nat), d.segmentAt before (.literal text) = some s →
      d.tempoFor (Fragment.runAtEnd before) = .perChar ms → ms * text.length ≤ timeLimit → s.msPerChar = ms := by
  refine ⟨?_, ?_, ?_⟩
  · intro fragments
    exact d.segmentsByPosition [] fragments Pace.readsNothing
  · intro a b ends
    rw [segments, segmentsBehind, Fragment.pendingAfterWhole ends]
    rfl
  · intro before text s ms given perChar small
    rw [segmentAt] at given
    split at given
    · next seen =>
      cases given
      exact msPerCharBack (seenLength seen) perChar small
    · contradiction

theorem callsPositional :
    (segments {} [.directive (Pace.none.ms 80), .literal "Ahoy", .directive (Pace.none.wait 9), .literal " ", .literal "Ahoy"] =
      segments {} [.directive (Pace.none.ms 80), .literal "Ahoy", .directive (Pace.none.wait 9), .literal " "] ++
        segments {} [.literal "Ahoy"]) ∧
      (paced {} [Pace.none.ms 80] "Ahoy").msPerChar = 80 :=
  ⟨(segmentsPositional {}).2.1 [.directive (Pace.none.ms 80), .literal "Ahoy", .directive (Pace.none.wait 9), .literal " "]
      [.literal "Ahoy"] (by simp),
    (segmentsPositional {}).2.2 [.directive (Pace.none.ms 80)] "Ahoy" _ 80 rfl rfl (by decide)⟩

end PacingDefaults

end Dialogue
