import Mathlib.Data.String.Basic
import Dialogue.Player
import Dialogue.Proofs.Play.Listening
import Dialogue.Proofs.Play.Safety
import Dialogue.Proofs.Story.Saving

/-! The player drives a play, and does nothing else to it. `Drives` says without the player what the lines of an input
make of a play; the rounds of a run are those of such a drive. -/
namespace Dialogue.Player
open Play

inductive Lines : List Char → List String → Prop where
  | none : Lines [] []
  | last {line : List Char} (text : line ≠ []) (whole : '\n' ∉ line) : Lines line [String.ofList line]
  | line {line rest : List Char} {lines : List String} (whole : '\n' ∉ line) (behind : Lines rest lines) :
      Lines (line ++ '\n' :: rest) (String.ofList line :: lines)

inductive Numbers : List Char → Nat → Prop where
  | plain {digits : List Char} (given : digits ≠ []) (all : ∀ c ∈ digits, c.isDigit = true) :
      Numbers digits (Decimal.valueOf digits)
  | plus {digits : List Char} (given : digits ≠ []) (all : ∀ c ∈ digits, c.isDigit = true) :
      Numbers ('+' :: digits) (Decimal.valueOf digits)

/- What comes of a line that does not quit. Any of them ends the reveal of a segment. Of the actions on offer, which are
counted from one, it takes the one whose number it is, and nothing comes of it where it is the number of none. -/
inductive Answered (story : Story) (s : State) (out : Output) (line : String) :
    Except PlayError (State × Output) → Prop where
  | revealed (reads : out.segment ≠ none) : Answered story s out line (step story s (.revealed s.ticket)).result
  | chosen {k : Nat} {offer : Offer} (number : Numbers line.toList (k + 1)) (offered : out.actions[k]? = some offer) :
      Answered story s out line (step story s (.select offer.id)).result
  | unchosen (asked : out.actions ≠ [])
      (other : ∀ k, Numbers line.toList k → ¬ (1 ≤ k ∧ k ≤ out.actions.length)) :
      Answered story s out line (.ok (s, out))

inductive Ending where
  | finished
  | closed
  | quit
  | failed (e : PlayError)

/- What lines make of a play: where it stands as each of them is asked for, with what is shown there, and how it ends. -/
inductive Drives (story : Story) : State × Output → List String → List (State × Output) → Ending → Prop where
  | finished {s : State} {out : Output} {lines : List String} (done : s.finished = true) :
      Drives story (s, out) lines [(s, out)] .finished
  | closed {s : State} {out : Output} (goesOn : s.finished = false) : Drives story (s, out) [] [(s, out)] .closed
  | quit {s : State} {out : Output} {lines : List String} (goesOn : s.finished = false) :
      Drives story (s, out) ("q" :: lines) [(s, out)] .quit
  | failed {s : State} {out : Output} {line : String} {lines : List String} {e : PlayError}
      (goesOn : s.finished = false) (other : line ≠ "q") (answer : Answered story s out line (.error e)) :
      Drives story (s, out) (line :: lines) [(s, out)] (.failed e)
  | line {s : State} {out : Output} {line : String} {lines : List String} {next : State × Output}
      {seen : List (State × Output)} {ending : Ending} (goesOn : s.finished = false) (other : line ≠ "q")
      (answer : Answered story s out line (.ok next)) (rest : Drives story next lines seen ending) :
      Drives story (s, out) (line :: lines) ((s, out) :: seen) ending

def Ending.code : Ending → Nat
  | .failed _ => 1
  | _ => 0

structure Exits (result : RunResult) (ending : Ending) : Prop where
  code : result.code = ending.code
  why : ∀ e, ending = .failed e → ∃ before, result.stderr = before ++ errorText e.message

def showing (story : Story) (filter : NoticeFilter) (now : State × Output) : Session := ⟨story, now.1, now.2, filter⟩

def Driven (story : Story) (filter : NoticeFilter) (now : State × Output) (lines : List String)
    (course : Course) : Prop :=
  ∃ seen ending, Drives story now lines seen ending ∧ course.rounds = seen.map (showing story filter) ∧
    Exits course.result ending

structure Stands (story : Story) (now : State × Output) : Prop where
  on : ∃ node, On story node now.1
  shows : ∃ entered stale, now.2 = describe story entered stale now.1

variable {story : Story} {filter : NoticeFilter} {now next : State × Output} {line : String} {lines : List String}
  {seen : List (State × Output)} {ending : Ending} {cs : List Char}

theorem everyInput (cs : List Char) : ∃ lines, Lines cs lines := by
  induction cs with
  | nil => exact ⟨_, .none⟩
  | cons c cs ih =>
    obtain ⟨lines, spelled⟩ := ih
    by_cases ends : c = '\n'
    · subst ends
      exact ⟨_, .line List.not_mem_nil spelled⟩
    · have other : '\n' ≠ c := Ne.symm ends
      cases spelled with
      | none => exact ⟨_, .last (List.cons_ne_nil _ _) (by simp [other])⟩
      | last text whole => exact ⟨_, .last (List.cons_ne_nil _ _) (by simp [whole, other])⟩
      | line whole behind => exact ⟨_, .line (List.not_mem_cons_of_ne_of_not_mem other whole) behind⟩

theorem wholeLine {line : List Char} (whole : '\n' ∉ line) : line.splitOnP (· == '\n') = [line] :=
  List.splitOnP_eq_singleton fun c mem => by simpa using fun same : c = '\n' => whole (same ▸ mem)

def unended (parts : List String) : List String := if parts.getLast? = some "" then parts.dropLast else parts

theorem unendedCons {parts : List String} (more : parts ≠ []) (part : String) :
    unended (part :: parts) = part :: unended parts := by
  unfold unended
  rw [List.getLast?_cons_of_ne_nil more, List.dropLast_cons_of_ne_nil more]
  split <;> rfl

theorem Lines.parts (spelled : Lines cs lines) : unended ((cs.splitOnP (· == '\n')).map String.ofList) = lines := by
  induction spelled with
  | none => rfl
  | last text whole =>
    rw [wholeLine whole]
    simp [unended, text]
  | @line line rest lines whole behind ih =>
    rw [List.splitOnP_append_cons _ _ (by rfl), wholeLine whole, List.singleton_append, List.map_cons, unendedCons, ih]
    simp

theorem Lines.of {input : String} (spelled : Lines input.toList lines) : linesOf input = lines.map Text.trim := by
  have parts := spelled.parts
  rw [← String.splitToList_of_valid] at parts
  exact congrArg (List.map Text.trim) parts

theorem digitsNumber {digits : List Char} {k : Nat} :
    (if digits.isEmpty ∨ !digits.all Char.isDigit then none else some (Decimal.valueOf digits)) = some k ↔
      digits ≠ [] ∧ (∀ c ∈ digits, c.isDigit = true) ∧ Decimal.valueOf digits = k := by
  split
  · rename_i empty
    constructor
    · intro same
      contradiction
    · intro ⟨given, all, _⟩
      simp [given, List.all_eq_true.mpr all] at empty
  · rename_i number
    simp only [List.isEmpty_iff, Bool.not_eq_true', not_or, Bool.not_eq_false, List.all_eq_true] at number
    constructor
    · intro same
      exact ⟨number.1, number.2, Option.some.inj same⟩
    · intro ⟨_, _, same⟩
      exact congrArg some same

theorem numberOf {k : Nat} : number? line = some k ↔ Numbers line.toList k := by
  unfold number?
  dsimp only
  rw [digitsNumber]
  split
  · rename_i rest signed
    rw [signed]
    constructor
    · intro ⟨given, all, same⟩
      exact same ▸ .plus given all
    · intro number
      cases number with
      | plain given all => simpa using all '+' List.mem_cons_self
      | plus given all => exact ⟨given, all, rfl⟩
  · rename_i unsigned
    constructor
    · intro ⟨given, all, same⟩
      exact same ▸ .plain given all
    · intro number
      generalize line.toList = cs at unsigned number ⊢
      cases number with
      | plain given all => exact ⟨given, all, rfl⟩
      | plus given all => exact absurd rfl (unsigned _)

theorem pickedSome {offers : List Offer} {offer : Offer} :
    picked? offers line = some offer ↔ ∃ k, Numbers line.toList (k + 1) ∧ offers[k]? = some offer := by
  unfold picked?
  constructor
  · intro picked
    split at picked
    · rename_i k number
      exact ⟨k, numberOf.mp number, picked⟩
    · contradiction
  · intro ⟨k, number, offered⟩
    rw [numberOf.mpr number]
    exact offered

theorem pickedNone {offers : List Offer} :
    picked? offers line = none ↔ ∀ k, Numbers line.toList k → ¬ (1 ≤ k ∧ k ≤ offers.length) := by
  constructor
  · intro none k number ⟨first, last⟩
    obtain ⟨k, rfl⟩ := Nat.exists_eq_add_of_le' first
    have picked := pickedSome.mpr ⟨k, number, List.getElem?_eq_getElem last⟩
    rw [none] at picked
    contradiction
  · intro other
    refine Option.eq_none_iff_forall_ne_some.mpr fun offer picked => ?_
    obtain ⟨k, number, offered⟩ := pickedSome.mp picked
    obtain ⟨last, _⟩ := List.getElem?_eq_some_iff.mp offered
    exact other _ number ⟨Nat.succ_pos k, last⟩

inductive Passes (story : Story) (filter : NoticeFilter) : Outcome → Except PlayError (State × Output) → Prop where
  | goOn (text : String) (told : List Notice) (next : State × Output) :
      Passes story filter (.goOn text told (showing story filter next)) (.ok next)
  | failed (text : String) (told : List Notice) (e : PlayError) : Passes story filter (.failed text told e) (.error e)

theorem appliedResult (story : Story) (filter : NoticeFilter) (now : State × Output) (event : Event) :
    ((showing story filter now).apply event).result = (step story now.1 event).result.map (showing story filter) := by
  have same := (Told.Impartial.step story now.1 event).plainly filter
  exact congrArg (Except.map (showing story filter)) same

theorem revealPasses (other : line ≠ quitWord) :
    Passes story filter (endReveal (showing story filter now) line)
      (step story now.1 (.revealed now.1.ticket)).result := by
  have applied : (showing story filter now).complete.result = _ :=
    appliedResult story filter now (.revealed now.1.ticket)
  simp only [endReveal, if_neg other, applied]
  cases (step story now.1 (.revealed now.1.ticket)).result with
  | error e => exact .failed _ _ e
  | ok next => exact .goOn _ _ next

theorem choicePasses (other : line ≠ quitWord) (asked : now.2.actions ≠ []) :
    ∃ answer, Answered story now.1 now.2 line answer ∧
      Passes story filter (answerChoice (showing story filter now) line) answer := by
  unfold answerChoice
  rw [if_neg other]
  cases picked : picked? now.2.actions line with
  | none =>
    refine ⟨_, .unchosen asked (pickedNone.mp picked), ?_⟩
    simp only [showing, picked]
    exact .goOn _ _ now
  | some offer =>
    obtain ⟨k, number, offered⟩ := pickedSome.mp picked
    refine ⟨_, .chosen number offered, ?_⟩
    have applied : ((showing story filter now).select offer.id).result = _ :=
      appliedResult story filter now (.select offer.id)
    have picked : picked? (showing story filter now).output.actions line = some offer := picked
    simp only [picked, applied]
    cases (step story now.1 (.select offer.id)).result with
    | error e => exact .failed _ _ e
    | ok next => exact .goOn _ _ next

theorem startStands (closed : story.Closed) {context : Context} (ok : (start story context).result = .ok now) :
    Stands story now := by
  obtain ⟨s, out⟩ := now
  obtain ⟨entered, routed, shows⟩ := startRouted ok
  exact ⟨routedOn closed routed, entered, false, shows⟩

theorem Stands.stepped (closed : story.Closed) (stands : Stands story now) {event : Event}
    (ok : (step story now.1 event).result = .ok next) : Stands story next := by
  obtain ⟨s, out⟩ := next
  obtain ⟨m, moves, rfl, shows⟩ := stepMoves ok
  obtain ⟨node, on⟩ := stands.on
  exact ⟨on.moved closed moves, m.entered, m.stale, shows⟩

theorem Stands.answered (closed : story.Closed) (stands : Stands story now) {answer : Except PlayError (State × Output)}
    (answered : Answered story now.1 now.2 line answer) (ok : answer = .ok next) : Stands story next := by
  cases answered with
  | revealed reads => exact stands.stepped closed ok
  | chosen number offered => exact stands.stepped closed ok
  | unchosen asked other =>
    cases ok
    exact stands

theorem Stands.ways (stands : Stands story now) :
    now.1.finished = true ∨
    now.1.finished = false ∧ now.2.segment ≠ none ∧ now.2.actions = [] ∨
    now.1.finished = false ∧ now.2.segment = none ∧ now.2.actions ≠ [] := by
  obtain ⟨node, on⟩ := stands.on
  obtain ⟨entered, stale, shows⟩ := stands.shows
  have ways := on.describe entered stale
  have same : now.2.finished = now.1.finished := by rw [shows]; rfl
  rw [← shows, Output.OneWayOn, same] at ways
  rcases ways with ⟨reads, none, goesOn⟩ | ⟨none, asked, goesOn⟩ | ⟨_, _, done⟩
  · exact .inr (.inl ⟨goesOn, reads, none⟩)
  · exact .inr (.inr ⟨goesOn, none, asked⟩)
  · exact .inl done

theorem Stands.asks (stands : Stands story now) :
    now.1.finished = true ∧ screen (showing story filter now) = .ended ∨
    now.1.finished = false ∧ ∃ text,
      screen (showing story filter now) = .segment text ∨ screen (showing story filter now) = .choice text := by
  unfold screen
  rcases stands.ways with done | ⟨goesOn, reads, none⟩ | ⟨goesOn, none, asked⟩
  · exact .inl ⟨done, by simp [showing, done]⟩
  · obtain ⟨segment, reads⟩ := Option.ne_none_iff_exists'.mp reads
    exact .inr ⟨goesOn, segment.text, .inl (by simp [showing, goesOn, none, reads])⟩
  · exact .inr ⟨goesOn, menu now.2.actions, .inr (by simp [showing, goesOn, asked])⟩

theorem Stands.shown (stands : Stands story now) : screen (showing story filter now) ≠ .nothing := by
  rcases stands.asks with ⟨_, shows⟩ | ⟨_, text, shows | shows⟩ <;> rw [shows] <;> nofun

section
variable {s : State} {out : Output} {answer other : Except PlayError (State × Output)}

theorem Answered.reads (answered : Answered story s out line answer) (none : out.actions = []) :
    answer = (step story s (.revealed s.ticket)).result := by
  cases answered with
  | revealed => rfl
  | chosen number offered => simp [none] at offered
  | unchosen asked => contradiction

theorem Answered.asked (answered : Answered story s out line answer) (unread : out.segment = none) :
    answer = (picked? out.actions line).elim (.ok (s, out)) fun offer => (step story s (.select offer.id)).result := by
  cases answered with
  | revealed reads => contradiction
  | chosen number offered => rw [pickedSome.mpr ⟨_, number, offered⟩, Option.elim_some]
  | unchosen asked other => rw [pickedNone.mpr other, Option.elim_none]

theorem Answered.only (stands : Stands story (s, out)) (goesOn : s.finished = false)
    (one : Answered story s out line answer) (again : Answered story s out line other) : answer = other := by
  rcases stands.ways with done | ⟨_, _, none⟩ | ⟨_, unread, _⟩
  · simp [goesOn] at done
  · rw [one.reads none, again.reads none]
  · rw [one.asked unread, again.asked unread]

end

theorem Drives.length (drives : Drives story now lines seen ending) : seen.length ≤ lines.length + 1 := by
  induction drives with
  | finished => exact Nat.le_add_left _ _
  | closed => exact Nat.le_refl _
  | quit => exact Nat.le_add_left _ _
  | failed => exact Nat.le_add_left _ _
  | line _ _ _ _ ih => exact Nat.succ_le_succ ih

theorem Drives.stands (closed : story.Closed) (drives : Drives story now lines seen ending)
    (stands : Stands story now) : ∀ t ∈ seen, Stands story t := by
  induction drives with
  | finished | closed | quit | failed => simpa using stands
  | line _ _ answer _ ih => exact List.forall_mem_cons.mpr ⟨stands, ih (stands.answered closed answer rfl)⟩

theorem Drives.only (closed : story.Closed) (stands : Stands story now) {seen' : List (State × Output)}
    {ending' : Ending} (one : Drives story now lines seen ending) (other : Drives story now lines seen' ending') :
    seen' = seen ∧ ending' = ending := by
  -- on the first drive: the other one can only end where it ends
  induction one generalizing seen' with
  | finished done =>
    cases other with
    | finished => exact ⟨rfl, rfl⟩
    | closed goesOn | quit goesOn | failed goesOn | line goesOn => simp [done] at goesOn
  | closed goesOn =>
    cases other with
    | finished done => simp [goesOn] at done
    | closed => exact ⟨rfl, rfl⟩
  | quit goesOn =>
    cases other with
    | finished done => simp [goesOn] at done
    | quit => exact ⟨rfl, rfl⟩
    | failed _ word | line _ word => contradiction
  | failed goesOn word answer =>
    cases other with
    | finished done => simp [goesOn] at done
    | quit => contradiction
    | failed _ _ answer' =>
      cases answer'.only stands goesOn answer
      exact ⟨rfl, rfl⟩
    | line _ _ answer' => cases answer'.only stands goesOn answer
  | line goesOn word answer rest ih =>
    cases other with
    | finished done => simp [goesOn] at done
    | quit => contradiction
    | failed _ _ answer' => cases answer'.only stands goesOn answer
    | line _ _ answer' rest' =>
      cases answer'.only stands goesOn answer
      obtain ⟨rfl, rfl⟩ := ih (stands.answered closed answer rfl) rest'
      exact ⟨rfl, rfl⟩

theorem Exits.shown {result : RunResult} (exits : Exits result ending) (out err : String) :
    Exits (Player.shown out err result) ending where
  code := exits.code
  why := by
    intro e failed
    obtain ⟨before, ends⟩ := exits.why e failed
    exact ⟨err ++ before, by rw [Player.shown, ends, String.append_assoc]⟩

theorem failedExits (out err : String) (e : PlayError) : Exits ⟨out, err ++ errorText e.message, 1⟩ (.failed e) :=
  ⟨rfl, fun _ same => Ending.failed.inj same ▸ ⟨err, rfl⟩⟩

theorem takePasses (filter : NoticeFilter) (stands : Stands story now) (goesOn : now.1.finished = false)
    (other : line ≠ quitWord) : ∃ answer, Answered story now.1 now.2 line answer ∧
      Passes story filter (take (showing story filter now) line) answer := by
  have taken : take (showing story filter now) line = if now.2.actions.isEmpty then
      endReveal (showing story filter now) line else answerChoice (showing story filter now) line := rfl
  rw [taken]
  rcases stands.ways with done | ⟨_, reads, none⟩ | ⟨_, _, asked⟩
  · rw [goesOn] at done
    contradiction
  · rw [if_pos (List.isEmpty_iff.mpr none)]
    exact ⟨_, .revealed reads, revealPasses other⟩
  · rw [if_neg (by simpa using asked)]
    exact choicePasses other asked

theorem takeQuits (s : Session) : ∃ text, take s quitWord = .quit text := by
  unfold take
  split
  · exact ⟨_, rfl⟩
  · exact ⟨_, rfl⟩

section
variable {debug : Bool} {time : String} {s : Session}

theorem runEnded (ended : screen s = .ended) (lines : List String) :
    ∃ err, run debug time lines s = ⟨[s], ⟨theEnd, err, 0⟩⟩ := by
  unfold run
  rw [ended]
  exact ⟨_, rfl⟩

theorem runClosed {text : String} (asks : screen s = .segment text ∨ screen s = .choice text) :
    ∃ err, run debug time [] s = ⟨[s], ⟨text, err, 0⟩⟩ := by
  unfold run
  rcases asks with asks | asks <;> rw [asks] <;> exact ⟨_, rfl⟩

theorem runLine {text : String} (asks : screen s = .segment text ∨ screen s = .choice text) (line : String)
    (lines : List String) : ∃ err, run debug time (line :: lines) s =
      ⟨s :: (continued debug time (run debug time lines) (take s line)).rounds,
        shown text err (continued debug time (run debug time lines) (take s line)).result⟩ := by
  unfold run
  rcases asks with asks | asks <;> rw [asks] <;> exact ⟨_, rfl⟩

end

theorem roundDriven (closed : story.Closed) (stands : Stands story now) (goesOn : now.1.finished = false)
    {rest : Session → Course}
    (onward : ∀ next, Stands story next → Driven story filter next lines (rest (showing story filter next)))
    (debug : Bool) (time line text err : String) :
    Driven story filter now (line :: lines)
      ⟨showing story filter now :: (continued debug time rest (take (showing story filter now) line)).rounds,
        shown text err (continued debug time rest (take (showing story filter now) line)).result⟩ := by
  by_cases quits : line = quitWord
  · subst quits
    obtain ⟨farewell, taken⟩ := takeQuits (showing story filter now)
    rw [taken]
    exact ⟨[now], .quit, .quit goesOn, rfl, rfl, nofun⟩
  · obtain ⟨answer, answered, passes⟩ := takePasses filter stands goesOn quits
    generalize take (showing story filter now) line = outcome at passes ⊢
    cases passes with
    | goOn before told next =>
      obtain ⟨seen, ending, drives, rounds, exits⟩ := onward next (stands.answered closed answered rfl)
      refine ⟨now :: seen, ending, .line goesOn quits answered drives, ?_, ?_⟩
      · exact congrArg (showing story filter now :: ·) rounds
      · exact (exits.shown _ _).shown text err
    | failed before told e =>
      have exits := failedExits before (noticeText debug time told) e
      exact ⟨[now], .failed e, .failed goesOn quits answered, rfl, exits.shown text err⟩

theorem runDriven (closed : story.Closed) (filter : NoticeFilter) (debug : Bool) (time : String) (lines : List String)
    (stands : Stands story now) : Driven story filter now lines (run debug time lines (showing story filter now)) := by
  induction lines generalizing now with
  | nil =>
    rcases stands.asks with ⟨done, ended⟩ | ⟨goesOn, text, asks⟩
    · obtain ⟨err, same⟩ := runEnded ended []
      exact same ▸ ⟨[now], .finished, .finished done, rfl, rfl, nofun⟩
    · obtain ⟨err, same⟩ := runClosed asks
      exact same ▸ ⟨[now], .closed, .closed goesOn, rfl, rfl, nofun⟩
  | cons line lines ih =>
    rcases stands.asks with ⟨done, ended⟩ | ⟨goesOn, text, asks⟩
    · obtain ⟨err, same⟩ := runEnded ended (line :: lines)
      exact same ▸ ⟨[now], .finished, .finished done, rfl, rfl, nofun⟩
    · obtain ⟨err, same⟩ := runLine asks line lines
      exact same ▸ roundDriven closed stands goesOn (fun _ next => ih next) debug time line text err

theorem beginResult (story : Story) (debug : Bool) : (begin story debug).result =
    (start story .empty).result.map (showing story (if debug then .verbose else .quiet)) := by
  have same := (Told.Impartial.start story .empty).plainly (if debug then .verbose else .quiet)
  exact congrArg (Except.map (showing story (if debug then .verbose else .quiet))) same

theorem courseFailed {debug : Bool} {e : PlayError} (failed : (begin story debug).result = .error e)
    (time input : String) : (course story debug time input).rounds = [] ∧ Exits (play story debug time input) (.failed e) := by
  unfold play course
  simp only [failed, true_and]
  exact failedExits "" _ e

theorem courseStarted {debug : Bool} {s : Session} (started : (begin story debug).result = .ok s)
    (time input : String) : (course story debug time input).rounds = (run debug time (linesOf input) s).rounds ∧
    ∃ err, play story debug time input = shown welcome err (run debug time (linesOf input) s).result := by
  unfold play course
  simp only [started, true_and]
  exact ⟨_, rfl⟩

theorem playDrives {bytes : ByteArray} {input : String} (loaded : Story.load bytes = .ok story)
    (spelled : Lines input.toList lines) (debug : Bool) (time : String) :
    (∀ e, (start story .empty).result = .error e →
      (course story debug time input).rounds = [] ∧ Exits (play story debug time input) (.failed e)) ∧
    ∀ first, (start story .empty).result = .ok first → ∃ seen ending,
      (∀ t e, Drives story first (lines.map Text.trim) t e ↔ t = seen ∧ e = ending) ∧
      (course story debug time input).rounds = seen.map (showing story (if debug then .verbose else .quiet)) ∧
      seen.length ≤ lines.length + 1 ∧
      (∀ s ∈ (course story debug time input).rounds, screen s ≠ .nothing) ∧
      Exits (play story debug time input) ending := by
  have closed := Story.validateOk.mp (Story.loadedTaken loaded).1
  have begun := beginResult story debug
  constructor
  · intro e failed
    rw [failed] at begun
    exact courseFailed begun time input
  · intro first started
    rw [started] at begun
    have stands := startStands closed started
    obtain ⟨seen, ending, drives, rounds, exits⟩ :=
      runDriven closed (if debug then .verbose else .quiet) debug time (lines.map Text.trim) stands
    obtain ⟨shows, err, result⟩ := courseStarted begun time input
    rw [spelled.of] at shows result
    refine ⟨seen, ending, ?_, shows.trans rounds, by simpa using drives.length, ?_, result ▸ exits.shown welcome err⟩
    · intro t e
      constructor
      · intro other
        exact drives.only closed stands other
      · intro ⟨same, ends⟩
        exact same ▸ ends ▸ drives
    · intro s shown
      rw [shows, rounds] at shown
      obtain ⟨now, mem, rfl⟩ := List.mem_map.mp shown
      exact (drives.stands closed stands now mem).shown

theorem ferryDriven : Story.load ferry.save = .ok ferry ∧ Lines "\n+2\nq".toList ["", "+2", "q"] ∧
    ∃ first seen ending, (start ferry .empty).result = .ok first ∧
      Drives ferry first (["", "+2", "q"].map Text.trim) seen ending ∧
      (course ferry false "" "\n+2\nq").rounds = seen.map (showing ferry .quiet) ∧
      Exits (play ferry false "" "\n+2\nq") ending := by
  have loaded : Story.load ferry.save = .ok ferry :=
    Story.loadAs rfl (by decide +kernel) (by decide +kernel)
  have spelled : Lines "\n+2\nq".toList ["", "+2", "q"] := by
    show Lines ([] ++ '\n' :: (['+', '2'] ++ '\n' :: ['q'])) [.ofList [], .ofList ['+', '2'], .ofList ['q']]
    exact .line (by decide) (.line (by decide) (.last (by decide) (by decide)))
  obtain ⟨seen, ending, drives, rounds, _, _, exits⟩ := (playDrives loaded spelled false "").2 _ rfl
  exact ⟨loaded, spelled, _, seen, ending, rfl, (drives _ _).mpr ⟨rfl, rfl⟩, rounds, exits⟩

end Dialogue.Player
