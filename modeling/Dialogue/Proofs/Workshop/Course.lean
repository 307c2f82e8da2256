import Dialogue.Proofs.Workshop.Passing

/-! The course of a pass: which scripts are called, one after another, what each is called on and how it ends. A
script is called once, unless its link cannot be opened, and nothing is called behind the first link that fails. -/
namespace Dialogue

structure Called where
  link : Deferred
  given : Binding
  result : Except AuthoringError (Option NodeRef)

def Called.Gave (c : Called) : Prop := ∃ last, c.result = .ok last

namespace Run
variable {call : Caller} {i : Nat} {m m' : Machine} {link : Deferred} {links : List Deferred} {calls : List Called}
  {e : AuthoringError} {result : Except AuthoringError Unit}

inductive Course (call : Caller) (i : Nat) :
    Machine → List Deferred → List Called → Except AuthoringError Unit → Machine → Prop where
  | done (m : Machine) : Course call i m [] [] (.ok ()) m
  | unopened {m m₁ : Machine} {link : Deferred} {rest : List Deferred} {e : AuthoringError}
      (opening : (Run.opening i link).run m = (.error e, m₁)) : Course call i m (link :: rest) [] (.error e) m₁
  | failed {m m₁ m₂ : Machine} {link : Deferred} {rest : List Deferred} {given : Binding} {e : AuthoringError}
      (opening : (Run.opening i link).run m = (.ok given, m₁))
      (called : (call link.script given).run m₁ = (.error e, m₂)) :
      Course call i m (link :: rest) [⟨link, given, .error e⟩] (.error e) m₂
  | unclosed {m m₁ m₂ m₃ : Machine} {link : Deferred} {rest : List Deferred} {given : Binding} {last : Option NodeRef}
      {e : AuthoringError} (opening : (Run.opening i link).run m = (.ok given, m₁))
      (called : (call link.script given).run m₁ = (.ok last, m₂))
      (closing : (Run.closing i last link).run m₂ = (.error e, m₃)) :
      Course call i m (link :: rest) [⟨link, given, .ok last⟩] (.error e) m₃
  | resolved {m m₁ m₂ m₃ m' : Machine} {link : Deferred} {rest : List Deferred} {given : Binding} {last : Option NodeRef}
      {calls : List Called} {result : Except AuthoringError Unit} (opening : (Run.opening i link).run m = (.ok given, m₁))
      (called : (call link.script given).run m₁ = (.ok last, m₂))
      (closing : (Run.closing i last link).run m₂ = (.ok (), m₃)) (later : Course call i m₃ rest calls result m') :
      Course call i m (link :: rest) (⟨link, given, .ok last⟩ :: calls) result m'

theorem resolveAllParts (call : Caller) (i : Nat) (link : Deferred) (rest : List Deferred) :
    resolveAll call i (link :: rest) = (do
      let given ← opening i link
      let last ← call link.script given
      closing i last link
      resolveAll call i rest) := by
  rw [resolveAll, resolveOneParts]
  simp only [bind_assoc]

theorem courseExact : (∃ calls, Course call i m links calls result m') ↔
    (resolveAll call i links).run m = (result, m') := by
  constructor
  · rintro ⟨calls, course⟩
    induction course with
    | done m => rfl
    | unopened opening => rw [resolveAllParts, runBind, opening]
    | failed opening called =>
      rw [resolveAllParts, runBind, opening]
      dsimp only
      rw [runBind, called]
    | unclosed opening called closing =>
      rw [resolveAllParts, runBind, opening]
      dsimp only
      rw [runBind, called]
      dsimp only
      rw [runBind, closing]
    | resolved opening called closing _ ih =>
      rw [resolveAllParts, runBind, opening]
      dsimp only
      rw [runBind, called]
      dsimp only
      rw [runBind, closing]
      exact ih
  · intro ran
    induction links generalizing m with
    | nil =>
      obtain ⟨rfl, rfl⟩ := Prod.mk.inj ran
      exact ⟨[], .done m⟩
    | cons link rest ih =>
      rw [resolveAllParts, runBind] at ran
      cases opening : (Run.opening i link).run m with | mk given m₁ => ?_
      rw [opening] at ran
      cases given with
      | error e =>
        obtain ⟨rfl, rfl⟩ := Prod.mk.inj ran
        exact ⟨_, .unopened opening⟩
      | ok given =>
        dsimp only at ran
        rw [runBind] at ran
        cases called : (call link.script given).run m₁ with | mk last m₂ => ?_
        rw [called] at ran
        cases last with
        | error e =>
          obtain ⟨rfl, rfl⟩ := Prod.mk.inj ran
          exact ⟨_, .failed opening called⟩
        | ok last =>
          dsimp only at ran
          rw [runBind] at ran
          cases closing : (Run.closing i last link).run m₂ with | mk closed m₃ => ?_
          rw [closing] at ran
          cases closed with
          | error e =>
            obtain ⟨rfl, rfl⟩ := Prod.mk.inj ran
            exact ⟨_, .unclosed opening called closing⟩
          | ok =>
            obtain ⟨calls, later⟩ := ih ran
            exact ⟨_, .resolved opening called closing later⟩

theorem openingFails {m₁ : Machine} (opening : (Run.opening i link).run m = (.error e, m₁)) :
    ∃ key script, link = .actionSuccessor key script ∧
      ((m.workshop.draftAt i).action key).parent = none ∧ e = .orphanAction ((m.workshop.draftAt i).action key).id := by
  cases link with
  | successor | returns | branch | actionBuild => cases opening
  | actionSuccessor key script =>
    refine ⟨key, script, rfl, ?_⟩
    have read : (inPass (⟨i, key⟩ : ActionRef).record).run m = (.ok ((m.workshop.draftAt i).action key), m) := rfl
    simp only [Run.opening, runBind, read] at opening
    cases parent : ((m.workshop.draftAt i).action key).parent with
    | some parent =>
      rw [parent] at opening
      cases opening
    | none =>
      rw [parent] at opening
      cases opening
      exact ⟨rfl, rfl⟩

inductive Stops (i : Nat) (links : List Deferred) (calls : List Called) (e : AuthoringError) : Prop where
  | orphan {key : Nat} {script : Script} {id : ActionId} (gave : ∀ c ∈ calls, c.Gave)
      (next : links[calls.length]? = some (.actionSuccessor key script)) (fault : e = .orphanAction id)
  | script {before : List Called} {c : Called} (last : calls = before ++ [c]) (gave : ∀ b ∈ before, b.Gave)
      (failed : c.result = .error e)
  | target {before : List Called} {c : Called} {found : Option NodeRef} {m m' : Machine} (last : calls = before ++ [c])
      (gave : ∀ b ∈ before, b.Gave) (ended : c.result = .ok found)
      (closing : (Run.closing i found c.link).run m = (.error e, m'))

namespace Course

theorem unique {calls' : List Called} {result' : Except AuthoringError Unit} {m'' : Machine}
    (first : Course call i m links calls result m') (second : Course call i m links calls' result' m'') :
    calls = calls' := by
  induction first generalizing calls' with
  | done => cases second; rfl
  | unopened opening =>
    cases second with
    | unopened => rfl
    | failed opening' | unclosed opening' | resolved opening' => cases opening.symm.trans opening'
  | failed opening called =>
    cases second with
    | unopened opening' => cases opening.symm.trans opening'
    | failed opening' called' =>
      cases opening.symm.trans opening'
      cases called.symm.trans called'
      rfl
    | unclosed opening' called' | resolved opening' called' =>
      cases opening.symm.trans opening'
      cases called.symm.trans called'
  | unclosed opening called closing =>
    cases second with
    | unopened opening' => cases opening.symm.trans opening'
    | failed opening' called' =>
      cases opening.symm.trans opening'
      cases called.symm.trans called'
    | unclosed opening' called' =>
      cases opening.symm.trans opening'
      cases called.symm.trans called'
      rfl
    | resolved opening' called' closing' =>
      cases opening.symm.trans opening'
      cases called.symm.trans called'
      cases closing.symm.trans closing'
  | resolved opening called closing _ ih =>
    cases second with
    | unopened opening' => cases opening.symm.trans opening'
    | failed opening' called' =>
      cases opening.symm.trans opening'
      cases called.symm.trans called'
    | unclosed opening' called' closing' =>
      cases opening.symm.trans opening'
      cases called.symm.trans called'
      cases closing.symm.trans closing'
    | resolved opening' called' closing' later =>
      cases opening.symm.trans opening'
      cases called.symm.trans called'
      cases closing.symm.trans closing'
      rw [ih later]

theorem newestFirst (course : Course call i m links calls result m') : calls.map (·.link) <+: links := by
  induction course with
  | done => exact List.prefix_rfl
  | unopened => exact List.nil_prefix
  | failed | unclosed => exact List.prefix_append [_] _
  | resolved _ _ _ _ ih => exact (List.prefix_cons_inj _).mpr ih

theorem whole (course : Course call i m links calls result m') (ok : result = .ok ()) :
    calls.map (·.link) = links ∧ ∀ c ∈ calls, c.Gave := by
  induction course with
  | done => exact ⟨rfl, by simp⟩
  | unopened | failed | unclosed => cases ok
  | resolved _ _ _ _ ih =>
    obtain ⟨same, gave⟩ := ih ok
    exact ⟨congrArg (_ :: ·) same, List.forall_mem_cons.mpr ⟨⟨_, rfl⟩, gave⟩⟩

theorem stops (course : Course call i m links calls result m') (error : result = .error e) : Stops i links calls e := by
  induction course with
  | done => cases error
  | unopened opening =>
    cases error
    obtain ⟨key, script, rfl, _, fault⟩ := openingFails opening
    exact .orphan (by simp) rfl fault
  | failed _ called =>
    cases error
    exact .script (List.nil_append _).symm (by simp) rfl
  | unclosed _ _ closing =>
    cases error
    exact .target (List.nil_append _).symm (by simp) rfl closing
  | resolved opening called closing later ih =>
    have gaveFirst : ∀ {before : List Called} {c : Called}, c.Gave → (∀ b ∈ before, b.Gave) → ∀ b ∈ c :: before, b.Gave :=
      fun first others => List.forall_mem_cons.mpr ⟨first, others⟩
    cases ih error with
    | orphan gave next fault => exact .orphan (gaveFirst ⟨_, rfl⟩ gave) next fault
    | script last gave failed => exact .script (congrArg (_ :: ·) last) (gaveFirst ⟨_, rfl⟩ gave) failed
    | target last gave ended closing =>
      exact .target (congrArg (_ :: ·) last) (gaveFirst ⟨_, rfl⟩ gave) ended closing

end Course
end Run

namespace Machine

structure Resolves (call : Run.Caller) (i : Nat) (m : Machine) (calls : List Called)
    (result : Except AuthoringError Unit) (m' : Machine) : Prop where
  course : Run.Course call i (m.taking i) (m.workshop.draftAt i).pending.reverse calls result m'
  answer : (Run.pass call i).run m = (result.map fun _ => (m.workshop.draftAt i).pending.length, m'.releasing i)
  inOrder : calls.map (·.link) <+: (m.workshop.draftAt i).pending.reverse
  whole : result = .ok () → calls.map (·.link) = (m.workshop.draftAt i).pending.reverse ∧ ∀ c ∈ calls, c.Gave
  stops : ∀ e, result = .error e → Run.Stops i (m.workshop.draftAt i).pending.reverse calls e

theorem passResolves (call : Run.Caller) (i : Nat) (m : Machine) :
    ∃ calls result m', m.Resolves call i calls result m' := by
  have parts := passParts call i m
  cases ran : (Run.resolveAll call i (m.workshop.draftAt i).pending.reverse).run (m.taking i) with | mk result m' => ?_
  rw [ran] at parts
  obtain ⟨calls, course⟩ := Run.courseExact.mpr ran
  exact ⟨calls, result, m', course, parts, course.newestFirst, course.whole, fun _ => course.stops⟩

end Machine
end Dialogue
