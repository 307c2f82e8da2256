import Dialogue.Proofs.Workshop.Steps

/-! Looking names up. A resolver that does nothing else leaves every draft as it is, whatever it is called on. -/
namespace Dialogue

def Step.Looks : Step → Prop
  | .mk _ _ _ (.get _) => True
  | _ => False

abbrev Resolver.Looks : Resolver → Prop := Resolver.All Step.Looks

variable {α β : Type} {m m' : Machine} {call : Run.Caller}

namespace Machine

def SameDrafts (m m' : Machine) : Prop := m'.workshop.drafts = m.workshop.drafts

instance : IsPreorder Machine SameDrafts where
  refl := fun _ => rfl
  trans := fun _ _ _ first second => second.trans first

end Machine

abbrev Stills (m : Machine) (run : Run α) : Prop :=
  Keeps Machine.SameDrafts (fun _ => True) m run fun _ _ => True

namespace Stills

theorem refuse (m : Machine) (message : String) : Stills m (Run.refuse message : Run α) := .error rfl trivial

theorem lookUp (m : Machine) (i : Nat) (name : String) : Stills m (Run.nodeMade (Authoring.lookUp i name)) := by
  have looked : Stills m (Run.author (Authoring.lookUp i name)) := by
    refine ⟨?_, fun _ _ => trivial, fun _ _ => trivial⟩
    rw [Machine.SameDrafts, runAuthor, lookUpStill]
  exact looked.bind fun _ _ _ _ => .ok rfl trivial

theorem dispatch (sound : m.Sound) (on drafted : Option String) (name : String) :
    Stills m (Run.dispatch call on drafted (.get name)) := by
  unfold Run.dispatch
  refine (Reads.draftOf sound _).anyhow.read fun i _ => ?_
  cases on with
  | none => exact lookUp m i name
  | some var =>
    refine (Reads.lookUp sound var).anyhow.read fun b _ => ?_
    cases b with
    | node n => exact lookUp m n.draft name
    | action a => exact lookUp m a.draft name
    | session s => exact .ok rfl trivial
    | story | ticket => exact refuse m _

theorem get (sound : m.Sound) (on drafted bind : Option String) (name : String) :
    Stills m (Run.perform call (.mk on drafted bind (.get name))) := by
  unfold Run.perform
  refine (dispatch sound on drafted name).bind fun done m₁ _ _ => ?_
  cases bind with
  | none => exact .pure trivial
  | some other =>
    have kept : m₁.SameDrafts (m₁.keep other done) := by rw [Machine.SameDrafts, m₁.keepWorkshop]
    exact Keeps.bind (Keeps.modify kept) fun _ _ _ _ => .pure trivial

end Stills

namespace Machine

structure Stays (m m' : Machine) : Prop where
  advances : m.Advances m'
  drafts : m'.workshop.drafts = m.workshop.drafts

instance : IsPreorder Machine Stays where
  refl := fun m => ⟨refl_of _ m, rfl⟩
  trans := fun _ _ _ first second => ⟨trans_of _ first.advances second.advances, second.drafts.trans first.drafts⟩

theorem Stays.indifferent : Indifferent Stays where
  advances := Stays.advances
  same := fun advances same => ⟨advances, by rw [same]⟩

theorem stepStays (calls : call.Sound) (sound : m.Sound) {s : Step} (looks : s.Looks) :
    Keeps Stays (fun _ => True) m (ExceptT.lift (step call s) : Run.Pass Done) fun done m' => done.Fine m' := by
  have passed := liftStep (stepSafe calls) sound s
  obtain ⟨on, drafted, bind, verb⟩ := s
  cases verb with
  | get name =>
    have still : Stills m (Run.perform call (.mk on drafted bind (.get name))) := Stills.get sound on drafted bind name
    have same : m.SameDrafts ((step call (.mk on drafted bind (.get name))).run m).2 := by
      rw [stepLeaves]
      exact still.kept
    exact ⟨⟨passed.kept, same⟩, passed.returned, passed.refused⟩
  | _ => exact looks.elim

theorem callerByStays (meaning : Script → Resolver) (depth : Nat) {script : Script} (looks : (meaning script).Looks)
    {given : Binding} (sound : m.Sound) (inside : given.Inside m.workshop) :
    Keeps Stays (fun _ => True) m (callerBy meaning depth script given) fun last m' =>
      ∀ n, last = some n → n.Inside m'.workshop :=
  callerByKeeps Stays.indifferent (fun _ _ _ calls sound looks => stepStays calls sound looks) meaning depth looks sound
    inside

end Machine
end Dialogue
