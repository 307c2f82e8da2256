import Dialogue.Proofs.Workshop.Requests
import Dialogue.Proofs.Workshop.Running

/-! Histories. What is done to the drafts of a workshop is done in single acts: a request is made, a draft is begun,
and a build pass takes up the links of a draft, makes links of them and gives the draft free again. A history lists
the acts that have led from one workshop to another, in their order; those that were refused stand in it too. -/
namespace Dialogue
variable {w w' w'' : Workshop}

namespace Workshop

def taking (i : Nat) (w : Workshop) : Workshop where
  drafts := w.drafts.modify i fun d => { d with pending := [], resolving := true }
  log := w.log ++ #[.resolving (w.draftAt i).pending.length]

def releasing (i : Nat) (w : Workshop) : Workshop :=
  { w with drafts := w.drafts.modify i fun d => { d with resolving := false } }

theorem draftAtTaking (i : Nat) (w : Workshop) (j : Nat) : (w.taking i).draftAt j =
    if j = i ∧ i < w.drafts.size then { w.draftAt j with pending := [], resolving := true } else w.draftAt j :=
  Calls.draftAtChanged w i j _

theorem draftAtReleasing (i : Nat) (w : Workshop) (j : Nat) : (w.releasing i).draftAt j =
    if j = i ∧ i < w.drafts.size then { w.draftAt j with resolving := false } else w.draftAt j :=
  Calls.draftAtChanged w i j _

theorem evolvesTaking (i : Nat) (w : Workshop) : w.Evolves i (w.taking i) where
  drafts := by simp [taking]
  others := fun j other => by rw [draftAtTaking, if_neg (by simp [other])]
  edits := by
    rw [draftAtTaking]
    split
    · exact .one .take
    · exact .refl

theorem evolvesReleasing (i : Nat) (w : Workshop) : w.Evolves i (w.releasing i) where
  drafts := by simp [releasing]
  others := fun j other => by rw [draftAtReleasing, if_neg (by simp [other])]
  edits := by
    rw [draftAtReleasing]
    split
    · exact .one .release
    · exact .refl

theorem Sound.still (sound : w.Sound) (drafts : w'.drafts = w.drafts) : w'.Sound := fun i => by
  rw [draftAtStill drafts]
  exact sound i

end Workshop

inductive Act where
  | ask (r : Request)
  | begin (config : Config)
  | take (i : Nat)
  | release (i : Nat)
  | follow (n target : NodeRef)
  | branch (n : NodeRef) (condition : Condition) (target : NodeRef)
  | splice (n target : NodeRef)
  | lead (a : ActionRef) (target : NodeRef)

namespace Act

def run (w : Workshop) : Act → Workshop
  | .ask r => (r.run.run w).2
  | .begin config => { w with drafts := w.drafts.push { config := config } }
  | .take i => w.taking i
  | .release i => w.releasing i
  | .follow n target => ((n.setNext target).run w).2
  | .branch n condition target => ((n.pushRule condition target).run w).2
  | .splice n target => ((n.splice target).run w).2
  | .lead a target => ((a.setNext target).run w).2

def Live (w : Workshop) : Act → Prop
  | .ask r => r.Live w
  | .begin _ | .take _ | .release _ => True
  | .follow n target | .splice n target => n.Inside w ∧ target.Inside w
  | .branch n _ target => n.Inside w ∧ target.Of n.draft w
  | .lead a target => a.Inside w ∧ target.Inside w

def LiveFrom (w : Workshop) : List Act → Prop
  | [] => True
  | act :: rest => act.Live w ∧ LiveFrom (act.run w) rest

theorem sound {act : Act} (live : act.Live w) (sound : w.Sound) : (act.run w).Sound := by
  cases act with
  | ask r => exact (Calls.request sound live).kept.sound sound
  | begin config => exact sound.push config
  | take i => exact (w.evolvesTaking i).sound sound
  | release i => exact (w.evolvesReleasing i).sound sound
  | follow n target => exact (Calls.setNext sound ⟨rfl, live.1⟩ live.2).kept.sound sound
  | branch n condition target => exact (Calls.pushRule rfl condition live.2).kept.sound sound
  | splice n target => exact (Calls.splice sound ⟨rfl, live.1⟩ live.2).kept.sound sound
  | lead a target => exact (Calls.actionSetNext sound ⟨rfl, live.1⟩ live.2).kept.sound sound

end Act

/- Where nothing is done to the drafts, as when something is noted, no act is listed. -/
inductive Workshop.Lived (w : Workshop) : List Act → Workshop → Prop where
  | start {w' : Workshop} (still : w'.drafts = w.drafts) : Lived w [] w'
  | next {acts : List Act} {act : Act} {w' w'' : Workshop} (before : Lived w acts w') (live : act.Live w')
      (does : w''.drafts = (act.run w').drafts) : Lived w (acts ++ [act]) w''

namespace Workshop.Lived
variable {acts more : List Act} {act : Act}

theorem still (lived : w.Lived acts w') (still : w''.drafts = w'.drafts) : w.Lived acts w'' := by
  cases lived with
  | start same => exact .start (still.trans same)
  | next before live does => exact .next before live (still.trans does)

theorem one (live : act.Live w) : w.Lived [act] (act.run w) := .next (.start rfl) live rfl

theorem trans (first : w.Lived acts w') (second : w'.Lived more w'') : w.Lived (acts ++ more) w'' := by
  induction second with
  | start still =>
    rw [List.append_nil]
    exact first.still still
  | next _ live does ih =>
    rw [← List.append_assoc]
    exact .next ih live does

theorem runs (live : Act.LiveFrom w acts) : w.Lived acts (acts.foldl Act.run w) := by
  induction acts generalizing w with
  | nil => exact .start rfl
  | cons act rest ih => exact (one live.1).trans (ih live.2)

theorem sound (lived : w.Lived acts w') (sound : w.Sound) : w'.Sound := by
  induction lived with
  | start still => exact sound.still still
  | next _ live does ih => exact (Act.sound live ih).still does

theorem last (lived : w.Lived (acts ++ [act]) w') :
    ∃ w₁, w.Lived acts w₁ ∧ act.Live w₁ ∧ w'.drafts = (act.run w₁).drafts := by
  generalize whole : acts ++ [act] = all at lived
  cases lived with
  | start => simp at whole
  | @next before _ w₁ _ lived live does =>
    obtain ⟨rfl, same⟩ := List.append_inj' whole rfl
    obtain rfl := List.singleton_inj.mp same
    exact ⟨w₁, lived, live, does⟩

theorem split (lived : w.Lived (acts ++ more) w') : ∃ w₁, w.Lived acts w₁ ∧ w₁.Lived more w' := by
  generalize whole : acts ++ more = all at lived
  induction lived generalizing more with
  | start still =>
    obtain ⟨rfl, rfl⟩ := List.append_eq_nil_iff.mp whole
    exact ⟨w, .start rfl, .start still⟩
  | next before live does ih =>
    rcases List.eq_nil_or_concat more with rfl | ⟨more, act, rfl⟩
    · rw [List.append_nil] at whole
      exact ⟨_, whole ▸ .next before live does, .start rfl⟩
    · rw [List.concat_eq_append, ← List.append_assoc] at whole
      obtain ⟨front, same⟩ := List.append_inj' whole rfl
      obtain rfl := List.singleton_inj.mp same
      obtain ⟨w₁, first, later⟩ := ih front
      exact ⟨w₁, first, List.concat_eq_append ▸ .next later live does⟩

end Workshop.Lived
end Dialogue
