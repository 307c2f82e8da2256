import Dialogue.Proofs.Workshop.Histories
import Dialogue.Proofs.Workshop.Points

/-! From each point of a run to every later one the drafts have a history. It leads only those actions on whose links
had been taken by the earlier point, or have been taken since. -/
namespace Dialogue
variable {m m' : Machine} {i : Nat} {call : Run.Caller} {a : ActionRef}

namespace Point
variable {p q r : Point} {l l' : List Point}

def Due (p : Point) (a : ActionRef) : Prop := ∃ script, (a.draft, .actionSuccessor a.key script) ∈ p.taken

structure Ahead (p q : Point) : Prop where
  advances : p.machine.Advances q.machine
  lived : ∃ acts, p.machine.workshop.Lived acts q.machine.workshop ∧ p.machine.workshop.Leads p.Due acts ∧
    ∀ a, q.Due a → p.Due a ∨ p.machine.workshop.Taken acts a

theorem dueAmid {links : List Deferred} : (p.amid i links).Due a ↔
    p.Due a ∨ a.draft = i ∧ ∃ script, .actionSuccessor a.key script ∈ links := by
  simp only [Due, amid, List.mem_append, exists_or, List.mem_map, Prod.mk.injEq]
  refine or_congr_right ⟨?_, ?_⟩
  · rintro ⟨script, link, mem, rfl, rfl⟩
    exact ⟨rfl, script, mem⟩
  · rintro ⟨rfl, script, mem⟩
    exact ⟨script, _, mem, rfl, rfl⟩

namespace Ahead

instance : IsPreorder Point Ahead where
  refl := fun p => ⟨refl_of _ _, [], .start rfl, .none _ (by simp), fun _ => .inl⟩
  trans := by
    rintro p q r ⟨first, acts, lived, leads, due⟩ ⟨second, more, later, ahead, further⟩
    refine ⟨trans_of _ first second, acts ++ more, lived.trans later, .append lived leads (ahead.weaken due), ?_⟩
    intro a held
    rcases further a held with held | taken
    · exact (due a held).imp_right fun taken => taken.longer more
    · exact .inr (taken.behind lived)

theorem lives (ahead : p.Ahead q) : p.machine.Lives p.Due q.machine := by
  obtain ⟨advances, acts, lived, leads, _⟩ := ahead
  exact ⟨advances, acts, lived, leads⟩

theorem ofLives (lives : p.machine.Lives p.Due q.machine) (fewer : q.taken ⊆ p.taken) : p.Ahead q := by
  obtain ⟨advances, acts, lived, leads⟩ := lives
  exact ⟨advances, acts, lived, leads, fun a due => .inl (due.imp fun _ mem => fewer mem)⟩

theorem amid (ahead : p.Ahead q) (i : Nat) (links : List Deferred) : (p.amid i links).Ahead (q.amid i links) := by
  obtain ⟨advances, acts, lived, leads, due⟩ := ahead
  refine ⟨advances, acts, lived, leads.weaken fun a held => dueAmid.mpr (.inl held), fun a held => ?_⟩
  rcases dueAmid.mp held with held | own
  · exact (due a held).imp_left fun held => dueAmid.mpr (.inl held)
  · exact .inl (dueAmid.mpr (.inr own))

end Ahead

/- The points are met in this order on the way from the first point to the last. -/
def Way (p : Point) (l : List Point) (q : Point) : Prop := (p :: l ++ [q]).Pairwise Ahead

namespace Way

theorem direct (ahead : p.Ahead q) : Way p [] q := List.pairwise_pair.mpr ahead

theorem first (way : Way p l q) : ∀ x ∈ p :: l ++ [q], p.Ahead x := by
  intro x mem
  rcases List.mem_cons.mp mem with rfl | later
  · exact refl_of _ _
  · exact (List.pairwise_cons.mp way).1 x later

theorem begins (way : Way p l q) : Way p (p :: l) q := List.pairwise_cons.mpr ⟨way.first, way⟩

theorem trans (way : Way p l q) (later : Way q l' r) : Way p (l ++ l') r := by
  obtain ⟨before, _, reach⟩ := List.pairwise_append.mp way
  have onward := later.first
  have split : p :: (l ++ l') ++ [r] = (p :: l) ++ (l' ++ [r]) := by simp
  unfold Way
  rw [split]
  refine List.pairwise_append.mpr ⟨before, (List.pairwise_cons.mp later).2, fun x early y late => ?_⟩
  exact trans_of _ (reach x early q (by simp)) (onward y (List.mem_cons_of_mem q late))

theorem after (ahead : p.Ahead q) (way : Way q l r) : Way p l r := (direct ahead).trans way

theorem further (way : Way p l q) (ahead : q.Ahead r) : Way p l r := by simpa using way.trans (direct ahead)

theorem amid (way : Way p l q) (i : Nat) (links : List Deferred) :
    Way (p.amid i links) (l.map (.amid i links)) (q.amid i links) := by
  have mapped : (p.amid i links) :: l.map (.amid i links) ++ [q.amid i links] = (p :: l ++ [q]).map (.amid i links) := by
    simp
  unfold Way
  rw [mapped, List.pairwise_map]
  exact way.imp fun ahead => ahead.amid i links

end Way
end Point

open Point

namespace Run
variable {link : Deferred} {links : List Deferred} {given : Binding} {last : Option NodeRef} {m₁ m₂ : Machine}

theorem openingGoes {opened : Except AuthoringError Binding} (sound : m.Sound)
    (within : link.Within (m.workshop.draftAt i).nodes.size (m.workshop.draftAt i).actions.size)
    (opening : (Run.opening i link).run m = (opened, m₁)) :
    m.Goes m₁ ∧ ∀ given, opened = .ok given → given.Inside m₁.workshop := by
  have opens := (Machine.Lives.resolvable i []).opening sound within
  unfold Keeps at opens
  rw [opening] at opens
  exact ⟨opens.kept.weaken (by simp), opens.returned⟩

theorem scriptGoes {answer : Except AuthoringError (Option NodeRef)} (calls : call.Lives) (sound : m.Sound)
    (within : link.Within (m.workshop.draftAt i).nodes.size (m.workshop.draftAt i).actions.size)
    (opening : (Run.opening i link).run m = (.ok given, m₁)) (script : (call link.script given).run m₁ = (answer, m₂)) :
    m.Goes m₂ ∧ ∀ last, answer = .ok last → ∀ n, last = some n → n.Inside m₂.workshop := by
  obtain ⟨began, inside⟩ := openingGoes sound within opening
  have ran := calls m₁ link.script given (began.1 sound).1 (inside given rfl)
  unfold Keeps at ran
  rw [script] at ran
  exact ⟨trans_of _ began ran.kept, ran.returned⟩

theorem closingLives {closed : Except AuthoringError Unit} (sound : m.Sound)
    (inside : ∀ n, last = some n → n.Inside m.workshop)
    (within : link.Within (m.workshop.draftAt i).nodes.size (m.workshop.draftAt i).actions.size)
    (closing : (Run.closing i last link).run m = (closed, m₁)) :
    m.Lives (fun a => a.draft = i ∧ ∃ script, .actionSuccessor a.key script ∈ [link]) m₁ := by
  have closes := (Machine.Lives.resolvable i [link]).closing sound inside within (List.mem_singleton.mpr rfl)
  unfold Keeps at closes
  rw [closing] at closes
  exact closes.kept

theorem linksWay {called : Script → Binding → Machine → List Point} (calls : call.Lives)
    (way : ∀ script given m, m.Sound → given.Inside m.workshop →
      Way ⟨[], m⟩ (called script given m) ⟨[], ((call script given).run m).2⟩)
    (sound : m.Sound) (inside : i < m.workshop.drafts.size)
    (within : ∀ link ∈ links, link.Within (m.workshop.draftAt i).nodes.size (m.workshop.draftAt i).actions.size) :
    Way (.amid i links ⟨[], m⟩) (linkPoints call called i links m) ⟨[], ((resolveAll call i links).run m).2⟩ := by
  -- on the links: the points of a script come while its link and those behind it are taken
  have ended : ∀ {links : List Deferred} {m m' : Machine}, m.Goes m' → Ahead (.amid i links ⟨[], m⟩) ⟨[], m'⟩ :=
    fun goes => .ofLives (goes.weaken nofun) (List.nil_subset _)
  induction links generalizing m with
  | nil => exact .direct (refl_of _ _)
  | cons link rest ih =>
    obtain ⟨first, others⟩ := List.forall_mem_cons.mp within
    rw [resolveAllParts, runBind, linkPoints]
    cases opening : (Run.opening i link).run m with | mk opened m₁ => ?_
    obtain ⟨goes₁, given₁⟩ := openingGoes sound first opening
    cases opened with
    | error e => exact .direct (ended goes₁)
    | ok given =>
      have sound₁ := (goes₁.1 sound).1
      have begun : Ahead (.amid i (link :: rest) ⟨[], m⟩) (.amid i (link :: rest) ⟨[], m₁⟩) :=
        Ahead.amid (.ofLives (goes₁.weaken nofun) (List.nil_subset _)) i _
      have script := Way.after begun ((way link.script given m₁ sound₁ (given₁ given rfl)).amid i (link :: rest))
      dsimp only
      rw [runBind]
      cases called : (call link.script given).run m₁ with | mk answer m₂ => ?_
      rw [called] at script
      obtain ⟨goes₂, last₂⟩ := scriptGoes calls sound first opening called
      cases answer with
      | error e => simpa using script.further (ended (refl_of _ m₂))
      | ok last =>
        obtain ⟨sound₂, grows₂⟩ := goes₂.1 sound
        have edits := grows₂.edits i inside
        dsimp only
        rw [runBind]
        cases closing : (Run.closing i last link).run m₂ with | mk closed m₃ => ?_
        have closes := closingLives sound₂ (last₂ last rfl) (first.grow edits.nodesGrow edits.actionsGrow) closing
        have left : Ahead (.amid i (link :: rest) ⟨[], m₂⟩) (.amid i rest ⟨[], m₃⟩) := by
          refine .ofLives (closes.weaken fun a own => ?_) fun x mem => List.mem_cons_of_mem _ mem
          refine dueAmid.mpr (.inr (own.imp_right (Exists.imp fun script mem => ?_)))
          exact List.mem_cons.mpr (.inl (List.mem_singleton.mp mem))
        cases closed with
        | error e =>
          simpa using script.further (trans_of _ left (ended (refl_of _ m₃)))
        | ok =>
          obtain ⟨sound₃, grows₃⟩ := closes.1 sound₂
          have grows := grows₂.trans grows₃
          have edits₃ := grows.edits i inside
          have later := ih sound₃ (Nat.lt_of_lt_of_le inside grows.drafts)
            fun link mem => (others link mem).grow edits₃.nodesGrow edits₃.actionsGrow
          exact script.trans (.after left later)

end Run

namespace Machine
variable {meaning : Script → Resolver}

theorem aheadSame {m m' : Machine} (sound : m'.Sound) (same : m'.workshop = m.workshop) : Ahead ⟨[], m⟩ ⟨[], m'⟩ :=
  .ofLives ((Lives.indifferent _).same (fun _ => ⟨sound, .same same⟩) same) (List.nil_subset _)

theorem resolverWay {points : Step → Machine → List Point} (calls : call.Sound)
    (way : ∀ s m, m.Sound → Way ⟨[], m⟩ (points s m) ⟨[], ((step call s).run m).2⟩) (resolver : Resolver)
    (last : Option NodeRef) (sound : m.Sound) : Way ⟨[], m⟩ (resolverPoints (step call) points resolver m)
      ⟨[], ((runResolver (step call) last resolver).run m).2⟩ := by
  induction resolver generalizing m last with
  | give => exact .direct (refl_of _ _)
  | fail e => exact .direct (refl_of _ _)
  | next s rest ih =>
    obtain ⟨sound₁, grows, fine⟩ := stepSafe calls m s sound
    have noted := sound₁.answered fine
    rw [runResolverNext, resolverPoints]
    exact ((way s m sound).further (aheadSame noted rfl)).trans (ih _ _ noted)

theorem callWay (meaning : Script → Resolver) (depth : Nat) {points : Step → Machine → List Point}
    (way : ∀ s m, m.Sound → Way ⟨[], m⟩ (points s m) ⟨[], ((step (callerBy meaning depth) s).run m).2⟩) (script : Script)
    {given : Binding} (sound : m.Sound) (inside : given.Inside m.workshop) :
    Way ⟨[], m⟩ (resolverPoints (step (callerBy meaning depth)) points (meaning script) (m.bind argument given))
      ⟨[], ((callerBy meaning (depth + 1) script given).run m).2⟩ := by
  have bound := sound.bind argument inside
  have begun : Ahead ⟨[], m⟩ ⟨[], m.bind argument given⟩ := aheadSame bound rfl
  have ran := resolverWay (callerBySound meaning depth) way (meaning script) given.node? bound
  have ended := ((callerBySound meaning (depth + 1) m script given sound inside).kept sound).1
  refine (Way.after begun ran).further (aheadSame ended ?_)
  rw [callerBy, callBy, onArgumentParts, restoredWorkshop]

theorem aheadTaking (m : Machine) (i : Nat) (sound : (m.untraced.taking i).Sound) :
    Ahead ⟨[], m⟩ (.amid i (m.workshop.draftAt i).pending.reverse ⟨[], m.untraced.taking i⟩) := by
  have grows : m.Grows { m with workshop := m.workshop.taking i } := .evolve (m.workshop.evolvesTaking i)
  refine ⟨fun _ => ⟨sound, grows.drafts, grows.edits⟩, [.take i], .one trivial, .none _ (by simp), fun a due => ?_⟩
  rcases dueAmid.mp due with ⟨_, none⟩ | ⟨rfl, script, waits⟩
  · cases none
  · exact .inr ⟨[], [], script, m.workshop, rfl, .start rfl, List.mem_reverse.mp waits⟩

theorem aheadReleasing {m m' : Machine} (i : Nat) (sound : m'.Sound)
    (released : m'.workshop.drafts = (m.workshop.releasing i).drafts) : Ahead ⟨[], m⟩ ⟨[], m'⟩ := by
  have grows : m.Grows (m.releasing i) := .evolve (m.workshop.evolvesReleasing i)
  have lived : m.workshop.Lived [.release i] (m.workshop.releasing i) := .one trivial
  refine ⟨fun _ => ⟨sound, released ▸ grows.drafts, fun j inside => ?_⟩, [.release i], lived.still released,
    .none _ (by simp), fun a due => .inl due⟩
  rw [Workshop.draftAtStill released]
  exact grows.edits j inside

theorem stepWay (meaning : Script → Resolver) (depth : Nat) (s : Step) (sound : m.Sound) :
    Way ⟨[], m⟩ (stepPoints meaning depth s m) ⟨[], ((step (callerBy meaning depth) s).run m).2⟩ := by
  have whole : ∀ (depth : Nat) (s : Step) (m : Machine), m.Sound →
      Ahead ⟨[], m⟩ ⟨[], ((step (callerBy meaning depth) s).run m).2⟩ := fun depth s m sound =>
    .ofLives ((Lives.step (callerByLives meaning depth) sound s).kept.weaken nofun) (List.nil_subset _)
  induction depth generalizing s m with
  | zero => exact (Way.direct (whole 0 s m sound)).begins
  | succ depth ih =>
    rw [stepPoints]
    refine Way.begins ?_
    cases pass : m.passOf? s with
    | none => exact .direct (whole (depth + 1) s m sound)
    | some i =>
      have calls := callerByLives meaning (depth + 1)
      have passed := passOfPassed pass
      obtain ⟨name, named⟩ := passed.named
      have inside := sound.named name i named
      obtain ⟨sound₁, inside₁, within⟩ := sound.untraced.taking inside
      have links := Run.linksWay calls (fun script given m sound inside =>
        callWay meaning depth (fun s m sound => ih s sound) script sound inside) sound₁ inside₁ within
      refine (Way.after (aheadTaking m i sound₁) links).further (aheadReleasing i (stepSafe calls.sound m s sound).1 ?_)
      rw [passed.leaves, Machine.passed, passParts]
      rfl

theorem programWay (meaning : Script → Resolver) (depth : Nat) (program : List Step) (sound : m.Sound) :
    Way ⟨[], m⟩ (programPoints meaning depth program m)
      ⟨[], program.foldl (fun m s => ((step (callerBy meaning depth) s).run m).2) m⟩ := by
  induction program generalizing m with
  | nil => exact .direct (refl_of _ _)
  | cons s rest ih =>
    exact (stepWay meaning depth s sound).trans (ih (stepSafe (callerBySound meaning depth) m s sound).1)

theorem pointsAhead (meaning : Script → Resolver) (depth : Nat) (config : Config) (program : List Step) :
    (∀ p ∈ pointsBy meaning depth config program, p.machine.Sound) ∧
      (pointsBy meaning depth config program).Pairwise Ahead := by
  have sound := startSound config
  obtain ⟨first, ahead⟩ := List.pairwise_cons.mp (programWay meaning depth program sound)
  exact ⟨fun p mem => ((first p mem).advances sound).1, ahead⟩

end Machine
end Dialogue
