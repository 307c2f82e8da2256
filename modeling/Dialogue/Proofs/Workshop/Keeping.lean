import Mathlib.Order.Defs.Unbundled

/-! What a call that may be refused does to a state: the state before and the state after are related, whether it is
refused or not, and what it returns fits the state after. The rules follow the way calls are put together, so a
relation that is kept by the parts is kept by the whole. -/
namespace Dialogue
variable {ε ε' σ α β : Type}

structure Ends (R : σ → σ → Prop) (failed : ε → Prop) (s : σ) (post : α → σ → Prop) (r : Except ε α × σ) : Prop where
  kept : R s r.2
  returned : ∀ a, r.1 = .ok a → post a r.2
  refused : ∀ e, r.1 = .error e → failed e

def Keeps (R : σ → σ → Prop) (failed : ε → Prop) (s : σ) (x : ExceptT ε (StateM σ) α) (post : α → σ → Prop) : Prop :=
  Ends R failed s post (x.run s)

variable {R : σ → σ → Prop} {failed : ε → Prop} {s s' : σ} {a : α} {e : ε} {mid post : α → σ → Prop}

namespace Ends

theorem ok (kept : R s s') (holds : post a s') : Ends R failed s post (.ok a, s') where
  kept := kept
  returned := fun _ same => by
    cases same
    exact holds
  refused := fun _ same => by cases same

theorem error (kept : R s s') (fails : failed e) : Ends R failed s post (.error e, s') where
  kept := kept
  returned := fun _ same => by cases same
  refused := fun _ same => by
    cases same
    exact fails

end Ends

theorem runBind (x : ExceptT ε (StateM σ) α) (f : α → ExceptT ε (StateM σ) β) (s : σ) : (x >>= f).run s =
    match x.run s with
    | (.ok a, s') => (f a).run s'
    | (.error e, s') => (.error e, s') := by
  show (ExceptT.bindCont f (x.run s).1).run (x.run s).2 = _
  rcases x.run s with ⟨a | e, s'⟩ <;> rfl

theorem runReturn (x : ExceptT ε (StateM σ) α) (f : α → β) (s : σ) :
    ((do return f (← x) : ExceptT ε (StateM σ) β).run s).2 = (x.run s).2 := by
  rw [runBind]
  generalize x.run s = result
  obtain ⟨e | a, s'⟩ := result <;> rfl

theorem runTryCatch (x : ExceptT ε (StateM σ) α) (handler : ε → ExceptT ε (StateM σ) α) (s : σ) :
    (tryCatch x handler).run s =
      match x.run s with
      | (.ok a, s') => (.ok a, s')
      | (.error e, s') => (handler e).run s' := by
  show (match (x.run s).1 with
    | .ok a => pure (.ok a)
    | .error e => (handler e).run : StateM σ (Except ε α)) (x.run s).2 = _
  rcases x.run s with ⟨a | e, s'⟩ <;> rfl

namespace Keeps
variable {x : ExceptT ε (StateM σ) α} {f : α → ExceptT ε (StateM σ) β} {last : β → σ → Prop}

theorem weaken (first : Keeps R failed s x mid) (enough : ∀ a s', R s s' → mid a s' → post a s') :
    Keeps R failed s x post where
  kept := first.kept
  returned := fun a ok => enough a _ first.kept (first.returned a ok)
  refused := first.refused

theorem anyhow (first : Keeps R failed s x post) : Keeps R (fun _ => True) s x post where
  kept := first.kept
  returned := first.returned
  refused := fun _ _ => trivial

theorem ran (keeps : Keeps R failed s x post) (ok : x.run s = (.ok a, s')) : R s s' ∧ post a s' := by
  unfold Keeps at keeps
  rw [ok] at keeps
  exact ⟨keeps.kept, keeps.returned a rfl⟩

theorem attempt {failed' : ε' → Prop} (first : Keeps R failed s x post) :
    Keeps R failed' s (ExceptT.lift x.run : ExceptT ε' (StateM σ) (Except ε α))
      (fun result s' => (∀ a, result = .ok a → post a s') ∧ ∀ e, result = .error e → failed e) :=
  .ok first.kept ⟨first.returned, first.refused⟩

theorem modify {g : σ → σ} (kept : R s (g s)) :
    Keeps R failed s (modify g : ExceptT ε (StateM σ) PUnit) fun _ s' => s' = g s := .ok kept rfl

theorem set {t : σ} (kept : R s t) : Keeps R failed s (set t : ExceptT ε (StateM σ) PUnit) fun _ s' => s' = t :=
  .ok kept rfl

variable [IsPreorder σ R]

theorem pure (holds : post a s) : Keeps R failed s (pure a) post := .ok (refl_of R s) holds

theorem throw (fails : failed e) : Keeps R failed s (throw e) post := .error (refl_of R s) fails

theorem get : Keeps R failed s (MonadState.get : ExceptT ε (StateM σ) σ) fun a s' => a = s ∧ s = s' :=
  .ok (refl_of R s) ⟨rfl, rfl⟩

theorem bind (first : Keeps R failed s x mid) (rest : ∀ a s', R s s' → mid a s' → Keeps R failed s' (f a) last) :
    Keeps R failed s (x >>= f) last := by
  unfold Keeps at *
  rw [runBind]
  obtain ⟨kept, returned, refused⟩ := first
  generalize x.run s = result at *
  obtain ⟨a | e, s'⟩ := result
  · exact .error kept (refused _ rfl)
  · obtain ⟨further, answer, failure⟩ := rest _ s' kept (returned _ rfl)
    exact ⟨trans_of R kept further, answer, failure⟩

theorem tryCatch {handler : ε → ExceptT ε (StateM σ) α} (first : Keeps R failed s x post)
    (handled : ∀ e s', R s s' → failed e → Keeps R failed s' (handler e) post) :
    Keeps R failed s (MonadExcept.tryCatch x handler) post := by
  unfold Keeps at *
  rw [runTryCatch]
  obtain ⟨kept, returned, refused⟩ := first
  generalize x.run s = result at *
  obtain ⟨a | e, s'⟩ := result
  · obtain ⟨further, answer, failure⟩ := handled _ s' kept (refused _ rfl)
    exact ⟨trans_of R kept further, answer, failure⟩
  · exact .ok kept (returned _ rfl)

theorem read (first : Keeps Eq failed s x mid) (rest : ∀ a, mid a s → Keeps R failed s (f a) last) :
    Keeps R failed s (x >>= f) last := by
  unfold Keeps at *
  rw [runBind]
  obtain ⟨same, returned, refused⟩ := first
  generalize x.run s = result at *
  obtain ⟨e | a, s'⟩ := result
  · cases same
    exact .error (refl_of R _) (refused _ rfl)
  · cases same
    exact rest a (returned a rfl)

theorem throwBind (fails : failed e) : Keeps R failed s (MonadExcept.throw e >>= f) last := by
  have never : Keeps R failed s (MonadExcept.throw e : ExceptT ε (StateM σ) α) fun _ _ => False := .throw fails
  exact never.bind fun _ _ _ => False.elim

end Keeps
end Dialogue
