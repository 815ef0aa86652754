import Mailroom.Office

/-!
# Work and what it keeps

All work of the mailroom changes a state and may fail: a look at a message, work on a message, on
a case and in the office.  What holds of the state before, and is kept by every step, holds after
the work, whether or not it fails.

* `run_bind_ok` and `run_bind_error` take the first step of some work.
* `Keeps` says that a property of the state is kept, and `Keeps.bind`, `Keeps.ite` and
  `Keeps.tryCatch` put together work that keeps it; `Leads` says that it turns into another one.
-/

namespace Mailroom

section Work

variable {σ α β : Type} {w : ExceptT Error (StateM σ) α} {f : α → ExceptT Error (StateM σ) β}
  {s s' : σ}

/-! ## Steps -/

theorem run_bind_ok {a : α} (h : w s = (.ok a, s')) : (w >>= f) s = f a s' := by
  change ExceptT.bindCont f (w s).1 (w s).2 = _
  rw [h]
  rfl

theorem run_bind_error {e : Error} (h : w s = (.error e, s')) :
    (w >>= f) s = (.error e, s') := by
  change ExceptT.bindCont f (w s).1 (w s).2 = _
  rw [h]
  rfl

theorem run_discard_ok {a : α} (h : w s = (.ok a, s')) : (discard w) s = (.ok (), s') := by
  have hmap : discard w = w >>= fun _ => pure () := rfl
  rw [hmap, run_bind_ok h]
  rfl

/-- The state after some work does not depend on what is done with its result. -/
theorem run_discard_snd (w : ExceptT Error (StateM σ) α) (s : σ) : ((discard w) s).2 = (w s).2 := by
  cases hrun : w s with
  | mk result s' =>
    cases result with
    | ok a => rw [run_discard_ok hrun]
    | error e =>
      have hdiscard : (discard w) s = (.error e, s') := run_bind_error hrun
      rw [hdiscard]

theorem run_tryCatch_ok {handler : Error → ExceptT Error (StateM σ) α} {a : α}
    (h : w s = (.ok a, s')) : (tryCatch w handler) s = (.ok a, s') := by
  change (ExceptT.tryCatch w handler) s = _
  unfold ExceptT.tryCatch
  simp only [ExceptT.mk, bind, StateT.bind, h]
  rfl

theorem run_tryCatch_error {handler : Error → ExceptT Error (StateM σ) α} {e : Error}
    (h : w s = (.error e, s')) : (tryCatch w handler) s = handler e s' := by
  change (ExceptT.tryCatch w handler) s = _
  unfold ExceptT.tryCatch
  simp only [ExceptT.mk, bind, StateT.bind, h]

/-- A result that depends on another one is there only if that one is. -/
theorem exists_of_bind_ok {r : Except Error α} {g : α → Except Error β} {b : β}
    (h : r >>= g = .ok b) : ∃ a, r = .ok a ∧ g a = .ok b := by
  cases r with
  | error e => exact nomatch h
  | ok a => exact ⟨a, rfl, h⟩

/-- Work of two steps succeeds only if the first one does. -/
theorem exists_ok_of_bind_ok {b : β} (h : ((w >>= f) s).1 = .ok b) : ∃ a, (w s).1 = .ok a := by
  cases hrun : w s with
  | mk r s' =>
    cases r with
    | ok a => exact ⟨a, rfl⟩
    | error e =>
      rw [run_bind_error hrun] at h
      exact absurd h (by simp)

/-! ## What is kept -/

/-- Whatever comes of some work, one property leads to another. -/
def Leads (I J : σ → Prop) (w : ExceptT Error (StateM σ) α) : Prop := ∀ s, I s → J (w s).2

/-- Whatever comes of some work, a property that the state had before it has after it. -/
def Keeps (I : σ → Prop) (w : ExceptT Error (StateM σ) α) : Prop := ∀ s, I s → I (w s).2

variable {I J : σ → Prop}

theorem Keeps.pure (a : α) : Keeps I (pure a : ExceptT Error (StateM σ) α) := fun _ hs => hs

theorem Keeps.throw (e : Error) : Keeps I (throw e : ExceptT Error (StateM σ) α) :=
  fun _ hs => hs

theorem Leads.bind (hw : Leads I J w) (hf : ∀ a, Keeps J (f a)) :
    Leads I J (w >>= f) := by
  intro s hs
  have hs' := hw s hs
  cases hr : w s with
  | mk r s' =>
    rw [hr] at hs'
    cases r with
    | error e =>
      rw [run_bind_error hr]
      exact hs'
    | ok a =>
      rw [run_bind_ok hr]
      exact hf a s' hs'

theorem Keeps.bind (hw : Keeps I w) (hf : ∀ a, Keeps I (f a)) : Keeps I (w >>= f) :=
  Leads.bind hw hf

/-- Work that keeps a property fails or does not, and keeps it either way. -/
theorem Keeps.cases (hw : Keeps I w) (hs : I s) :
    (∃ e s', w s = (.error e, s') ∧ I s') ∨ ∃ a s', w s = (.ok a, s') ∧ I s' := by
  have hs' := hw s hs
  cases hr : w s with
  | mk r s' =>
    rw [hr] at hs'
    cases r with
    | error e => exact Or.inl ⟨e, s', rfl, hs'⟩
    | ok a => exact Or.inr ⟨a, s', rfl, hs'⟩

theorem Keeps.tryCatch {handler : Error → ExceptT Error (StateM σ) α} (hw : Keeps I w)
    (hh : ∀ e, Keeps I (handler e)) : Keeps I (tryCatch w handler) := by
  intro s hs
  have hs' := hw s hs
  cases hr : w s with
  | mk r s' =>
    rw [hr] at hs'
    cases r with
    | error e =>
      rw [run_tryCatch_error hr]
      exact hh e s' hs'
    | ok a =>
      rw [run_tryCatch_ok hr]
      exact hs'

theorem Keeps.ite {c : Prop} [Decidable c] {v w : ExceptT Error (StateM σ) α}
    (hv : c → Keeps I v) (hw : ¬ c → Keeps I w) : Keeps I (if c then v else w) := by
  split
  · rename_i h
    exact hv h
  · rename_i h
    exact hw h

theorem Keeps.get {g : σ → ExceptT Error (StateM σ) β} (hg : ∀ s, Keeps I (g s)) :
    Keeps I (getThe σ >>= g) := fun s hs => hg s s hs

theorem Keeps.modify {g : σ → σ} (hg : ∀ s, I s → I (g s)) :
    Keeps I (modifyThe σ g : ExceptT Error (StateM σ) PUnit) := hg

theorem Keeps.ofExcept (r : Except Error α) :
    Keeps I (liftM r : ExceptT Error (StateM σ) α) := by
  cases r with
  | error e => exact Keeps.throw e
  | ok a => exact Keeps.pure a

theorem Leads.map {g : α → β} (hw : Leads I J w) : Leads I J (g <$> w) := by
  have hmap : g <$> w = w >>= fun a => Pure.pure (g a) := rfl
  rw [hmap]
  exact hw.bind fun a => Keeps.pure (g a)

theorem Leads.discard (hw : Leads I J w) : Leads I J (discard w) := hw.map

theorem Keeps.discard (hw : Keeps I w) : Keeps I (discard w) := Leads.discard hw

end Work

end Mailroom
