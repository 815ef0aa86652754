import Mailroom.Proofs.Work

/-!
# Two pieces of work side by side

The same work in two states, or two kinds of work that correspond, come to the same: what is
related before is related after, and both succeed with one value or both fail.

* `SameOutcome` compares results.  Two failures count as the same if both are of the disk, as no
  work looks at what the disk had to complain about.
* `Tally` compares what two kinds of work come to, result and state.
* `Alongside` says that work keeps a relation of states and comes to the same; `Alongside.bind`,
  `Alongside.tryCatch` and the lemmas beside them put such work together.
-/

namespace Mailroom

/-- Errors between which no work makes a difference. -/
inductive Error.Like : Error → Error → Prop where
  /-- An error is like itself. -/
  | same (e : Error) : Like e e
  /-- What the disk complains about does not matter. -/
  | file (f f' : Fault) : Like (.file f) (.file f')

/-- Whether two results are one value, or two errors that are alike. -/
inductive SameOutcome {α : Type} : Except Error α → Except Error α → Prop where
  /-- Both are one value. -/
  | ok (a : α) : SameOutcome (.ok a) (.ok a)
  /-- Both are errors. -/
  | error {e e' : Error} (h : e.Like e') : SameOutcome (.error e) (.error e')

theorem SameOutcome.refl {α : Type} (r : Except Error α) : SameOutcome r r := by
  cases r with
  | ok a => exact .ok a
  | error e => exact .error (.same e)

theorem SameOutcome.eq_ok {α : Type} {r : Except Error α} {a : α} (h : SameOutcome (.ok a) r) :
    r = .ok a := by
  cases h
  rfl

theorem SameOutcome.eq_error {α : Type} {r : Except Error α} {e : Error}
    (h : SameOutcome (.error e) r) : ∃ e', r = .error e' ∧ e.Like e' := by
  cases h with
  | error hlike => exact ⟨_, rfl, hlike⟩

/-- Of two such results, both or none say that a pass was called off. -/
theorem SameOutcome.cancelled_iff {α : Type} {r r' : Except Error α} (h : SameOutcome r r') :
    r = .error .cancelled ↔ r' = .error .cancelled := by
  cases h with
  | ok a => simp
  | error hlike =>
    cases hlike with
    | same e => rfl
    | file f f' => simp

/-- Whether two results are the same, and the states with them related. -/
def Tally {σ α : Type} (R : σ → σ → Prop) (x x' : Except Error α × σ) : Prop :=
  SameOutcome x.1 x'.1 ∧ R x.2 x'.2

/-- Two kinds of work, from states that are related, come to the same and leave states that are
related. -/
def Alongside {σ α : Type} (R : σ → σ → Prop) (w w' : ExceptT Error (StateM σ) α) : Prop :=
  ∀ s s', R s s' → Tally R (w s) (w' s')

namespace Alongside

variable {σ α β : Type} {R : σ → σ → Prop} {w w' : ExceptT Error (StateM σ) α}
  {f f' : α → ExceptT Error (StateM σ) β} {s s' : σ}

/-- What both can come to. -/
theorem cases (h : Alongside R w w') (hs : R s s') :
    (∃ a t t', w s = (.ok a, t) ∧ w' s' = (.ok a, t') ∧ R t t') ∨
    ∃ e e' t t', w s = (.error e, t) ∧ w' s' = (.error e', t') ∧ e.Like e' ∧ R t t' := by
  obtain ⟨hresult, hstates⟩ := h s s' hs
  cases hrun : w s with
  | mk r t =>
    cases hrun' : w' s' with
    | mk r' t' =>
      rw [hrun, hrun'] at hresult hstates
      dsimp only at hresult
      cases hresult with
      | ok a => exact Or.inl ⟨a, t, t', rfl, rfl, hstates⟩
      | error hlike => exact Or.inr ⟨_, _, t, t', rfl, rfl, hlike, hstates⟩

theorem pure (a : α) : Alongside R (pure a) (pure a : ExceptT Error (StateM σ) α) :=
  fun _ _ hs => ⟨.ok a, hs⟩

theorem throw {e e' : Error} (h : e.Like e') :
    Alongside R (throw e) (throw e' : ExceptT Error (StateM σ) α) :=
  fun _ _ hs => ⟨.error h, hs⟩

theorem bind (hw : Alongside R w w') (hf : ∀ a, Alongside R (f a) (f' a)) :
    Alongside R (w >>= f) (w' >>= f') := by
  intro s s' hs
  rcases hw.cases hs with ⟨a, t, t', hrun, hrun', ht⟩ | ⟨e, e', t, t', hrun, hrun', hlike, ht⟩
  · rw [run_bind_ok hrun, run_bind_ok hrun']
    exact hf a t t' ht
  · rw [run_bind_error hrun, run_bind_error hrun']
    exact ⟨.error hlike, ht⟩

theorem map (g : α → β) (hw : Alongside R w w') : Alongside R (g <$> w) (g <$> w') :=
  hw.bind fun a => pure (g a)

theorem discard (hw : Alongside R w w') : Alongside R (discard w) (discard w') :=
  hw.bind fun _ => pure ()

theorem tryCatch {handler handler' : Error → ExceptT Error (StateM σ) α}
    (hw : Alongside R w w')
    (hh : ∀ e e', Error.Like e e' → Alongside R (handler e) (handler' e')) :
    Alongside R (tryCatch w handler) (tryCatch w' handler') := by
  intro s s' hs
  rcases hw.cases hs with ⟨a, t, t', hrun, hrun', ht⟩ | ⟨e, e', t, t', hrun, hrun', hlike, ht⟩
  · rw [run_tryCatch_ok hrun, run_tryCatch_ok hrun']
    exact ⟨.ok a, ht⟩
  · rw [run_tryCatch_error hrun, run_tryCatch_error hrun']
    exact hh e e' hlike t t' ht

theorem ite {c c' : Prop} [Decidable c] [Decidable c'] {v v' : ExceptT Error (StateM σ) α}
    (hc : c ↔ c') (hv : c → Alongside R v v') (hw : ¬ c → Alongside R w w') :
    Alongside R (if c then v else w) (if c' then v' else w') := by
  by_cases h : c
  · rw [if_pos h, if_pos (hc.1 h)]
    exact hv h
  · rw [if_neg h, if_neg fun h' => h (hc.2 h')]
    exact hw h

/-- Work may depend on the state, which is related to the other one. -/
theorem get {g g' : σ → ExceptT Error (StateM σ) β}
    (hg : ∀ s s', R s s' → Tally R (g s s) (g' s' s')) :
    Alongside R (getThe σ >>= g) (getThe σ >>= g') := hg

end Alongside

end Mailroom
