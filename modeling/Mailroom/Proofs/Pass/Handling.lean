import Mailroom.Pass
import Mailroom.Proofs.Message.Editing
import Mailroom.Proofs.Rulebook
import Mailroom.Proofs.Verdict

/-!
# Handling one message

What a pass does to one message, put together from what its steps do.

* `keeps_handle` says that a property of the office and of the sight of the message is kept while
  the message is handled, if every rule that may be carried out keeps it.
* `handle_idle` says that nothing happens to a message that no rule is for.
-/

namespace Mailroom

/-- What can be seen of the message of a case. -/
def Case.sight (c : Case) : Sight := c.message.sight c.office.disk

/-! ## Steps -/

section Steps

variable {I : Office → Sight → Prop} {α : Type}

/-- Work on the message of a case changes the message and the disk. -/
theorem liftM_run {e : Editing α} {c : Case} {result : Except Error α} {d : Disk} {m : Message}
    (h : e ⟨c.office.disk, c.message⟩ = (result, ⟨d, m⟩)) :
    (liftM e : Handling α) c = (result, ⟨{ c.office with disk := d }, m⟩) := by
  show ((e ⟨c.office.disk, c.message⟩).1,
    (⟨{ c.office with disk := (e ⟨c.office.disk, c.message⟩).2.disk },
      (e ⟨c.office.disk, c.message⟩).2.message⟩ : Case)) = _
  rw [h]

/-- Work on a message keeps a property of the office and of what can be seen of the message. -/
def Handling.Maintains (I : Office → Sight → Prop) (h : Handling α) : Prop :=
  Keeps (fun c : Case => I c.office c.sight) h

theorem maintains_quiet {r : Reading α} (hr : Quiet r) :
    Handling.Maintains I (Editing.toHandling r.toEditing) := by
  intro c hc
  have hsight := hr c.office.disk c.message
  change I c.office ((r c.office.disk c.message).2.sight c.office.disk)
  rw [hsight]
  exact hc

theorem maintains_record (hI : ∀ o v summary, I o v → I { o with summary := summary } v)
    (action : Text) : Handling.Maintains I (Handling.record action) :=
  fun _ hc => hI _ _ _ hc

/-- Keywords are changed only if they can be read. -/
theorem maintains_changeKeywords {change : Keywords → Keywords × Bool}
    (hI : ∀ o v k, I o v → v.keywords = .ok k → I o (v.withKeywords (change k))) :
    Handling.Maintains I (Editing.toHandling (Message.changeKeywords change).toEditing) := by
  intro c hc
  cases hk : c.sight.keywords with
  | error e =>
    obtain ⟨m', hrun, hsight⟩ := Message.changeKeywords_error change hk
    change I c.office ((Message.changeKeywords change c.office.disk c.message).2.sight
      c.office.disk)
    rw [hrun, hsight]
    exact hc
  | ok k =>
    obtain ⟨m', hrun, hsight⟩ := Message.changeKeywords_run change hk
    change I c.office ((Message.changeKeywords change c.office.disk c.message).2.sight
      c.office.disk)
    rw [hrun, hsight]
    exact hI _ _ k hc hk

end Steps

/-! ## What every rule keeps -/

section Keeping

variable {I : Office → Sight → Prop} {p : Pass}

theorem maintains_carryOut {rules : List Rule}
    (hrules : ∀ r ∈ rules, Handling.Maintains I (p.clerk.apply r)) :
    Handling.Maintains I (p.carryOut rules) := by
  induction rules with
  | nil => exact Keeps.pure ()
  | cons r rules ih =>
    have hrest := ih fun r hr => hrules r (by simp [hr])
    refine Keeps.bind (maintains_quiet (reads_verdict r).quiet) fun v => ?_
    refine Keeps.ite (fun _ => ?_) (fun _ => hrest)
    exact Keeps.bind (hrules r (by simp)) fun _ => hrest

theorem maintains_follow
    (hrules : ∀ r, IsUsed p.rules p.now r → Handling.Maintains I (p.clerk.apply r))
    (fresh : List Text) : Handling.Maintains I (p.follow fresh) := by
  induction hn : fresh.length using Nat.strongRecOn generalizing fresh with
  | _ n ih =>
    rw [Pass.follow]
    refine Keeps.get fun c => ?_
    dsimp only
    split
    · rename_i hmem
      refine Keeps.bind (maintains_carryOut fun r hr => ?_) fun _ => ?_
      · exact hrules r (Rulebook.isUsed_of_mem_folderRules hr)
      · refine ih _ ?_ _ rfl
        have hpos := List.length_pos_of_mem hmem
        rw [List.length_erase_of_mem hmem]
        omega
    · exact Keeps.pure ()

/-- What every rule in use keeps is kept while a message is handled. -/
theorem maintains_handle {rules : List Rule}
    (hrules : ∀ r, IsUsed p.rules p.now r → Handling.Maintains I (p.clerk.apply r))
    (hused : ∀ r ∈ rules, IsUsed p.rules p.now r) :
    Handling.Maintains I (p.handle rules) := by
  refine Keeps.get fun c => ?_
  exact Keeps.bind (maintains_carryOut fun r hr => hrules r (hused r hr)) fun _ =>
    maintains_follow hrules _

end Keeping

/-! ## Messages that no rule is for -/

section Idle

variable {p : Pass} {c : Case}

/-- The case when it was found out whether a rule is for the message. -/
def Case.tested (r : Rule) (c : Case) : Case :=
  ⟨c.office, (Looking.toReading r.verdict c.office.disk c.message).2⟩

theorem Case.sight_tested (r : Rule) (c : Case) : (c.tested r).sight = c.sight :=
  (reads_verdict r c.office.disk c.message).2

theorem carryOut_tested (r : Rule) (rules : List Rule) (c : Case) : p.carryOut (r :: rules) c =
    (if (c.sight.verdict r).applies then p.clerk.apply r >>= fun _ => p.carryOut rules
      else p.carryOut rules) (c.tested r) := by
  have hrun : Editing.toHandling (Looking.toReading r.verdict).toEditing c =
      (.ok (c.sight.verdict r), c.tested r) :=
    congrArg (fun v => (v, c.tested r)) (reads_verdict r c.office.disk c.message).1
  rw [Pass.carryOut]
  exact run_bind_ok hrun

/-- Whether a rule is carried out depends on what is seen of the message, and finding it out
leaves that alone. -/
theorem carryOut_cons (r : Rule) (rules : List Rule) (c : Case) :
    ∃ m, m.sight c.office.disk = c.sight ∧ p.carryOut (r :: rules) c =
      (if (c.sight.verdict r).applies then p.clerk.apply r >>= fun _ => p.carryOut rules
        else p.carryOut rules) ⟨c.office, m⟩ :=
  ⟨_, c.sight_tested r, carryOut_tested r rules c⟩

theorem carryOut_idle {rules : List Rule}
    (h : ∀ r ∈ rules, (c.sight.verdict r).applies = false) :
    ∃ m, p.carryOut rules c = (.ok (), ⟨c.office, m⟩) ∧ m.sight c.office.disk = c.sight := by
  induction rules generalizing c with
  | nil => exact ⟨c.message, rfl, rfl⟩
  | cons r rules ih =>
    obtain ⟨m₁, hsight, hrun⟩ := carryOut_cons (p := p) r rules c
    have hsame : Case.sight ⟨c.office, m₁⟩ = c.sight := hsight
    obtain ⟨m, hm, hm'⟩ := ih (c := ⟨c.office, m₁⟩) (by
      intro r' hr'
      rw [hsame]
      exact h r' (by simp [hr']))
    refine ⟨m, ?_, hm'.trans hsame⟩
    rw [hrun, if_neg (by simp [h r (by simp)])]
    exact hm

theorem follow_idle (fresh : List Text)
    (h : ∀ r ∈ p.rulebook.folderRules c.sight.entry.folder.name,
      (c.sight.verdict r).applies = false) :
    ∃ m, p.follow fresh c = (.ok (), ⟨c.office, m⟩) ∧ m.sight c.office.disk = c.sight := by
  induction hn : fresh.length using Nat.strongRecOn generalizing fresh c with
  | _ n ih =>
    have hget : (getThe Case : Handling Case) c = (.ok c, c) := rfl
    rw [Pass.follow, run_bind_ok hget]
    dsimp only
    split
    · rename_i hmem
      obtain ⟨m₁, hrun, hsight⟩ := carryOut_idle h
      have hsame : Case.sight ⟨c.office, m₁⟩ = c.sight := hsight
      have hlt : (fresh.erase c.message.folder).length < n := by
        have hpos := List.length_pos_of_mem hmem
        rw [List.length_erase_of_mem hmem]
        omega
      obtain ⟨m, hm, hm'⟩ := ih _ hlt (fresh.erase c.message.folder) (c := ⟨c.office, m₁⟩)
        (by rw [hsame]; exact h) rfl
      exact ⟨m, (run_bind_ok hrun).trans hm, hm'.trans hsame⟩
    · exact ⟨c.message, rfl, rfl⟩

/-- Nothing happens to a message that no rule is for. -/
theorem handle_idle {rules : List Rule}
    (h : ∀ r ∈ rules, (c.sight.verdict r).applies = false)
    (hfolder : ∀ r ∈ p.rulebook.folderRules c.sight.entry.folder.name,
      (c.sight.verdict r).applies = false) :
    ∃ m, p.handle rules c = (.ok (), ⟨c.office, m⟩) := by
  have hget : (getThe Case : Handling Case) c = (.ok c, c) := rfl
  rw [Pass.handle, run_bind_ok hget]
  obtain ⟨m₁, hrun, hsight⟩ := carryOut_idle h
  have hsame : Case.sight ⟨c.office, m₁⟩ = c.sight := hsight
  obtain ⟨m, hm, -⟩ := follow_idle (c := ⟨c.office, m₁⟩) (p.destinations.erase c.message.folder)
    (by rw [hsame]; exact hfolder)
  exact ⟨m, (run_bind_ok hrun).trans hm⟩

end Idle

/-! ## Messages that are taken up -/

section OnMessage

variable {I : Office → Sight → Prop} {K : Office → Prop} {p : Pass} {o : Office} {m : Message}
  {rules : List Rule}

theorem onMessage_run {α : Type} (h : Handling α) (m : Message) (o : Office) :
    h.onMessage m o = ((h ⟨o, m⟩).1, (h ⟨o, m⟩).2.office) := rfl

/-- What holds while a message is at hand holds when it was handled. -/
theorem keeps_onMessage (hK : ∀ o v, I o v → K o)
    (hrules : ∀ r, IsUsed p.rules p.now r → Handling.Maintains I (p.clerk.apply r))
    (hused : ∀ r ∈ rules, IsUsed p.rules p.now r) (h : I o (m.sight o.disk)) :
    K ((p.handle rules).onMessage m o).2 := by
  rw [onMessage_run]
  exact hK _ _ (maintains_handle hrules hused ⟨o, m⟩ h)

/-- A message that no rule is for is passed over. -/
theorem onMessage_idle (h : ∀ r, ((m.sight o.disk).verdict r).applies = true →
      r ∉ rules ∧ r ∉ p.rulebook.folderRules (m.sight o.disk).entry.folder.name) :
    (p.handle rules).onMessage m o = (.ok (), o) := by
  have hnot : ∀ rs : List Rule, (∀ r, ((m.sight o.disk).verdict r).applies = true → r ∉ rs) →
      ∀ r ∈ rs, ((m.sight o.disk).verdict r).applies = false := by
    intro rs hrs r hr
    rw [← Bool.not_eq_true]
    exact fun ha => hrs r ha hr
  obtain ⟨m', hm'⟩ := handle_idle (p := p) (c := ⟨o, m⟩) (hnot rules fun r hr => (h r hr).1)
    (hnot _ fun r hr => (h r hr).2)
  rw [onMessage_run, hm']

end OnMessage

end Mailroom
