import Mathlib.Data.List.Dedup
import Mathlib.Data.List.Perm.Subperm
import Mailroom.Proofs.Clerk
import Mailroom.Proofs.Keywords

/-!
# Following a message from folder to folder

`Pass.follow` gives away, turn by turn, one of the folders that rules move messages to, and so
cannot go on for ever.  What it does is told here as a loop that knows nothing of these folders:
it remembers where the message has been, and ends when the message stays or comes back.

* `Pass.Rounds` is that loop, and `Pass.Follows` is all that is done to one message.  Neither says
  that the loop ends: that is to say that there are rounds at all.
* `Pass.Rounds.fresh` and `Pass.Rounds.unique` hold of the loop whatever the rules are.
* `maintains_within` says that a message comes to no folder but those that rules move to, however
  often it is moved in one round.
* `handle_follows` says that the loop ends, and after how many rounds.
-/

namespace Mailroom

namespace Pass

variable {p : Pass} {visited : List Text} {c : Case} {rounds rounds' : List Text}
  {outcome outcome' : Except Error Unit × Case}

/-! ## The loop -/

/-- The rounds of a message that has been in some folders, as the names of the folders whose rules
are carried out, and what comes of them. -/
inductive Rounds (p : Pass) :
    List Text → Case → List Text → Except Error Unit × Case → Prop
  /-- The message is where it has been. -/
  | stop {visited : List Text} {c : Case} (h : c.message.folder ∈ visited) :
    Rounds p visited c [] (.ok (), c)
  /-- The message is in a new folder, and the rules of this folder cannot be carried out. -/
  | fail {visited : List Text} {c c' : Case} {e : Error} (h : c.message.folder ∉ visited)
    (hrun : p.carryOut (p.rulebook.folderRules c.message.folder) c = (.error e, c')) :
    Rounds p visited c [c.message.folder] (.error e, c')
  /-- The message is in a new folder, the rules of this folder are carried out, and the next
  round follows. -/
  | next {visited : List Text} {c c' : Case} {rounds : List Text}
    {outcome : Except Error Unit × Case} (h : c.message.folder ∉ visited)
    (hrun : p.carryOut (p.rulebook.folderRules c.message.folder) c = (.ok (), c'))
    (hrest : Rounds p (visited ++ [c.message.folder]) c' rounds outcome) :
    Rounds p visited c (c.message.folder :: rounds) outcome

/-- What is done to a message: some rules are carried out, and then come the rounds. -/
inductive Follows (p : Pass) (rules : List Rule) (c : Case) :
    List Text → Except Error Unit × Case → Prop
  /-- The rules cannot be carried out. -/
  | fail {c' : Case} {e : Error} (hrun : p.carryOut rules c = (.error e, c')) :
    Follows p rules c [] (.error e, c')
  /-- The rules are carried out. -/
  | rounds {c' : Case} {rounds : List Text} {outcome : Except Error Unit × Case}
    (hrun : p.carryOut rules c = (.ok (), c'))
    (hrest : p.Rounds [c.message.folder] c' rounds outcome) : Follows p rules c rounds outcome

/-- No round is for a folder where the message has been, and no two are for the same one. -/
theorem Rounds.fresh (h : p.Rounds visited c rounds outcome) :
    rounds.Nodup ∧ ∀ f ∈ rounds, f ∉ visited := by
  induction h with
  | stop h => simp
  | fail h hrun => simpa using h
  | next h hrun hrest ih =>
    obtain ⟨hnodup, hnew⟩ := ih
    simp only [List.mem_append, List.mem_singleton, not_or] at hnew
    refine ⟨List.nodup_cons.2 ⟨fun hmem => (hnew _ hmem).2 rfl, hnodup⟩, ?_⟩
    exact List.forall_mem_cons.2 ⟨h, fun f hf => (hnew f hf).1⟩

/-- There is only one way for the rounds to go. -/
theorem Rounds.unique (h : p.Rounds visited c rounds outcome)
    (h' : p.Rounds visited c rounds' outcome') : rounds' = rounds ∧ outcome' = outcome := by
  induction h generalizing rounds' outcome' with
  | stop hmem =>
    cases h' with
    | stop => exact ⟨rfl, rfl⟩
    | fail hnew => exact absurd hmem hnew
    | next hnew => exact absurd hmem hnew
  | fail hnew hrun =>
    cases h' with
    | stop hmem => exact absurd hmem hnew
    | fail _ hrun' => exact ⟨rfl, hrun'.symm.trans hrun⟩
    | next _ hrun' => exact nomatch hrun.symm.trans hrun'
  | next hnew hrun hrest ih =>
    cases h' with
    | stop hmem => exact absurd hmem hnew
    | fail _ hrun' => exact nomatch hrun.symm.trans hrun'
    | next _ hrun' hrest' =>
      obtain rfl := (Prod.ext_iff.1 (hrun.symm.trans hrun')).2
      obtain ⟨rfl, rfl⟩ := ih hrest'
      exact ⟨rfl, rfl⟩

theorem Follows.unique {rules : List Rule} (h : p.Follows rules c rounds outcome)
    (h' : p.Follows rules c rounds' outcome') : rounds' = rounds ∧ outcome' = outcome := by
  cases h with
  | fail hrun =>
    cases h' with
    | fail hrun' => exact ⟨rfl, hrun'.symm.trans hrun⟩
    | rounds hrun' => exact nomatch hrun.symm.trans hrun'
  | rounds hrun hrest =>
    cases h' with
    | fail hrun' => exact nomatch hrun.symm.trans hrun'
    | rounds hrun' hrest' =>
      obtain rfl := (Prod.ext_iff.1 (hrun.symm.trans hrun')).2
      exact hrest.unique hrest'

end Pass

/-! ## Where a message comes -/

section Within

variable {P : Text → Prop}

/-- Writing a message leaves it in its folder. -/
theorem Message.putContent_folder (bytes : Bytes) (desk : Desk) :
    (putContent bytes desk).2.message.folder = desk.message.folder := by
  unfold putContent
  split
  · rfl
  · rename_i d entry replacement hreplace
    obtain ⟨created, -, hcreated⟩ := exists_of_bind_ok hreplace
    obtain ⟨-, hentry⟩ := Prod.ext_iff.1 (Except.ok.inj hcreated)
    obtain rfl := (Prod.ext_iff.1 hentry).1
    rfl

theorem Message.save_folder (d : Disk) (m : Message) :
    (save ⟨d, m⟩).2.message.folder = m.folder := by
  by_cases hedits : m.edits = []
  · rw [save_of_no_edits hedits]
  rcases save_of_edits (d := d) hedits with ⟨e, m', hsave, hsight, -⟩ |
    ⟨bytes, header, m', -, -, hsight, hsave, -⟩
  · have hentry : m'.entry = m.entry := congrArg Sight.entry hsight
    rw [hsave]
    exact congrArg (fun e : Entry => e.folder.name) hentry
  · have hentry : m'.entry = m.entry := congrArg Sight.entry hsight
    have hkeeps : Keeps (fun desk : Desk => desk.message.folder = m.folder)
        (writeRevised bytes header m.edits) := by
      refine Keeps.bind (fun desk hdesk => (putContent_folder _ desk).trans hdesk) fun _ => ?_
      exact Keeps.bind (Keeps.modify fun _ hdesk => hdesk) fun _ => Keeps.pure _
    rw [hsave]
    exact hkeeps _ (congrArg (fun e : Entry => e.folder.name) hentry)

/-- A message that is moved stays where it is or comes to the folder. -/
theorem Message.moveTo_folder (dest : Folder) (d : Disk) (m : Message) :
    (moveTo dest ⟨d, m⟩).2.message.folder = m.folder ∨
      (moveTo dest ⟨d, m⟩).2.message.folder = dest.name := by
  unfold moveTo Entry.moveTo
  dsimp only
  by_cases hsame : dest = m.entry.folder
  · simp [hsame]
  · rw [if_neg hsame]
    split
    · exact Or.inl rfl
    · rename_i d' entry hmoved
      split at hmoved
      · obtain ⟨d'', -, hpair⟩ := exists_of_bind_ok hmoved
        obtain ⟨-, rfl⟩ := Prod.ext_iff.1 (Except.ok.inj hpair)
        exact Or.inr rfl
      · exact nomatch hmoved

/-- A rule leaves a message among some folders, if it is to move it to one of them. -/
theorem maintains_within {k : Clerk} {r : Rule} (hmove : ∀ g, r.moveTo = some g → P g) :
    Handling.Maintains (fun _ v => P v.entry.folder.name) (k.apply r) := by
  have hsummary : ∀ (o : Office) (v : Sight) (summary : Summary), P v.entry.folder.name →
      P v.entry.folder.name := fun _ _ _ h => h
  refine maintains_apply hsummary (fun _ _ _ h _ => ?_) (fun _ _ _ h _ => ?_)
    (maintains_passOn hsummary fun _ _ _ _ accepted _ h _ _ => ?_) ?_ ?_
  · exact h
  · exact h
  · cases accepted <;> exact h
  · unfold Clerk.save
    refine Keeps.ite (fun _ => Keeps.discard (leads_editing (I := fun _ v => P v.entry.folder.name)
      (J := fun _ v => P v.entry.folder.name) fun c hc => ?_)) fun _ => Keeps.pure _
    refine ⟨_, _, _, rfl, ?_⟩
    show P (Message.save ⟨c.office.disk, c.message⟩).2.message.folder
    rw [Message.save_folder]
    exact hc
  · unfold Clerk.move
    cases htarget : r.moveTo with
    | none => exact Keeps.pure ()
    | some g =>
      have hrest : Handling.Maintains (fun _ v => P v.entry.folder.name)
          (Handling.record ("Moved " ++ g)) := maintains_record hsummary _
      refine Keeps.ite (fun _ => Keeps.bind (leads_editing (I := fun _ v => P v.entry.folder.name)
        (J := fun _ v => P v.entry.folder.name) fun c hc => ?_) fun _ => hrest)
        fun _ => hrest
      refine ⟨_, _, _, rfl, ?_⟩
      show P (Message.moveTo (k.maildir.folder g) ⟨c.office.disk, c.message⟩).2.message.folder
      rcases Message.moveTo_folder (k.maildir.folder g) c.office.disk c.message with h | h
      · rw [h]
        exact hc
      · rw [h]
        exact hmove g htarget

end Within

/-! ## The loop ends -/

section Ends

variable {p : Pass} {c c' : Case} {rules : List Rule} {visited rounds : List Text}
  {outcome : Except Error Unit × Case} {result : Except Error Unit}

theorem moveTo_of_isUsed {r : Rule} (hr : IsUsed p.rules p.now r) {g : Text}
    (hg : r.moveTo = some g) : g ∈ p.rules.filterMap Rule.moveTo := by
  obtain ⟨source, hsource, -, -, hmove⟩ := hr.keeps_actions
  exact List.mem_filterMap.2 ⟨source, hsource, hmove g hg⟩

/-- After some rules the message is where it was or where some rule moves messages to. -/
theorem carryOut_within {P : Text → Prop} (hmoves : ∀ g ∈ p.rules.filterMap Rule.moveTo, P g)
    (hused : ∀ r ∈ rules, IsUsed p.rules p.now r) (h : P c.message.folder)
    (hrun : p.carryOut rules c = (result, c')) : P c'.message.folder := by
  have hkept : Handling.Maintains (fun _ v => P v.entry.folder.name) (p.carryOut rules) :=
    maintains_carryOut fun r hr => maintains_within fun g hg =>
      hmoves g (moveTo_of_isUsed (hused r hr) hg)
  have hc' := hkept c h
  rw [hrun] at hc'
  exact hc'

/-- The rounds are for folders that rules move messages to, if the message is in one of these or
where it has been; and so is the message in the end. -/
theorem Pass.Rounds.within {P : Text → Prop} (h : p.Rounds visited c rounds outcome)
    (hmoves : ∀ g ∈ p.rules.filterMap Rule.moveTo, P g)
    (hc : c.message.folder ∈ visited ∨ c.message.folder ∈ p.rules.filterMap Rule.moveTo)
    (hP : P c.message.folder) :
    (∀ f ∈ rounds, f ∈ p.rules.filterMap Rule.moveTo) ∧ P outcome.2.message.folder := by
  have hused : ∀ f, ∀ r ∈ p.rulebook.folderRules f, IsUsed p.rules p.now r := fun _ _ hr =>
    Rulebook.isUsed_of_mem_folderRules hr
  induction h with
  | stop hmem => exact ⟨by simp, hP⟩
  | fail hnew hrun =>
    exact ⟨by simpa using hc.resolve_left hnew, carryOut_within hmoves (hused _) hP hrun⟩
  | @next visited c c' rounds outcome hnew hrun hrest ih =>
    have hthere := hc.resolve_left hnew
    -- the folder of this round is visited from now on, and the rules move nowhere else
    have hc' := carryOut_within
      (P := fun f => f ∈ visited ++ [c.message.folder] ∨ f ∈ p.rules.filterMap Rule.moveTo)
      (fun g hg => .inr hg) (hused _) (.inr hthere) hrun
    obtain ⟨hrounds, hlast⟩ := ih hc' (carryOut_within hmoves (hused _) hP hrun)
    exact ⟨List.forall_mem_cons.2 ⟨hthere, hrounds⟩, hlast⟩

/-- The folders that are left for `Pass.follow` are those that rules move to and where the message
has not been; as there is one less after every round, the rounds come to an end. -/
theorem follow_rounds (fresh : List Text) (hnodup : fresh.Nodup)
    (hfresh : ∀ f, f ∈ fresh ↔ f ∈ p.rules.filterMap Rule.moveTo ∧ f ∉ visited)
    (hc : c.message.folder ∈ visited ∨ c.message.folder ∈ p.rules.filterMap Rule.moveTo) :
    ∃ rounds, p.Rounds visited c rounds (p.follow fresh c) := by
  induction hn : fresh.length using Nat.strongRecOn generalizing fresh visited c with
  | _ n ih =>
    have hget : (getThe Case : Handling Case) c = (.ok c, c) := rfl
    rw [Pass.follow, run_bind_ok hget]
    dsimp only
    split
    · rename_i hmem
      obtain ⟨hthere, hnew⟩ := (hfresh _).1 hmem
      cases hrun : p.carryOut (p.rulebook.folderRules c.message.folder) c with
      | mk result c' =>
        cases result with
        | error e =>
          rw [run_bind_error hrun]
          exact ⟨_, .fail hnew hrun⟩
        | ok u =>
          rw [run_bind_ok hrun]
          have hless : (fresh.erase c.message.folder).length < n := by
            have hpos := List.length_pos_of_mem hmem
            rw [List.length_erase_of_mem hmem]
            omega
          have hleft : ∀ f, f ∈ fresh.erase c.message.folder ↔
              f ∈ p.rules.filterMap Rule.moveTo ∧ f ∉ visited ++ [c.message.folder] := by
            intro f
            rw [hnodup.mem_erase_iff, hfresh, List.mem_append, List.mem_singleton, not_or]
            exact ⟨fun h => ⟨h.2.1, h.2.2, h.1⟩, fun h => ⟨h.2.2, h.1, h.2.1⟩⟩
          have hc' := carryOut_within
            (P := fun f => f ∈ visited ++ [c.message.folder] ∨ f ∈ p.rules.filterMap Rule.moveTo)
            (fun g hg => .inr hg) (fun r hr => Rulebook.isUsed_of_mem_folderRules hr)
            (.inr hthere) hrun
          obtain ⟨rounds, hrounds⟩ := ih _ hless _ (hnodup.erase _) hleft hc' rfl
          exact ⟨_, .next hnew hrun hrounds⟩
    · rename_i hnot
      refine ⟨_, .stop ?_⟩
      by_contra hnew
      exact hnot ((hfresh _).2 ⟨hc.resolve_left hnew, hnew⟩)

theorem mem_destinations {f : Text} :
    f ∈ p.destinations ↔ f ∈ p.rules.filterMap Rule.moveTo := TextSet.mem_ofList

theorem nodup_destinations (p : Pass) : p.destinations.Nodup :=
  nodup_of_increasing (TextSet.ofList (p.rules.filterMap Rule.moveTo)).increasing

theorem exists_follows (c : Case) (hused : ∀ r ∈ rules, IsUsed p.rules p.now r) :
    ∃ rounds, p.Follows rules c rounds (p.handle rules c) := by
  have hget : (getThe Case : Handling Case) c = (.ok c, c) := rfl
  rw [Pass.handle, run_bind_ok hget]
  cases hrun : p.carryOut rules c with
  | mk result c' =>
    cases result with
    | error e =>
      rw [run_bind_error hrun]
      exact ⟨_, .fail hrun⟩
    | ok u =>
      rw [run_bind_ok hrun]
      have hc' := carryOut_within
        (P := fun f => f ∈ [c.message.folder] ∨ f ∈ p.rules.filterMap Rule.moveTo)
        (fun g hg => .inr hg) hused (.inl (by simp)) hrun
      obtain ⟨rounds, hrounds⟩ := follow_rounds (p.destinations.erase c.message.folder)
        ((nodup_destinations p).erase _) (fun f => by
          rw [(nodup_destinations p).mem_erase_iff, mem_destinations, List.mem_singleton,
            and_comm]) hc'
      exact ⟨rounds, .rounds hrun hrounds⟩

/-- Whatever the rules are, a message is followed through rounds that come to an end.  They are for
folders that rules move messages to, none of them twice and never the one where the message was
taken up, so that there are no more rounds than such folders; nothing else can be done to the
message; and it ends where it was or in one of these folders. -/
theorem handle_follows (p : Pass) (c : Case) :
    ∃ rounds, p.Follows (p.rulebook.rulesFor c.message.folder) c rounds
        (p.handle (p.rulebook.rulesFor c.message.folder) c) ∧
      (∀ rounds' outcome, p.Follows (p.rulebook.rulesFor c.message.folder) c rounds' outcome →
        rounds' = rounds ∧ outcome = p.handle (p.rulebook.rulesFor c.message.folder) c) ∧
      (c.message.folder :: rounds).Nodup ∧
      (∀ f ∈ rounds, f ∈ p.rules.filterMap Rule.moveTo) ∧
      rounds.length ≤ (p.rules.filterMap Rule.moveTo).dedup.length ∧
      (p.handle (p.rulebook.rulesFor c.message.folder) c).2.message.folder ∈
        c.message.folder :: p.rules.filterMap Rule.moveTo := by
  have hused : ∀ r ∈ p.rulebook.rulesFor c.message.folder, IsUsed p.rules p.now r := fun r hr =>
    Rulebook.isUsed_of_mem_rulesFor hr
  obtain ⟨rounds, hfollows⟩ := exists_follows c hused
  have hmoves : ∀ g ∈ p.rules.filterMap Rule.moveTo,
      g ∈ c.message.folder :: p.rules.filterMap Rule.moveTo := fun g hg =>
    List.mem_cons_of_mem _ hg
  have hall : (c.message.folder :: rounds).Nodup ∧
      (∀ f ∈ rounds, f ∈ p.rules.filterMap Rule.moveTo) ∧
      (p.handle (p.rulebook.rulesFor c.message.folder) c).2.message.folder ∈
        c.message.folder :: p.rules.filterMap Rule.moveTo := by
    generalize p.handle (p.rulebook.rulesFor c.message.folder) c = outcome at hfollows ⊢
    cases hfollows with
    | fail hrun => exact ⟨by simp, by simp, carryOut_within hmoves hused (by simp) hrun⟩
    | rounds hrun hrest =>
      have hc' := carryOut_within hmoves hused (List.mem_cons_self) hrun
      obtain ⟨hnodup, hnew⟩ := hrest.fresh
      obtain ⟨hrounds, hlast⟩ := hrest.within hmoves (by simpa using hc') hc'
      refine ⟨List.nodup_cons.2 ⟨fun hmem => hnew _ hmem (by simp), hnodup⟩, hrounds, hlast⟩
  obtain ⟨hnodup, hrounds, hlast⟩ := hall
  have hlength : rounds.length ≤ (p.rules.filterMap Rule.moveTo).dedup.length :=
    ((List.nodup_cons.1 hnodup).2.subperm fun f hf =>
      List.mem_dedup.2 (hrounds f hf)).length_le
  exact ⟨rounds, hfollows, fun _ _ h => hfollows.unique h, hnodup, hrounds, hlength, hlast⟩

end Ends

end Mailroom
