import Mailroom.Proofs.Clerk
import Mailroom.Proofs.Pass.Again
import Mailroom.Proofs.Pass.Once

/-!
# Letters that are given to the post again

A rule that adds labels is skipped for a message that has them, whether or not the post took the
letter.  A rule that does nothing but pass messages on leaves no such trace: if the post refused
all letters about a message in one pass, the message is as it was, and the next pass gives the post
a letter to all addresses that are left.

* `Clerk.Posts` says what is given to the post for a message, and `passOn_posts` that it is.
* `Serves` says what becomes of the office while a message is handled; `Pass.handle_serves` is the
  step that both passes take.
* `Pass.Waits` is what the first pass keeps, and `Pass.run_retries` is the result.
-/

namespace Mailroom

/-! ## One message -/

/-- A post that takes every letter is at hand. -/
def Clerk.IsServed (k : Clerk) : Prop :=
  ∃ f, k.forwarder = some f ∧ ∀ before letter, f.post.answer before letter = .ok ()

/-- The letters that are given to the post when a message is passed on. -/
structure Clerk.Posts (k : Clerk) (v : Sight) (destinations : List Mailbox)
    (xs : List Submission) : Prop where
  /-- Every letter is about the message, and goes to all addresses that are left. -/
  letters : ∀ x ∈ xs, x.source = v.entry.path ∧ ∃ done, v.Mails destinations done ∧
    x.letter.recipients = pendingOf done destinations
  /-- If there is one to be given, a post that takes every letter takes it. -/
  accepted : k.IsServed → ∀ done, v.Mails destinations done → ∃ x ∈ xs, x.accepted = true

theorem Clerk.Posts.nothing {k : Clerk} {v : Sight} {destinations : List Mailbox}
    (h : ∀ done, v.Mails destinations done → ¬ k.IsServed) : k.Posts v destinations [] :=
  ⟨by simp, fun hserved done hmails => absurd hserved (h done hmails)⟩

theorem Sight.Mails.ne_nil {v : Sight} {destinations : List Mailbox} {done : TextSet}
    (h : v.Mails destinations done) : destinations ≠ [] := by
  rintro rfl
  exact h.pending rfl

/-- Passing a message on gives the letters to the post, and what is seen of the message changes
only if the post takes one. -/
theorem passOn_posts {k : Clerk} (hdry : k.dryRun = false) (destinations : List Mailbox)
    (c : Case) : ∃ summary xs m, k.passOn destinations c = (.ok (),
        ⟨{ c.office with submissions := c.office.submissions ++ xs, summary := summary }, m⟩) ∧
      k.Posts c.sight destinations xs ∧ (m.sight c.office.disk = c.sight ∨
        (∃ x ∈ xs, x.accepted = true) ∧
          ∃ value, m.sight c.office.disk = c.sight.withField forwardedField value) := by
  cases hdest : destinations.isEmpty with
  | true =>
    refine ⟨c.office.summary, [], c.message, ?_, .nothing fun done hmails => ?_, Or.inl rfl⟩
    · rw [List.append_nil]
      exact passOn_of_nobody k hdest c
    · exact absurd (List.isEmpty_iff.1 hdest) hmails.ne_nil
  | false =>
    cases hf : k.forwarder with
    | none =>
      refine ⟨c.office.summary.record ("NOT Forwarded " ++ Mailbox.renderList destinations), [],
        c.message, ?_, .nothing fun done hmails => ?_, Or.inl rfl⟩
      · rw [List.append_nil]
        exact passOn_of_no_forwarder hf hdest c
      · rintro ⟨f, hsome, -⟩
        rw [hf] at hsome
        simp at hsome
    | some f =>
      by_cases h : ∃ done, c.sight.Mails destinations done
      · obtain ⟨done, hmails⟩ := h
        obtain ⟨letter, accepted, m, hrun, haccepted, hletter, hsight⟩ :=
          forward_of_mails f k.now hmails
        have hpass := passOn_of_forwarder hf hdry hdest hrun
        refine ⟨_, [⟨letter, c.sight.entry.path, accepted⟩], m, hpass, ⟨?_, ?_⟩, ?_⟩
        · intro x hx
          rw [List.mem_singleton.1 hx]
          exact ⟨rfl, done, hmails, hletter⟩
        · rintro ⟨f', hsome, hpost⟩ - -
          obtain rfl : f = f' := by simpa [hf] using hsome
          exact ⟨_, List.mem_singleton_self _, by rw [haccepted, hpost]; rfl⟩
        · rw [hsight]
          cases accepted with
          | true => exact Or.inr ⟨⟨_, List.mem_singleton_self _, rfl⟩, _, rfl⟩
          | false => exact Or.inl rfl
      · have hnot : ∀ done, ¬ c.sight.Mails destinations done := fun done hmails => h ⟨done, hmails⟩
        obtain ⟨result, m, hrun, hsight⟩ := forward_of_not_mails f k.now hnot
        have hpass := passOn_of_forwarder hf hdry hdest hrun
        refine ⟨c.office.summary.recordLetter destinations result, [], m, ?_,
          .nothing fun done hmails => absurd hmails (hnot done), Or.inl hsight⟩
        rw [List.append_nil]
        exact hpass

/-- What becomes of the office while a message is handled that some letters are about. -/
structure Serves (place : Path) (s : Slot) (xs : List Submission) (o o' : Office) : Prop where
  /-- Nothing but the message is written. -/
  elsewhere : o.disk.Elsewhere [place ++ s.names, place ++ s.temporary] o'.disk
  /-- The message stays where it is. -/
  taken : s.IsTaken place o'.disk
  /-- The letters are given to the post. -/
  submissions : o'.submissions = o.submissions ++ xs
  /-- Nothing is written if the post refuses them. -/
  unwritten : (∀ x ∈ xs, x.accepted = false) → o'.disk = o.disk

theorem Serves.nothing {place : Path} {s : Slot} {o o' : Office} (hd : o.disk.Sound)
    (htaken : s.IsTaken place o.disk) (hdisk : o'.disk = o.disk)
    (hsubmissions : o'.submissions = o.submissions) : Serves place s [] o o' := by
  refine ⟨?_, ?_, by rw [hsubmissions, List.append_nil], fun _ => hdisk⟩
  · rw [hdisk]
    exact .refl _ hd
  · rw [hdisk]
    exact htaken

/-- What a rule is like that does nothing but pass messages on. -/
structure Rule.OnlyForwards (r : Rule) : Prop where
  /-- It adds no label. -/
  label : r.label = []
  /-- It removes no label. -/
  clear : r.clear = []
  /-- It moves nothing. -/
  moveTo : r.moveTo = none

theorem Rule.OnlyForwards.stamped {r : Rule} (h : r.OnlyForwards) (now : Time) :
    (r.stamped now).OnlyForwards :=
  ⟨by rw [Rule.stamped_label, h.label], by rw [Rule.stamped_clear, h.clear],
    by rw [Rule.stamped_moveTo, h.moveTo]⟩

section Apply

variable {root place : Path} {s : Slot} {f : File} {c : Case} {k : Clerk} {r : Rule}

theorem apply_run_of_onlyForwards (hr : r.OnlyForwards) (c : Case) :
    k.apply r c = (k.passOn r.forward >>= fun _ => k.save >>= fun _ => k.move none) c := by
  rw [Clerk.apply, hr.label, hr.clear, hr.moveTo]
  rfl

/-- A message whose forwarded addresses are known has a header block. -/
theorem readHeader_of_mails (hat : Message.At root place s f c.office.disk c.sight)
    (hedits : c.sight.edits = []) {destinations : List Mailbox} {done : TextSet}
    (h : c.sight.Mails destinations done) : ∃ header, readHeader f.content = .ok header := by
  obtain ⟨vs, hvs, -⟩ := forwarded_eq_ok h.forwarded
  rw [Sight.values, hedits, hat.header] at hvs
  obtain ⟨header, hread, -⟩ := seenValues_eq_ok.1 hvs
  exact ⟨header, hread⟩

/-- Saving a message writes its file, and only if there is something to be written. -/
theorem save_serves (hdry : k.dryRun = false)
    (hat : Message.At root place s f c.office.disk c.sight) (hroom : s.HasRoom place c.office.disk)
    (hheader : c.sight.edits ≠ [] → ∃ header, readHeader f.content = .ok header) :
    ∃ d m, k.save c = (.ok (), ⟨{ c.office with disk := d }, m⟩) ∧
      c.office.disk.Elsewhere [place ++ s.names, place ++ s.temporary] d ∧ s.IsTaken place d ∧
      (c.sight.edits = [] → d = c.office.disk) := by
  rw [save_eq_discard hdry]
  rcases Message.save_cases hat with ⟨-, hrun⟩ | ⟨hedits, e, m, -, -, hwhy⟩ |
    ⟨hedits, header, d, m, id, -, hrun, helse, hfile, -⟩
  · exact ⟨_, _, run_discard_ok (liftM_run hrun), .refl _ hat.sound, ⟨f, hat.file⟩, fun _ => rfl⟩
  · obtain ⟨header, hread⟩ := hheader hedits
    rcases hwhy with ⟨e', he⟩ | hno
    · rw [hread] at he
      exact absurd he (by simp)
    · exact absurd hroom hno
  · exact ⟨d, m, run_discard_ok (liftM_run hrun), helse, ⟨_, hfile⟩,
      fun hnone => absurd hnone hedits⟩

/-- Carrying out such a rule gives the letters to the post, and saves the message if it is to
remember one. -/
theorem apply_serves (hdry : k.dryRun = false) (hr : r.OnlyForwards)
    (hat : Message.At root place s f c.office.disk c.sight) (hedits : c.sight.edits = [])
    (hroom : s.HasRoom place c.office.disk) :
    ∃ c' xs, k.apply r c = (.ok (), c') ∧ Serves place s xs c.office c'.office ∧
      k.Posts c.sight r.forward xs := by
  obtain ⟨summary, xs, m, hpass, hposts, hsight⟩ := passOn_posts hdry r.forward c
  have hat' : Message.At root place s f c.office.disk (m.sight c.office.disk) := by
    rcases hsight with hsame | ⟨-, value, hsame⟩
    · rw [hsame]
      exact hat
    · rw [hsame]
      exact hat.withField _ _
  -- only a message that is to remember a letter has anything to be written
  have hdirty : (m.sight c.office.disk).edits ≠ [] → ∃ x ∈ xs, x.accepted = true := by
    intro hne
    rcases hsight with hsame | ⟨haccepted, -⟩
    · rw [hsame] at hne
      exact absurd hedits hne
    · exact haccepted
  have hheader : (m.sight c.office.disk).edits ≠ [] →
      ∃ header, readHeader f.content = .ok header := by
    intro hne
    obtain ⟨x, hx, -⟩ := hdirty hne
    obtain ⟨-, done, hmails, -⟩ := hposts.letters x hx
    exact readHeader_of_mails hat hedits hmails
  obtain ⟨d, m', hsave, helse, htaken, hunwritten⟩ := save_serves
    (c := ⟨{ c.office with submissions := c.office.submissions ++ xs, summary := summary }, m⟩)
    hdry hat' hroom hheader
  refine ⟨⟨⟨d, c.office.submissions ++ xs, summary⟩, m'⟩, xs, ?_,
    ⟨helse, htaken, rfl, fun hrefused => ?_⟩, hposts⟩
  · rw [apply_run_of_onlyForwards hr, run_bind_ok hpass, run_bind_ok hsave]
    rfl
  · refine hunwritten (Classical.byContradiction fun hne => ?_)
    obtain ⟨x, hx, haccepted⟩ := hdirty hne
    rw [hrefused x hx] at haccepted
    exact absurd haccepted (by simp)

end Apply

namespace Pass

variable {p : Pass} {place : Path} {r : Rule} {s t : Slot} {f : File} {d : Disk} {o : Office}

/-- Whether the rule of a pass is for a message. -/
structure Calls (p : Pass) (r : Rule) (s : Slot) (content : Bytes) : Prop where
  /-- It is one of the rules for the folder. -/
  mem : r.stamped p.now ∈ p.rulebook.rulesFor s.folder
  /-- The message passes all its tests. -/
  applies : ((Sight.ofFile (s.entry p.maildir.root) content).verdict (r.stamped p.now)).applies =
    true

/-- The letters that are given to the post when a message is handled. -/
structure Deals (p : Pass) (r : Rule) (s : Slot) (content : Bytes) (xs : List Submission) :
    Prop where
  /-- If the rule is for the message, they are the ones of its addresses. -/
  called : p.Calls r s content →
    p.clerk.Posts (.ofFile (s.entry p.maildir.root) content) r.forward xs
  /-- If it is not, there are none. -/
  uncalled : ¬ p.Calls r s content → xs = []

/-- Every letter is about the message, which the rule is for, and goes to all addresses that are
left. -/
theorem Deals.letter {content : Bytes} {xs : List Submission} (h : p.Deals r s content xs)
    {x : Submission} (hx : x ∈ xs) : x.source = p.maildir.root ++ s.names ∧ p.Calls r s content ∧
      ∃ done, (Sight.ofFile (s.entry p.maildir.root) content).Mails r.forward done ∧
        x.letter.recipients = pendingOf done r.forward := by
  by_cases hcalls : p.Calls r s content
  · obtain ⟨hsource, hletter⟩ := (h.called hcalls).letters x hx
    exact ⟨hsource.trans (Slot.path_entry _ _), hcalls, hletter⟩
  · rw [h.uncalled hcalls] at hx
    exact absurd hx List.not_mem_nil

/-- Handling a message gives the letters to the post that there are for the rule. -/
theorem handle_serves (hrules : p.rules = [r]) (hr : r.OnlyForwards) (hdry : p.dryRun = false)
    (hd : o.disk.Sound) (hroot : o.disk.resolve p.maildir.root = .ok place)
    (hf : o.disk.item? (place ++ s.names) = some (.file f)) (hroom : s.HasRoom place o.disk) :
    ∃ o' xs, (p.handle (p.rulebook.rulesFor s.folder)).onMessage
        (.ofEntry (s.entry p.maildir.root)) o = (.ok (), o') ∧ Serves place s xs o o' ∧
      p.Deals r s f.content xs := by
  have hmoves : ∀ r' ∈ p.rules, r'.moveTo = none := by
    intro r' hr'
    rw [hrules, List.mem_singleton] at hr'
    rw [hr', hr.moveTo]
  have hbook : p.rulebook = .ofRules [r] p.now := by rw [Pass.rulebook, hrules]
  have hone := Rulebook.rulesFor_singleton hr.moveTo p.now s.folder
  rw [← hbook] at hone
  by_cases hcalls : p.Calls r s f.content
  · replace hone : p.rulebook.rulesFor s.folder = [r.stamped p.now] :=
      hone.resolve_left (List.ne_nil_of_mem hcalls.mem)
    obtain ⟨m, hm, hrun⟩ :=
      carryOut_cons (p := p) (r.stamped p.now) [] ⟨o, .ofEntry (s.entry p.maildir.root)⟩
    have hsight : Case.sight ⟨o, .ofEntry (s.entry p.maildir.root)⟩ =
        .ofFile (s.entry p.maildir.root) f.content := Message.sight_ofEntry hd hroot hf
    have hseen : Case.sight ⟨o, m⟩ = .ofFile (s.entry p.maildir.root) f.content :=
      hm.trans hsight
    rw [hsight, hcalls.applies, if_pos rfl, ← hone] at hrun
    have hat : Message.At p.maildir.root place s f o.disk (Case.sight ⟨o, m⟩) := by
      rw [hseen]
      exact .ofFile hd hroot hf
    obtain ⟨c', xs, happly, hserves, hposts⟩ := apply_serves (k := p.clerk) (c := ⟨o, m⟩) hdry
      (hr.stamped p.now) hat (by rw [hseen]; rfl) hroom
    rw [hseen, Rule.stamped_forward] at hposts
    refine ⟨c'.office, xs, ?_, hserves, fun _ => hposts, fun hnot => absurd hcalls hnot⟩
    rw [onMessage_run, handle_run_of_no_moves hmoves (hrun.trans (run_bind_ok happly))]
  · refine ⟨o, [], onMessage_of_no_rule hd hroot hf fun r' hr' => ?_,
      .nothing hd ⟨f, hf⟩ rfl rfl, fun h => absurd h hcalls, fun _ => rfl⟩
    obtain rfl : r' = r.stamped p.now := by
      rcases hone with hnone | hone
      · rw [hnone] at hr'
        exact absurd hr' List.not_mem_nil
      · rw [hone] at hr'
        exact List.mem_singleton.1 hr'
    rw [← Bool.not_eq_true]
    exact fun happlies => hcalls ⟨hr', happlies⟩

/-! ## The first pass -/

/-- What is known of a message that a letter was given to the post about, while it is as it was in
the beginning. -/
structure Tries (p : Pass) (r : Rule) (place : Path) (d : Disk) (s : Slot) (f : File) : Prop where
  /-- The name of the message begins with no dot. -/
  visible : s.IsVisible
  /-- Its folder is listed. -/
  listed : Listed place d s.folder
  /-- Its folder is not left alone. -/
  wanted : skippedFolders.contains s.folder = false
  /-- It counts as recent. -/
  recent : p.isRecent d (s.entry p.maildir.root) = true
  /-- The rule is for it. -/
  calls : p.Calls r s f.content
  /-- There is a letter to be given to the post. -/
  mails : ∃ done, (Sight.ofFile (s.entry p.maildir.root) f.content).Mails r.forward done

/-- Whether the post took a letter about a message. -/
def Took (path : Path) (o : Office) : Prop := ∃ x ∈ o.submissions, x.source = path ∧ x.accepted = true

/-- The office while a message is as it was in the beginning, unless the post took a letter about
it. -/
structure Waits (p : Pass) (r : Rule) (place : Path) (d : Disk) (s : Slot) (f : File) (o : Office) :
    Prop where
  /-- The messages stay where they are. -/
  stays : Stays p.maildir.root place d o.disk
  /-- The file of the message is the same. -/
  file : ¬ Took (p.maildir.root ++ s.names) o → o.disk.item? (place ++ s.names) = some (.file f)
  /-- A letter was given to the post only if there is one to be given. -/
  tries : ¬ Took (p.maildir.root ++ s.names) o →
    (∃ x ∈ o.submissions, x.source = p.maildir.root ++ s.names) → p.Tries r place d s f

/-- Letters about another message say nothing about this one. -/
theorem took_of_serves {o' : Office} {xs : List Submission} (h : Serves place t xs o o')
    {path : Path} (ht : Took path o) : Took path o' := by
  obtain ⟨x, hx, hrest⟩ := ht
  exact ⟨x, by rw [h.submissions]; exact List.mem_append_left _ hx, hrest⟩

/-- What is known of the message that letters are given to the post about. -/
theorem Waits.served {o' : Office} {xs : List Submission} (h : p.Waits r place d s f o)
    (hserves : Serves place s xs o o') (hstays : Stays p.maildir.root place d o'.disk) {g : File}
    (hg : o.disk.item? (place ++ s.names) = some (.file g)) (hdeals : p.Deals r s g.content xs)
    (htries : g = f → p.Calls r s f.content →
      (∃ done, (Sight.ofFile (s.entry p.maildir.root) f.content).Mails r.forward done) →
      p.Tries r place d s f) : p.Waits r place d s f o' := by
  have hsame : ¬ Took (p.maildir.root ++ s.names) o' → g = f ∧ o'.disk = o.disk := by
    intro hnot
    have hbefore := h.file fun ht => hnot (took_of_serves hserves ht)
    refine ⟨Item.file.inj (Option.some.inj (hg.symm.trans hbefore)),
      hserves.unwritten fun x hx => ?_⟩
    rw [← Bool.not_eq_true]
    intro haccepted
    refine hnot ⟨x, ?_, (hdeals.letter hx).1, haccepted⟩
    rw [hserves.submissions]
    exact List.mem_append_right _ hx
  refine ⟨hstays, fun hnot => ?_, fun hnot ⟨x, hx, hsource⟩ => ?_⟩
  · rw [(hsame hnot).2]
    exact h.file fun ht => hnot (took_of_serves hserves ht)
  · rw [hserves.submissions] at hx
    rcases List.mem_append.1 hx with hx | hx
    · exact h.tries (fun ht => hnot (took_of_serves hserves ht)) ⟨x, hx, hsource⟩
    · obtain ⟨-, hcalls, done, hmails, -⟩ := hdeals.letter hx
      obtain ⟨rfl, -⟩ := hsame hnot
      exact htries rfl hcalls ⟨done, hmails⟩

/-- Letters about another message leave the message as it is. -/
theorem Waits.other {o' : Office} {xs : List Submission} (h : p.Waits r place d s f o)
    (hserves : Serves place t xs o o') (hstays : Stays p.maildir.root place d o'.disk)
    {content : Bytes} (hdeals : p.Deals r t content xs) (hts : t ≠ s) :
    p.Waits r place d s f o' := by
  refine ⟨hstays, fun hnot => ?_, fun hnot ⟨x, hx, hsource⟩ => ?_⟩
  · rw [hserves.elsewhere.other_slot fun hst => hts hst.symm]
    exact h.file fun ht => hnot (took_of_serves hserves ht)
  · rw [hserves.submissions] at hx
    rcases List.mem_append.1 hx with hx | hx
    · exact h.tries (fun ht => hnot (took_of_serves hserves ht)) ⟨x, hx, hsource⟩
    · exact absurd (Slot.append_names_inj ((hdeals.letter hx).1.symm.trans hsource)) hts

theorem waits_run (hrules : p.rules = [r]) (hr : r.OnlyForwards) (hdry : p.dryRun = false)
    (hd : d.Sound) (hroot : d.resolve p.maildir.root = .ok place)
    (hf : d.item? (place ++ s.names) = some (.file f))
    (hroom : ∀ t : Slot, Listed place d t.folder → t.IsTaken place d → t.HasRoom place d) :
    Keeps (p.Waits r place d s f) p.run := by
  refine keeps_run (fun _ h => ⟨h.stays.sound, h.stays.resolve⟩) fun o t h hmeets => ?_
  obtain ⟨o₁, h₁, hlisted₁⟩ := hmeets.listed
  obtain ⟨o₂, h₂, htaken₂⟩ := hmeets.taken
  have hlisted := (h₁.stays.listed t.folder).1 hlisted₁
  have htaken := (h₂.stays.taken t).1 htaken₂
  obtain ⟨g, hg⟩ := (h.stays.taken t).2 htaken
  obtain ⟨o', xs, hrun, hserves, hdeals⟩ := handle_serves hrules hr hdry h.stays.sound
    h.stays.resolve hg (h.stays.hasRoom (hroom t hlisted htaken))
  rw [hrun]
  have hstays := h.stays.rewritten hserves.elsewhere ⟨g, hg⟩ hserves.taken
  by_cases hts : t = s
  · subst hts
    refine h.served hserves hstays hg hdeals ?_
    rintro rfl hcalls hmails
    refine ⟨hmeets.visible, hlisted, hmeets.wanted, ?_, hcalls, hmails⟩
    rw [← isRecent_congr hd h.stays.sound hroot h.stays.resolve hf hg]
    exact hmeets.recent
  · exact h.other hserves hstays hdeals hts

/-! ## The second pass -/

/-- The same pass once more, with a post of its own, and not called off. -/
def again (p : Pass) (forwarder : Forwarder) : Pass :=
  { p with forwarder := some forwarder, calledOff := fun _ => false }

/-- Whether the post took a letter to all addresses that a message has left for a rule. -/
def Reached (p : Pass) (r : Rule) (s : Slot) (content : Bytes) (o : Office) : Prop :=
  ∃ x ∈ o.submissions, x.accepted = true ∧ x.source = p.maildir.root ++ s.names ∧
    ∃ done, (Sight.ofFile (s.entry p.maildir.root) content).Mails r.forward done ∧
      x.letter.recipients = pendingOf done r.forward

theorem Reached.of_serves {content : Bytes} {o' : Office} {xs : List Submission}
    (h : Serves place t xs o o') (hreached : p.Reached r s content o) :
    p.Reached r s content o' := by
  obtain ⟨x, hx, hrest⟩ := hreached
  exact ⟨x, by rw [h.submissions]; exact List.mem_append_left _ hx, hrest⟩

/-- The office while a message is as it was in the beginning, unless the post took the letter. -/
structure Resumes (p : Pass) (r : Rule) (place : Path) (d : Disk) (s : Slot) (f : File)
    (o : Office) : Prop where
  /-- The messages stay where they are. -/
  stays : Stays p.maildir.root place d o.disk
  /-- The file of the message is the same. -/
  file : ¬ p.Reached r s f.content o → o.disk.item? (place ++ s.names) = some (.file f)

section Again

variable {forwarder : Forwarder}

/-- Handling any message leaves the message at hand reached, or as it was. -/
theorem covers_resumes (hrules : p.rules = [r]) (hr : r.OnlyForwards) (hdry : p.dryRun = false)
    (hallowed : p.allowForwarding = true)
    (hpost : ∀ before letter, forwarder.post.answer before letter = .ok ())
    (htries : p.Tries r place d s f) (hroom : t.HasRoom place d) (htaken : t.IsTaken place d) :
    Covers (p.Resumes r place d s f) (fun t o => t = s → p.Reached r s f.content o) (· = t)
      (((p.again forwarder).handle (p.rulebook.rulesFor t.folder)).onMessage
        (.ofEntry (t.entry p.maildir.root))) := by
  intro o ho
  obtain ⟨g, hg⟩ := (ho.stays.taken t).2 htaken
  obtain ⟨o', xs, hrun, hserves, hdeals⟩ := handle_serves (p := p.again forwarder) hrules hr hdry
    ho.stays.sound ho.stays.resolve hg (ho.stays.hasRoom hroom)
  have hserved : (p.again forwarder).clerk.IsServed := by
    refine ⟨forwarder, ?_, hpost⟩
    simp only [Pass.clerk, again, hallowed, if_true]
  -- the message itself is handled as in the first pass, but now the post takes the letter
  have hreached : t = s → p.Reached r s f.content o' := by
    rintro rfl
    by_cases hbefore : p.Reached r t f.content o
    · exact hbefore.of_serves hserves
    obtain rfl := Item.file.inj (Option.some.inj (hg.symm.trans (ho.file hbefore)))
    have hcalls : (p.again forwarder).Calls r t g.content := ⟨htries.calls.mem, htries.calls.applies⟩
    obtain ⟨done, hmails⟩ := htries.mails
    obtain ⟨x, hx, haccepted⟩ := (hdeals.called hcalls).accepted hserved done hmails
    obtain ⟨hsource, -, hletter⟩ := hdeals.letter hx
    refine ⟨x, ?_, haccepted, hsource, hletter⟩
    rw [hserves.submissions]
    exact List.mem_append_right _ hx
  refine ⟨o', hrun, ⟨ho.stays.rewritten hserves.elsewhere ⟨g, hg⟩ hserves.taken, fun hnot => ?_⟩,
    ?_, fun t' ht' hs => (ht' hs).of_serves hserves⟩
  · by_cases hts : t = s
    · exact absurd (hreached hts) hnot
    · rw [hserves.elsewhere.other_slot fun hst => hts hst.symm]
      exact ho.file fun hbefore => hnot (hbefore.of_serves hserves)
  · rintro t' rfl
    exact hreached

theorem smooth_again (hrules : p.rules = [r]) (hr : r.OnlyForwards) (hdry : p.dryRun = false)
    (hallowed : p.allowForwarding = true) (hd : d.Sound)
    (hroot : d.resolve p.maildir.root = .ok place)
    (hf : d.item? (place ++ s.names) = some (.file f))
    (hpost : ∀ before letter, forwarder.post.answer before letter = .ok ())
    (htries : p.Tries r place d s f)
    (hroom : ∀ t : Slot, Listed place d t.folder → t.IsTaken place d → t.HasRoom place d) :
    (p.again forwarder).Smooth place d (p.Resumes r place d s f)
      (fun t o => t = s → p.Reached r s f.content o) where
  stays ho := ho.stays
  goesOn _ := rfl
  handled hlisted htaken :=
    covers_resumes hrules hr hdry hallowed hpost htries (hroom _ hlisted htaken) htaken
  passed {o t} ho hnot hts := by
    subst hts
    refine Classical.byContradiction fun hbefore => ?_
    have hrecent := isRecent_congr (p := p) hd ho.stays.sound hroot ho.stays.resolve hf
      (ho.file hbefore)
    rw [htries.recent] at hrecent
    exact absurd (hrecent.symm.trans hnot) (by simp)
  ruleless {o t} hnone hts := by
    subst hts
    have hmem := htries.calls.mem
    have hbook : p.rulebook.rulesFor t.folder = [] := hnone
    rw [hbook] at hmem
    exact absurd hmem List.not_mem_nil

end Again

/-- If the post refused all letters about a message in a pass, the message is as it was, and the
next pass with a post that takes every letter gives it one to all addresses of the rule that the
message does not list. -/
theorem run_retries (p : Pass) {r : Rule} (hrules : p.rules = [r]) (hr : r.OnlyForwards)
    (hdry : p.dryRun = false) (hallowed : p.allowForwarding = true) {d : Disk} (hd : d.Sound)
    (hroom : ∀ t, p.maildir.Lists d t → Slot.CanRewrite p.maildir d t) (s : Slot)
    {content : Bytes} (hread : d.read (p.maildir.root ++ s.names) = .ok content)
    (hsent : ∃ x ∈ (p.run (.ofDisk d)).2.submissions, x.source = p.maildir.root ++ s.names)
    (hrefused : ∀ x ∈ (p.run (.ofDisk d)).2.submissions,
      x.source = p.maildir.root ++ s.names → x.accepted = false)
    (forwarder : Forwarder)
    (hpost : ∀ before letter, forwarder.post.answer before letter = .ok ()) (time : Int) :
    (p.run (.ofDisk d)).2.disk.read (p.maildir.root ++ s.names) = .ok content ∧
      ∃ header, readHeader content = .ok header ∧
        ∃ x ∈ ((p.again forwarder).run
            (.ofDisk ((p.run (.ofDisk d)).2.disk.setClock time))).2.submissions,
          x.accepted = true ∧ x.source = p.maildir.root ++ s.names ∧
          ∀ a, a ∈ x.letter.recipients ↔ (∃ m ∈ r.forward, a = Text.lower m.email) ∧
            a ∉ (forwardedIn (header.values forwardedField)).toList := by
  cases hroot : d.resolve p.maildir.root with
  | error e =>
    rw [run_of_no_maildir (o := .ofDisk d) hroot] at hsent
    obtain ⟨x, hx, -⟩ := hsent
    exact absurd hx List.not_mem_nil
  | ok place =>
    obtain ⟨f, hf, rfl⟩ := (Disk.read_below hd hroot s.isName_of_mem_names).1 hread
    have hroom' : ∀ t : Slot, Listed place d t.folder → t.IsTaken place d → t.HasRoom place d :=
      fun t hlisted htaken => (Slot.canRewrite_iff hd hroot t).1
        (hroom t ((Maildir.lists_iff hd hroot t).2 ⟨hlisted, htaken⟩))
    have hwaits := waits_run (f := f) hrules hr hdry hd hroot hf hroom' (.ofDisk d)
      ⟨Stays.refl hd hroot, fun _ => hf, fun _ ⟨x, hx, _⟩ => absurd hx List.not_mem_nil⟩
    generalize (p.run (.ofDisk d)).2 = first at hsent hrefused hwaits ⊢
    have hnot : ¬ Took (p.maildir.root ++ s.names) first := by
      rintro ⟨x, hx, hsource, haccepted⟩
      rw [hrefused x hx hsource] at haccepted
      exact absurd haccepted (by simp)
    have hsame := hwaits.file hnot
    have htries := hwaits.tries hnot hsent
    have hstays := hwaits.stays.setClock time
    obtain ⟨fs, hfs⟩ : ∃ fs, (p.again forwarder).maildir.folders (first.disk.setClock time) = .ok fs :=
      Maildir.exists_folders hstays.resolve ((hstays.folders place).2
        (hd.ancestor place (show s.names ≠ [] by simp [Slot.names]) (by simp [hf])))
    obtain ⟨o, hrun, -, hall⟩ := (smooth_again hrules hr hdry hallowed hd hroot hf hpost htries
      hroom').run (o := .ofDisk (first.disk.setClock time)) ⟨hstays, fun _ => hsame⟩ hfs
    obtain ⟨x, hx, haccepted, hsource, done, hmails, hletter⟩ :=
      hall s htries.listed htries.wanted htries.visible ⟨f, hf⟩ rfl
    obtain ⟨vs, hvs, rfl⟩ := forwarded_eq_ok hmails.forwarded
    refine ⟨(Disk.read_below hwaits.stays.sound hwaits.stays.resolve
      s.isName_of_mem_names).2 ⟨f, hsame, rfl⟩, ?_⟩
    cases hheader : readHeader f.content with
    | error e =>
      simp [Sight.values, Sight.ofFile, seenValues, hheader, Except.map] at hvs
    | ok header =>
      obtain rfl : header.values forwardedField = vs := by
        simpa [Sight.values, Sight.ofFile, seenValues, hheader, Except.map] using hvs
      refine ⟨header, rfl, x, ?_, haccepted, hsource, fun a => ?_⟩
      · rw [hrun]
        exact hx
      · rw [hletter, mem_pendingOf]

end Pass

/-! ### A post that refuses a letter once -/

/-- Who passes messages on through a post that takes every letter. -/
def willingForwarder : Forwarder := ⟨⟨none, "robot@home.com"⟩, ⟨fun _ _ => .ok ()⟩, []⟩

/-- The pass with a post that refuses every letter. -/
def refusedPass : Pass :=
  { noticePass with forwarder := some { willingForwarder with
      post := ⟨fun _ _ => .error (.smtp "no connection")⟩ } }

/-- A maildir of one folder with one message. -/
def inboxDisk : Disk := (Disk.empty 0).plant [] (.folder
  [("INBOX", .folder [("new", .folder []),
    ("cur", .folder [("1.a:2,S", .file sampleLetter none)]), ("tmp", .folder [])])])

theorem refused_run_retries : ∃ x ∈ ((refusedPass.again willingForwarder).run
      (.ofDisk ((refusedPass.run (.ofDisk inboxDisk)).2.disk.setClock 1))).2.submissions,
    x.accepted = true ∧ x.source = sampleSlot.names ∧ "me@home.com".toList ∈ x.letter.recipients := by
  have hd : inboxDisk.Sound := Disk.sound_plant 0 (by decide)
  have hsent : ∃ x ∈ (refusedPass.run (.ofDisk inboxDisk)).2.submissions,
      x.source = sampleSlot.names := by decide +kernel
  have hrefused : ∀ x ∈ (refusedPass.run (.ofDisk inboxDisk)).2.submissions,
      x.source = sampleSlot.names → x.accepted = false := by decide +kernel
  have hroom : ∀ t, refusedPass.maildir.Lists inboxDisk t →
      Slot.CanRewrite refusedPass.maildir inboxDisk t := by
    rintro t ⟨-, ht⟩
    obtain rfl : t = sampleSlot :=
      Maildir.eq_of_only_file hd (m := refusedPass.maildir) rfl (by decide) ht
    exact ⟨by decide, by decide⟩
  have hread : inboxDisk.read sampleSlot.names = .ok sampleLetter := rfl
  have hvalues : (readHeader sampleLetter).map (fun h => h.values forwardedField) = .ok [] := by
    decide +kernel
  obtain ⟨-, header, hheader, x, hx, haccepted, hsource, hrecipients⟩ :=
    Pass.run_retries refusedPass (r := noticeRule) rfl ⟨rfl, rfl, rfl⟩ rfl rfl hd hroom sampleSlot
      hread hsent hrefused willingForwarder (fun _ _ => rfl) 1
  refine ⟨x, hx, haccepted, hsource, (hrecipients _).2 ⟨⟨_, List.mem_singleton_self _, ?_⟩, ?_⟩⟩
  · decide +kernel
  · rw [hheader] at hvalues
    have hnone : header.values forwardedField = [] := Except.ok.inj hvalues
    rw [hnone]
    exact List.not_mem_nil

end Mailroom
