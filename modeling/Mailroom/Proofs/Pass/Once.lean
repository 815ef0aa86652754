import Mailroom.Proofs.Clerk
import Mailroom.Proofs.Header.Lists
import Mailroom.Proofs.Message.Plain
import Mailroom.Proofs.Message.Staying
import Mailroom.Proofs.Pass.Run
import Mailroom.Proofs.Rule

/-!
# Letters that are sent once

Over any history of passes a message is passed on to an address once at most, if every message can
be written anew and every address can be read back from the field that remembers it.

* `Office.deliveries` counts the letters that the post took.
* `Tells` says that the values of the field tell of all of them; `Tells.posted` is the step.
* `Pass.History` is any number of passes, and `Pass.deliveries_le_one` is the result.
-/

namespace Mailroom

/-! ## Counting letters -/

/-- How many letters the post took that pass the message of a file on to an address. -/
def Office.deliveries (o : Office) (source : Path) (address : Text) : Nat :=
  o.submissions.countP fun x => x.accepted && x.source == source &&
    x.letter.recipients.any fun r => Text.lower r == Text.lower address

theorem deliveries_posted (o : Office) (x : Submission) (source : Path) (address : Text) :
    (o.posted x).deliveries source address = o.deliveries source address +
      if x.accepted && x.source == source &&
        x.letter.recipients.any (fun r => Text.lower r == Text.lower address) then 1 else 0 := by
  rw [Office.deliveries, Office.submissions_posted, List.countP_append, List.countP_singleton]
  rfl

/-- A letter that the post refused, or about another message, is not counted. -/
theorem deliveries_posted_of_ne {o : Office} {x : Submission} {source : Path}
    (h : x.accepted = false ∨ x.source ≠ source) (address : Text) :
    (o.posted x).deliveries source address = o.deliveries source address := by
  rw [deliveries_posted, if_neg, Nat.add_zero]
  simp only [Bool.and_eq_true, beq_iff_eq]
  rintro ⟨⟨haccepted, hsource⟩, -⟩
  rcases h with h | h
  · rw [h] at haccepted
    exact absurd haccepted (by simp)
  · exact h hsource

/-! ## What the field tells -/

/-- What is read from the field is in small letters, and can be read back. -/
theorem isToken_of_mem_forwardedIn {values : List Text} (h : ∀ v ∈ values, ¬ HasOpening v)
    {z : Text} (hz : z ∈ (forwardedIn values).toList) : IsToken z ∧ Text.lower z = z := by
  obtain ⟨v, hv, w, hw, rfl⟩ := mem_forwardedIn.1 hz
  exact ⟨(isToken_of_mem_words (h v hv) hw).lower, Text.lower_lower w⟩

/-- So are the addresses that are read from it together with those of a list. -/
theorem isToken_of_mem_insertAll {values : List Text} (h : ∀ v ∈ values, ¬ HasOpening v)
    {destinations : List Mailbox} (hdestinations : ∀ m ∈ destinations, IsToken m.email) :
    ∀ a ∈ ((forwardedIn values).insertAll (pendingOf (forwardedIn values) destinations)).toList,
      IsToken a ∧ Text.lower a = a := by
  intro a ha
  rcases TextSet.mem_insertAll.1 ha with ha | ha
  · exact isToken_of_mem_forwardedIn h ha
  · obtain ⟨⟨m, hm, rfl⟩, -⟩ := mem_pendingOf.1 ha
    exact ⟨(hdestinations m hm).lower, Text.lower_lower _⟩

/-- An empty value at the end says nothing. -/
theorem forwardedIn_settles {vs vs' : List Text} (h : SettlesTo vs vs') :
    forwardedIn vs' = forwardedIn vs := by
  rcases h with rfl | rfl
  · rfl
  · simp [forwardedIn]

/-- Whether the values of the field tell of all letters that are counted, and nothing in them
looks like an encoded word. -/
def Tells (count : Text → Nat) (values : Except Error (List Text)) : Prop :=
  (∀ a, count a ≠ 0 → ∃ vs, values = .ok vs ∧ Text.lower a ∈ (forwardedIn vs).toList) ∧
    ∀ vs, values = .ok vs → ∀ v ∈ vs, ¬ HasOpening v

namespace Tells

variable {count : Text → Nat} {vs vs' : List Text}

/-- An empty value at the end tells nothing. -/
theorem settles (h : Tells count (.ok vs)) (hvs : SettlesTo vs vs') : Tells count (.ok vs') := by
  refine ⟨fun a ha => ⟨vs', rfl, ?_⟩, fun us hus v hv => ?_⟩
  · obtain ⟨us, hus, hmem⟩ := h.1 a ha
    obtain rfl := Except.ok.inj hus
    rw [forwardedIn_settles hvs]
    exact hmem
  · obtain rfl := Except.ok.inj hus
    exact h.2 _ rfl v (hvs.mem hv)

/-- A letter goes only to addresses of which the field does not tell yet, so that each of them is
counted once; and the field that is written then tells of all of them. -/
theorem posted (h : Tells count (.ok vs)) {destinations : List Mailbox}
    (hdestinations : ∀ m ∈ destinations, IsToken m.email) {recipients : List Text}
    (hrecipients : recipients = pendingOf (forwardedIn vs) destinations) {value : Text}
    (hvalue : value = Text.join ", "
      ((forwardedIn vs).insertAll (pendingOf (forwardedIn vs) destinations)).toList) :
    (∀ a, recipients.any (fun r => Text.lower r == Text.lower a) = true → count a = 0) ∧
      Tells (fun a => count a + if recipients.any (fun r => Text.lower r == Text.lower a) then 1
        else 0) (.ok (if value.isEmpty then [] else [value])) := by
  have hall := isToken_of_mem_insertAll (h.2 vs rfl) hdestinations
  have hmatch : ∀ a, recipients.any (fun r => Text.lower r == Text.lower a) = true →
      Text.lower a ∈ pendingOf (forwardedIn vs) destinations := by
    intro a ha
    obtain ⟨r, hr, hra⟩ := List.any_eq_true.1 ha
    rw [hrecipients] at hr
    have hlower : Text.lower r = r := (hall r (TextSet.mem_insertAll.2 (Or.inr hr))).2
    rw [← beq_iff_eq.1 hra, hlower]
    exact hr
  refine ⟨fun a ha => ?_, fun a ha => ⟨_, rfl, ?_⟩, fun us hus v hv => ?_⟩
  · refine Classical.byContradiction fun hcount => ?_
    obtain ⟨us, hus, hmem⟩ := h.1 a hcount
    obtain rfl := Except.ok.inj hus
    exact (mem_pendingOf.1 (hmatch a ha)).2 hmem
  · rw [hvalue, mem_forwardedIn_join fun t ht => ⟨(hall t ht).1.1, (hall t ht).2⟩,
      TextSet.mem_insertAll]
    by_cases hany : recipients.any (fun r => Text.lower r == Text.lower a) = true
    · exact Or.inr (hmatch a hany)
    · have hcount : count a ≠ 0 := by
        dsimp only at ha
        rw [if_neg hany] at ha
        simpa using ha
      obtain ⟨us, hus, hmem⟩ := h.1 a hcount
      obtain rfl := Except.ok.inj hus
      exact Or.inl hmem
  · obtain rfl := Except.ok.inj hus
    split at hv
    · simp at hv
    · rw [List.mem_singleton.1 hv, hvalue]
      exact not_hasOpening_join fun t ht => (hall t ht).1.2

end Tells

/-- What a rule has to be like for its letters to be remembered. -/
structure Rule.IsMemorable (r : Rule) : Prop where
  /-- No label holds a line feed. -/
  label : ∀ l ∈ r.label, '\n' ∉ l
  /-- Every address can be read back. -/
  forward : ∀ m ∈ r.forward, IsToken m.email
  /-- The rule moves nothing. -/
  moveTo : r.moveTo = none

/-! ## What is seen of the field -/

/-- Nothing new is to be written into the field. -/
def Sight.HasNoLetter (v : Sight) : Prop :=
  ∀ e ∈ v.edits, Text.sameName e.name forwardedField = false

/-- Without new values the field is seen as it is in the file. -/
theorem values_of_hasNoLetter {s : Slot} {f : File} {d : Disk} {v : Sight}
    (hat : Message.At root place s f d v) (h : v.HasNoLetter) :
    v.values forwardedField = seenValues [] (readHeader f.content) forwardedField := by
  have hfind : v.edits.find? (fun e => Text.sameName e.name forwardedField) = none :=
    List.find?_eq_none.2 fun e he => by simp [h e he]
  rw [Sight.values_of_unedited hfind, hat.header]
  rfl

theorem hasNoLetter_withKeywords {v : Sight} (h : v.HasNoLetter) (change : Keywords × Bool) :
    (v.withKeywords change).HasNoLetter := by
  have hname : Text.sameName Keywords.fieldName forwardedField = false := by decide
  intro e he
  simp only [Sight.withKeywords] at he
  split at he
  · rcases mem_withField he with he | rfl
    · exact h e he
    · exact hname
  · exact h e he

namespace Pass

variable {p : Pass} {root place : Path} {d₀ : Disk}

/-! ## The invariant -/

/-- The office while every letter is remembered by its message, but for the messages of some
slots. -/
structure Remembers (root place : Path) (d₀ : Disk) (free : Slot → Prop) (o : Office) : Prop where
  /-- The messages stay where they are. -/
  stays : Stays root place d₀ o.disk
  /-- No message was passed on to an address twice. -/
  once : ∀ source a, o.deliveries source a ≤ 1
  /-- The messages tell of all letters. -/
  tells : ∀ s f, ¬ free s → Listed place d₀ s.folder →
    o.disk.item? (place ++ s.names) = some (.file f) →
    Tells (o.deliveries (root ++ s.names)) (seenValues [] (readHeader f.content) forwardedField)

/-- The message at hand has told its file of all letters. -/
def RemembersAt (root place : Path) (d₀ : Disk) (o : Office) (v : Sight) : Prop :=
  ∃ s f, Message.At root place s f o.disk v ∧ Listed place d₀ s.folder ∧
    s.HasRoom place o.disk ∧ Remembers root place d₀ (fun _ => False) o ∧ v.IsPlain ∧
    v.HasNoLetter

/-- The message at hand knows of all letters, and is still to tell its file. -/
def KnowsAt (root place : Path) (d₀ : Disk) (o : Office) (v : Sight) : Prop :=
  ∃ s f, Message.At root place s f o.disk v ∧ Listed place d₀ s.folder ∧
    s.HasRoom place o.disk ∧ Remembers root place d₀ (· = s) o ∧ v.IsPlain ∧
    Tells (o.deliveries (root ++ s.names)) (v.values forwardedField) ∧
    (∀ e ∈ v.edits, Text.sameName e.name forwardedField = true → ReadsBack e.value) ∧
    ((∃ header, readHeader f.content = .ok header) ∨ v.HasNoLetter)

theorem Remembers.mono {free free' : Slot → Prop} {o : Office}
    (h : Remembers root place d₀ free o) (hfree : ∀ s, free s → free' s) :
    Remembers root place d₀ free' o :=
  ⟨h.stays, h.once, fun s f hs => h.tells s f (mt (hfree s) hs)⟩

theorem RemembersAt.knowsAt {o : Office} {v : Sight} (h : RemembersAt root place d₀ o v) :
    KnowsAt root place d₀ o v := by
  obtain ⟨s, f, hat, hlisted, hroom, hall, hplain, hnone⟩ := h
  refine ⟨s, f, hat, hlisted, hroom, hall.mono fun _ => False.elim, hplain, ?_, ?_, Or.inr hnone⟩
  · rw [values_of_hasNoLetter hat hnone]
    exact hall.tells s f (fun h => h) hlisted hat.file
  · intro e he hname
    rw [hnone e he] at hname
    exact absurd hname (by simp)

/-! ## One rule -/

theorem Remembers.withSummary {free : Slot → Prop} {o : Office}
    (h : Remembers root place d₀ free o) (summary : Summary) :
    Remembers root place d₀ free { o with summary := summary } :=
  ⟨h.stays, h.once, h.tells⟩

theorem RemembersAt.withSummary {o : Office} {v : Sight} (h : RemembersAt root place d₀ o v)
    (summary : Summary) : RemembersAt root place d₀ { o with summary := summary } v := by
  obtain ⟨s, f, hat, hlisted, hroom, hall, hplain, hnone⟩ := h
  exact ⟨s, f, hat, hlisted, hroom, hall.withSummary summary, hplain, hnone⟩

/-- A letter that the post refuses is none. -/
theorem Remembers.refused {free : Slot → Prop} {o : Office} (h : Remembers root place d₀ free o)
    (letter : Letter) (source : Path) :
    Remembers root place d₀ free (o.posted ⟨letter, source, false⟩) := by
  have hsame : (o.posted ⟨letter, source, false⟩).deliveries = o.deliveries := by
    funext source' a
    exact deliveries_posted_of_ne (Or.inl rfl) a
  refine ⟨h.stays, ?_, ?_⟩
  · rw [hsame]
    exact h.once
  · rw [hsame]
    exact h.tells

/-- A letter that the post takes is for its message to tell of; it went to nobody to whom one had
gone before. -/
theorem Remembers.accepted {o : Office} {s : Slot} (h : Remembers root place d₀ (fun _ => False) o)
    {letter : Letter} (hfirst : ∀ a, letter.recipients.any
      (fun r => Text.lower r == Text.lower a) = true → o.deliveries (root ++ s.names) a = 0) :
    Remembers root place d₀ (· = s) (o.posted ⟨letter, root ++ s.names, true⟩) := by
  refine ⟨h.stays, fun source a => ?_, fun t g hts hlisted hg => ?_⟩
  · by_cases hsource : root ++ s.names = source
    · rw [← hsource, deliveries_posted]
      split
      · rename_i hany
        rw [hfirst a (Bool.and_eq_true_iff.1 hany).2]
      · exact h.once _ _
    · rw [deliveries_posted_of_ne (Or.inr hsource)]
      exact h.once _ _
  · have hsame : (o.posted ⟨letter, root ++ s.names, true⟩).deliveries (root ++ t.names) =
        o.deliveries (root ++ t.names) := by
      funext a
      exact deliveries_posted_of_ne (Or.inr fun h => hts (Slot.append_names_inj h).symm) a
    rw [hsame]
    exact h.tells t g (fun h => h) hlisted hg

/-- The message at hand knows of it. -/
theorem knowsAt_accepted {o : Office} {v : Sight} {destinations : List Mailbox} {done : TextSet}
    {letter : Letter} (hforward : ∀ m ∈ destinations, IsToken m.email)
    (h : RemembersAt root place d₀ o v) (hdone : v.forwarded = .ok done)
    (hletter : letter.recipients = pendingOf done destinations) :
    KnowsAt root place d₀ (o.posted ⟨letter, v.entry.path, true⟩) (v.withField forwardedField
      (Text.join ", " (done.insertAll (pendingOf done destinations)).toList)) := by
  obtain ⟨s, f, hat, hlisted, hroom, hall, hplain, hnone⟩ := h
  obtain ⟨vs, hvs, rfl⟩ := forwarded_eq_ok hdone
  have hvalues := values_of_hasNoLetter hat hnone
  have htells : Tells (o.deliveries (root ++ s.names)) (.ok vs) := by
    rw [← hvs, hvalues]
    exact hall.tells s f (fun h => h) hlisted hat.file
  have hpath : v.entry.path = root ++ s.names := by rw [hat.entry, Slot.path_entry]
  obtain ⟨hfirst, htells'⟩ := htells.posted hforward hletter rfl
  rw [hpath]
  refine ⟨s, f, hat.withField _ _, hlisted, hroom, hall.accepted hfirst,
    hplain.passedOn hdone fun m hm => (hforward m hm).lineFeed, ?_, ?_, Or.inl ?_⟩
  · have hcount : (o.posted ⟨letter, root ++ s.names, true⟩).deliveries (root ++ s.names) =
        fun a => o.deliveries (root ++ s.names) a +
          if letter.recipients.any (fun r => Text.lower r == Text.lower a) then 1 else 0 := by
      funext a
      simp only [deliveries_posted, beq_self_eq_true, Bool.true_and]
    rw [values_withField_self, hcount]
    exact htells'
  · intro e he hname
    rcases mem_withField he with he | rfl
    · rw [hnone e he] at hname
      exact absurd hname (by simp)
    · exact readsBack_join fun t ht =>
        (isToken_of_mem_insertAll (htells.2 vs rfl) hforward t ht).1
  · -- what is seen of the field without new values was read from the header block
    rw [hvalues] at hvs
    obtain ⟨header, hread, -⟩ := seenValues_eq_ok.1 hvs
    exact ⟨header, hread⟩

/-- Passing on may leave the message with something to tell. -/
theorem knowsAt_passOn {r : Rule} (hdry : p.dryRun = false)
    (hforward : ∀ m ∈ r.forward, IsToken m.email) {c : Case}
    (h : RemembersAt root place d₀ c.office c.sight) :
    ∃ c', p.clerk.passOn r.forward c = (.ok (), c') ∧
      KnowsAt root place d₀ c'.office c'.sight := by
  obtain ⟨result, summary, m, hresult, ⟨hrun, hsight⟩ |
    ⟨-, done, letter, accepted, hrun, hdone, hletter, hsight⟩⟩ := passOn_cases p.clerk r.forward c
  · obtain rfl := hresult hdry
    refine ⟨_, hrun, ?_⟩
    show KnowsAt root place d₀ { c.office with summary := summary } (m.sight c.office.disk)
    rw [hsight]
    exact (h.withSummary summary).knowsAt
  · obtain rfl := hresult hdry
    refine ⟨_, hrun, ?_⟩
    show KnowsAt root place d₀ { c.office.posted ⟨letter, c.sight.entry.path, accepted⟩ with
      summary := summary } (m.sight c.office.disk)
    rw [hsight]
    cases accepted with
    | false =>
      obtain ⟨s, f, hat, hlisted, hroom, hall, hplain, hnone⟩ := h
      exact RemembersAt.knowsAt ⟨s, f, hat, hlisted, hroom,
        (hall.refused letter _).withSummary summary, hplain, hnone⟩
    | true =>
      obtain ⟨s, f, hat, hlisted, hroom, hall, hrest⟩ := knowsAt_accepted hforward h hdone hletter
      exact ⟨s, f, hat, hlisted, hroom, hall.withSummary summary, hrest⟩

/-- With nothing left to tell, all is remembered. -/
theorem remembersAt_of_hasNoLetter {o : Office} {v : Sight} {s : Slot} {f : File}
    (hat : Message.At root place s f o.disk v) (hlisted : Listed place d₀ s.folder)
    (hroom : s.HasRoom place o.disk) (hall : Remembers root place d₀ (· = s) o)
    (hplain : v.IsPlain)
    (htells : Tells (o.deliveries (root ++ s.names)) (v.values forwardedField))
    (hnone : v.HasNoLetter) : RemembersAt root place d₀ o v := by
  refine ⟨s, f, hat, hlisted, hroom,
    ⟨hall.stays, hall.once, fun t g _ hlisted' hg => ?_⟩, hplain, hnone⟩
  by_cases hts : t = s
  · subst hts
    obtain rfl : f = g := by simpa using hat.file.symm.trans hg
    rw [← values_of_hasNoLetter hat hnone]
    exact htells
  · exact hall.tells t g hts hlisted' hg

/-- Saving tells the file of all letters: there is room for it, and its header block can be read
if there is anything to tell. -/
theorem remembersAt_save (hdry : p.dryRun = false) :
    Leads (fun c : Case => KnowsAt root place d₀ c.office c.sight)
      (fun c => RemembersAt root place d₀ c.office c.sight) p.clerk.save := by
  refine leads_save hdry fun o v ⟨s, f, hat, hlisted, hroom, hall, hplain, htells, hback, hread⟩ =>
    ⟨s, f, hat, fun hedits => ?_, fun _ hwhy => ?_, ?_⟩
  · exact remembersAt_of_hasNoLetter hat hlisted hroom hall hplain htells
      (by simp [Sight.HasNoLetter, hedits])
  · rcases hwhy with ⟨e, he⟩ | hno
    · rcases hread with ⟨header, hheader⟩ | hnone
      · rw [he] at hheader
        exact absurd hheader (by simp)
      · exact remembersAt_of_hasNoLetter hat hlisted hroom hall hplain htells hnone
    · exact absurd hroom hno
  · intro header id d' v' ⟨hheader, _, helse, hat', hedits', hkeywords⟩
    refine ⟨s, _, hat', hlisted, hroom.of_folders helse.folders,
      ⟨hall.stays.rewritten helse ⟨f, hat.file⟩ ⟨_, hat'.file⟩, hall.once, ?_⟩,
      hplain.saved hedits' hkeywords, by simp [Sight.HasNoLetter, hedits']⟩
    intro t g _ hlisted' hg
    by_cases hts : t = s
    · subst hts
      obtain rfl := Item.file.inj (Option.some.inj (hat'.file.symm.trans hg))
      obtain ⟨header', hread', hvalues⟩ := hplain.values_saved hheader (hat.header.trans hheader)
      obtain ⟨vs, hvs, hsettles⟩ := hvalues forwardedField isPlainName_forwarded hback
      rw [hvs] at htells
      simp only [seenValues, hread', List.find?_nil]
      exact htells.settles hsettles
    · rw [helse.other_slot hts] at hg
      exact hall.tells t g hts hlisted' hg

/-- Carrying out a rule leaves nothing to tell. -/
theorem remembersAt_apply {r : Rule} (hdry : p.dryRun = false) (hlabel : ∀ l ∈ r.label, '\n' ∉ l)
    (hforward : ∀ m ∈ r.forward, IsToken m.email) (hmove : r.moveTo = none) :
    Handling.Maintains (RemembersAt root place d₀) (p.clerk.apply r) := by
  have hsummary : ∀ o v summary, RemembersAt root place d₀ o v →
      RemembersAt root place d₀ { o with summary := summary } v :=
    fun _ _ summary h => h.withSummary summary
  unfold Clerk.apply
  refine Keeps.bind (maintains_addLabels hsummary ?_) fun _ => ?_
  · rintro o v k ⟨s, f, hat, hlisted, hroom, hall, hplain, hnone⟩ hk
    exact ⟨s, f, hat.withKeywords _, hlisted, hroom, hall,
      hplain.insertAll hk hlabel, hasNoLetter_withKeywords hnone _⟩
  refine Keeps.bind (maintains_removeLabels hsummary ?_) fun _ => ?_
  · rintro o v k ⟨s, f, hat, hlisted, hroom, hall, hplain, hnone⟩ hk
    exact ⟨s, f, hat.withKeywords _, hlisted, hroom, hall,
      hplain.eraseAll _ hk, hasNoLetter_withKeywords hnone _⟩
  -- what was sent is saved at once
  intro c hc
  obtain ⟨c', hrun, hc'⟩ := knowsAt_passOn hdry hforward hc
  rw [run_bind_ok hrun]
  refine Leads.bind (remembersAt_save hdry) (fun _ => ?_) c' hc'
  rw [hmove]
  exact Keeps.pure ()

/-! ## One pass -/

section Run

variable (hroom : ∀ s : Slot, Listed place d₀ s.folder → s.IsTaken place d₀ → s.HasRoom place d₀)
  (hrules : ∀ r ∈ p.rules, r.IsMemorable)

include hroom hrules

theorem remembers_handle (hdry : p.dryRun = false) (s : Slot) (o : Office)
    (h : Remembers p.maildir.root place d₀ (fun _ => False) o)
    (hlisted : Listed place d₀ s.folder) :
    Remembers p.maildir.root place d₀ (fun _ => False)
      ((p.handle (p.rulebook.rulesFor s.folder)).onMessage
        (.ofEntry (s.entry p.maildir.root)) o).2 := by
  by_cases htaken : s.IsTaken place o.disk
  · obtain ⟨f, hf⟩ := htaken
    have hhere := hroom s hlisted ((h.stays.taken s).1 ⟨f, hf⟩)
    have hat : RemembersAt p.maildir.root place d₀ o
        ((Message.ofEntry (s.entry p.maildir.root)).sight o.disk) := by
      rw [Message.sight_ofEntry h.stays.sound h.stays.resolve hf]
      exact ⟨s, f, .ofFile h.stays.sound h.stays.resolve hf, hlisted, h.stays.hasRoom hhere, h,
        .ofFile _ _, by simp [Sight.HasNoLetter, Sight.ofFile]⟩
    refine keeps_onMessage (I := RemembersAt p.maildir.root place d₀) ?_ (fun r hr => ?_)
      (fun r hr => Rulebook.isUsed_of_mem_rulesFor hr) hat
    · rintro o' v ⟨_, _, _, _, _, hall, -⟩
      exact hall
    · obtain ⟨source, hsource, hl, hf, -⟩ := hr.keeps_actions
      obtain ⟨source', hsource', rfl⟩ := hr.stamped fun r hr => (hrules r hr).moveTo
      refine remembersAt_apply hdry (fun l h => (hrules source hsource).label l (hl l h))
        (fun m h => (hrules source hsource).forward m (hf m h)) ?_
      rw [Rule.stamped_moveTo]
      exact (hrules source' hsource').moveTo
  · rw [onMessage_of_not_taken h.stays.sound h.stays.resolve htaken]
    exact h

theorem remembers_run (hdry : p.dryRun = false) :
    Keeps (Remembers p.maildir.root place d₀ (fun _ => False)) p.run := by
  refine keeps_run (fun _ h => ⟨h.stays.sound, h.stays.resolve⟩) fun o s h hmeets => ?_
  refine remembers_handle hroom hrules hdry s o h ?_
  -- the folder was listed when the pass began, and folders stay what they are
  obtain ⟨o', h', hlisted⟩ := hmeets.listed
  exact (h'.stays.listed s.folder).1 hlisted

end Run

/-! ## Any number of passes -/

/-- The office after any number of passes over a disk, each of them one of some passes and at some
time. -/
inductive History (passes : Pass → Prop) (d : Disk) : Office → Prop where
  /-- Nothing was done. -/
  | start : History passes d (.ofDisk d)
  /-- One more pass was made. -/
  | next {o : Office} {p : Pass} (t : Int) : History passes d o → passes p →
      History passes d (p.run { o with disk := o.disk.setClock t }).2

theorem Remembers.setClock {free : Slot → Prop} {o : Office} (h : Remembers root place d₀ free o)
    (t : Int) : Remembers root place d₀ free { o with disk := o.disk.setClock t } :=
  ⟨h.stays.setClock t, h.once, h.tells⟩

/-- Nothing is sent while there is no maildir. -/
theorem deliveries_of_no_maildir {passes : Pass → Prop} {d : Disk} {e : Fault}
    (hpasses : ∀ p, passes p → p.maildir.root = root) (hroot : d.resolve root = .error e)
    {o : Office} (h : History passes d o) : o.disk.resolve root = .error e ∧
      ∀ source a, o.deliveries source a = 0 := by
  induction h with
  | start => exact ⟨hroot, fun _ _ => rfl⟩
  | @next o p t _ hp ih =>
    obtain ⟨hroot, hnone⟩ := ih
    have hroot' : (o.disk.setClock t).resolve p.maildir.root = .error e := by
      rw [hpasses p hp, Disk.resolve_setClock]
      exact hroot
    rw [run_of_no_maildir (o := { o with disk := o.disk.setClock t }) hroot']
    exact ⟨(Disk.resolve_setClock _ t root).trans hroot, hnone⟩

/-- Over any number of passes, a message is passed on to an address once at most, if the messages
can be written anew and the addresses can be read back. -/
theorem deliveries_le_one (m : Maildir) {passes : Pass → Prop} {d : Disk} (hd : d.Sound)
    (hroom : ∀ s, m.Lists d s → Slot.CanRewrite m d s)
    (hclean : ∀ s content header, m.Lists d s → d.read (m.root ++ s.names) = .ok content →
      readHeader content = .ok header → ∀ v ∈ header.values forwardedField, ¬ HasOpening v)
    (hpasses : ∀ p, passes p → p.maildir.root = m.root ∧ p.dryRun = false ∧
      ∀ r ∈ p.rules, r.IsMemorable)
    {o : Office} (h : History passes d o) (source : Path) (a : Text) :
    o.deliveries source a ≤ 1 := by
  cases hroot : d.resolve m.root with
  | error e =>
    rw [(deliveries_of_no_maildir (fun p hp => (hpasses p hp).1) hroot h).2]
    exact Nat.zero_le 1
  | ok place =>
    suffices hall : Remembers m.root place d (fun _ => False) o from hall.once source a
    induction h with
    | start =>
      refine ⟨Stays.refl hd hroot, fun _ _ => Nat.zero_le 1, ?_⟩
      intro s f _ hlisted hf
      refine ⟨fun a ha => absurd rfl ha, fun vs hvs => ?_⟩
      have hlists : m.Lists d s := (Maildir.lists_iff hd hroot s).2 ⟨hlisted, f, hf⟩
      have hread : d.read (m.root ++ s.names) = .ok f.content := by
        rw [Disk.read, (Disk.file_below hd hroot s.isName_of_mem_names).2 hf]
        rfl
      cases hheader : readHeader f.content with
      | error e => simp [seenValues, hheader, Except.map] at hvs
      | ok header =>
        rw [hheader] at hvs
        obtain rfl : header.values forwardedField = vs := Except.ok.inj hvs
        exact hclean s f.content header hlists hread hheader
    | @next o p t _ hp ih =>
      obtain ⟨hsame, hdry, hrules⟩ := hpasses p hp
      rw [← hsame] at ih ⊢
      refine remembers_run (fun s hlisted htaken => ?_) hrules hdry _ (ih.setClock t)
      exact (Slot.canRewrite_iff hd hroot s).1
        (hroom s ((Maildir.lists_iff hd hroot s).2 ⟨hlisted, htaken⟩))

end Pass

/-! ### Passes that pass a message on -/

/-- A rule that passes the messages of a subject on. -/
def noticeRule : Rule where
  criteria := { Criteria.none with operand := fun t => if t = .subject then some "s" else none }
  okayDate := none
  clear := []
  label := []
  moveTo := none
  forward := [⟨none, "me@home.com"⟩]
  order := 0

/-- A pass with this rule, and a post that takes every letter. -/
def noticePass : Pass where
  maildir := ⟨[], .byName⟩
  rules := [noticeRule]
  forwarder := some ⟨⟨none, "robot@home.com"⟩, ⟨fun _ _ => .ok ()⟩, []⟩
  allowForwarding := true
  dryRun := false
  window := none
  now := 0
  calledOff _ := false

/-- The office after one pass at a time and another one a second later. -/
def noticeOffice : Office :=
  let first := (noticePass.run { Office.ofDisk sampleDisk with disk := sampleDisk.setClock 1 }).2
  (noticePass.run { first with disk := first.disk.setClock 2 }).2

theorem notice_deliveries_le_one :
    noticeOffice.deliveries sampleSlot.names "me@home.com" ≤ 1 := by
  refine Pass.deliveries_le_one noticePass.maildir sound_sampleDisk ?_ ?_ ?_
    (.next 2 (.next 1 .start (rfl : noticePass = noticePass)) rfl) _ _
  · rintro s ⟨-, hs⟩
    rw [eq_sampleSlot hs]
    exact ⟨by decide, by decide⟩
  · rintro s content header ⟨-, hs⟩ hread hheader v hv
    have hvalues : (readHeader sampleLetter).map (fun h => h.values forwardedField) = .ok [] := by
      decide +kernel
    rw [eq_sampleSlot hs] at hread
    obtain rfl := Except.ok.inj (read_sampleDisk.symm.trans hread)
    rw [hheader] at hvalues
    have hnone : header.values forwardedField = [] := Except.ok.inj hvalues
    rw [hnone] at hv
    exact absurd hv List.not_mem_nil
  · rintro p rfl
    refine ⟨rfl, rfl, fun r hr => ?_⟩
    obtain rfl : r = noticeRule := List.mem_singleton.1 hr
    exact ⟨by decide, by decide +kernel, rfl⟩

end Mailroom
