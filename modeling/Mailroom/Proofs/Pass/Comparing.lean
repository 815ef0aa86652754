import Mailroom.Proofs.Clerk.Beside
import Mailroom.Proofs.Maildir.Matching
import Mailroom.Proofs.Pass.Turns

/-!
# Handling the same message on two disks

A pass does the same to the same message on two disks with the same folders, whatever else is on
them.

* `Pass.within` is a pass over another maildir.
* `Pass.exists_deed` gives the deed that a pass does to a message on both disks.
* `Pass.Parallel` says that two disks are such, `Parallel.exists_turn` compares the turns of one
  message, and `tally_workThrough` those of all messages of a folder.
-/

namespace Mailroom

namespace Pass

/-- The pass over another maildir. -/
def within (p : Pass) (M' : Maildir) : Pass := { p with maildir := M' }

theorem within_self (p : Pass) : p.within p.maildir = p := rfl

/-- Whether the post gives the same answers in two offices, whatever was sent for a message of a
state and a name before. -/
def AnswersAlike (p : Pass) (M' : Maildir) (state : ReadState) (name : Text) (o o' : Office) :
    Prop :=
  ∀ f, p.clerk.forwarder = some f → f.post.AnswersAlike p.maildir M' state name o o'

/-! ## The rules for a message -/

section Handle

variable {p : Pass} {χ : Chart} {names : Text → Prop} {M' : Maildir} {state : ReadState}
  {name : Text} {o o' : Office}

variable (hpost : p.AnswersAlike M' state name o o')

include hpost

theorem alongside_carryOut {rules : List Rule}
    (hrules : ∀ r ∈ rules, ∀ g, r.moveTo = some g → names g) :
    Alongside (Beside χ names p.maildir M' state name o o') (p.carryOut rules)
      ((p.within M').carryOut rules) := by
  induction rules with
  | nil => exact Alongside.pure ()
  | cons r rules ih =>
    have hrest := ih fun r hr => hrules r (by simp [hr])
    refine (alongside_look (blind_verdict r)).bind fun v => ?_
    refine Alongside.ite Iff.rfl (fun _ => ?_) fun _ => hrest
    exact (Clerk.alongside_apply (k := p.clerk) hpost (hrules r (by simp))).bind fun _ => hrest

variable (hused : ∀ r, IsUsed p.rules p.now r → ∀ g, r.moveTo = some g → names g)

include hused

theorem alongside_follow (fresh : List Text) :
    Alongside (Beside χ names p.maildir M' state name o o') (p.follow fresh)
      ((p.within M').follow fresh) := by
  induction hn : fresh.length using Nat.strongRecOn generalizing fresh with
  | _ n ih =>
    rw [Pass.follow, Pass.follow]
    refine Alongside.get fun c c' h => ?_
    have hfolder : c'.message.folder = c.message.folder := by rw [h.twin]; rfl
    dsimp only
    rw [hfolder]
    by_cases hmem : c.message.folder ∈ fresh
    · rw [dif_pos hmem, dif_pos hmem]
      have hrules : ∀ r ∈ p.rulebook.folderRules c.message.folder, ∀ g, r.moveTo = some g →
          names g := fun r hr => hused r (Rulebook.isUsed_of_mem_folderRules hr)
      have hlt : (fresh.erase c.message.folder).length < n := by
        have hpos := List.length_pos_of_mem hmem
        rw [List.length_erase_of_mem hmem]
        omega
      exact ((alongside_carryOut hpost hrules).bind fun _ => ih _ hlt _ rfl) c c' h
    · rw [dif_neg hmem, dif_neg hmem]
      exact ⟨.ok (), h⟩

theorem alongside_handle {rules : List Rule} (hrules : ∀ r ∈ rules, IsUsed p.rules p.now r) :
    Alongside (Beside χ names p.maildir M' state name o o') (p.handle rules)
      ((p.within M').handle rules) := by
  unfold Pass.handle
  refine Alongside.get fun c c' h => ?_
  have hfolder : c'.message.folder = c.message.folder := by rw [h.twin]; rfl
  rw [hfolder]
  exact ((alongside_carryOut hpost fun r hr => hused r (hrules r hr)).bind fun _ =>
    alongside_follow hpost hused _) c c' h

end Handle

/-! ## One message -/

section Deed

variable {p : Pass} {χ : Chart} {names : Text → Prop} {M' : Maildir} {o o' : Office} {e : Entry}
  {rules : List Rule}

/-- A message that has the same file on two disks comes to the same on both, by one deed. -/
theorem exists_deed (hfaces : χ.Faces names p.maildir M' o.disk o'.disk)
    (hpost : p.AnswersAlike M' e.state e.name o o')
    (hused : ∀ r, IsUsed p.rules p.now r → ∀ g, r.moveTo = some g → names g)
    (hrules : ∀ r ∈ rules, IsUsed p.rules p.now r) (hnamed : names e.folder.name)
    (hfolder : e.folder = p.maildir.folder e.folder.name) {r : Path} {f f' : File}
    (hr : χ.land r) (hstands : e.Stands r f o.disk)
    (hstands' : (e.within M').Stands (χ.shift r) f' o'.disk) (hcontent : f'.content = f.content)
    (hmodified : f'.modified = f.modified) :
    ∃ w : Deed, w.Concerns χ e.state e.name ∧
      SameOutcome ((p.handle rules).onMessage (.ofEntry e) o).1
        (((p.within M').handle rules).onMessage (.ofEntry (e.within M')) o').1 ∧
      w.Done p.maildir e.state e.name o ((p.handle rules).onMessage (.ofEntry e) o).2 ∧
      (w.across χ).Done M' e.state e.name o'
        (((p.within M').handle rules).onMessage (.ofEntry (e.within M')) o').2 := by
  have hbeside : Beside χ names p.maildir M' e.state e.name o o' ⟨o, .ofEntry e⟩
      ⟨o', .ofEntry (e.within M')⟩ := by
    refine ⟨hfaces, hnamed, hfolder, rfl, rfl, rfl,
      ⟨r, f, f', hr, hstands, hstands', hcontent, hmodified⟩, .nothing, Deed.concerns_nothing,
      .refl hfaces.sound, ?_⟩
    rw [Deed.across_nothing]
    exact .refl hfaces.sound'
  obtain ⟨hresult, hafter⟩ := alongside_handle hpost hused hrules _ _ hbeside
  obtain ⟨w, hconcerns, hdone, hdone'⟩ := hafter.deed
  exact ⟨w, hconcerns, hresult, hdone, hdone'⟩

end Deed

end Pass

namespace Deed

variable {w : Deed} {χ : Chart} {M : Maildir} {state : ReadState} {name : Text} {o o' : Office}

/-- A deed leaves the files of other messages alone. -/
theorem Concerns.eq_none (h : w.Concerns χ state name) {r : Path} {st : ReadState} {n : Text}
    (hne : st = state → n ≠ name) : w.changes (r ++ [st.name, n]) = none := by
  cases hq : w.changes (r ++ [st.name, n]) with
  | none => rfl
  | some look =>
    obtain ⟨r', -, hat | ⟨hat, -⟩⟩ := h _ _ hq
    · obtain ⟨hstate, hname⟩ := pair_eq_of_append hat
      exact absurd hname (hne (ReadState.name_inj hstate))
    · exact absurd (pair_eq_of_append hat).1 st.name_ne_temporaryName

/-- So other messages go on standing, with the same content. -/
theorem Done.stands (hdone : w.Done M state name o o') (h : w.Concerns χ state name) {e : Entry}
    (hne : e.state = state → e.name ≠ name) {r : Path} {f : File} (hstands : e.Stands r f o.disk) :
    ∃ f', e.Stands r f' o'.disk ∧ f'.content = f.content ∧ f'.modified = f.modified := by
  have hview := hdone.disk.view_of_none (h.eq_none (r := r) hne)
  rw [Disk.view_of_file hstands.file] at hview
  obtain ⟨f', hf', hcontent, hmodified⟩ := Disk.view_eq_file.1 hview
  exact ⟨f', ⟨hstands.name, (hdone.disk.resolve _ _).2 hstands.folder, hf'⟩, hcontent, hmodified⟩

/-- So do those that await their turns. -/
theorem Done.awaits (hdone : w.Done M state name o o') (h : w.Concerns χ state name) {e : Entry}
    (hne : e.state = state → e.name ≠ name) {g : Folder} {r : Path} (hwait : e.Awaits g r o.disk) :
    e.Awaits g r o'.disk := by
  obtain ⟨f, hf⟩ := hwait.stands
  obtain ⟨f', hf', -⟩ := hdone.stands h hne hf
  exact ⟨hwait.folder, hwait.known, f', hf'⟩

/-- The deeds for two messages may be done in any order. -/
theorem Concerns.andThen_comm {w' : Deed} {state' : ReadState} {name' : Text}
    (h : w.Concerns χ state name) (h' : w'.Concerns χ state' name')
    (hne : state' = state → name' ≠ name) :
    w.changes.andThen w'.changes = w'.changes.andThen w.changes := by
  refine Patch.andThen_comm fun q a b ha hb => ?_
  obtain ⟨r, -, hat | ⟨hat, hgone⟩⟩ := h q a ha
  · obtain ⟨r', -, hat' | ⟨hat', -⟩⟩ := h' q b hb
    · obtain ⟨hstate, hname⟩ := pair_eq_of_append (hat'.symm.trans hat)
      exact absurd hname (hne (ReadState.name_inj hstate))
    · exact absurd (pair_eq_of_append (hat.symm.trans hat')).1 state.name_ne_temporaryName
  · obtain ⟨r', -, hat' | ⟨-, hgone'⟩⟩ := h' q b hb
    · exact absurd (pair_eq_of_append (hat'.symm.trans hat)).1 state'.name_ne_temporaryName
    · exact hgone.trans hgone'.symm

end Deed

/-! ## One turn -/

theorem SameOutcome.settled {r r' : Except Error Unit} (h : SameOutcome r r') :
    SameOutcome (Pass.settled r) (Pass.settled r') := by
  cases h with
  | ok u => exact .ok ()
  | error hlike =>
    cases hlike with
    | same e => exact .refl _
    | file f f' => exact .error (.file f f')

/-- Whether the answer of a post to a letter does not depend on what it was given before. -/
def Post.IsSteady (post : Post) : Prop :=
  ∀ before before' letter, post.answer before letter = post.answer before' letter

namespace Pass

variable {p : Pass} {χ : Chart} {names : Text → Prop} {M' : Maildir} {o o' : Office} {e : Entry}
  {rules : List Rule}

theorem answersAlike_of_steady (h : ∀ f, p.forwarder = some f → f.post.IsSteady)
    (state : ReadState) (name : Text) : p.AnswersAlike M' state name o o' := by
  intro f hf sent letter
  refine h f ?_ _ _ letter
  simp only [Pass.clerk] at hf
  split at hf
  · exact hf
  · exact absurd hf (by simp)

theorem answersAlike_of_same (hroot : M'.root = p.maildir.root)
    (hsubmissions : o'.submissions = o.submissions) (state : ReadState) (name : Text) :
    p.AnswersAlike M' state name o o' := by
  intro f _ sent letter
  rw [hsubmissions, Maildir.submission_congr hroot]

/-- Two disks on which a pass does the same to a message that is on both, wherever it goes. -/
structure Parallel (p : Pass) (χ : Chart) (names : Text → Prop) (M' : Maildir) (d d' : Disk) :
    Prop where
  /-- They have the same folders. -/
  faces : χ.Faces names p.maildir M' d d'
  /-- No rule moves a message anywhere else. -/
  moves : ∀ r, IsUsed p.rules p.now r → ∀ g, r.moveTo = some g → names g

namespace Parallel

variable {folder : Text} {r : Path} (h : p.Parallel χ names M' o.disk o'.disk)
  (hnamed : names folder) (hr : χ.land r)
  (hsame : o'.disk.view (χ.shift (r ++ [e.state.name, e.name])) =
    o.disk.view (r ++ [e.state.name, e.name]))

include h hnamed hr hsame

/-- A message on one disk has its counterpart on the other one. -/
theorem stands_within (hfolder : e.folder = p.maildir.folder folder) {f : File}
    (hstands : e.Stands r f o.disk) : ∃ f', (e.within M').Stands (χ.shift r) f' o'.disk ∧
      f'.content = f.content ∧ f'.modified = f.modified := by
  rw [Disk.view_of_file hstands.file, χ.shift_append _ hr] at hsame
  obtain ⟨f', hf', hcontent, hmodified⟩ := Disk.view_eq_file.1 hsame
  refine ⟨f', ⟨hstands.name, ?_, hf'⟩, hcontent, hmodified⟩
  have hplace := hstands.folder
  rw [hfolder] at hplace
  have hfolder' : (e.within M').folder = M'.folder folder := by
    rw [Entry.within, hfolder]
    rfl
  rw [hfolder']
  rcases h.faces.places folder hnamed with ⟨r₁, -, hr₁, hr₁'⟩ | ⟨hno, -⟩
  · obtain rfl := Except.ok.inj (hr₁.symm.trans hplace)
    exact hr₁'
  · exact absurd hplace (hno r)

/-- A message comes to the same in its turns on both disks, by one deed. -/
theorem exists_turn (hwait : e.Awaits (p.maildir.folder folder) r o.disk)
    (hoff : p.calledOff o'.submissions = p.calledOff o.submissions)
    (hpost : p.AnswersAlike M' e.state e.name o o')
    (hrules : ∀ r ∈ rules, IsUsed p.rules p.now r) :
    ∃ w : Deed, w.Concerns χ e.state e.name ∧
      SameOutcome (p.takeUp rules e o).1 ((p.within M').takeUp rules (e.within M') o').1 ∧
      w.Done p.maildir e.state e.name o (p.takeUp rules e o).2 ∧
      (w.across χ).Done M' e.state e.name o'
        ((p.within M').takeUp rules (e.within M') o').2 := by
  obtain ⟨f, hstands⟩ := hwait.stands
  obtain ⟨f', hstands', hcontent, hmodified⟩ :=
    h.stands_within hnamed hr hsame hwait.folder hstands
  have hfolder : e.folder.name = folder := by rw [hwait.folder]; rfl
  have hrecent : (p.within M').isRecent o'.disk (e.within M') = p.isRecent o.disk e := by
    rw [isRecent_of_stands h.faces.sound hstands hwait.known,
      isRecent_of_stands h.faces.sound' hstands' hwait.known, hmodified]
    rfl
  have hidle : Deed.nothing.Concerns χ e.state e.name ∧
      Deed.nothing.Done p.maildir e.state e.name o o ∧
      (Deed.nothing.across χ).Done M' e.state e.name o' o' := by
    rw [Deed.across_nothing]
    exact ⟨Deed.concerns_nothing, .refl h.faces.sound, .refl h.faces.sound'⟩
  have hoff' : (p.within M').calledOff o'.submissions = p.calledOff o.submissions := hoff
  rw [takeUp_run, takeUp_run, hoff', hrecent]
  by_cases hgone : p.calledOff o.submissions = true
  · rw [if_pos hgone, if_pos hgone]
    exact ⟨_, hidle.1, .refl _, hidle.2⟩
  by_cases hlate : p.isRecent o.disk e = true
  · rw [if_neg hgone, if_neg hgone, if_pos hlate, if_pos hlate]
    obtain ⟨w, hconcerns, hresult, hdone, hdone'⟩ := exists_deed h.faces hpost h.moves hrules
      (hfolder ▸ hnamed) (hfolder.symm ▸ hwait.folder) hr hstands hstands' hcontent hmodified
    exact ⟨w, hconcerns, hresult.settled, hdone, hdone'⟩
  · rw [if_neg hgone, if_neg hgone, if_neg hlate, if_neg hlate]
    exact ⟨_, hidle.1, .ok (), hidle.2⟩

end Parallel

section Whole

variable {P : Patch} {folder : Text} {r : Path}

/-- On two disks with the same folders a pass does the same. -/
theorem parallel_of_patched (hroot : M'.root = p.maildir.root) {d d' : Disk} (hd : d.Sound)
    (h : d.Patched P d') : p.Parallel .whole (fun _ => True) M' d d' :=
  ⟨.of_whole hd h.sound h.clock h.folders hroot, fun _ _ _ _ => trivial⟩

/-- A message comes to the same in two offices on whose disks it looks the same. -/
theorem exists_turn_of_patched (hroot : M'.root = p.maildir.root) (ho : o.disk.Sound)
    (h : o.disk.Patched P o'.disk) (hwait : e.Awaits (p.maildir.folder folder) r o.disk)
    (hsame : P (r ++ [e.state.name, e.name]) = none)
    (hoff : p.calledOff o'.submissions = p.calledOff o.submissions)
    (hpost : p.AnswersAlike M' e.state e.name o o')
    (hrules : ∀ r ∈ rules, IsUsed p.rules p.now r) :
    ∃ w : Deed, w.Concerns .whole e.state e.name ∧
      SameOutcome (p.takeUp rules e o).1 ((p.within M').takeUp rules e o').1 ∧
      w.Done p.maildir e.state e.name o (p.takeUp rules e o).2 ∧
      w.Done M' e.state e.name o' ((p.within M').takeUp rules e o').2 := by
  obtain ⟨w, hconcerns, hresult, hdone, hdone'⟩ := (parallel_of_patched hroot ho h).exists_turn
    trivial trivial (h.view_of_none hsame) hwait hoff hpost hrules
  rw [Entry.within_of_root hroot hwait.folder] at hresult hdone'
  rw [Deed.across_whole] at hdone'
  exact ⟨w, hconcerns, hresult, hdone, hdone'⟩

end Whole

/-! ## Turn after turn -/

/-- What is the same after every turn of a message is the same after the turns of all messages of
a folder. -/
theorem tally_workThrough {J : Office → Office → Prop} {g : Folder} {r : Path}
    {entries : List Entry}
    (hturn : ∀ e ∈ entries, ∀ o o', J o o' → e.Awaits g r o.disk →
      Tally J (p.takeUp rules e o) ((p.within M').takeUp rules (e.within M') o') ∧
        ∀ e', e.Apart e' → e'.Awaits g r o.disk → e'.Awaits g r (p.takeUp rules e o).2.disk)
    (hwaits : ∀ e ∈ entries, e.Awaits g r o.disk) (hapart : entries.Pairwise Entry.Apart)
    (hJ : J o o') :
    Tally J (p.workThrough rules entries o)
      ((p.within M').workThrough rules (entries.map (Entry.within · M')) o') := by
  induction entries generalizing o o' with
  | nil => exact ⟨.ok (), hJ⟩
  | cons e entries ih =>
    obtain ⟨hfirst, hrest⟩ := List.pairwise_cons.1 hapart
    obtain ⟨⟨hresult, hJ'⟩, hkeeps⟩ := hturn e (by simp) o o' hJ (hwaits e (by simp))
    rw [List.map_cons]
    cases hrun : (p.takeUp rules e o).1 with
    | ok u =>
      rw [hrun] at hresult
      rw [workThrough_of_ok hrun, workThrough_of_ok hresult.eq_ok]
      exact ih (fun e he => hturn e (by simp [he]))
        (fun e' he' => hkeeps e' (hfirst e' he') (hwaits e' (by simp [he']))) hrest hJ'
    | error error =>
      rw [hrun] at hresult
      obtain ⟨error', hrun', hlike⟩ := hresult.eq_error
      rw [workThrough_of_error hrun, workThrough_of_error hrun']
      exact ⟨.error hlike, hJ'⟩

end Pass

end Mailroom
