import Mailroom.Clerk
import Mailroom.Proofs.Maildir.Chart
import Mailroom.Proofs.Message.Blind
import Mailroom.Proofs.Pass.Handling
import Mailroom.Proofs.Summary

/-!
# The same message on two disks

What is done to a message depends on its content, on what is remembered of it, and on which folders
there are.  Whatever else is on the disk, the same is done to the same message.

* A `Deed` is what was done to a message: changes of the disk, actions and letters.
* `Beside` says that one deed led to two cases from two offices, in each of which the message
  stands, with the same content and the same memory.
* `Beside.save`, `Beside.moveTo` and `Beside.submit` are the steps that touch the world;
  `alongside_apply` is a whole rule.
-/

namespace Mailroom

/-! ## Deeds -/

/-- A letter that was given to the post for a message. -/
structure Sending where
  /-- The letter. -/
  letter : Letter
  /-- The name of the folder that the message was in. -/
  folder : Text
  /-- Whether the post took the letter. -/
  accepted : Bool

/-- What the record of letters says of a letter for a message of a state and a name. -/
def Maildir.submission (M : Maildir) (state : ReadState) (name : Text) (x : Sending) : Submission :=
  ⟨x.letter, Path.join ((M.folder x.folder).statePath state) name, x.accepted⟩

theorem Maildir.submission_congr {M M' : Maildir} (h : M'.root = M.root) (state : ReadState)
    (name : Text) : M'.submission state name = M.submission state name := by
  funext x
  rw [submission, submission, folder, folder, h]

/-- What was done to a message. -/
structure Deed where
  /-- The changes of the disk. -/
  changes : Patch
  /-- The actions that were counted. -/
  actions : List Text
  /-- The letters that were given to the post. -/
  sent : List Sending

namespace Deed

/-- Nothing was done. -/
def nothing : Deed := ⟨.nothing, [], []⟩

/-- One deed after another. -/
def andThen (w w' : Deed) : Deed :=
  ⟨w.changes.andThen w'.changes, w.actions ++ w'.actions, w.sent ++ w'.sent⟩

/-- The deed on the other disk of a chart. -/
def across (w : Deed) (χ : Chart) : Deed := { w with changes := χ.push w.changes }

@[simp] theorem across_nothing (χ : Chart) : nothing.across χ = nothing := by
  simp [across, nothing]

theorem across_andThen (w w' : Deed) (χ : Chart) :
    (w.andThen w').across χ = (w.across χ).andThen (w'.across χ) := by
  simp [across, andThen, Chart.push_andThen]

@[simp] theorem across_whole (w : Deed) : w.across .whole = w := by
  simp [across]

/-- Whether a deed was done in an office, to a message of a state and a name. -/
structure Done (w : Deed) (M : Maildir) (state : ReadState) (name : Text) (o o' : Office) :
    Prop where
  /-- The disk has changed. -/
  disk : o.disk.Patched w.changes o'.disk
  /-- The actions were counted. -/
  summary : o'.summary = o.summary.recordAll w.actions
  /-- The letters were recorded. -/
  submissions : o'.submissions = o.submissions ++ w.sent.map (M.submission state name)

/-- Whether a deed concerns nothing but the files of a state and a name at places with a
counterpart.  What is being written is gone afterwards. -/
def Concerns (w : Deed) (χ : Chart) (state : ReadState) (name : Text) : Prop :=
  ∀ q look, w.changes q = some look → ∃ r, χ.land r ∧
    (q = r ++ [state.name, name] ∨ q = r ++ [temporaryName, name] ∧ look = none)

variable {w w' : Deed} {χ : Chart} {M : Maildir} {state : ReadState} {name : Text}
  {o o₁ o' : Office}

theorem Done.refl (ho : o.disk.Sound) : nothing.Done M state name o o :=
  ⟨.refl ho, rfl, by simp [nothing]⟩

theorem Done.trans (h : w.Done M state name o o₁) (h' : w'.Done M state name o₁ o') :
    (w.andThen w').Done M state name o o' := by
  refine ⟨h.disk.trans h'.disk, ?_, ?_⟩
  · rw [h'.summary, h.summary, andThen, Summary.recordAll_append]
  · rw [h'.submissions, h.submissions, andThen, List.map_append, List.append_assoc]

theorem concerns_nothing : nothing.Concerns χ state name := by
  intro q look h
  exact absurd h (by simp [nothing, Patch.nothing])

theorem Concerns.andThen (h : w.Concerns χ state name) (h' : w'.Concerns χ state name) :
    (w.andThen w').Concerns χ state name := by
  intro q look hq
  simp only [Deed.andThen, Patch.andThen] at hq
  cases hsecond : w'.changes q with
  | none =>
    rw [hsecond, Option.none_or] at hq
    exact h q look hq
  | some look' =>
    rw [hsecond, Option.some_or] at hq
    exact h' q look (hsecond.trans hq)

/-- Changing the disk. -/
def ofChanges (P : Patch) : Deed := ⟨P, [], []⟩

/-- Putting a file at the place of the message. -/
theorem concerns_moving {r r' source : Path} {look : Look} (hr : χ.land r) (hr' : χ.land r')
    (hsource : source = r ++ [state.name, name] ∨ source = r ++ [temporaryName, name]) :
    (ofChanges (.moving source (r' ++ [state.name, name]) look)).Concerns χ state name := by
  intro q change hq
  have hq' : Patch.moving source (r' ++ [state.name, name]) look q = some change := hq
  rw [Patch.moving_eq] at hq'
  split at hq'
  · rename_i htarget
    exact ⟨r', hr', Or.inl htarget⟩
  · split at hq'
    · rename_i hat
      exact ⟨r, hr, hat ▸ hsource.imp_right fun h => ⟨h, (Option.some.inj hq').symm⟩⟩
    · exact absurd hq' (by simp)

end Deed

/-- Whether a post gives the same answers in two offices, whatever was sent for a message of a
state and a name before. -/
def Post.AnswersAlike (post : Post) (M M' : Maildir) (state : ReadState) (name : Text)
    (o o' : Office) : Prop :=
  ∀ (sent : List Sending) (letter : Letter),
    post.answer (o'.submissions ++ sent.map (M'.submission state name)) letter =
      post.answer (o.submissions ++ sent.map (M.submission state name)) letter

/-! ## Two cases -/

/-- The entry in the folder of its name in another maildir. -/
def Entry.within (e : Entry) (M : Maildir) : Entry := { e with folder := M.folder e.folder.name }

/-- The message in the folder of its name in another maildir. -/
def Message.within (m : Message) (M : Maildir) : Message := { m with entry := m.entry.within M }

/-- A message of a state and a name, taken up in two offices, in which one deed was done to it
since.  Its folder is one of those of the given names, and at places that correspond. -/
structure Beside (χ : Chart) (names : Text → Prop) (M M' : Maildir) (state : ReadState)
    (name : Text) (o o' : Office) (c c' : Case) : Prop where
  /-- The disks have the same folders. -/
  faces : χ.Faces names M M' c.office.disk c'.office.disk
  /-- The folder is one of those of the given names. -/
  named : names c.message.folder
  /-- It is a folder of the maildir. -/
  folder : c.message.entry.folder = M.folder c.message.folder
  /-- The message is of the state. -/
  ofState : c.message.entry.state = state
  /-- It has the name. -/
  ofName : c.message.entry.name = name
  /-- In the other maildir, it is the same message. -/
  twin : c'.message = c.message.within M'
  /-- Its files are the same. -/
  file : ∃ r f f', χ.land r ∧ c.message.entry.Stands r f c.office.disk ∧
    c'.message.entry.Stands (χ.shift r) f' c'.office.disk ∧
    f'.content = f.content ∧ f'.modified = f.modified
  /-- The same was done to it. -/
  deed : ∃ w : Deed, w.Concerns χ state name ∧ w.Done M state name o c.office ∧
    (w.across χ).Done M' state name o' c'.office

namespace Beside

variable {χ : Chart} {names : Text → Prop} {M M' : Maildir} {state : ReadState} {name : Text}
  {o o' : Office} {c c' : Case}

section Twin

variable (h : Beside χ names M M' state name o o' c c')

include h

theorem state_eq : c'.message.entry.state = c.message.entry.state := by
  rw [h.twin]
  rfl

theorem name_eq : c'.message.entry.name = c.message.entry.name := by
  rw [h.twin]
  rfl

theorem folder_eq : c'.message.entry.folder = M'.folder c.message.folder := by
  rw [h.twin]
  rfl

/-- A folder of another name is another folder in both maildirs. -/
theorem folder_ne {g : Text} (hg : g ≠ c.message.folder) :
    M.folder g ≠ c.message.entry.folder ∧ M'.folder g ≠ c'.message.entry.folder := by
  rw [h.folder, h.folder_eq]
  exact ⟨fun heq => hg (congrArg Folder.name heq), fun heq => hg (congrArg Folder.name heq)⟩

theorem edits_eq : c'.message.edits = c.message.edits := by
  rw [h.twin]
  rfl

theorem twins : Message.Twins c.message.entry c'.message.entry c.message c'.message := by
  refine ⟨rfl, ?_⟩
  rw [h.twin]
  rfl

theorem sameToRead :
    Entry.SameToRead c.office.disk c'.office.disk c.message.entry c'.message.entry := by
  obtain ⟨r, f, f', -, hstands, hstands', hcontent, -⟩ := h.file
  refine ⟨?_, ?_, ?_⟩
  · rw [h.folder_eq]
    rfl
  · rw [h.twin]
    rfl
  · rw [hstands.read h.faces.sound, hstands'.read h.faces.sound', hcontent]

/-- Where the message is, as it is written on each disk. -/
theorem path_eq : c.message.entry.path =
      Path.join ((M.folder c.message.folder).statePath state) name ∧
    c'.message.entry.path = Path.join ((M'.folder c.message.folder).statePath state) name := by
  constructor
  · rw [Entry.path, Entry.pathIn, ← h.folder, h.ofState, h.ofName]
  · rw [Entry.path, Entry.pathIn, h.folder_eq, h.state_eq, h.name_eq, h.ofState, h.ofName]

end Twin

/-- The messages may change in memory, as long as they are of the same entries. -/
theorem remember (h : Beside χ names M M' state name o o' c c') {m m' : Message}
    (hm : Message.Twins c.message.entry c'.message.entry m m') :
    Beside χ names M M' state name o o' ⟨c.office, m⟩ ⟨c'.office, m'⟩ := by
  obtain ⟨hentry, rfl⟩ := hm
  have hfolder : m.folder = c.message.folder := by rw [Message.folder, hentry]; rfl
  have htwin : c'.message.entry = (c.message.within M').entry := congrArg Message.entry h.twin
  refine ⟨h.faces, ?_, ?_, ?_, ?_, ?_, ?_, h.deed⟩
  · rw [hfolder]
    exact h.named
  · show m.entry.folder = M.folder m.folder
    rw [hfolder, hentry]
    exact h.folder
  · show m.entry.state = state
    rw [hentry]
    exact h.ofState
  · show m.entry.name = name
    rw [hentry]
    exact h.ofName
  · rw [htwin, Message.within, Message.within, hentry]
  · show ∃ r f f', χ.land r ∧ m.entry.Stands r f c.office.disk ∧
      c'.message.entry.Stands (χ.shift r) f' c'.office.disk ∧ _
    rw [hentry]
    exact h.file

/-- One more thing is done that leaves the disks and the messages alone. -/
theorem also (h : Beside χ names M M' state name o o' c c') {summary summary' : Summary}
    {submissions submissions' : List Submission} (action : List Text) (x : List Sending)
    (hsummary : summary = c.office.summary.recordAll action)
    (hsummary' : summary' = c'.office.summary.recordAll action)
    (hsent : submissions = c.office.submissions ++ x.map (M.submission state name))
    (hsent' : submissions' = c'.office.submissions ++ x.map (M'.submission state name)) :
    Beside χ names M M' state name o o' ⟨⟨c.office.disk, submissions, summary⟩, c.message⟩
      ⟨⟨c'.office.disk, submissions', summary'⟩, c'.message⟩ := by
  obtain ⟨w, hconcerns, hdone, hdone'⟩ := h.deed
  have hstep : ∀ (M : Maildir) (o : Office) (s : Summary) (xs : List Submission),
      o.disk.Sound → s = o.summary.recordAll action →
      xs = o.submissions ++ x.map (M.submission state name) →
      Deed.Done ⟨.nothing, action, x⟩ M state name o ⟨o.disk, xs, s⟩ :=
    fun M o s xs ho hs hxs => ⟨.refl ho, hs, hxs⟩
  have hlast := hstep M c.office _ _ h.faces.sound hsummary hsent
  have hlast' := hstep M' c'.office _ _ h.faces.sound' hsummary' hsent'
  refine ⟨h.faces, h.named, h.folder, h.ofState, h.ofName, h.twin, h.file,
    w.andThen ⟨.nothing, action, x⟩, hconcerns.andThen ?_, hdone.trans hlast, ?_⟩
  · intro q look hq
    exact absurd hq (by simp [Patch.nothing])
  · rw [Deed.across_andThen]
    refine hdone'.trans ?_
    rw [Deed.across, Chart.push_nothing]
    exact hlast'

/-- The disks change in the same way, and the message goes on standing. -/
theorem change (h : Beside χ names M M' state name o o' c c') {d d' : Disk} {m : Message}
    {P : Patch} (hP : c.office.disk.Patched P d) (hP' : c'.office.disk.Patched (χ.push P) d')
    (hconcerns : (Deed.ofChanges P).Concerns χ state name) (hnamed : names m.folder)
    (hfolder : m.entry.folder = M.folder m.folder) (hstate : m.entry.state = state)
    (hname : m.entry.name = name)
    (hfile : ∃ r f f', χ.land r ∧ m.entry.Stands r f d ∧
      (m.within M').entry.Stands (χ.shift r) f' d' ∧ f'.content = f.content ∧
      f'.modified = f.modified) :
    Beside χ names M M' state name o o' ⟨{ c.office with disk := d }, m⟩
      ⟨{ c'.office with disk := d' }, m.within M'⟩ := by
  obtain ⟨w, hw, hdone, hdone'⟩ := h.deed
  refine ⟨h.faces.patched hP hP', hnamed, hfolder, hstate, hname, rfl, hfile,
    w.andThen (.ofChanges P), hw.andThen hconcerns, hdone.trans ⟨hP, rfl, by simp [Deed.ofChanges]⟩,
    ?_⟩
  rw [Deed.across_andThen]
  exact hdone'.trans ⟨hP', rfl, by simp [Deed.ofChanges, Deed.across]⟩

end Beside

/-! ## Steps -/

theorem liftM_bind {α β : Type} (w : Editing α) (f : α → Editing β) :
    (liftM (w >>= f) : Handling β) = liftM w >>= fun a => liftM (f a) := by
  funext c
  cases hrun : w ⟨c.office.disk, c.message⟩ with
  | mk result desk =>
    cases result with
    | error e =>
      rw [liftM_run (run_bind_error hrun), run_bind_error (liftM_run hrun)]
    | ok a =>
      rw [run_bind_ok (liftM_run hrun)]
      exact liftM_run (run_bind_ok hrun)

section Steps

variable {χ : Chart} {names : Text → Prop} {M M' : Maildir} {state : ReadState} {name : Text}
  {o o' : Office} {α : Type}

theorem alongside_look {r : Reading α} (hr : Blind r) :
    Alongside (Beside χ names M M' state name o o') (liftM r.toEditing : Handling α)
      (liftM r.toEditing) := by
  intro c c' h
  obtain ⟨hresult, hmessages⟩ := hr _ _ _ _ h.sameToRead _ _ h.twins
  exact ⟨hresult, h.remember hmessages⟩

theorem alongside_record (action : Text) :
    Alongside (Beside χ names M M' state name o o') (Handling.record action)
      (Handling.record action) :=
  fun _ _ h => ⟨.ok _, h.also [action] [] rfl rfl (by simp) (by simp)⟩

theorem alongside_setField (field value : Text) :
    Alongside (Beside χ names M M' state name o o')
      (modifyThe Case fun c => { c with message := c.message.setField field value })
      (modifyThe Case fun c => { c with message := c.message.setField field value }) := by
  intro c c' h
  refine ⟨.ok _, h.remember ⟨rfl, ?_⟩⟩
  rw [h.twin]
  rfl

/-- A letter is answered in the same way, and recorded in the same way. -/
theorem alongside_submit {post : Post} (hpost : post.AnswersAlike M M' state name o o')
    (letter : Letter) :
    Alongside (Beside χ names M M' state name o o') (Handling.submit post letter)
      (Handling.submit post letter) := by
  intro c c' h
  obtain ⟨w, -, hdone, hdone'⟩ := h.deed
  have hanswer : post.answer c'.office.submissions letter =
      post.answer c.office.submissions letter := by
    rw [hdone.submissions, hdone'.submissions]
    exact hpost w.sent letter
  obtain ⟨hpath, hpath'⟩ := h.path_eq
  refine ⟨?_, ?_⟩
  · change SameOutcome (post.answer c.office.submissions letter)
      (post.answer c'.office.submissions letter)
    rw [hanswer]
    exact .refl _
  · refine h.also []
      [⟨letter, c.message.folder, (post.answer c.office.submissions letter).toBool⟩] rfl rfl ?_ ?_
    · rw [List.map_singleton, Maildir.submission, hpath]
    · rw [List.map_singleton, Maildir.submission, hpath', hanswer]

theorem alongside_putContent (bytes : Bytes) :
    Alongside (Beside χ names M M' state name o o')
      (liftM (Message.putContent bytes) : Handling Unit) (liftM (Message.putContent bytes)) := by
  intro c c' h
  obtain ⟨r, f, f', hr, hstands, hstands', -⟩ := h.file
  have hname := h.name_eq
  by_cases hroom : c.office.disk.HasRoomAt r c.message.entry.name
  · have hroom' := (h.faces.hasRoomAt hr c.message.entry.name).2 hroom
    obtain ⟨d, id, hrun, helse, hfile, hgone⟩ :=
      Message.putContent_of_hasRoom h.faces.sound (hstands.hasRoom h.faces.sound hroom) bytes
    obtain ⟨d', id', hrun', helse', hfile', hgone'⟩ :=
      Message.putContent_of_hasRoom h.faces.sound'
        (hstands'.hasRoom h.faces.sound' (hname ▸ hroom')) bytes
    rw [liftM_run hrun, liftM_run hrun']
    have hP := Disk.Patched.of_elsewhere helse hfile (Or.inr hgone)
    have hP' := Disk.Patched.of_elsewhere helse' hfile' (Or.inr hgone')
    rw [h.state_eq, hname, h.faces.clock, ← χ.shift_append _ hr, ← χ.shift_append _ hr,
      ← Chart.push_moving (χ.land_append _ hr) (χ.land_append _ hr)] at hP'
    have hmessage : ({ c'.message with entry := { c'.message.entry with known := none } } :
        Message) = ({ c.message with entry := { c.message.entry with known := none } } :
          Message).within M' := by
      rw [h.twin]
      rfl
    rw [hmessage]
    refine ⟨.ok (), h.change hP hP' ?_ h.named h.folder h.ofState h.ofName
      ⟨r, _, ⟨id', bytes, c'.office.disk.clock⟩, hr,
        ⟨hstands.name, helse.resolve hstands.folder, hfile⟩, ?_, rfl, h.faces.clock⟩⟩
    · rw [h.ofState, h.ofName]
      exact Deed.concerns_moving hr hr (Or.inr rfl)
    · rw [← hmessage]
      exact ⟨hstands'.name, helse'.resolve hstands'.folder, hfile'⟩
  · have hroom' := fun hroom' => hroom ((h.faces.hasRoomAt hr c.message.entry.name).1 hroom')
    obtain ⟨e, hrun⟩ := Message.putContent_of_no_roomAt hstands hroom bytes
    obtain ⟨e', hrun'⟩ := Message.putContent_of_no_roomAt hstands' (hname ▸ hroom') bytes
    rw [liftM_run hrun, liftM_run hrun']
    exact ⟨.error (.file e e'), h⟩

theorem alongside_save :
    Alongside (Beside χ names M M' state name o o') (liftM Message.save : Handling Bool)
      (liftM Message.save) := by
  have hwrite : ∀ bytes header edits, Alongside (Beside χ names M M' state name o o')
      (liftM (Message.writeRevised bytes header edits) : Handling Bool)
      (liftM (Message.writeRevised bytes header edits)) := by
    intro bytes header edits
    rw [Message.writeRevised, liftM_bind]
    refine (alongside_putContent _).bind fun _ => ?_
    intro c c' h
    refine ⟨.ok true, h.remember ⟨rfl, ?_⟩⟩
    rw [h.twin]
    rfl
  intro c c' h
  have hedits := h.edits_eq
  by_cases hnone : c.message.edits = []
  · rw [liftM_run (Message.save_of_no_edits hnone),
      liftM_run (Message.save_of_no_edits (hedits.trans hnone))]
    exact ⟨.ok false, h⟩
  · have hsplit : ∀ c : Case, c.message.edits ≠ [] → (liftM Message.save : Handling Bool) c =
        (liftM Message.raw.toEditing >>= fun bytes => liftM Message.parsed.toEditing >>= fun header =>
          liftM (Message.writeRevised bytes header c.message.edits) : Handling Bool) c := by
      intro c hc
      simp only [← liftM_bind]
      obtain ⟨office, entry, content, header, keywordSet, edits⟩ := c
      cases edits with
      | nil => exact absurd rfl hc
      | cons e edits => rfl
    rw [hsplit c hnone, hsplit c' (by rw [hedits]; exact hnone), hedits]
    exact ((alongside_look Message.blind_raw).bind fun bytes =>
      (alongside_look Message.blind_parsed).bind fun header => hwrite bytes header _) c c' h

/-- Where there is no place to move the message to, it stays on both disks. -/
theorem tally_nowhere {c c' : Case} (h : Beside χ names M M' state name o o' c c') {g : Text}
    (hg : g ≠ c.message.folder)
    (hno : ∀ r, c.office.disk.resolve (M.folder g).path = .ok r →
      c.office.disk.item? (r ++ [c.message.entry.state.name]) ≠ some .folder)
    (hno' : ∀ r, c'.office.disk.resolve (M'.folder g).path = .ok r →
      c'.office.disk.item? (r ++ [c.message.entry.state.name]) ≠ some .folder) :
    Tally (Beside χ names M M' state name o o')
      ((liftM (Message.moveTo (M.folder g)) : Handling Unit) c)
      ((liftM (Message.moveTo (M'.folder g)) : Handling Unit) c') := by
  obtain ⟨hdest, hdest'⟩ := h.folder_ne hg
  rw [liftM_run (Message.moveTo_nowhere h.faces.sound hdest hno),
    liftM_run (Message.moveTo_nowhere h.faces.sound' hdest' (h.state_eq ▸ hno'))]
  exact ⟨.error (.same _), h⟩

/-- Where there is one, it goes there on both disks, unless it would take the place of a folder. -/
theorem tally_there {c c' : Case} (h : Beside χ names M M' state name o o' c c') {g : Text}
    (hnamed : names g) (hg : g ≠ c.message.folder) {r₁ : Path} (hr₁ : χ.land r₁)
    (hplace : c.office.disk.resolve (M.folder g).path = .ok r₁)
    (hplace' : c'.office.disk.resolve (M'.folder g).path = .ok (χ.shift r₁))
    (hthere : c.office.disk.item? (r₁ ++ [c.message.entry.state.name]) = some .folder) :
    Tally (Beside χ names M M' state name o o')
      ((liftM (Message.moveTo (M.folder g)) : Handling Unit) c)
      ((liftM (Message.moveTo (M'.folder g)) : Handling Unit) c') := by
  obtain ⟨hdest, hdest'⟩ := h.folder_ne hg
  obtain ⟨r, f, f', hr, hstands, hstands', hcontent, hmodified⟩ := h.file
  have hstate := h.state_eq
  have hname := h.name_eq
  have hfolders := fun ns => h.faces.folders_append hr₁ ns
  have hthere' := (hfolders _).2 hthere
  by_cases hblocked : c.office.disk.item?
      (r₁ ++ [c.message.entry.state.name, c.message.entry.name]) = some .folder
  · have hblocked' := (hfolders _).2 hblocked
    rw [liftM_run (Message.moveTo_blocked h.faces.sound hstands hdest hplace hthere hblocked),
      liftM_run (Message.moveTo_blocked h.faces.sound' hstands' hdest' hplace'
        (hstate ▸ hthere') (hstate ▸ hname ▸ hblocked'))]
    exact ⟨.error (.same _), h⟩
  · have hfree' := fun hfree' => hblocked ((hfolders _).1 hfree')
    obtain ⟨hrun, helse, hmoved⟩ :=
      Message.moveTo_of_free h.faces.sound hstands hdest hplace hthere hblocked
    obtain ⟨hrun', helse', hmoved'⟩ :=
      Message.moveTo_of_free h.faces.sound' hstands' hdest' hplace' (hstate ▸ hthere')
        (hstate ▸ hname ▸ hfree')
    rw [liftM_run hrun, liftM_run hrun']
    have hP := Disk.Patched.of_elsewhere (helse.mono (List.Perm.swap _ _ []).subset) hmoved.file
      (Disk.item?_renamed_source (by simp) (by simp))
    have hP' := Disk.Patched.of_elsewhere (helse'.mono (List.Perm.swap _ _ []).subset)
      hmoved'.file (Disk.item?_renamed_source (by simp) (by simp))
    have hpatch : χ.push (.moving (r ++ [c.message.entry.state.name, c.message.entry.name])
          (r₁ ++ [c.message.entry.state.name, c.message.entry.name])
          (.file f.content f.modified)) =
        .moving (χ.shift r ++ [c'.message.entry.state.name, c'.message.entry.name])
          (χ.shift r₁ ++ [c'.message.entry.state.name, c'.message.entry.name])
          (.file f'.content f'.modified) := by
      rw [Chart.push_moving (χ.land_append _ hr) (χ.land_append _ hr₁), χ.shift_append _ hr,
        χ.shift_append _ hr₁, hstate, hname, hcontent, hmodified]
    have hmessage : ({ c'.message with
        entry := { c'.message.entry with folder := M'.folder g, known := none } } : Message) =
        ({ c.message with
          entry := { c.message.entry with folder := M.folder g, known := none } } :
            Message).within M' := by
      rw [h.twin]
      rfl
    rw [hmessage]
    refine ⟨.ok (), h.change hP (hpatch ▸ hP') ?_ hnamed rfl h.ofState h.ofName
      ⟨r₁, f, f', hr₁, hmoved, ?_, hcontent, hmodified⟩⟩
    · rw [h.ofState, h.ofName]
      exact Deed.concerns_moving hr hr₁ (Or.inl rfl)
    · rw [← hmessage]
      exact hmoved'

theorem alongside_moveTo {g : Text} (hnamed : names g) :
    Alongside (Beside χ names M M' state name o o')
      (liftM (Message.moveTo (M.folder g)) : Handling Unit)
      (liftM (Message.moveTo (M'.folder g))) := by
  intro c c' h
  by_cases hg : g = c.message.folder
  · have hdest : M.folder g = c.message.entry.folder := by rw [hg, ← h.folder]
    have hdest' : M'.folder g = c'.message.entry.folder := by rw [hg, h.folder_eq]
    rw [liftM_run (Message.moveTo_same hdest), liftM_run (Message.moveTo_same hdest')]
    exact ⟨.ok (), h⟩
  rcases h.faces.places g hnamed with ⟨r₁, hr₁, hplace, hplace'⟩ | ⟨hno, hno'⟩
  · by_cases hthere : c.office.disk.item? (r₁ ++ [c.message.entry.state.name]) = some .folder
    · exact tally_there h hnamed hg hr₁ hplace hplace' hthere
    · refine tally_nowhere h hg (fun r hr => ?_) fun r hr => ?_
      · obtain rfl := Except.ok.inj (hr.symm.trans hplace)
        exact hthere
      · obtain rfl := Except.ok.inj (hr.symm.trans hplace')
        exact fun hthere' => hthere ((h.faces.folders_append hr₁ _).1 hthere')
  · exact tally_nowhere h hg (fun r hr => absurd hr (hno r)) fun r hr => absurd hr (hno' r)

end Steps

/-! ## Rules -/

namespace Clerk

/-- The clerk of another maildir. -/
def within (k : Clerk) (M' : Maildir) : Clerk := { k with maildir := M' }

variable {k : Clerk} {χ : Chart} {names : Text → Prop} {M' : Maildir} {state : ReadState}
  {name : Text} {o o' : Office}

theorem alongside_addLabels {M : Maildir} (labels : List Text) :
    Alongside (Beside χ names M M' state name o o') (addLabels labels) (addLabels labels) :=
  Alongside.ite Iff.rfl (fun _ => Alongside.pure ()) fun _ =>
    (alongside_look (Message.blind_changeKeywords _)).discard.bind fun _ => alongside_record _

theorem alongside_removeLabels {M : Maildir} (labels : List Text) :
    Alongside (Beside χ names M M' state name o o') (removeLabels labels) (removeLabels labels) :=
  Alongside.ite Iff.rfl (fun _ => Alongside.pure ()) fun _ =>
    (alongside_look (Message.blind_changeKeywords _)).discard.bind fun _ => alongside_record _

theorem alongside_forward {M : Maildir} {f : Forwarder}
    (hpost : f.post.AnswersAlike M M' state name o o') (destinations : List Mailbox) (now : Time) :
    Alongside (Beside χ names M M' state name o o') (f.forward destinations now)
      (f.forward destinations now) := by
  refine (alongside_look (blind_pending destinations)).bind fun recipients => ?_
  refine Alongside.ite Iff.rfl (fun _ => Alongside.pure _) fun _ => ?_
  refine (alongside_look (blind_copy _ _ _ _)).bind fun copy => ?_
  refine (alongside_submit hpost _).bind fun _ => ?_
  refine (alongside_look blind_forwarded).bind fun done => ?_
  exact (alongside_setField _ _).bind fun _ => Alongside.pure _

variable (hpost : ∀ f, k.forwarder = some f → f.post.AnswersAlike k.maildir M' state name o o')

include hpost

theorem alongside_passOn (destinations : List Mailbox) :
    Alongside (Beside χ names k.maildir M' state name o o') (k.passOn destinations)
      ((k.within M').passOn destinations) := by
  refine Alongside.ite Iff.rfl (fun _ => Alongside.pure ()) fun _ => ?_
  have hforwarder : (k.within M').forwarder = k.forwarder := rfl
  have hdry : (k.within M').dryRun = k.dryRun := rfl
  have hnow : (k.within M').now = k.now := rfl
  rw [hforwarder, hdry, hnow]
  cases hf : k.forwarder with
  | none => exact alongside_record _
  | some f =>
    refine Alongside.ite Iff.rfl (fun _ => ?_) fun _ => ?_
    · refine (alongside_look (blind_pending destinations)).bind fun pending => ?_
      exact Alongside.ite Iff.rfl (fun _ => alongside_record _) fun _ => Alongside.pure ()
    · refine Alongside.bind (Alongside.tryCatch ?_ fun _ _ _ => Alongside.pure none) fun outcome => ?_
      · exact (alongside_forward (hpost f hf) destinations k.now).map some
      · split
        · exact alongside_record _
        · exact Alongside.pure ()

/-- A rule does the same to the same message on both disks. -/
theorem alongside_apply {r : Rule} (hmove : ∀ g, r.moveTo = some g → names g) :
    Alongside (Beside χ names k.maildir M' state name o o') (k.apply r) ((k.within M').apply r) := by
  refine (alongside_addLabels r.label).bind fun _ => ?_
  refine (alongside_removeLabels r.clear).bind fun _ => ?_
  refine (alongside_passOn hpost r.forward).bind fun _ => ?_
  refine Alongside.bind (Alongside.ite Iff.rfl (fun _ => alongside_save.discard)
    fun _ => Alongside.pure ()) fun _ => ?_
  unfold Clerk.move
  cases htarget : r.moveTo with
  | none => exact Alongside.pure ()
  | some g =>
    exact Alongside.ite Iff.rfl
      (fun _ => (alongside_moveTo (hmove g htarget)).bind fun _ => alongside_record _)
      fun _ => alongside_record _

end Clerk

end Mailroom
