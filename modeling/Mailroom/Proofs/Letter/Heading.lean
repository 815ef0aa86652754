import Mailroom.Proofs.Forwarding
import Mailroom.Proofs.Letter.Lines
import Mailroom.Proofs.Maildir.Listing

/-!
# The heading of a letter

The heading of a letter are its lines up to the first empty one.  It consists of the eight fields
of the letter, one a line, unless the subject has an end of line that is written as it is.

* `Copy.fields` are the fields.
* `Copy.takeWhile_lines_render` says what the heading is when every field is on one line.
* `Copy.heading_iff` says when that is so.
-/

namespace Mailroom

/-! ## Fields -/

/-- A field as a line. -/
def fieldLine (f : Text × Text) : Text := f.1 ++ ": " ++ f.2

/-- The fields of a letter. -/
def Copy.fields (c : Copy) : List (Text × Text) :=
  [("Date", Date.render c.time), ("From", c.sender.render),
    ("To", Mailbox.renderList c.destinations),
    ("X-Forwarded-To", Mailbox.renderList c.destinations),
    ("X-Forwarded-For", c.sender.render),
    ("Subject", encodedValue ("Fwd: " ++ c.subject)), ("MIME-Version", "1.0"),
    ("Content-Type", "multipart/mixed; boundary=\"" ++ c.boundary ++ "\"")]

theorem Copy.header_eq (c : Copy) : c.header = (c.fields.map fieldLine).flatMap (· ++ crlf) := by
  simp [Copy.header, Copy.fields, fieldLine, writtenLine]

/-! ## Values without a line feed -/

theorem lineFeed_not_mem_ofNat (n : Nat) : '\n' ∉ Text.ofNat n := by
  intro h
  have hdigit := Nat.isDigit_of_mem_toDigits (by decide) (by decide) h
  exact absurd hdigit (by decide)

theorem lineFeed_not_mem_ofNatPadded (width n : Nat) : '\n' ∉ Text.ofNatPadded width n := by
  intro h
  rcases List.mem_append.1 h with h | h
  · exact absurd (List.eq_of_mem_replicate h) (by decide)
  · exact lineFeed_not_mem_ofNat n h

theorem lineFeed_not_mem_getD {ts : List Text} (h : ∀ t ∈ ts, '\n' ∉ t) (i : Nat) :
    '\n' ∉ ts.getD i [] := by
  rw [List.getD_eq_getElem?_getD]
  cases hi : ts[i]? with
  | none => exact List.not_mem_nil
  | some t => exact h t (List.mem_of_getElem? hi)

theorem lineFeed_not_mem_monthName (month : Nat) : '\n' ∉ Date.monthName month := by
  by_cases hmonth : month < 13
  · have hnames : ∀ n < 13, '\n' ∉ Date.monthName n := by decide +kernel
    exact hnames month hmonth
  · have hlength : Date.months.length ≤ month - 1 := by
      rw [show Date.months.length = 12 from rfl]
      omega
    rw [Date.monthName, List.getD_eq_getElem?_getD, List.getElem?_eq_none hlength]
    exact List.not_mem_nil

/-- A date is written on one line. -/
theorem lineFeed_not_mem_date (t : Time) : '\n' ∉ Date.render t := by
  have hdays : ∀ day ∈ Date.weekdays, '\n' ∉ day := by decide
  have hday := lineFeed_not_mem_getD hdays
  simp only [Date.render, List.mem_append, not_or]
  have hmonth := lineFeed_not_mem_monthName
  have hnumber := lineFeed_not_mem_ofNat
  have hpadded := lineFeed_not_mem_ofNatPadded
  simp only [hday, hmonth, hnumber, hpadded, not_false_eq_true, true_and, and_true]
  decide

theorem mem_numeral {width n : Nat} {x : Char} (h : x ∈ Boundary.numeral width n) :
    x ∈ Boundary.digits := by
  induction width generalizing n with
  | zero => exact absurd h List.not_mem_nil
  | succ width ih =>
    rcases List.mem_cons.1 h with rfl | h
    · rw [List.getD_eq_getElem?_getD]
      cases hi : Boundary.digits[n % Boundary.digits.length]? with
      | none => decide
      | some x => exact List.mem_of_getElem? hi
    · exact ih h

/-- A boundary was suggested, or it is a numeral. -/
theorem mem_pick {suggestions : List Text} (h : ∀ s ∈ suggestions, ∀ x ∈ s, x ∈ Boundary.digits)
    (raw : Bytes) {x : Char} (hx : x ∈ Boundary.pick suggestions raw) : x ∈ Boundary.digits := by
  have hcount : ∀ more n, x ∈ Boundary.count raw more n → x ∈ Boundary.digits := by
    intro more
    induction more with
    | zero => exact fun n => mem_numeral
    | succ more ih =>
      intro n hn
      rw [Boundary.count] at hn
      split at hn
      · exact mem_numeral hn
      · exact ih (n + 1) hn
  rw [Boundary.pick] at hx
  cases hfind : suggestions.find? (Boundary.isFree raw) with
  | none =>
    rw [hfind] at hx
    exact hcount _ _ hx
  | some s =>
    rw [hfind] at hx
    exact h s (List.mem_of_find?_eq_some hfind) x hx

/-- A subject is written on one line if it is encoded, or else if it is on one line. -/
theorem lineFeed_mem_encodedValue (t : Text) :
    '\n' ∈ encodedValue t ↔ Text.isAscii t = true ∧ '\n' ∈ t := by
  unfold encodedValue
  split
  · rename_i hascii
    simp [hascii]
  · rename_i hascii
    refine iff_of_false ?_ fun h => hascii h.1
    simp only [List.mem_append, not_or]
    exact ⟨⟨by decide, fun h => (Base64.plain_of_mem_encode h).2.2 rfl⟩, by decide⟩

theorem lineFeed_mem_subject (subject : Text) : '\n' ∈ encodedValue ("Fwd: " ++ subject) ↔
    Text.isAscii subject = true ∧ '\n' ∈ subject := by
  rw [lineFeed_mem_encodedValue]
  have hascii : Text.isAscii ("Fwd: " ++ subject) = Text.isAscii subject := by
    rw [Text.isAscii, List.all_append]
    rfl
  rw [hascii, List.mem_append, or_iff_right (by decide)]

/-! ## The heading -/

namespace Copy

variable {c : Copy}

/-- What is needed for every field to be on one line. -/
theorem lineFeed_not_mem_fields (hsender : '\n' ∉ c.sender.render)
    (hdestinations : '\n' ∉ Mailbox.renderList c.destinations)
    (hsubject : '\n' ∉ encodedValue ("Fwd: " ++ c.subject)) (hboundary : '\n' ∉ c.boundary) :
    ∀ f ∈ c.fields, '\n' ∉ fieldLine f := by
  intro f hf
  simp only [fields, List.mem_cons, List.not_mem_nil, or_false] at hf
  rcases hf with rfl | rfl | rfl | rfl | rfl | rfl | rfl | rfl <;>
    simp only [fieldLine, List.mem_append, not_or]
  · exact ⟨by decide, lineFeed_not_mem_date c.time⟩
  · exact ⟨by decide, hsender⟩
  · exact ⟨by decide, hdestinations⟩
  · exact ⟨by decide, hdestinations⟩
  · exact ⟨by decide, hsender⟩
  · exact ⟨by decide, hsubject⟩
  · decide
  · exact ⟨by decide, ⟨by decide, hboundary⟩, by decide⟩

/-- If every field is on one line, the heading is the fields. -/
theorem takeWhile_lines_render (h : ∀ f ∈ c.fields, '\n' ∉ fieldLine f) :
    (Text.lines c.render).takeWhile (fun l => !l.isEmpty) = c.fields.map fieldLine := by
  have hlines : ∀ t ∈ c.fields.map fieldLine, '\n' ∉ t := by
    intro t ht
    obtain ⟨f, hf, rfl⟩ := List.mem_map.1 ht
    exact h f hf
  have hnonempty : ∀ t ∈ c.fields.map fieldLine, (!t.isEmpty) = true := by
    intro t ht
    obtain ⟨f, -, rfl⟩ := List.mem_map.1 ht
    simp [fieldLine]
  obtain ⟨rest, hrest⟩ : ∃ rest, c.render =
      (c.fields.map fieldLine).flatMap (· ++ crlf) ++ ([] ++ crlf ++ rest) := by
    refine ⟨c.enclosures.flatMap (fun e => ("--" : Text) ++ c.boundary ++ crlf ++ e.render) ++
      "--" ++ c.boundary ++ "--" ++ crlf, ?_⟩
    rw [render, header_eq]
    simp only [List.append_assoc, List.nil_append]
  rw [hrest, Text.lines_flatMap_crlf_append hlines, Text.lines_append_crlf List.not_mem_nil,
    List.takeWhile_append_of_pos hnonempty]
  simp

variable {d : Disk} {m m' : Message} {sender : Mailbox} {destinations : List Mailbox} {time : Time}
  {suggestions : List Text}

/-- What a letter about the message at hand is made of. -/
theorem exists_of_ofMessage
    (h : Copy.ofMessage sender destinations time suggestions d m = (.ok c, m')) :
    ∃ raw part citation enclosures, (m.sight d).content = .ok raw ∧ Part.read raw = .ok part ∧
      (m.sight d).citation = .ok citation ∧
      Enclosure.ofLeaves citation ⟨false, false⟩ part.leaves = .ok enclosures ∧
      c = ⟨sender, destinations, time, citation.subject, Boundary.pick suggestions raw,
        enclosures⟩ := by
  have hvalue := (reads_copy sender destinations time suggestions d m).1
  rw [h] at hvalue
  obtain ⟨x, hx, hc⟩ := exists_of_bind_ok hvalue.symm
  obtain ⟨raw, hraw, hx⟩ := exists_of_bind_ok hx
  obtain ⟨part, hpart, hx⟩ := exists_of_bind_ok hx
  obtain ⟨citation, hcitation, hx⟩ := exists_of_bind_ok hx
  obtain ⟨enclosures, henclosures, hx⟩ := exists_of_bind_ok hx
  obtain rfl := Except.ok.inj hx
  refine ⟨raw, part, citation, enclosures, hraw, ?_, hcitation, henclosures,
    (Except.ok.inj hc).symm⟩
  cases hread : Part.read raw with
  | error f =>
    rw [hread] at hpart
    exact nomatch hpart
  | ok part' =>
    rw [hread] at hpart
    rw [Except.ok.inj hpart]

theorem subject_of_citation {v : Sight} {citation : Citation} (h : v.citation = .ok citation) :
    v.subject = .ok citation.subject := by
  obtain ⟨dates, -, h⟩ := exists_of_bind_ok h
  obtain ⟨subject, hsubject, h⟩ := exists_of_bind_ok h
  rw [hsubject, ← Except.ok.inj h]

/-- The heading of a letter consists of its eight fields, if the renderings of the sender and of
the recipients have no line feed, and if the subject of the message has none or has to be encoded:
this is what is needed, and nothing else that the message says can change the heading. -/
theorem heading_iff
    (hcopy : Copy.ofMessage sender destinations time suggestions d m = (.ok c, m'))
    (hsender : '\n' ∉ sender.render) (hdestinations : '\n' ∉ Mailbox.renderList destinations)
    (hsuggestions : ∀ s ∈ suggestions, ∀ x ∈ s, x ∈ Boundary.digits) :
    ∃ subject, (Message.subject d m).1 = .ok subject ∧
      ((Text.lines c.render).takeWhile (fun l => !l.isEmpty) =
          ["Date: " ++ Date.render time, "From: " ++ sender.render,
            "To: " ++ Mailbox.renderList destinations,
            "X-Forwarded-To: " ++ Mailbox.renderList destinations,
            "X-Forwarded-For: " ++ sender.render,
            "Subject: " ++ encodedValue ("Fwd: " ++ subject), "MIME-Version: 1.0",
            "Content-Type: multipart/mixed; boundary=\"" ++ c.boundary ++ "\""] ↔
        Text.isAscii subject = false ∨ '\n' ∉ subject) := by
  obtain ⟨raw, part, citation, enclosures, -, -, hcitation, -, rfl⟩ := exists_of_ofMessage hcopy
  refine ⟨citation.subject, ((Message.reads_subject d m).1).trans (subject_of_citation hcitation),
    ?_⟩
  have hwanted : '\n' ∉ encodedValue ("Fwd: " ++ citation.subject) ↔
      Text.isAscii citation.subject = false ∨ '\n' ∉ citation.subject := by
    rw [lineFeed_mem_subject, not_and_or, Bool.not_eq_true]
  rw [← hwanted]
  constructor
  · -- no line holds a line feed
    intro hheading hmem
    have hline : "Subject: ".toList ++ encodedValue ("Fwd: " ++ citation.subject) ∈
        Text.lines (Copy.render ⟨sender, destinations, time, citation.subject,
          Boundary.pick suggestions raw, enclosures⟩) := by
      refine (List.takeWhile_sublist fun l => !l.isEmpty).mem ?_
      rw [hheading]
      simp
    exact Text.not_mem_of_mem_lines hline (List.mem_append_right _ hmem)
  · intro hsubject
    have hboundary : '\n' ∉ Boundary.pick suggestions raw :=
      fun h => absurd (mem_pick hsuggestions raw h) (by decide)
    exact takeWhile_lines_render
      (lineFeed_not_mem_fields hsender hdestinations hsubject hboundary)

end Copy

/-! ### A subject of two lines -/

/-- A message with a line feed in the encoded word that is its subject. -/
def noteLetter : Bytes := Utf8.encode
  "From: boss@corp.com\nSubject: =?utf-8?B?cwpCY2M6IGV2ZXJ5Ym9keUBjb3JwLmNvbQ==?=\n\nbody\n"

/-- The message at hand; its file was read. -/
def noteMessage : Message :=
  { Message.ofEntry (sampleSlot.entry []) with content := some noteLetter }

/-- Who passes it on. -/
def robot : Mailbox := ⟨none, "robot@home.com"⟩

/-- To whom. -/
def home : Mailbox := ⟨none, "me@home.com"⟩

/-- The second line of the subject is a line of the heading, and the heading has more than the
eight fields. -/
theorem note_heading : ∃ c m',
    Copy.ofMessage robot [home] 0 [] (Disk.empty 0) noteMessage = (.ok c, m') ∧
      (Text.lines c.render).takeWhile (fun l => !l.isEmpty) ≠
        ["Date: " ++ Date.render 0, "From: " ++ robot.render,
          "To: " ++ Mailbox.renderList [home], "X-Forwarded-To: " ++ Mailbox.renderList [home],
          "X-Forwarded-For: " ++ robot.render,
          "Subject: " ++ encodedValue "Fwd: s\nBcc: everybody@corp.com", "MIME-Version: 1.0",
          "Content-Type: multipart/mixed; boundary=\"" ++ c.boundary ++ "\""] := by
  have haccepted : (Copy.ofMessage robot [home] 0 [] (Disk.empty 0) noteMessage).1.toBool = true := by
    decide +kernel
  cases hcopy : Copy.ofMessage robot [home] 0 [] (Disk.empty 0) noteMessage with
  | mk result m' =>
    rw [hcopy] at haccepted
    cases result with
    | error e => exact nomatch haccepted
    | ok c =>
      obtain ⟨subject, hsubject, hheading⟩ :=
        Copy.heading_iff hcopy (by decide) (by decide) (by simp)
      have htext : (Message.subject (Disk.empty 0) noteMessage).1 =
          .ok "s\nBcc: everybody@corp.com".toList := by decide +kernel
      obtain rfl := Except.ok.inj (hsubject.symm.trans htext)
      refine ⟨c, m', rfl, fun h => ?_⟩
      rcases hheading.1 h with hencoded | hplain
      · exact absurd hencoded (by decide)
      · exact hplain (by decide)

end Mailroom
