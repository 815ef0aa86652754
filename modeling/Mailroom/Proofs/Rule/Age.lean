import Mailroom.Proofs.Maildir.Listing
import Mailroom.Proofs.Rule
import Mailroom.Proofs.Rulebook
import Mailroom.Proofs.Verdict.Meaning

/-!
# How old a message has to be

A rule asks for the age of a message by a time that the message has to be older than.  This time
is told by counting days back, in numbers of 64 bits and between the first time that exists and
the last one, where it can be told at all.

* `Date.spanOfDays?_bind_before?` says that nothing is lost in this way: a time that exists is
  always reached.
* `Rule.ageDays?` is the number of days, if a rule asks for any.
* `Rule.IsCompiled.screens_by_age` says that a message passes if it is older than these days,
  counted without any bound.
-/

namespace Mailroom

namespace Date

/-! ## Counting back -/

section Counting

variable {t now n : Int}

theorem inRange_iff : inRange t = true ↔ minTime ≤ t ∧ t ≤ maxTime := by simp [inRange]

/-- The times that exist are those of the years from -262143 to 262142. -/
theorem inRange_iff_years : inRange t = true ↔
    daysOfCivil (-262143) 1 1 * daySeconds ≤ t ∧ t < daysOfCivil 262143 1 1 * daySeconds := by
  have hfirst : daysOfCivil (-262143) 1 1 * daySeconds = minTime := by decide
  have hlast : daysOfCivil 262143 1 1 * daySeconds = maxTime + 1 := by decide
  rw [inRange_iff, hfirst, hlast, Int.lt_add_one_iff]

/-- From one time that exists to another one there is a span. -/
theorem spanOfDays?_of_inRange (hnow : inRange now = true)
    (ht : inRange (now - n * daySeconds) = true) : spanOfDays? n = some (n * daySeconds) := by
  have hfrom : (-8334601228800 : Int) ≤ now ∧ now ≤ 8210266876799 := inRange_iff.1 hnow
  have hto : (-8334601228800 : Int) ≤ now - n * 86400 ∧ now - n * 86400 ≤ 8210266876799 :=
    inRange_iff.1 ht
  have hfits : -greatestInt64 - 1 ≤ n * daySeconds ∧ n * daySeconds ≤ greatestInt64 := by
    simp only [greatestInt64, daySeconds]
    omega
  have hspan : -longestSpan ≤ n * daySeconds ∧ n * daySeconds ≤ longestSpan := by
    simp only [longestSpan, greatestInt64, daySeconds]
    omega
  simp [spanOfDays?, hfits, hspan]

theorem eq_of_spanOfDays? {span : Int} (h : spanOfDays? n = some span) :
    span = n * daySeconds := by
  simp only [spanOfDays?] at h
  split at h
  · split at h
    · exact (Option.some.inj h).symm
    · simp at h
  · simp at h

/-- Counting days back gives the time that there is without any bound, if it exists, and nothing
otherwise. -/
theorem spanOfDays?_bind_before? (hnow : inRange now = true) (n : Int) :
    (spanOfDays? n).bind (before? now) =
      if inRange (now - n * daySeconds) then some (now - n * daySeconds) else none := by
  by_cases ht : inRange (now - n * daySeconds) = true
  · simp [spanOfDays?_of_inRange hnow ht, before?, ht]
  · cases hspan : spanOfDays? n with
    | none => simp [ht]
    | some span => simp [eq_of_spanOfDays? hspan, before?, ht]

end Counting

end Date

/-! ## The days that a rule asks for -/

namespace Rule

/-- Whether a rule throws messages away. -/
def throwsAway (r : Rule) : Bool :=
  r.label.contains "\\Trash" || r.moveTo == some ("gmail.Trash" : Text)

/-- The days that a message has to be old: those that the rule gives, if not none, and ninety for
a message that is thrown away. -/
def ageDays? (r : Rule) : Option Int :=
  match r.criteria.days.filter (· != 0) with
  | some n => some n
  | none => if r.throwsAway then some 90 else none

/-- The time that a message has to be older than, so many days before another one.  If this time
is still to come or does not exist, it is the least one, that no message is older than. -/
def deadline (now n : Int) : Int :=
  if 0 < n ∧ Date.minTime ≤ now - 86400 * n then now - 86400 * n else Date.minTime

variable {r : Rule} {now : Int}

theorem ageDays?_ne_zero {n : Int} (h : r.ageDays? = some n) : n ≠ 0 := by
  unfold ageDays? at h
  split at h
  · rename_i days hdays
    obtain rfl := Option.some.inj h
    simpa using (Option.filter_eq_some_iff.1 hdays).2
  · split at h
    · obtain rfl := Option.some.inj h
      decide
    · simp at h

theorem needsOkayDate_eq (r : Rule) : r.needsOkayDate = r.ageDays?.isSome := by
  have hneeds : r.needsOkayDate = ((r.criteria.days.filter (· != 0)).isSome || r.throwsAway) :=
    Bool.or_assoc _ _ _
  rw [hneeds, ageDays?]
  cases r.criteria.days.filter (· != 0) with
  | some n => rfl
  | none => cases r.throwsAway <;> rfl

theorem okayDateAt_eq {n : Int} (hdays : r.ageDays? = some n) (hnow : Date.inRange now = true) :
    r.okayDateAt now = if Date.inRange (now - n * Date.daySeconds) then now - n * Date.daySeconds
      else Date.minTime := by
  have hn : (r.criteria.days.filter (· != 0)).getD defaultTrashDays = n := by
    unfold ageDays? at hdays
    cases hfilter : r.criteria.days.filter (· != 0) with
    | some days => simpa [hfilter] using hdays
    | none =>
      rw [hfilter] at hdays
      dsimp only at hdays
      split at hdays
      · exact Option.some.inj hdays
      · simp at hdays
  rw [okayDateAt, hn, Date.spanOfDays?_bind_before? hnow]
  split <;> rfl

/-- A time that is reached by counting back is kept if it is over. -/
theorem deadline_eq {n : Int} (hn : n ≠ 0) (hnow : Date.inRange now = true) :
    (let okay := if Date.inRange (now - n * Date.daySeconds) then now - n * Date.daySeconds
      else Date.minTime
    if now < okay then Date.minTime else okay) = deadline now n := by
  have hday : now - n * Date.daySeconds = now - 86400 * n := by
    rw [Date.daySeconds, Int.mul_comm]
  obtain ⟨hmin, hmax⟩ := Date.inRange_iff.1 hnow
  rw [hday]
  by_cases hpast : 0 < n
  · -- counted back into the past, the time exists if it is not before the first one
    have hlt : now - 86400 * n < now := by omega
    by_cases hfirst : Date.minTime ≤ now - 86400 * n
    · have ht := Date.inRange_iff.2 ⟨hfirst, Int.le_trans (Int.le_of_lt hlt) hmax⟩
      simp [deadline, hpast, hfirst, ht, Int.not_lt.2 (Int.le_of_lt hlt)]
    · have ht : Date.inRange (now - 86400 * n) = false :=
        Bool.eq_false_iff.2 fun ht => hfirst (Date.inRange_iff.1 ht).1
      simp [deadline, hfirst, ht]
  · have hlt : now < now - 86400 * n := by omega
    by_cases ht : Date.inRange (now - 86400 * n) = true
    · simp [deadline, hpast, ht, hlt]
    · simp [deadline, hpast, ht]

/-- The time that a rule is stamped with. -/
theorem stamped_okayDate (hr : r.okayDate = none) (hnow : Date.inRange now = true) :
    (r.stamped now).okayDate = r.ageDays?.map (deadline now) := by
  unfold stamped
  rw [needsOkayDate_eq]
  cases hdays : r.ageDays? with
  | none => simpa using hr
  | some n =>
    simp only [Option.isSome_some, if_true, Option.map_some, Option.some.injEq]
    rw [okayDateAt_eq hdays hnow]
    exact deadline_eq (ageDays?_ne_zero hdays) hnow

theorem inRange_deadline (hnow : Date.inRange now = true) (n : Int) :
    Date.inRange (deadline now n) = true ∧ deadline now n ≤ now := by
  obtain ⟨hmin, hmax⟩ := Date.inRange_iff.1 hnow
  unfold deadline
  split
  · rename_i h
    have hle : now - 86400 * n ≤ now := by omega
    exact ⟨Date.inRange_iff.2 ⟨h.2, Int.le_trans hle hmax⟩, hle⟩
  · exact ⟨by decide, hmin⟩

/-- A time that exists is before the deadline of some days if it lies more than these days back,
and never before that of no days or fewer. -/
theorem lt_deadline_iff {t : Int} (ht : Date.inRange t = true) (n : Int) :
    t < deadline now n ↔ 0 < n ∧ t + 86400 * n < now := by
  obtain ⟨hmin, -⟩ := Date.inRange_iff.1 ht
  unfold deadline
  split
  · rename_i h
    constructor
    · exact fun hlt => ⟨h.1, by omega⟩
    · rintro ⟨-, hlt⟩
      omega
  · rename_i h
    constructor
    · exact fun hlt => absurd hlt (Int.not_lt.2 hmin)
    · rintro ⟨hn, hlt⟩
      exact absurd ⟨hn, Int.le_trans hmin (by omega)⟩ h

end Rule

/-! ## The age of a message -/

section Message

variable {d : Disk} {m : Message} {t : Time}

/-- The date of a message is that of its first `Date` field, if it can be read and exists. -/
theorem Message.date_eq_ok : (date d m).1 = .ok t ↔ ∃ value rest,
    (fieldValues "Date" d m).1 = .ok (value :: rest) ∧ Date.parse value = .ok t ∧
      Date.inRange t = true := by
  rw [(reads_date d m).1, (reads_fieldValues "Date" d m).1]
  exact Sight.date_eq_ok

/-- A message passes the test of its age if its date exists and is before the time of the rule. -/
theorem Rule.holds_age {r : Rule} {okay : Time} (hokay : r.okayDate = some okay) :
    (r.holds .age d m).1 = .ok true ↔ ∃ t, (Message.date d m).1 = .ok t ∧ t < okay := by
  have hasks : r.asks .age = true := by simp [Rule.asks, hokay]
  rw [(reads_test r .age d m).1, ← Rule.meets_iff hasks]
  simp [Rule.Meets, hokay, Reading.Finds]

/-- A rule that is written asks for the age of a message if it gives a number of days or throws
messages away, and so does what goes with it.  The time that it is stamped with exists and is not
still to come.  No message passes if the days are fewer than none; otherwise those pass that are
older than these days, counted without any bound. -/
theorem Rule.IsCompiled.screens_by_age {r : Rule} (hr : r.IsCompiled) {now : Int}
    (hnow : Date.inRange now = true) {used : Rule}
    (hused : used = r.stamped now ∨ (r.stamped now).companion? = some used) :
    (used.asks .age = false ↔ r.ageDays? = none) ∧
      (∀ okay, used.okayDate = some okay → Date.inRange okay = true ∧ okay ≤ now) ∧
      ∀ n, r.ageDays? = some n → ∀ (d : Disk) (m : Message),
        (n < 0 → (used.holds .age d m).1 ≠ .ok true) ∧
        (0 < n → ((used.holds .age d m).1 = .ok true ↔ ∃ (value : Text) (rest : List Text)
          (t : Int), (Message.fieldValues "Date" d m).1 = .ok (value :: rest) ∧
            Date.parse value = .ok t ∧ Date.inRange t = true ∧ t + 86400 * n < now)) := by
  have hokay : used.okayDate = r.ageDays?.map (deadline now) := by
    rw [← stamped_okayDate hr.okayDate hnow]
    rcases hused with rfl | hcompanion
    · rfl
    · obtain ⟨source, target, -, -, -, rfl⟩ := exists_of_companion? hcompanion
      rfl
  refine ⟨?_, fun okay h => ?_, fun n hn d m => ?_⟩
  · rw [Rule.asks, hokay]
    cases r.ageDays? <;> simp
  · rw [hokay] at h
    obtain ⟨n, -, rfl⟩ := Option.map_eq_some_iff.1 h
    exact inRange_deadline hnow n
  · rw [hn] at hokay
    have hpass : (used.holds .age d m).1 = .ok true ↔ ∃ (value : Text) (rest : List Text) (t : Int),
        (Message.fieldValues "Date" d m).1 = .ok (value :: rest) ∧ Date.parse value = .ok t ∧
          Date.inRange t = true ∧ 0 < n ∧ t + 86400 * n < now := by
      rw [Rule.holds_age hokay]
      constructor
      · rintro ⟨t, hdate, hlt⟩
        obtain ⟨value, rest, hvalues, hparse, ht⟩ := Message.date_eq_ok.1 hdate
        exact ⟨value, rest, t, hvalues, hparse, ht, (lt_deadline_iff ht n).1 hlt⟩
      · rintro ⟨value, rest, t, hvalues, hparse, ht, hlt⟩
        exact ⟨t, Message.date_eq_ok.2 ⟨value, rest, hvalues, hparse, ht⟩,
          (lt_deadline_iff ht n).2 hlt⟩
    refine ⟨fun hneg h => ?_, fun hpos => ?_⟩
    · obtain ⟨-, -, -, -, -, -, hpos, -⟩ := hpass.1 h
      omega
    · simpa only [hpos, true_and] using hpass

end Message

/-! ### A rule that throws old messages away -/

/-- A rule, as it is written, that throws messages of a subject away. -/
def discardingRaw : RawRule where
  criteria := { Criteria.none with operand := fun t => if t = .subject then some "s" else none }
  clear := []
  label := []
  moveTo := some "\\Trash"
  forward := []

/-- A message of the first day of 1970. -/
def firstDay : Message :=
  (Message.ofEntry (sampleSlot.entry [])).setField "Date" "Thu, 1 Jan 1970 08:00:00 +0000"

theorem discarding_screens_by_age : ∃ r, discardingRaw.compile 0 = .ok (some r) ∧
    r.ageDays? = some 90 ∧ Date.inRange 7805000 = true ∧
    (((r.stamped 7805000).holds .age sampleDisk firstDay).1 = .ok true ↔
      ∃ (value : Text) (rest : List Text) (t : Int),
        (Message.fieldValues "Date" sampleDisk firstDay).1 = .ok (value :: rest) ∧
          Date.parse value = .ok t ∧ Date.inRange t = true ∧ t + 86400 * 90 < 7805000) ∧
    ((r.stamped 7805000).holds .age sampleDisk firstDay).1 = .ok true := by
  have hnow : Date.inRange 7805000 = true := by decide
  refine ⟨_, rfl, rfl, hnow, ?_⟩
  have hscreen := ((Rule.IsCompiled.screens_by_age ⟨discardingRaw, 0, rfl⟩ hnow
    (.inl rfl)).2.2 90 rfl sampleDisk firstDay).2 (by decide)
  exact ⟨hscreen, hscreen.2 ⟨"Thu, 1 Jan 1970 08:00:00 +0000", [], 28800, rfl, rfl, by decide,
    by decide⟩⟩

end Mailroom
