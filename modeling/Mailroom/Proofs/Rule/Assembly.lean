import Mailroom.Proofs.Rule
import Mailroom.Proofs.Rulebook.Grouping
import Mailroom.Rule.Source

/-!
# The rules of an environment

Rules are compiled as a whole.  One address list that nothing can be forwarded to is enough for
there to be no rules at all, even if its rule does nothing else; otherwise the rules are those that
do something, each with its place among all as its number.

* `IsDestination` says what can be forwarded to, `RawRule.acts` which rules do something, and
  `activeRules` which rules are asked at all.
* `RawRule.compile_of_isForwardable` and `RawRule.compile_of_not_isForwardable` are for one rule,
  `compileFrom_eq` and `compileFrom_eq_error` for a list of them.
* `compileSources_assembles` is the result for two texts.
-/

namespace Mailroom

/-! ## Destinations -/

/-- Whether an address has something on both sides of its first `@`. -/
def Mailbox.IsWhole (m : Mailbox) : Prop :=
  ∃ user host, m.email = user ++ '@' :: host ∧ '@' ∉ user ∧ user ≠ [] ∧ host ≠ []

theorem Text.cut_append {c : Char} {t : Text} (h : c ∉ t) (u : Text) :
    Text.cut c (t ++ c :: u) = some (t, u) := by
  induction t with
  | nil => simp [Text.cut]
  | cons x t ih =>
    rw [List.mem_cons, not_or] at h
    rw [List.cons_append, Text.cut, if_neg (Ne.symm h.1), ih h.2]
    rfl

theorem Mailbox.isComplete_iff {m : Mailbox} : m.isComplete = true ↔ m.IsWhole := by
  constructor
  · intro h
    unfold isComplete at h
    split at h
    · rename_i user host hcut
      obtain ⟨hemail, huser⟩ := Text.cut_eq_some hcut
      simp only [Bool.and_eq_true, Bool.not_eq_true', List.isEmpty_eq_false_iff] at h
      exact ⟨user, host, hemail, huser, h⟩
    · exact nomatch h
  · rintro ⟨user, host, hemail, huser, hne, hne'⟩
    simp [isComplete, hemail, Text.cut_append huser, hne, hne']

/-- Whether a text is a list of addresses that can be forwarded to. -/
def IsDestination (t : Text) : Prop :=
  ∃ ms, Mailbox.parseList t = .ok ms ∧ ms ≠ [] ∧ ∀ m ∈ ms, m.IsWhole

/-- The mailboxes in a text; none if it cannot be read. -/
def mailboxesIn (t : Text) : List Mailbox := (Mailbox.parseList t).toOption.getD []

theorem readDestinations_of_isDestination {t : Text} (h : IsDestination t) :
    readDestinations t = .ok (mailboxesIn t) ∧ mailboxesIn t ≠ [] := by
  obtain ⟨ms, hparse, hne, hwhole⟩ := h
  have hall : ms.all Mailbox.isComplete = true :=
    List.all_eq_true.2 fun m hm => Mailbox.isComplete_iff.2 (hwhole m hm)
  have hmailboxes : mailboxesIn t = ms := by rw [mailboxesIn, hparse]; rfl
  simp [readDestinations, hparse, hmailboxes, hne, hall]

theorem readDestinations_of_not {t : Text} (h : ¬ IsDestination t) :
    ∃ e, readDestinations t = .error e := by
  cases hread : readDestinations t with
  | error e => exact ⟨e, rfl⟩
  | ok ms =>
    refine absurd ?_ h
    have hcomplete := isComplete_of_readDestinations hread
    unfold readDestinations at hread
    dsimp only at hread
    split at hread
    · exact nomatch hread
    · rename_i ms' hparse
      split at hread
      · exact nomatch hread
      · rename_i hall
        obtain rfl := Except.ok.inj hread
        refine ⟨ms', hparse, ?_, fun m hm => Mailbox.isComplete_iff.1 (hcomplete m hm)⟩
        rintro rfl
        exact hall rfl

theorem mailboxesIn_nil : mailboxesIn [] = [] := rfl

theorem readAllDestinations_of_isDestination {ts : List Text}
    (h : ∀ t ∈ ts, Text.trim t ≠ [] → IsDestination (Text.trim t)) :
    readAllDestinations ts = .ok (ts.flatMap fun t => mailboxesIn (Text.trim t)) := by
  induction ts with
  | nil => rfl
  | cons t ts ih =>
    have hrest := ih fun u hu => h u (List.mem_cons_of_mem t hu)
    rw [readAllDestinations, List.flatMap_cons]
    by_cases hblank : Text.trim t = []
    · simp [hblank, hrest, mailboxesIn_nil]
    · have hfirst := (readDestinations_of_isDestination (h t List.mem_cons_self hblank)).1
      simp [hblank, hfirst, hrest, bind, Except.bind, pure, Except.pure]

theorem readAllDestinations_of_not {ts : List Text}
    (h : ∃ t ∈ ts, Text.trim t ≠ [] ∧ ¬ IsDestination (Text.trim t)) :
    ∃ e, readAllDestinations ts = .error e := by
  obtain ⟨t, ht, hne, hnot⟩ := h
  induction ts with
  | nil => exact absurd ht List.not_mem_nil
  | cons u ts ih =>
    rw [readAllDestinations]
    rcases List.mem_cons.1 ht with rfl | ht
    · obtain ⟨e, he⟩ := readDestinations_of_not hnot
      exact ⟨e, by simp [hne, he, bind, Except.bind]⟩
    · obtain ⟨e, he⟩ := ih ht
      by_cases hblank : Text.trim u = []
      · exact ⟨e, by simp [hblank, he]⟩
      · cases readDestinations (Text.trim u) with
        | error e' => exact ⟨e', by simp [hblank, bind, Except.bind]⟩
        | ok ms => exact ⟨e, by simp [hblank, he, bind, Except.bind]⟩

/-! ## One rule -/

namespace RawRule

/-- Whether everything that a rule forwards to can be forwarded to; blank texts do not count. -/
def IsForwardable (r : RawRule) : Prop :=
  ∀ t ∈ r.forward, Text.trim t ≠ [] → IsDestination (Text.trim t)

theorem not_isForwardable_iff {r : RawRule} : ¬ r.IsForwardable ↔
    ∃ t ∈ r.forward, Text.trim t ≠ [] ∧ ¬ IsDestination (Text.trim t) := by
  simp [IsForwardable]

/-- Whether a text holds more than blanks. -/
def saysSomething (t : Text) : Bool := !(Text.trim t).isEmpty

/-- Whether a rule does anything. -/
def acts (r : RawRule) : Bool :=
  r.clear.any saysSomething || r.label.any saysSomething || r.moveTo.any saysSomething ||
    r.forward.any saysSomething

/-- The rule that a written one stands for, with its number. -/
def finished (r : RawRule) (order : Nat) : Rule where
  criteria := r.criteria.normalized
  okayDate := none
  clear := r.clear.filterMap canonicalLabel?
  label := r.label.filterMap canonicalLabel?
  moveTo := nonEmpty (r.moveTo.map canonicalFolder)
  forward := r.forward.flatMap fun t => mailboxesIn (Text.trim t)
  order := order

theorem isSome_canonicalLabel? (t : Text) : (canonicalLabel? t).isSome = saysSomething t := by
  unfold canonicalLabel? saysSomething
  cases Text.trim t with
  | nil => rfl
  | cons c name =>
    dsimp only
    split <;> rfl

theorem isEmpty_filterMap_canonicalLabel? (ts : List Text) :
    (ts.filterMap canonicalLabel?).isEmpty = !ts.any saysSomething := by
  induction ts with
  | nil => rfl
  | cons t ts ih =>
    rw [List.any_cons, ← isSome_canonicalLabel?, List.filterMap_cons]
    cases canonicalLabel? t with
    | none => simpa using ih
    | some l => rfl

theorem isEmpty_canonicalFolder (t : Text) : (canonicalFolder t).isEmpty = !saysSomething t := by
  rw [saysSomething, Bool.not_not, Bool.eq_iff_iff, List.isEmpty_iff, List.isEmpty_iff,
    canonicalFolder_eq_nil_iff, Text.trim_eq_nil_iff]

theorem isSome_moveTo (moveTo : Option Text) :
    (nonEmpty (moveTo.map canonicalFolder)).isSome = moveTo.any saysSomething := by
  cases moveTo with
  | none => rfl
  | some t =>
    rw [Option.map_some, nonEmpty, Option.filter_some, isEmpty_canonicalFolder, Bool.not_not,
      Option.any_some]
    cases saysSomething t <;> rfl

variable {r : RawRule}

theorem isEmpty_forward (h : r.IsForwardable) (n : Nat) :
    (r.finished n).forward.isEmpty = !r.forward.any saysSomething := by
  rw [Bool.eq_iff_iff, List.isEmpty_iff, finished, List.flatMap_eq_nil_iff, Bool.not_eq_true',
    List.any_eq_false]
  refine forall₂_congr fun t ht => ?_
  rw [saysSomething, Bool.not_eq_true', Bool.not_eq_false, List.isEmpty_iff]
  refine ⟨fun hnone => Decidable.byContradiction fun hsays => ?_, fun hblank => ?_⟩
  · exact (readDestinations_of_isDestination (h t ht hsays)).2 hnone
  · rw [hblank, mailboxesIn_nil]

/-- A rule does something if one of its texts is not blank. -/
theorem hasAction_finished (h : r.IsForwardable) (n : Nat) :
    (r.finished n).hasAction = r.acts := by
  rw [Rule.hasAction, acts, isEmpty_forward h, finished, isEmpty_filterMap_canonicalLabel?,
    isEmpty_filterMap_canonicalLabel?, isSome_moveTo]
  simp only [Bool.not_not]

theorem compile_of_isForwardable (h : r.IsForwardable) (n : Nat) :
    r.compile n = .ok (if r.acts then some (r.finished n) else none) := by
  rw [← hasAction_finished h n, compile, readAllDestinations_of_isDestination h]
  rfl

theorem compile_of_not_isForwardable (h : ¬ r.IsForwardable) (n : Nat) :
    ∃ e, r.compile n = .error e := by
  obtain ⟨e, he⟩ := readAllDestinations_of_not (not_isForwardable_iff.1 h)
  exact ⟨e, by rw [compile, he]; rfl⟩

end RawRule

/-! ## All rules -/

/-- The rules that come to something, each with its place among all from a number on. -/
def finishedFrom (order : Nat) (raws : List RawRule) : List Rule :=
  ((raws.zipIdx order).filter fun p => p.1.acts).map fun p => p.1.finished p.2

theorem finishedFrom_cons (order : Nat) (raw : RawRule) (raws : List RawRule) :
    finishedFrom order (raw :: raws) =
      (if raw.acts then [raw.finished order] else []) ++ finishedFrom (order + 1) raws := by
  unfold finishedFrom
  rw [List.zipIdx_cons, List.filter_cons]
  split <;> rfl

theorem compileFrom_eq {raws : List RawRule} (h : ∀ r ∈ raws, r.IsForwardable) (order : Nat) :
    compileFrom order raws = .ok (finishedFrom order raws) := by
  induction raws generalizing order with
  | nil => rfl
  | cons raw raws ih =>
    have hrest := ih (fun r hr => h r (List.mem_cons_of_mem raw hr)) (order + 1)
    rw [compileFrom, RawRule.compile_of_isForwardable (h raw List.mem_cons_self), hrest,
      finishedFrom_cons]
    cases raw.acts <;> rfl

theorem compileFrom_eq_error {raws : List RawRule} (h : ∃ r ∈ raws, ¬ r.IsForwardable)
    (order : Nat) : ∃ e, compileFrom order raws = .error e := by
  induction raws generalizing order with
  | nil =>
    obtain ⟨r, hr, -⟩ := h
    exact absurd hr List.not_mem_nil
  | cons raw raws ih =>
    obtain ⟨r, hr, hnot⟩ := h
    rw [compileFrom]
    rcases List.mem_cons.1 hr with rfl | hr
    · obtain ⟨e, he⟩ := RawRule.compile_of_not_isForwardable hnot order
      exact ⟨e, by rw [he]; rfl⟩
    · obtain ⟨e, he⟩ := ih ⟨r, hr, hnot⟩ (order + 1)
      cases hfirst : raw.compile order with
      | error e' => exact ⟨e', rfl⟩
      | ok rule => exact ⟨e, by rw [he]; rfl⟩

theorem exists_compileFrom_error_iff {raws : List RawRule} {order : Nat} :
    (∃ e, compileFrom order raws = .error e) ↔ ∃ r ∈ raws, ¬ r.IsForwardable := by
  refine ⟨fun ⟨e, he⟩ => Classical.byContradiction fun hnone => ?_, fun h =>
    compileFrom_eq_error h order⟩
  have hall : ∀ r ∈ raws, r.IsForwardable := fun r hr =>
    Classical.byContradiction fun hnot => hnone ⟨r, hr, hnot⟩
  exact nomatch he.symm.trans (compileFrom_eq hall order)

theorem eq_of_compileFrom_ok {raws : List RawRule} {order : Nat} {rules : List Rule}
    (h : compileFrom order raws = .ok rules) : rules = finishedFrom order raws := by
  by_cases hall : ∀ r ∈ raws, r.IsForwardable
  · exact Except.ok.inj (h.symm.trans (compileFrom_eq hall order))
  · obtain ⟨e, he⟩ := compileFrom_eq_error (by simpa using hall) order
    exact nomatch h.symm.trans he

/-! ## Two texts -/

/-- The environments whose rules count in an environment, in order. -/
def activeEnvironments (environment : Text) : List Text :=
  if environment = [] ∨ environment = allEnvironments then [allEnvironments]
  else [allEnvironments, environment]

/-- The written rules that count in an environment, in order. -/
def activeRules (byEnvironment : List (Text × List RawRule)) (localRules : List RawRule)
    (environment : Text) : List RawRule :=
  (activeEnvironments environment).flatMap (fun e => (byEnvironment.lookup e).getD []) ++ localRules

theorem assemble_eq (byEnvironment : List (Text × List RawRule)) (localRules : List RawRule)
    (environment : Text) : assemble byEnvironment localRules environment =
      activeRules byEnvironment localRules environment := by
  unfold assemble activeRules activeEnvironments
  split <;> simp

variable {main localText : Text} {byEnvironment : List (Text × List RawRule)}
  {localRules : List RawRule}

theorem compileSources_eq (hmain : Rule.decodeMain main = .ok byEnvironment)
    (hlocal : Rule.decodeLocal localText = .ok localRules) (environment : Text) :
    compileSources main localText environment =
      compileFrom 0 (activeRules byEnvironment localRules environment) := by
  rw [← assemble_eq, compileSources, hmain, hlocal]
  rfl

theorem activeRules_congr {others : List (Text × List RawRule)} {environment : Text}
    (hall : others.lookup allEnvironments = byEnvironment.lookup allEnvironments)
    (hpresent : environment ≠ [] → others.lookup environment = byEnvironment.lookup environment) :
    activeRules others localRules environment =
      activeRules byEnvironment localRules environment := by
  unfold activeRules activeEnvironments
  split
  · simp [hall]
  · rename_i hother
    simp [hall, hpresent fun h => hother (.inl h)]

/-- The rules of an environment.  There are none, but an error, if and only if some rule that
counts, wherever it stands and whatever else it does, forwards to something that is no list of
whole addresses.  Otherwise they are the rules that count and do something, in their order, each
with its place among all that count; so the numbers grow.  What other environments have does not
matter. -/
theorem compileSources_assembles (hmain : Rule.decodeMain main = .ok byEnvironment)
    (hlocal : Rule.decodeLocal localText = .ok localRules) (environment : Text) :
    ((∃ e, compileSources main localText environment = .error e) ↔
        ∃ r ∈ activeRules byEnvironment localRules environment, ∃ t ∈ r.forward,
          Text.trim t ≠ [] ∧ ¬ IsDestination (Text.trim t)) ∧
      (∀ rules, compileSources main localText environment = .ok rules →
        rules = (((activeRules byEnvironment localRules environment).zipIdx).filter
            fun p => p.1.acts).map (fun p => p.1.finished p.2) ∧
          rules.Pairwise (·.order < ·.order)) ∧
      ∀ other others, Rule.decodeMain other = .ok others →
        others.lookup allEnvironments = byEnvironment.lookup allEnvironments →
        (environment ≠ [] → others.lookup environment = byEnvironment.lookup environment) →
        compileSources other localText environment = compileSources main localText environment := by
  have hsources := compileSources_eq hmain hlocal environment
  refine ⟨?_, fun rules hrules => ?_, fun other others hother hall hpresent => ?_⟩
  · rw [hsources, exists_compileFrom_error_iff]
    exact exists_congr fun r => and_congr_right fun _ => RawRule.not_isForwardable_iff
  · exact ⟨eq_of_compileFrom_ok (hsources.symm.trans hrules), (compileSources_numbers hrules).2⟩
  · rw [hsources, compileSources_eq hother hlocal, activeRules_congr hall hpresent]

/-! ### Rules for two environments -/

/-- Main rules: one for all environments, two for one environment, and one that forwards to
something that is no address for another. -/
def officeRules : Text :=
  "'*':\n- label: [news, ' ']\nwork:\n- forward: ' boss@corp.com '\n- move: ' '\n" ++
    "home:\n- label: kept\n  forward: nobody\n"

/-- Local rules. -/
def deskRules : Text := "- clear: todo\n"

/-- At work the third rule is dropped, and the local one keeps its number; at home there are no
rules. -/
theorem officeRules_assemble : ∃ byEnvironment localRules,
    Rule.decodeMain officeRules = .ok byEnvironment ∧ Rule.decodeLocal deskRules = .ok localRules ∧
      (∃ rules, compileSources officeRules deskRules "work" = .ok rules ∧
        rules = (((activeRules byEnvironment localRules "work").zipIdx).filter
            fun p => p.1.acts).map (fun p => p.1.finished p.2) ∧
          rules.map (·.order) = [0, 1, 3]) ∧
      ∃ r ∈ activeRules byEnvironment localRules "home", ∃ t ∈ r.forward,
        Text.trim t ≠ [] ∧ ¬ IsDestination (Text.trim t) := by
  have hmain : (Rule.decodeMain officeRules).toBool = true := by decide +kernel
  have hlocal : (Rule.decodeLocal deskRules).toBool = true := by decide +kernel
  have hwork : ((compileSources officeRules deskRules "work").toOption.map
      fun rules => rules.map (·.order)) = some [0, 1, 3] := by decide +kernel
  have hhome : (compileSources officeRules deskRules "home").toBool = false := by decide +kernel
  cases hbyEnvironment : Rule.decodeMain officeRules with
  | error f =>
    rw [hbyEnvironment] at hmain
    exact nomatch hmain
  | ok byEnvironment =>
    cases hlocalRules : Rule.decodeLocal deskRules with
    | error f =>
      rw [hlocalRules] at hlocal
      exact nomatch hlocal
    | ok localRules =>
      refine ⟨byEnvironment, localRules, rfl, rfl, ?_, ?_⟩
      · have hassembles := (compileSources_assembles hbyEnvironment hlocalRules "work").2.1
        cases hrules : compileSources officeRules deskRules "work" with
        | error e =>
          rw [hrules] at hwork
          exact nomatch hwork
        | ok rules =>
          rw [hrules] at hwork
          exact ⟨rules, rfl, (hassembles rules hrules).1, Option.some.inj hwork⟩
      · refine (compileSources_assembles hbyEnvironment hlocalRules "home").1.1 ?_
        cases hrules : compileSources officeRules deskRules "home" with
        | error e => exact ⟨e, rfl⟩
        | ok rules =>
          rw [hrules] at hhome
          exact nomatch hhome

end Mailroom
