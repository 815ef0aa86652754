import Mailroom.Proofs.Rule
import Mailroom.Proofs.Rulebook
import Mailroom.Proofs.Summary
import Mailroom.Rule.Source

/-!
# Rules in their order

A rulebook tears a list of rules apart: each page gets some of them, among them companions that
have the number of the rule they go with, and the rules for every folder stand on a page of their
own.  What it gives for one folder is all the same found by one walk through the list.

* `Rule.share` is what one rule gives to a folder, and `walk` what all of them give.
* `mergeSort_flatMap_append` puts two pages together: with equal numbers the first page comes
  first, as sorting is stable.
* `Rulebook.reads_as_walk` is the result.
-/

namespace Mailroom

/-! ## The walk -/

/-- Whether a rule is for every folder. -/
def Rule.isUniversal (r : Rule) : Bool :=
  r.criteria.folder == none || r.criteria.folder == some []

/-- Whether a rule is for a folder, or for every one. -/
def Rule.isFor (r : Rule) (folder : Text) : Bool :=
  r.isUniversal || r.criteria.folder == some folder

/-- Whether a rule moves messages from some folder to another one. -/
def Rule.crosses (r : Rule) : Bool :=
  r.criteria.folder.isSome && r.moveTo.isSome && r.criteria.folder != r.moveTo

/-- What goes with such a rule in the folder that it moves to: a rule of the same tests, which
takes away the label of the inbox and does nothing else. -/
def Rule.follower (now : Time) (r : Rule) (folder : Text) : Rule where
  criteria := { r.criteria with folder := some folder }
  okayDate := (r.stamped now).okayDate
  clear := [Label.inbox.labelForm]
  label := []
  moveTo := none
  forward := []
  order := r.order

/-- What a rule gives to a folder: itself, if it is for it, and what goes with it, if it moves
messages there. -/
def Rule.share (now : Time) (folder : Text) (r : Rule) : List Rule :=
  (if r.isFor folder then [r.stamped now] else []) ++
    (if r.crosses && r.moveTo == some folder then [r.follower now folder] else [])

/-- What rules give to a folder, one after the other. -/
def walk (now : Time) (folder : Text) (rules : List Rule) : List Rule :=
  rules.flatMap (Rule.share now folder)

/-! ## Sorted lists -/

section Sorting

variable {α : Type} (key : α → Nat)

/-- A list in the order of some numbers is told by the elements of each number. -/
theorem eq_of_filter_eq {l k : List α} (hl : l.Pairwise (key · ≤ key ·))
    (hk : k.Pairwise (key · ≤ key ·))
    (h : ∀ n, l.filter (key · == n) = k.filter (key · == n)) : l = k := by
  induction l generalizing k with
  | nil =>
    cases k with
    | nil => rfl
    | cons b k => simpa using h (key b)
  | cons a l ih =>
    cases k with
    | nil => simpa using h (key a)
    | cons b k =>
      -- the number of each first element is in the other list, so that none is the less
      have hmem : ∀ {x : α} {xs ys : List α}, (∀ n, xs.filter (key · == n) = ys.filter (key · == n)) →
          x ∈ xs → x ∈ ys := by
        intro x xs ys hsame hx
        have hfound : x ∈ xs.filter (key · == key x) := List.mem_filter.2 ⟨hx, by simp⟩
        rw [hsame] at hfound
        exact (List.mem_filter.1 hfound).1
      have hle : key a ≤ key b := by
        rcases List.mem_cons.1 (hmem (fun n => (h n).symm) (List.mem_cons_self (a := b))) with
          rfl | hb
        · exact Nat.le_refl _
        · exact (List.pairwise_cons.1 hl).1 b hb
      have hge : key b ≤ key a := by
        rcases List.mem_cons.1 (hmem h (List.mem_cons_self (a := a))) with rfl | ha
        · exact Nat.le_refl _
        · exact (List.pairwise_cons.1 hk).1 a ha
      have hkey : key a = key b := Nat.le_antisymm hle hge
      have hfirst := h (key a)
      rw [List.filter_cons_of_pos (by simp), List.filter_cons_of_pos (by simp [hkey])] at hfirst
      obtain rfl := (List.cons.inj hfirst).1
      refine congrArg (a :: ·) (ih (List.pairwise_cons.1 hl).2 (List.pairwise_cons.1 hk).2 fun n => ?_)
      have hn := h n
      by_cases hna : key a = n
      · rw [List.filter_cons_of_pos (by simp [hna]), List.filter_cons_of_pos (by simp [hna])] at hn
        exact (List.cons.inj hn).2
      · rwa [List.filter_cons_of_neg (by simp [hna]), List.filter_cons_of_neg (by simp [hna])] at hn

theorem pairwise_mergeSort (l : List α) :
    (l.mergeSort (fun a b => decide (key a ≤ key b))).Pairwise (key · ≤ key ·) := by
  have hsorted : (l.mergeSort (fun a b => decide (key a ≤ key b))).Pairwise
      (fun a b => decide (key a ≤ key b) = true) :=
    List.pairwise_mergeSort (by simp only [decide_eq_true_eq]; exact fun a b c => Nat.le_trans)
      (by simp only [Bool.or_eq_true, decide_eq_true_eq]; exact fun a b => Nat.le_total _ _) l
  simpa only [decide_eq_true_eq] using hsorted

/-- Sorting leaves the elements of one number as they stand. -/
theorem filter_mergeSort (l : List α) (n : Nat) :
    (l.mergeSort (fun a b => decide (key a ≤ key b))).filter (key · == n) =
      l.filter (key · == n) := by
  have hpairwise : (l.filter (key · == n)).Pairwise (fun a b => decide (key a ≤ key b)) := by
    refine List.pairwise_of_forall_mem_list fun a ha b hb => ?_
    have hka := (List.mem_filter.1 ha).2
    have hkb := (List.mem_filter.1 hb).2
    simp only [beq_iff_eq] at hka hkb
    simp [hka, hkb]
  have hsub : (l.filter (key · == n)).Sublist
      (l.mergeSort (fun a b => decide (key a ≤ key b))) :=
    List.sublist_mergeSort (by simp only [decide_eq_true_eq]; exact fun a b c => Nat.le_trans)
      (by simp only [Bool.or_eq_true, decide_eq_true_eq]; exact fun a b => Nat.le_total _ _)
      hpairwise List.filter_sublist
  have hfilter := hsub.filter (key · == n)
  rw [List.filter_filter] at hfilter
  simp only [Bool.and_self] at hfilter
  exact (hfilter.eq_of_length_le
    (Nat.le_of_eq ((List.mergeSort_perm l _).filter (key · == n)).length_eq)).symm

/-! ### Pages that are put together -/

variable {key} {β : Type} {rank : β → Nat} {items : List β} {F G : β → List α}

/-- Where each item gives elements of its own number, other items give none of a number. -/
theorem filter_flatMap_eq_nil {n : Nat} (hF : ∀ a ∈ items, ∀ x ∈ F a, key x = rank a)
    (hn : ∀ a ∈ items, rank a ≠ n) : (items.flatMap F).filter (key · == n) = [] := by
  refine List.filter_eq_nil_iff.2 fun x hx => ?_
  obtain ⟨a, ha, hxa⟩ := List.mem_flatMap.1 hx
  simp [hF a ha x hxa, hn a ha]

theorem filter_of_rank {a : β} {n : Nat} (hF : ∀ x ∈ F a, key x = rank a) :
    (F a).filter (key · == n) = if rank a = n then F a else [] := by
  split
  · rename_i hn
    exact List.filter_eq_self.2 fun x hx => by simp [hF x hx, hn]
  · rename_i hn
    exact List.filter_eq_nil_iff.2 fun x hx => by simp [hF x hx, hn]

/-- Items in strict order, each of which gives elements of its own number to two pages: the pages
sorted together have item by item what it gives to the first page and then to the second. -/
theorem mergeSort_flatMap_append (hitems : items.Pairwise (rank · < rank ·))
    (hF : ∀ a ∈ items, ∀ x ∈ F a, key x = rank a) (hG : ∀ a ∈ items, ∀ x ∈ G a, key x = rank a) :
    (items.flatMap F ++ items.flatMap G).mergeSort (fun a b => decide (key a ≤ key b)) =
      items.flatMap (fun a => F a ++ G a) := by
  have hboth : ∀ a ∈ items, ∀ x ∈ F a ++ G a, key x = rank a := by
    intro a ha x hx
    rcases List.mem_append.1 hx with hx | hx
    · exact hF a ha x hx
    · exact hG a ha x hx
  refine eq_of_filter_eq key ?_ ?_ fun n => ?_
  · exact pairwise_mergeSort key _
  · -- inside one item the numbers are equal, and between two they grow
    refine List.pairwise_flatMap.2 ⟨fun a ha => ?_, ?_⟩
    · refine List.pairwise_of_forall_mem_list fun x hx y hy => ?_
      exact Nat.le_of_eq ((hboth a ha x hx).trans (hboth a ha y hy).symm)
    · refine hitems.imp_of_mem fun ha hb hlt x hx y hy => ?_
      rw [hboth _ ha x hx, hboth _ hb y hy]
      exact Nat.le_of_lt hlt
  · -- at most one item has the number
    rw [filter_mergeSort, List.filter_append]
    induction items with
    | nil => rfl
    | cons a items ih =>
      obtain ⟨hlt, hrest⟩ := List.pairwise_cons.1 hitems
      have hFa := filter_of_rank (n := n) (hF a (by simp))
      have hGa := filter_of_rank (n := n) (hG a (by simp))
      have hF' := fun b hb => hF b (List.mem_cons_of_mem a hb)
      have hG' := fun b hb => hG b (List.mem_cons_of_mem a hb)
      have hboth' := fun b hb => hboth b (List.mem_cons_of_mem a hb)
      simp only [List.flatMap_cons, List.filter_append, hFa, hGa]
      by_cases hn : rank a = n
      · have hne : ∀ b ∈ items, rank b ≠ n := fun b hb =>
          Nat.ne_of_gt (hn ▸ hlt b hb)
        simp [hn, filter_flatMap_eq_nil hF' hne, filter_flatMap_eq_nil hG' hne,
          filter_flatMap_eq_nil hboth' hne]
      · simpa [hn] using ih hrest hF' hG' hboth'

end Sorting

/-! ## Pages -/

theorem Rule.companion?_stamped (r : Rule) (now : Time) :
    (r.stamped now).companion? = if r.crosses then r.moveTo.map (r.follower now) else none := by
  unfold Rule.companion? Rule.crosses
  rw [Rule.stamped_criteria, Rule.stamped_moveTo]
  cases hfolder : r.criteria.folder with
  | none => rfl
  | some source =>
    cases hmove : r.moveTo with
    | none => rfl
    | some target =>
      by_cases hne : source = target
      · simp [hne]
      · have hcrosses : ((some source).isSome && (some target).isSome &&
            some source != some target) = true := by simpa using hne
        simp only [hne, if_false, hcrosses, if_true, Option.map_some, follower, stamped_order]

/-- What a rule adds to a page. -/
def Rule.contribution (now : Time) (name : Text) (r : Rule) : List Rule :=
  (if r.crosses && r.moveTo == some name then [r.follower now name] else []) ++
    (if r.criteria.folder.getD [] = name then [r.stamped now] else [])

theorem Rule.order_of_mem_contribution {now : Time} {name : Text} {r x : Rule}
    (h : x ∈ r.contribution now name) : x.order = r.order := by
  unfold Rule.contribution at h
  rcases List.mem_append.1 h with h | h
  · split at h
    · rw [List.mem_singleton.1 h]
      rfl
    · simp at h
  · split at h
    · rw [List.mem_singleton.1 h, Rule.stamped_order]
    · simp at h

namespace Rulebook

theorem page_enter (b : Rulebook) (name : Text) (r : Rule) (p : Text) :
    (b.enter name r).page p = b.page p ++ if name = p then [r] else [] := by
  unfold page enter
  rw [Dictionary.find?_update]
  by_cases h : p = name
  · subst h
    simp
  · simp [h, Ne.symm h]

theorem page_add (now : Time) (b : Rulebook) (r : Rule) (p : Text) :
    (add now b r).page p = b.page p ++ r.contribution now p := by
  simp only [add, page_enter, Rule.stamped_criteria, Rule.contribution, ← List.append_assoc]
  congr 1
  rw [Rule.companion?_stamped]
  by_cases hcrosses : r.crosses
  · cases hmove : r.moveTo with
    | none => simp [hcrosses]
    | some target =>
      simp only [hcrosses, if_true, Option.map_some, page_enter, Bool.true_and]
      by_cases hp : target = p
      · subst hp
        simp [Rule.follower]
      · simp [Rule.follower, hp]
  · simp [hcrosses]

theorem page_ofRules (rules : List Rule) (now : Time) (p : Text) :
    (ofRules rules now).page p = rules.flatMap (Rule.contribution now p) := by
  suffices hall : ∀ b : Rulebook, (rules.foldl (add now) b).page p =
      b.page p ++ rules.flatMap (Rule.contribution now p) from hall empty
  induction rules with
  | nil => intro b; simp
  | cons r rules ih =>
    intro b
    rw [List.foldl_cons, ih, page_add, List.flatMap_cons, List.append_assoc]

/-! ## The number of rules -/

theorem foldl_length (l : List (Text × List Rule)) (n : Nat) :
    (l.map (fun e => e.2.length)).foldl (· + ·) n = n + (l.flatMap Prod.snd).length := by
  induction l generalizing n with
  | nil => rfl
  | cons e l ih =>
    rw [List.map_cons, List.foldl_cons, ih, List.flatMap_cons, List.length_append, Nat.add_assoc]

theorem size_eq_length (b : Rulebook) :
    b.size = (b.pages.entries.flatMap Prod.snd).length := by
  rw [size, foldl_length, Nat.zero_add]

theorem length_updateSorted (name : Text) (r : Rule) (l : List (Text × List Rule)) :
    ((updateSorted name (fun rs => rs.getD [] ++ [r]) l).flatMap Prod.snd).length =
      (l.flatMap Prod.snd).length + 1 := by
  induction l with
  | nil => rfl
  | cons e l ih =>
    simp only [updateSorted]
    split
    · simp only [List.flatMap_cons, List.length_append, Option.getD_none, List.nil_append,
        List.length_singleton]
      omega
    · split
      · simp only [List.flatMap_cons, List.length_append, Option.getD_some, List.length_singleton]
        omega
      · rw [List.flatMap_cons, List.flatMap_cons, List.length_append, List.length_append, ih,
          Nat.add_assoc]

theorem size_enter (b : Rulebook) (name : Text) (r : Rule) :
    (b.enter name r).size = b.size + 1 := by
  rw [size_eq_length, size_eq_length]
  exact length_updateSorted name r b.pages.entries

theorem size_add (now : Time) (b : Rulebook) (r : Rule) :
    (add now b r).size = b.size + 1 + if r.crosses then 1 else 0 := by
  simp only [add, size_enter, Rule.companion?_stamped]
  by_cases hcrosses : r.crosses
  · cases hmove : r.moveTo with
    | none => simp [Rule.crosses, hmove] at hcrosses
    | some target => simp [hcrosses, size_enter]
  · simp [hcrosses]

theorem size_ofRules (rules : List Rule) (now : Time) :
    (ofRules rules now).size = rules.length + rules.countP Rule.crosses := by
  suffices hall : ∀ b : Rulebook, (rules.foldl (add now) b).size =
      b.size + rules.length + rules.countP Rule.crosses by
    have hempty : empty.size = 0 := rfl
    have h := hall empty
    rwa [hempty, Nat.zero_add] at h
  induction rules with
  | nil => intro b; simp
  | cons r rules ih =>
    intro b
    rw [List.foldl_cons, ih, size_add, List.length_cons, List.countP_cons]
    omega

/-! ## The pages of a folder -/

section Reading

variable {now : Time} {folder : Text} {r : Rule}

/-- No rule moves messages to the maildir itself, so that nothing goes with a rule there. -/
theorem contribution_nil (hr : r.IsCompiled) : r.contribution now [] =
    if r.criteria.folder.getD [] = [] then [r.stamped now] else [] := by
  have hmove : (r.moveTo == some []) = false := by
    refine beq_eq_false_iff_ne.2 fun hmove => ?_
    exact (hr.isStep_moveTo hmove).1 rfl
  simp [Rule.contribution, hmove]

/-- What a rule gives to a folder is what stands on the page for every folder and then what
stands on the page of the folder. -/
theorem share_eq_contribution (hr : r.IsCompiled) (hfolder : folder ≠ []) :
    r.share now folder = r.contribution now [] ++ r.contribution now folder := by
  rw [contribution_nil hr, Rule.share, Rule.contribution]
  cases hown : r.criteria.folder with
  | none => simp [Rule.isFor, Rule.isUniversal, hown, Ne.symm hfolder]
  | some source =>
    by_cases hnil : source = []
    · simp [Rule.isFor, Rule.isUniversal, hown, hnil, Ne.symm hfolder]
    · by_cases hsame : source = folder
      · -- a rule for the folder itself moves messages to another one
        subst hsame
        have hstay : (r.crosses && r.moveTo == some source) = false := by
          simp only [Rule.crosses, hown]
          cases r.moveTo with
          | none => rfl
          | some target =>
            by_cases htarget : target = source <;> simp [htarget]
        simp [Rule.isFor, Rule.isUniversal, hown, hnil, hstay]
      · simp [Rule.isFor, Rule.isUniversal, hown, hnil, hsame]

theorem folder_of_mem_contribution {x : Rule} (hfolder : folder ≠ [])
    (hx : x ∈ r.contribution now folder) : x.criteria.folder = some folder := by
  unfold Rule.contribution at hx
  rcases List.mem_append.1 hx with hx | hx
  · split at hx
    · rw [List.mem_singleton.1 hx]
      rfl
    · simp at hx
  · split at hx
    · rename_i hown
      rw [List.mem_singleton.1 hx, Rule.stamped_criteria]
      cases hsource : r.criteria.folder with
      | none => exact absurd (by simpa [hsource] using hown.symm) hfolder
      | some source => simpa [hsource] using hown
    · simp at hx

/-- Without the rules for every folder, a rule gives what stands on the page of the folder. -/
theorem filter_share (hr : r.IsCompiled) (hfolder : folder ≠ []) :
    (r.share now folder).filter (!·.isUniversal) = r.contribution now folder := by
  rw [share_eq_contribution hr hfolder, List.filter_append, contribution_nil hr]
  have huniversal : (if r.criteria.folder.getD [] = [] then [r.stamped now] else []).filter
      (!·.isUniversal) = [] := by
    split
    · rename_i hnil
      cases hsource : r.criteria.folder with
      | none => simp [Rule.isUniversal, hsource]
      | some source =>
        obtain rfl : source = [] := by simpa [hsource] using hnil
        simp [Rule.isUniversal, hsource]
    · rfl
  rw [huniversal, List.nil_append]
  refine List.filter_eq_self.2 fun x hx => ?_
  simp [Rule.isUniversal, folder_of_mem_contribution hfolder hx, hfolder]

end Reading

/-- A rulebook of rules that are numbered in their order gives for a folder what one walk through
the rules finds: each rule that is for it, and then what goes with a rule that moves messages
there.  The rules for the folder only are those of the walk that are not for every folder.  Each
rule is counted once, and what goes with it once more. -/
theorem reads_as_walk {rules : List Rule} (hcompiled : ∀ r ∈ rules, r.IsCompiled)
    (hincreasing : rules.Pairwise (·.order < ·.order)) (now : Time) {folder : Text}
    (hfolder : folder ≠ []) :
    (ofRules rules now).rulesFor folder = walk now folder rules ∧
      (ofRules rules now).folderRules folder = (walk now folder rules).filter (!·.isUniversal) ∧
      (ofRules rules now).size = rules.length + rules.countP Rule.crosses := by
  have hempty : folder.isEmpty = false := by simpa using hfolder
  refine ⟨?_, ?_, size_ofRules rules now⟩
  · have hshare : walk now folder rules =
        rules.flatMap (fun r => r.contribution now [] ++ r.contribution now folder) := by
      unfold walk
      exact congrArg List.flatten <| List.map_congr_left fun r hr => share_eq_contribution (hcompiled r hr) hfolder
    rw [rulesFor, folderRules, hempty, hshare, page_ofRules]
    simp only [Bool.false_eq_true, if_false, page_ofRules]
    exact mergeSort_flatMap_append hincreasing
      (fun r _ x hx => Rule.order_of_mem_contribution hx)
      (fun r _ x hx => Rule.order_of_mem_contribution hx)
  · rw [folderRules, hempty, walk, List.filter_flatMap]
    simp only [Bool.false_eq_true, if_false, page_ofRules]
    exact congrArg List.flatten <| List.map_congr_left fun r hr => (filter_share (hcompiled r hr) hfolder).symm

end Rulebook

/-! ## Rules as they are read -/

/-- Rules that are compiled one after the other are numbered in their order. -/
theorem compileFrom_numbers {n : Nat} {raws : List RawRule} {rules : List Rule}
    (h : compileFrom n raws = .ok rules) :
    (∀ r ∈ rules, r.IsCompiled ∧ n ≤ r.order) ∧ rules.Pairwise (·.order < ·.order) := by
  induction raws generalizing n rules with
  | nil =>
    rw [← Except.ok.inj h]
    simp
  | cons raw raws ih =>
    simp only [compileFrom] at h
    cases hfirst : raw.compile n with
    | error e => simp [hfirst, bind, Except.bind] at h
    | ok first =>
      cases hrest : compileFrom (n + 1) raws with
      | error e => simp [hfirst, hrest, bind, Except.bind] at h
      | ok rest =>
        simp only [hfirst, hrest, bind, Except.bind, pure, Except.pure, Except.ok.injEq] at h
        obtain ⟨hall, hincreasing⟩ := ih hrest
        have hlater : ∀ r ∈ rest, r.IsCompiled ∧ n ≤ r.order := fun r hr =>
          ⟨(hall r hr).1, Nat.le_of_succ_le (hall r hr).2⟩
        rw [← h]
        cases first with
        | none => exact ⟨hlater, hincreasing⟩
        | some r =>
          have horder : r.order = n := by
            obtain ⟨-, forward, -, rfl⟩ := compile_eq_some hfirst
            rfl
          refine ⟨fun x hx => ?_, List.pairwise_cons.2 ⟨fun x hx => ?_, hincreasing⟩⟩
          · rcases List.mem_cons.1 hx with rfl | hx
            · exact ⟨⟨raw, n, hfirst⟩, Nat.le_of_eq horder.symm⟩
            · exact hlater x hx
          · rw [horder]
            exact (hall x hx).2

/-- The rules of all sources are compiled ones, numbered in their order. -/
theorem compileSources_numbers {main localText environment : Text} {rules : List Rule}
    (h : compileSources main localText environment = .ok rules) :
    (∀ r ∈ rules, r.IsCompiled) ∧ rules.Pairwise (·.order < ·.order) := by
  unfold compileSources at h
  cases hmain : ofDecode (Rule.decodeMain main) with
  | error e => simp [hmain, bind, Except.bind] at h
  | ok byEnvironment =>
    cases hlocal : ofDecode (Rule.decodeLocal localText) with
    | error e => simp [hmain, hlocal, bind, Except.bind] at h
    | ok localRules =>
      simp only [hmain, hlocal, bind, Except.bind] at h
      obtain ⟨hall, hincreasing⟩ := compileFrom_numbers h
      exact ⟨fun r hr => (hall r hr).1, hincreasing⟩

/-! ### Rules for two folders -/

/-- Rules, as they are written: one for every folder, one that moves messages of the inbox to an
archive after a day, and one for the archive. -/
def archiving : List RawRule :=
  [⟨.none, [], ["urgent"], none, []⟩,
    ⟨{ Criteria.none with folder := some "inbox", days := some 1 }, [], [], some "archive", []⟩,
    ⟨{ Criteria.none with folder := some "archive" }, ["urgent"], [], none, []⟩]

theorem archiving_reads_as_walk : ∃ rules, compileFrom 0 archiving = .ok rules ∧
    (∀ r ∈ rules, r.IsCompiled) ∧ rules.Pairwise (·.order < ·.order) ∧ ("archive" : Text) ≠ [] ∧
    ((Rulebook.ofRules rules 0).rulesFor "archive" = walk 0 "archive" rules ∧
      (Rulebook.ofRules rules 0).folderRules "archive" =
        (walk 0 "archive" rules).filter (!·.isUniversal) ∧
      (Rulebook.ofRules rules 0).size = rules.length + rules.countP Rule.crosses) ∧
    (walk 0 "archive" rules).map (fun r => (r.order, r.okayDate, r.clear)) =
      ([(0, none, []), (1, some (-86400), ["\\Inbox"]), (2, none, ["urgent"])] :
        List (Nat × Option Time × List Text)) ∧
    rules.length + rules.countP Rule.crosses = 4 := by
  refine ⟨_, rfl, ?_⟩
  have hcompile : compileFrom 0 archiving = .ok _ := rfl
  have hnumbers := compileFrom_numbers hcompile
  have hall := fun r hr => (hnumbers.1 r hr).1
  exact ⟨hall, hnumbers.2, by decide,
    Rulebook.reads_as_walk hall hnumbers.2 0 (by decide), by decide, by decide⟩

end Mailroom
