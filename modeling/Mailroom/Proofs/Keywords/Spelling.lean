import Mathlib.Data.Char
import Mathlib.Data.Finset.Sort
import Mathlib.Data.List.Lex
import Mailroom.Proofs.Keywords

/-!
# Keywords by any of their names

Keywords are added, removed and asked for by names in folder form or in label form.  Whatever is
done, one thing after the other, is answered as by the finite set of the folder forms, so that it
does not matter which of its names a keyword is called by.

* `SpellsAlike` says which names are for one keyword, and `resolveFolder_eq_iff` that these are the
  names of one folder form.
* `Keywords.members` is the finite set, with `toList_eq_sort` and `size_eq_card` for what is seen
  of it.
* `Keywords.members_run` is for one request, and `Keywords.members_runAll` for one after the other.
* `Keywords.answers_as_set` is the result.
-/

namespace Mailroom

/-! ## Spellings -/

/-- Whether two names are for one keyword: they are the same, or both belong to one label of the
mail system. -/
def SpellsAlike (a b : Text) : Prop :=
  a = b ∨ ∃ l ∈ Label.system,
    (a = l.labelForm ∨ a = l.folderForm) ∧ (b = l.labelForm ∨ b = l.folderForm)

theorem folderForm_inj : ∀ l ∈ Label.system, ∀ l' ∈ Label.system,
    l.folderForm = l'.folderForm → l = l' := by decide

/-- The names for one keyword are those of one folder form. -/
theorem resolveFolder_eq_iff {a b : Text} :
    resolveFolder a = resolveFolder b ↔ SpellsAlike a b := by
  constructor
  · intro h
    rcases resolveFolder_split a with ⟨l, hl, ha, hla⟩ | ⟨-, ha⟩ <;>
      rcases resolveFolder_split b with ⟨l', hl', hb, hlb⟩ | ⟨-, hb⟩
    · rw [hla, hlb] at h
      obtain rfl := folderForm_inj l hl l' hl' h
      exact .inr ⟨l, hl, .inl ha, .inl hb⟩
    · rw [hla, hb] at h
      exact .inr ⟨l, hl, .inl ha, .inr h.symm⟩
    · rw [ha, hlb] at h
      exact .inr ⟨l', hl', .inr h, .inl hb⟩
    · rw [ha, hb] at h
      exact .inl h
  · have hnames : ∀ l ∈ Label.system, ∀ t, t = l.labelForm ∨ t = l.folderForm →
        resolveFolder t = l.folderForm := by
      rintro l hl t (rfl | rfl)
      · exact resolveFolder_labelForm l hl
      · rw [← resolveFolder_labelForm l hl, resolveFolder_resolveFolder]
    rintro (rfl | ⟨l, hl, ha, hb⟩)
    · rfl
    · rw [hnames l hl a ha, hnames l hl b hb]

namespace Keywords

/-! ## Requests -/

/-- What is asked of a keyword set, by a name in either form. -/
inductive Request where
  /-- To add a keyword. -/
  | insert (name : Text)
  /-- To remove a keyword. -/
  | erase (name : Text)
  /-- To look for a keyword. -/
  | contains (name : Text)

namespace Request

/-- Meets a request.  The answer tells whether the set was changed or the keyword found. -/
def run : Request → Keywords → Keywords × Bool
  | insert name, k => k.insertAll [name]
  | erase name, k => k.eraseAll [name]
  | contains name, k => (k, k.contains name)

/-- The same request made of a finite set of names in folder form. -/
def onSet : Request → Finset Text → Finset Text × Bool
  | insert name, s => (Insert.insert (resolveFolder name) s, decide (resolveFolder name ∉ s))
  | erase name, s => (s.erase (resolveFolder name), decide (resolveFolder name ∈ s))
  | contains name, s => (s, decide (resolveFolder name ∈ s))

/-- Two requests that are the same but for the names that the keyword is called by. -/
inductive Alike : Request → Request → Prop where
  /-- Both add it. -/
  | insert {a b : Text} (h : SpellsAlike a b) : Alike (insert a) (insert b)
  /-- Both remove it. -/
  | erase {a b : Text} (h : SpellsAlike a b) : Alike (erase a) (erase b)
  /-- Both look for it. -/
  | contains {a b : Text} (h : SpellsAlike a b) : Alike (contains a) (contains b)

end Request

/-- Meets requests one after the other, in whatever way one is met, and collects the answers. -/
def runAll {σ : Type} (step : Request → σ → σ × Bool) : List Request → σ → σ × List Bool
  | [], s => (s, [])
  | q :: qs, s =>
    let r := step q s
    let rest := runAll step qs r.1
    (rest.1, r.2 :: rest.2)

/-- Where a keyword set comes from. -/
inductive Origin where
  /-- A field value. -/
  | field (raw : Text)
  /-- Some names in either form. -/
  | list (names : List Text)

namespace Origin

/-- The names that are read. -/
def names : Origin → List Text
  | field raw => keywordTokens raw
  | list names => names

/-- The keyword set that comes of them. -/
def keywords : Origin → Keywords
  | field raw => parse raw
  | list names => ofList names

/-- The finite set of their folder forms. -/
def set (o : Origin) : Finset Text := (o.names.map resolveFolder).toFinset

theorem keywords_eq (o : Origin) : o.keywords = ofList o.names := by
  cases o <;> rfl

end Origin

/-! ## The finite set of the keywords -/

/-- The keywords as a finite set. -/
def members (k : Keywords) : Finset Text := k.toList.toFinset

variable {k : Keywords}

@[simp] theorem mem_members {z : Text} : z ∈ k.members ↔ z ∈ k.toList := List.mem_toFinset

theorem nodup_toList (k : Keywords) : k.toList.Nodup := nodup_of_increasing k.names.increasing

/-- The keywords stand in the order of the finite set. -/
theorem toList_eq_sort (k : Keywords) : k.toList = k.members.sort := by
  have hsorted : k.toList.Pairwise (· ≤ ·) := k.names.increasing.imp le_of_lt
  exact ((List.toFinset_sort _ k.nodup_toList).2 hsorted).symm

theorem size_eq_card (k : Keywords) : k.size = k.members.card :=
  (List.toFinset_card_of_nodup k.nodup_toList).symm

theorem isEmpty_iff : k.isEmpty = true ↔ k.members = ∅ := by
  rw [isEmpty, members, List.isEmpty_iff, List.toFinset_eq_empty_iff]

theorem members_inj {k' : Keywords} (h : k.members = k'.members) : k = k' := by
  refine ext_of_mem fun n => ?_
  rw [← mem_members, h, mem_members]

theorem contains_eq_decide {name : Text} :
    k.contains name = decide (resolveFolder name ∈ k.members) := by
  rw [Bool.eq_iff_iff, contains_iff, decide_eq_true_iff, mem_members]

theorem members_keywords (o : Origin) : o.keywords.members = o.set := by
  ext z
  rw [mem_members, o.keywords_eq, mem_ofList, Origin.set, List.mem_toFinset, List.mem_map]
  exact exists_congr fun n => and_congr_right fun _ => eq_comm

/-! ## One request, and one after the other -/

/-- A request does to the keywords what it does to the finite set, with the same answer. -/
theorem members_run (q : Request) (k : Keywords) :
    ((q.run k).1.members, (q.run k).2) = q.onSet k.members := by
  cases q with
  | insert name =>
    refine Prod.ext ?_ ?_
    · ext z
      simp [Request.run, Request.onSet, mem_insertAll, or_comm]
    · simp [Request.run, Request.onSet, insertAll, contains_eq_decide]
  | erase name =>
    refine Prod.ext ?_ ?_
    · ext z
      simp [Request.run, Request.onSet, mem_eraseAll, and_comm]
    · simp [Request.run, Request.onSet, eraseAll, contains_eq_decide]
  | contains name => simp [Request.run, Request.onSet, contains_eq_decide]

theorem members_runAll (qs : List Request) (k : Keywords) :
    ((runAll Request.run qs k).1.members, (runAll Request.run qs k).2) =
      runAll Request.onSet qs k.members := by
  induction qs generalizing k with
  | nil => rfl
  | cons q qs ih =>
    have hstep := members_run q k
    have hrest := ih (q.run k).1
    simp only [runAll, ← hstep, ← hrest]

/-- The finite set does not tell the names of a keyword apart. -/
theorem Request.Alike.onSet_eq {q q' : Request} (h : q.Alike q') : q.onSet = q'.onSet := by
  cases h with
  | insert h | erase h | contains h =>
    funext s
    simp only [Request.onSet, resolveFolder_eq_iff.2 h]

theorem runAll_onSet_congr {qs qs' : List Request} (h : List.Forall₂ Request.Alike qs qs')
    (s : Finset Text) : runAll Request.onSet qs s = runAll Request.onSet qs' s := by
  induction h generalizing s with
  | nil => rfl
  | cons hq _ ih => simp only [runAll, hq.onSet_eq, ih]

theorem Origin.set_congr {o o' : Origin} (h : List.Forall₂ SpellsAlike o.names o'.names) :
    o.set = o'.set := by
  have hmap : o.names.map resolveFolder = o'.names.map resolveFolder := by
    generalize o.names = l, o'.names = l' at h
    induction h with
    | nil => rfl
    | cons hname _ ih => rw [List.map_cons, List.map_cons, resolveFolder_eq_iff.2 hname, ih]
  rw [Origin.set, Origin.set, hmap]

/-- A keyword set that was read from a field or made of a list, and then asked for keywords and
changed in any way, answers like the finite set of the folder forms, has its size, is empty when it
is, and lists its members in order.  It answers and becomes the same if every name is exchanged for
one that is spelled alike, and two sets that come to have the same members are written alike. -/
theorem answers_as_set (o : Origin) (qs : List Request) :
    ((runAll Request.run qs o.keywords).2 = (runAll Request.onSet qs o.set).2 ∧
      (runAll Request.run qs o.keywords).1.size = (runAll Request.onSet qs o.set).1.card ∧
      ((runAll Request.run qs o.keywords).1.isEmpty = true ↔
        (runAll Request.onSet qs o.set).1 = ∅) ∧
      (runAll Request.run qs o.keywords).1.toList = (runAll Request.onSet qs o.set).1.sort) ∧
    (∀ (o' : Origin) (qs' : List Request), List.Forall₂ SpellsAlike o.names o'.names →
      List.Forall₂ Request.Alike qs qs' →
      runAll Request.run qs' o'.keywords = runAll Request.run qs o.keywords) ∧
    ∀ (o' : Origin) (qs' : List Request),
      (runAll Request.onSet qs' o'.set).1 = (runAll Request.onSet qs o.set).1 →
      (runAll Request.run qs' o'.keywords).1.render =
        (runAll Request.run qs o.keywords).1.render := by
  have hrun : ∀ (o : Origin) (qs : List Request),
      ((runAll Request.run qs o.keywords).1.members, (runAll Request.run qs o.keywords).2) =
        runAll Request.onSet qs o.set := by
    intro o qs
    rw [← members_keywords, members_runAll]
  refine ⟨?_, fun o' qs' ho hqs => ?_, fun o' qs' hsame => ?_⟩
  · rw [← hrun o qs]
    exact ⟨rfl, size_eq_card _, isEmpty_iff, toList_eq_sort _⟩
  · have hset : runAll Request.onSet qs' o'.set = runAll Request.onSet qs o.set := by
      rw [← Origin.set_congr ho, runAll_onSet_congr hqs]
    rw [← hrun o qs, ← hrun o' qs', Prod.mk.injEq] at hset
    exact Prod.ext (members_inj hset.1) hset.2
  · rw [← hrun o qs, ← hrun o' qs'] at hsame
    rw [members_inj hsame]

/-- A field with two keywords, one of which is written in label form. -/
def noticeField : Origin := .field "news,\\Trash"

/-- A list of the same keywords in folder form. -/
def noticeList : Origin := .list ["news", "gmail.Trash"]

/-- Requests that call a keyword by two names. -/
def discarding (name other : Text) : List Request :=
  [.insert name, .contains other, .erase "news", .erase "news"]

/-- By whatever name it is called, the keyword is there at first and is all that is left, so that
the same is written as for a set that it was added to. -/
theorem discarding_answers_as_set :
    List.Forall₂ SpellsAlike noticeField.names noticeList.names ∧
      List.Forall₂ Request.Alike (discarding "\\Trash" "gmail.Trash")
        (discarding "gmail.Trash" "\\Trash") ∧
      runAll Request.run (discarding "gmail.Trash" "\\Trash") noticeList.keywords =
        runAll Request.run (discarding "\\Trash" "gmail.Trash") noticeField.keywords ∧
      (runAll Request.onSet [.insert "gmail.Trash"] (Origin.list []).set).1 =
        (runAll Request.onSet (discarding "\\Trash" "gmail.Trash") noticeField.set).1 ∧
      (runAll Request.run [.insert "gmail.Trash"] (Origin.list []).keywords).1.render =
        (runAll Request.run (discarding "\\Trash" "gmail.Trash") noticeField.keywords).1.render ∧
      (runAll Request.run (discarding "\\Trash" "gmail.Trash") noticeField.keywords).2 =
        [false, true, true, false] := by
  have hnames : noticeField.names = ([("news" : Text), ("\\Trash" : Text)] : List Text) := by decide
  have htrash : SpellsAlike "\\Trash" "gmail.Trash" :=
    .inr ⟨.trash, by decide, .inl rfl, .inr rfl⟩
  have hfolder : SpellsAlike "gmail.Trash" "\\Trash" :=
    .inr ⟨.trash, by decide, .inr rfl, .inl rfl⟩
  have horigin : List.Forall₂ SpellsAlike noticeField.names noticeList.names := by
    rw [hnames]
    exact .cons (.inl rfl) (.cons htrash .nil)
  have hrequests : List.Forall₂ Request.Alike (discarding "\\Trash" "gmail.Trash")
      (discarding "gmail.Trash" "\\Trash") :=
    .cons (.insert htrash) (.cons (.contains hfolder)
      (.cons (.erase (.inl rfl)) (.cons (.erase (.inl rfl)) .nil)))
  have hset : (runAll Request.onSet [.insert "gmail.Trash"] (Origin.list []).set).1 =
      (runAll Request.onSet (discarding "\\Trash" "gmail.Trash") noticeField.set).1 := by decide
  have hresult := answers_as_set noticeField (discarding "\\Trash" "gmail.Trash")
  exact ⟨horigin, hrequests, hresult.2.1 _ _ horigin hrequests, hset, hresult.2.2 _ _ hset,
    by decide⟩

end Keywords

end Mailroom
