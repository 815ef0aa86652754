import Mathlib.Data.List.Nodup
import Mailroom.Proofs.Disk.Sound
import Mailroom.Summary

/-!
# Counting actions

A summary is told by how often each action was counted.  Hence it does not matter in which order
actions are counted, nor whether they are counted one after the other or in parts that are merged.

* `Dictionary.find?_update` and `Dictionary.ext_find?` are the laws of dictionaries.
* `Summary.recordAll` counts a list of actions; `Summary.recordAll_perm` and
  `Summary.merge_recordAll` are the two results.
-/

namespace Mailroom

/-! ## Dictionaries -/

section Lookup

variable {α : Type} {key k : Text} {f : Option α → α} {l : List (Text × α)}

theorem lookup_eq_none_of_lt (h : ∀ e ∈ l, key < e.1) : l.lookup key = none := by
  induction l with
  | nil => rfl
  | cons e es ih =>
    have hne : key ≠ e.1 := by
      intro heq
      exact absurd (h e (by simp)) (heq ▸ List.lt_irrefl key)
    rw [lookup_cons_of_ne hne]
    exact ih fun e' he' => h e' (by simp [he'])

theorem lookup_cons_self (e : Text × α) (l : List (Text × α)) :
    (e :: l).lookup e.1 = some e.2 := List.lookup_cons_self

theorem lookup_updateSorted (hl : (l.map Prod.fst).Pairwise (· < ·)) :
    (updateSorted key f l).lookup k =
      if k = key then some (f (l.lookup key)) else l.lookup k := by
  induction l with
  | nil =>
    by_cases hk : k = key
    · subst hk
      rw [if_pos rfl]
      exact lookup_cons_self (k, f none) []
    · rw [if_neg hk]
      exact lookup_cons_of_ne hk
  | cons e es ih =>
    obtain ⟨hlt, hes⟩ := List.pairwise_cons.1 hl
    simp only [updateSorted]
    split
    · -- the key comes before all others
      rename_i hkey
      have hnone : (e :: es).lookup key = none := by
        refine lookup_eq_none_of_lt fun e' he' => ?_
        rcases List.mem_cons.1 he' with rfl | he'
        · exact hkey
        · exact List.lt_trans hkey (hlt _ (List.mem_map_of_mem he'))
      by_cases hk : k = key
      · subst hk
        rw [if_pos rfl, hnone]
        exact lookup_cons_self (k, f none) _
      · rw [if_neg hk]
        exact lookup_cons_of_ne hk
    · split
      · rename_i hkey
        subst hkey
        by_cases hk : k = e.1
        · subst hk
          rw [if_pos rfl, lookup_cons_self]
          exact lookup_cons_self (e.1, f (some e.2)) es
        · rw [if_neg hk, lookup_cons_of_ne hk]
          exact lookup_cons_of_ne hk
      · rename_i hkey
        by_cases hk : k = e.1
        · subst hk
          rw [if_neg (Ne.symm hkey), lookup_cons_self, lookup_cons_self]
        · rw [lookup_cons_of_ne hk, lookup_cons_of_ne hk, lookup_cons_of_ne hkey]
          exact ih hes

/-- Two increasing lists of entries in which the same is found are one list. -/
theorem entries_eq_of_lookup {l' : List (Text × α)} (hl : (l.map Prod.fst).Pairwise (· < ·))
    (hl' : (l'.map Prod.fst).Pairwise (· < ·)) (h : ∀ k, l.lookup k = l'.lookup k) : l = l' := by
  have hkeys := nodup_of_increasing hl
  have hkeys' := nodup_of_increasing hl'
  have hmem : ∀ e, e ∈ l ↔ e ∈ l' := fun ⟨k, a⟩ =>
    ⟨fun he => mem_of_lookup ((h k).symm.trans (lookup_of_mem hkeys he)),
      fun he => mem_of_lookup ((h k).trans (lookup_of_mem hkeys' he))⟩
  have hperm : l.Perm l' := (List.perm_ext_iff_of_nodup (List.Nodup.of_map Prod.fst hkeys)
    (List.Nodup.of_map Prod.fst hkeys')).2 hmem
  exact hperm.eq_of_pairwise
    (fun a b _ _ hab hba => absurd (List.lt_trans hab hba) (List.lt_irrefl a.1))
    (List.pairwise_map.1 hl) (List.pairwise_map.1 hl')

end Lookup

namespace Dictionary

variable {α : Type}

theorem find?_update (d : Dictionary α) (key : Text) (f : Option α → α) (k : Text) :
    (d.update key f).find? k = if k = key then some (f (d.find? key)) else d.find? k :=
  lookup_updateSorted d.increasing

/-- Dictionaries in which the same is found are one. -/
theorem ext_find? {d d' : Dictionary α} (h : ∀ k, d.find? k = d'.find? k) : d = d' := by
  obtain ⟨l, hl⟩ := d
  obtain ⟨l', hl'⟩ := d'
  obtain rfl : l = l' := entries_eq_of_lookup hl hl' h
  rfl

end Dictionary

/-! ## Summaries -/

namespace Summary

/-- Counts some actions. -/
def recordAll (s : Summary) (actions : List Text) : Summary := actions.foldl record s

@[simp] theorem recordAll_nil (s : Summary) : s.recordAll [] = s := rfl

theorem recordAll_append (s : Summary) (as bs : List Text) :
    s.recordAll (as ++ bs) = (s.recordAll as).recordAll bs := List.foldl_append

/-- What is found after something was added to some counts. -/
theorem find?_addAll (l : List (Text × Nat)) (s : Summary) (hl : (l.map Prod.fst).Nodup)
    (k : Text) : (l.foldl (fun s e => s.add e.1 e.2) s).counts.find? k =
      match l.lookup k with
      | none => s.counts.find? k
      | some n => some ((s.counts.find? k).getD 0 + n) := by
  induction l generalizing s with
  | nil => rfl
  | cons e es ih =>
    obtain ⟨hnew, hes⟩ := List.nodup_cons.1 hl
    rw [List.foldl_cons, ih _ hes, add, Dictionary.find?_update]
    by_cases hk : k = e.1
    · subst hk
      have hnone : es.lookup e.1 = none := by
        refine List.lookup_eq_none_iff.2 fun e' he' => ?_
        rw [bne_iff_ne]
        exact fun heq => hnew (List.mem_map.2 ⟨e', he', heq.symm⟩)
      rw [if_pos rfl, hnone, lookup_cons_self]
    · rw [if_neg hk, lookup_cons_of_ne hk]

theorem find?_merge (s other : Summary) (k : Text) : (s.merge other).counts.find? k =
    match other.counts.find? k with
    | none => s.counts.find? k
    | some n => some ((s.counts.find? k).getD 0 + n) :=
  find?_addAll other.counts.entries s (nodup_of_increasing other.counts.increasing) k

theorem find?_recordAll (s : Summary) (actions : List Text) (k : Text) :
    (s.recordAll actions).counts.find? k = if actions.count k = 0 then s.counts.find? k
      else some ((s.counts.find? k).getD 0 + actions.count k) := by
  induction actions generalizing s with
  | nil => simp
  | cons a actions ih =>
    rw [recordAll, List.foldl_cons, ← recordAll, ih, record, add, Dictionary.find?_update,
      List.count_cons]
    by_cases hk : k = a
    · subst hk
      simp only [if_true, BEq.rfl, Option.getD_some]
      split
      · rename_i hnone
        simp [hnone]
      · rw [if_neg (by omega)]
        exact congrArg some (by omega)
    · have hne : (a == k) = false := beq_eq_false_iff_ne.2 (Ne.symm hk)
      simp [hk, hne]

theorem ext_find? {s s' : Summary} (h : ∀ k, s.counts.find? k = s'.counts.find? k) : s = s' := by
  obtain ⟨d⟩ := s
  obtain ⟨d'⟩ := s'
  exact congrArg Summary.mk (Dictionary.ext_find? h)

/-- Actions may be counted in any order. -/
theorem recordAll_perm (s : Summary) {as bs : List Text} (h : as.Perm bs) :
    s.recordAll as = s.recordAll bs :=
  ext_find? fun k => by rw [find?_recordAll, find?_recordAll, h.count_eq]

/-- Actions may be counted before their summary is merged, or after it. -/
theorem merge_recordAll (s other : Summary) (actions : List Text) :
    s.merge (other.recordAll actions) = (s.merge other).recordAll actions := by
  refine ext_find? fun k => ?_
  rw [find?_merge, find?_recordAll, find?_recordAll, find?_merge]
  by_cases hcount : actions.count k = 0
  · rw [if_pos hcount, if_pos hcount]
  · rw [if_neg hcount, if_neg hcount]
    cases other.counts.find? k with
    | none => simp
    | some n => simp [Nat.add_assoc]

/-- There is nothing to merge with a summary of nothing. -/
theorem merge_empty (s : Summary) : s.merge empty = s := rfl

end Summary

end Mailroom
