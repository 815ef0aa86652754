import Mailroom.Proofs.Disk.Sound

/-!
# Planting a tree

A tree whose folders hold proper names, each once, makes a sound disk.

* `Tree.isProper` tells whether a tree is one of a file system.
* `Disk.sound_plant` makes a sound disk of it.
-/

namespace Mailroom

mutual

/-- Whether every folder of a tree holds proper names only, each of them once. -/
def Tree.isProper : Tree → Bool
  | .file _ _ => true
  | .folder children => Tree.areProper children

/-- Whether the content of a folder is proper. -/
def Tree.areProper : List (Text × Tree) → Bool
  | [] => true
  | (name, t) :: rest =>
    decide (IsName name) && rest.all (fun c => c.1 != name) && t.isProper && areProper rest

end

namespace Disk

/-- Planting below a path changes nothing elsewhere. -/
def Planted (ps : List Path) (d d' : Disk) : Prop :=
  d'.Sound ∧ ∀ q, (∀ p ∈ ps, ¬ p <+: q) → d'.item? q = d.item? q

mutual

theorem planted_plant {d : Disk} (hd : d.Sound) {p : Path} {name : Text} (hp : d.item? p = some .folder)
    (hname : IsName name) (hfree : d.item? (p ++ [name]) = none) :
    (t : Tree) → t.isProper = true → Planted [p ++ [name]] d (d.plant (p ++ [name]) t)
  | .file content modified, _ => by
    have hne : p ++ [name] ≠ [] := by simp
    refine ⟨?_, ?_⟩
    · rw [plant]
      refine hd.put_file _ hp hname (by simp [hfree]) ?_ (Nat.lt_succ_self _) (Nat.le_succ _)
      intro q g hq hid
      exact absurd hid (Nat.ne_of_lt (hd.fresh q g hq))
    · intro q hq
      rw [plant]
      refine (item?_put d hne _ q).trans (if_neg ?_)
      rintro rfl
      exact hq _ (by simp) (List.prefix_refl _)
  | .folder children, hproper => by
    have hne : p ++ [name] ≠ [] := by simp
    have hput := hd.put_folder hp hname
    have hitem := item?_put d hne Item.folder
    have hempty : ∀ c ∈ children, (d.put (p ++ [name]) .folder).item? (p ++ [name] ++ [c.1]) =
        none := by
      intro c _
      rw [hitem, if_neg (by simp)]
      cases hchild : d.item? (p ++ [name] ++ [c.1]) with
      | none => rfl
      | some i =>
        have hparent := hd.parent _ c.1 (by rw [hchild]; rfl)
        rw [hfree] at hparent
        simp at hparent
    obtain ⟨hsound, hsame⟩ := planted_plantAll hput (by rw [hitem, if_pos rfl]) children hempty
      (by simpa [Tree.isProper] using hproper)
    rw [plant, if_neg hne]
    refine ⟨hsound, fun q hq => ?_⟩
    have hnot := hq _ (List.mem_singleton_self _)
    rw [hsame q, hitem, if_neg]
    · rintro rfl
      exact hnot (List.prefix_refl _)
    · intro r hr hpre
      obtain ⟨c, -, rfl⟩ := List.mem_map.1 hr
      exact hnot ((List.prefix_append _ _).trans hpre)

theorem planted_plantAll {d : Disk} (hd : d.Sound) {p : Path} (hp : d.item? p = some .folder) :
    (children : List (Text × Tree)) → (∀ c ∈ children, d.item? (p ++ [c.1]) = none) →
      Tree.areProper children = true →
      Planted (children.map (fun c => p ++ [c.1])) d (d.plantAll p children)
  | [], _, _ => by
    rw [plantAll]
    exact ⟨hd, fun _ _ => rfl⟩
  | (name, t) :: rest, hfree, hproper => by
    simp only [Tree.areProper, Bool.and_eq_true, decide_eq_true_eq, List.all_eq_true,
      bne_iff_ne] at hproper
    obtain ⟨⟨⟨hname, hother⟩, ht⟩, hrest⟩ := hproper
    obtain ⟨hsound, hsame⟩ := planted_plant hd hp hname (hfree (name, t) (by simp)) t ht
    -- the other names are still free, and the folder is still there
    have hkeeps : ∀ q, ¬ (p ++ [name]) <+: q → (d.plant (p ++ [name]) t).item? q = d.item? q := by
      intro q hq
      refine hsame q fun r hr => ?_
      obtain rfl := List.mem_singleton.1 hr
      exact hq
    have hp' : (d.plant (p ++ [name]) t).item? p = some .folder := by
      rw [hkeeps p, hp]
      intro hpre
      have hlength := hpre.length_le
      simp only [List.length_append, List.length_singleton] at hlength
      omega
    obtain ⟨hsound', hsame'⟩ := planted_plantAll hsound hp' rest (fun c hc => by
      rw [hkeeps]
      · exact hfree c (by simp [hc])
      · intro hpre
        have heq := hpre.eq_of_length (by simp)
        have := (List.append_inj' heq rfl).2
        simp only [List.cons.injEq, and_true] at this
        exact hother c hc this.symm) hrest
    rw [plantAll]
    refine ⟨hsound', fun q hq => ?_⟩
    rw [hsame' q fun r hr => hq r (by simpa using Or.inr (by simpa using hr)),
      hkeeps q (hq _ (by simp))]

end

/-- A proper tree makes a sound disk. -/
theorem sound_plant (clock : Int) {children : List (Text × Tree)}
    (h : Tree.areProper children = true) : ((Disk.empty clock).plant [] (.folder children)).Sound := by
  rw [plant, if_pos rfl]
  refine (planted_plantAll (Sound.empty clock) (item?_nil _) children (fun c _ => ?_) h).1
  simp [Disk.empty, item?]

end Disk

end Mailroom
