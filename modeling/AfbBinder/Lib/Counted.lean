import AfbBinder.Lib.Keyed
import Mathlib.Data.List.Count

/-!
# Counted references

Objects that count the references to them.  Each holder refers to one object; an object is
there as long as it is referred to.
-/

namespace AfbBinder.Lib

universe u v

variable {κ : Type u} [DecidableEq κ] {objects : List (κ × Int)} {holders holders' : List κ} {k : κ}

/-- The objects, each with its count, and for each holder the object that it refers to. -/
structure Counted (objects : List (κ × Int)) (holders : List κ) : Prop where
  distinct : (objects.map Prod.fst).Nodup
  count : ∀ entry ∈ objects, entry.2 = holders.count entry.1
  held : ∀ k, k ∈ holders ↔ k ∈ objects.map Prod.fst

namespace Counted

/-- The count of one object is changed. -/
def adjust (k : κ) (by' : Int) (objects : List (κ × Int)) : List (κ × Int) :=
  objects.map fun entry => if entry.1 = k then (entry.1, entry.2 + by') else entry

theorem adjust_keys (k : κ) (by' : Int) (objects : List (κ × Int)) :
    (adjust k by' objects).map Prod.fst = objects.map Prod.fst := by
  rw [adjust, List.map_map]
  apply List.map_congr_left
  intro entry _
  show (if entry.1 = k then (entry.1, entry.2 + by') else entry).1 = entry.1
  split <;> rfl

/-- The counts of records with keys. -/
theorem adjust_modify {α : Type v} {entry : α → κ × Int} {key : α → κ} {change : α → α} {n : Int}
    (hkey : ∀ a, (entry a).1 = key a) (hchange : ∀ a, entry (change a) = ((entry a).1, (entry a).2 + n))
    (k : κ) (l : List α) :
    (Keyed.modify key k change l).map entry = adjust k n (l.map entry) := by
  rw [Keyed.modify, List.map_map, adjust, List.map_map]
  apply List.map_congr_left
  intro a _
  show entry (if key a = k then change a else a) =
    if (entry a).1 = k then ((entry a).1, (entry a).2 + n) else entry a
  rw [hkey]
  split
  · rw [hchange, hkey]
  · rfl

theorem nil : Counted ([] : List (κ × Int)) [] :=
  ⟨List.nodup_nil, fun _ h => absurd h List.not_mem_nil, fun _ => Iff.rfl⟩

theorem positive (h : Counted objects holders) {entry : κ × Int} (hentry : entry ∈ objects) :
    0 < entry.2 := by
  have hheld : entry.1 ∈ holders := (h.held entry.1).mpr (List.mem_map_of_mem hentry)
  have hcount := List.count_pos_iff.mpr hheld
  rw [h.count entry hentry]
  omega

theorem unique (h : Counted objects holders) {n m : Int} (hn : (k, n) ∈ objects)
    (hm : (k, m) ∈ objects) : n = m :=
  (h.count _ hn).trans (h.count _ hm).symm

theorem perm (h : Counted objects holders) (hperm : holders.Perm holders') :
    Counted objects holders' := by
  constructor
  · exact h.distinct
  · intro entry hentry
    rw [← hperm.count_eq]
    exact h.count entry hentry
  · intro k
    rw [← hperm.mem_iff]
    exact h.held k

/-- One more holder refers to an object that is there. -/
theorem addref (h : Counted objects holders) (hk : k ∈ objects.map Prod.fst) :
    Counted (adjust k 1 objects) (k :: holders) := by
  constructor
  · rw [adjust_keys]
    exact h.distinct
  · intro entry hentry
    rcases List.mem_map.mp hentry with ⟨old, hold, rfl⟩
    have hcount := h.count old hold
    by_cases hsame : old.1 = k
    · simp only [hsame, if_true, List.count_cons_self] at hcount ⊢
      omega
    · simp only [hsame, if_false, List.count_cons_of_ne (Ne.symm hsame)]
      exact hcount
  · intro j
    rw [adjust_keys, List.mem_cons, h.held]
    constructor
    · rintro (rfl | hj)
      · exact hk
      · exact hj
    · exact .inr

theorem create (h : Counted objects holders) (hk : k ∉ objects.map Prod.fst) :
    Counted ((k, 1) :: objects) (k :: holders) := by
  constructor
  · exact List.nodup_cons.mpr ⟨hk, h.distinct⟩
  · intro entry hentry
    rcases List.mem_cons.mp hentry with rfl | hentry
    · have hnone : holders.count k = 0 :=
        List.count_eq_zero.mpr fun hin => hk ((h.held k).mp hin)
      simp [hnone]
    · have hne : k ≠ entry.1 := fun hsame => hk (hsame ▸ List.mem_map_of_mem hentry)
      rw [List.count_cons_of_ne hne]
      exact h.count entry hentry
  · intro j
    rw [List.map_cons, List.mem_cons, List.mem_cons, h.held]

/-- The holders are one less on an object. -/
def Leaves (holders holders' : List κ) (k : κ) : Prop :=
  ∀ j, holders.count j = holders'.count j + if j = k then 1 else 0

theorem Leaves.mem (h : Leaves holders holders' k) {j : κ} :
    j ∈ holders' ↔ j ∈ holders ∧ (j = k → holders.count k ≠ 1) := by
  have hcount := h j
  rw [← List.count_pos_iff, ← List.count_pos_iff]
  by_cases hsame : j = k
  · subst hsame
    simp only [if_true] at hcount
    simp only [true_implies]
    omega
  · simp only [hsame, if_false, false_implies, and_true] at hcount ⊢
    omega

theorem Leaves.holds (h : Leaves holders holders' k) : k ∈ holders := by
  have hcount := h k
  rw [if_pos rfl] at hcount
  exact List.count_pos_iff.mp (by omega)

theorem Leaves.head (k : κ) (holders : List κ) : Leaves (k :: holders) holders k := by
  intro j
  rw [List.count_cons]
  simp only [beq_iff_eq, @eq_comm _ k]

theorem Leaves.append_left (others : List κ) (h : Leaves holders holders' k) :
    Leaves (others ++ holders) (others ++ holders') k := by
  intro j
  rw [List.count_append, List.count_append, h j, Nat.add_assoc]

theorem Leaves.append_right (others : List κ) (h : Leaves holders holders' k) :
    Leaves (holders ++ others) (holders' ++ others) k := by
  intro j
  rw [List.count_append, List.count_append, h j]
  omega

/-- A holder leaves an object that others refer to. -/
theorem unref (h : Counted objects holders) (hleaves : Leaves holders holders' k) {n : Int}
    (hn : (k, n) ∈ objects) (hmore : n - 1 ≠ 0) : Counted (adjust k (-1) objects) holders' := by
  have hk := h.count _ hn
  constructor
  · rw [adjust_keys]
    exact h.distinct
  · intro entry hentry
    rcases List.mem_map.mp hentry with ⟨old, hold, rfl⟩
    have hcount := h.count old hold
    have hless := hleaves old.1
    by_cases hsame : old.1 = k
    · simp only [hsame, if_true] at hcount hless ⊢
      omega
    · simp only [hsame, if_false, Nat.add_zero] at hless ⊢
      rw [hcount, hless]
  · intro j
    rw [adjust_keys, hleaves.mem, ← h.held]
    simp only [and_iff_left_iff_imp]
    intro _ _ hone
    rw [hone] at hk
    exact hmore (by omega)

/-- The last holder takes the object away. -/
theorem last (h : Counted objects holders) (hleaves : Leaves holders holders' k) {n : Int}
    (hn : (k, n) ∈ objects) (hlast : n - 1 = 0) :
    Counted (objects.filter fun entry => entry.1 ≠ k) holders' := by
  have hk := h.count _ hn
  have hone : holders.count k = 1 := by
    simp only at hk
    omega
  constructor
  · exact h.distinct.sublist (List.filter_sublist.map Prod.fst)
  · intro entry hentry
    rcases List.mem_filter.mp hentry with ⟨hentry, hne⟩
    have hless := hleaves entry.1
    rw [if_neg (by simpa using hne), Nat.add_zero] at hless
    rw [h.count entry hentry, hless]
  · intro j
    rw [hleaves.mem, h.held]
    constructor
    · rintro ⟨hj, hother⟩
      rcases List.mem_map.mp hj with ⟨entry, hentry, rfl⟩
      have hne : entry.1 ≠ k := fun hsame => hother hsame hone
      exact List.mem_map_of_mem (List.mem_filter.mpr ⟨hentry, by simpa using hne⟩)
    · intro hj
      rcases List.mem_map.mp hj with ⟨entry, hentry, rfl⟩
      rcases List.mem_filter.mp hentry with ⟨hentry, hne⟩
      exact ⟨List.mem_map_of_mem hentry, fun hsame => absurd hsame (by simpa using hne)⟩

theorem leaves_filter {α : Type v} {ι : Type v} [DecidableEq ι] {key : α → ι} {l : List α} {a : α}
    (view : α → κ) (hdistinct : (l.map key).Nodup) (ha : a ∈ l) :
    Leaves (l.map view) ((l.filter fun other => key other ≠ key a).map view) (view a) := by
  induction l with
  | nil => exact absurd ha List.not_mem_nil
  | cons b l ih =>
      rw [List.map_cons, List.nodup_cons] at hdistinct
      intro j
      rcases List.mem_cons.mp ha with rfl | ha
      · have hrest : (l.filter fun other => key other ≠ key a) = l := by
          apply List.filter_eq_self.mpr
          intro other hother
          have hne : key other ≠ key a := fun hsame => hdistinct.1 (hsame ▸ List.mem_map_of_mem hother)
          simpa using hne
        rw [List.filter_cons_of_neg (by simp), hrest, List.map_cons, List.count_cons]
        simp only [beq_iff_eq, @eq_comm _ (view a)]
      · have hne : key b ≠ key a := fun hsame => hdistinct.1 (hsame ▸ List.mem_map_of_mem ha)
        have hih := ih hdistinct.2 ha j
        rw [List.filter_cons_of_pos (by simpa using hne), List.map_cons, List.map_cons,
          List.count_cons, List.count_cons, hih]
        omega

end Counted

end AfbBinder.Lib
