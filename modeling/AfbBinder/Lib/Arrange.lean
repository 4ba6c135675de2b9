import Mathlib.Order.Defs.Unbundled
import Mathlib.Data.List.Basic

/-!
# Lists kept in order

Elements come one after the other and each is put in a list, behind those that must stay
before it.  The list is then sorted by the keys of its elements, and those of one key are
in the order they came.  There is only one such list.
-/

namespace AfbBinder.Lib

universe u v

variable {α : Type u} {κ : Type v}

/-- Puts an element behind the first ones of a list that it passes. -/
def place (passes : α → Bool) (new : α) : List α → List α
  | [] => [new]
  | x :: rest => if passes x then x :: place passes new rest else new :: x :: rest

/-- The list holds the elements given, sorted by key, those of one key as they were given. -/
structure Arranged [DecidableEq κ] (key : α → κ) (le : κ → κ → Prop) (given list : List α) :
    Prop where
  perm : list.Perm given
  sorted : list.Pairwise fun x y => le (key x) (key y)
  stable : ∀ k, (list.filter fun x => key x = k) = given.filter fun x => key x = k

variable {passes : α → Bool} {new : α} {list given : List α}

theorem place_perm : (place passes new list).Perm (new :: list) := by
  induction list with
  | nil => exact List.Perm.refl _
  | cons x rest ih =>
      rw [place]
      split
      · exact (ih.cons x).trans (List.Perm.swap new x rest)
      · exact List.Perm.refl _

theorem Arranged.nil [DecidableEq κ] {key : α → κ} {le : κ → κ → Prop} : Arranged key le [] [] :=
  ⟨List.Perm.refl _, List.Pairwise.nil, fun _ => rfl⟩

section

variable {key : α → κ} {le : κ → κ → Prop} [IsLinearOrder κ le]

theorem place_sorted (hpasses : ∀ x, passes x = true ↔ le (key x) (key new))
    (hsorted : list.Pairwise fun x y => le (key x) (key y)) :
    (place passes new list).Pairwise fun x y => le (key x) (key y) := by
  induction list with
  | nil => exact List.pairwise_singleton _ _
  | cons x rest ih =>
      obtain ⟨hfirst, hrest⟩ := List.pairwise_cons.mp hsorted
      rw [place]
      split
      case isTrue hpass =>
        refine List.pairwise_cons.mpr ⟨?_, ih hrest⟩
        intro y hy
        rcases List.mem_cons.mp (place_perm.mem_iff.mp hy) with rfl | hy
        · exact (hpasses x).mp hpass
        · exact hfirst y hy
      case isFalse hpass =>
        have hnew : le (key new) (key x) := by
          rcases Std.Total.total (r := le) (key new) (key x) with hle | hle
          · exact hle
          · exact absurd ((hpasses x).mpr hle) hpass
        refine List.pairwise_cons.mpr ⟨?_, hsorted⟩
        intro y hy
        rcases List.mem_cons.mp hy with rfl | hy
        · exact hnew
        · exact IsTrans.trans _ _ _ hnew (hfirst y hy)

/-- The new element comes after the others of its key. -/
theorem place_stable [DecidableEq κ] (hpasses : ∀ x, passes x = true ↔ le (key x) (key new))
    (hsorted : list.Pairwise fun x y => le (key x) (key y)) (k : κ) :
    ((place passes new list).filter fun x => key x = k) =
      (list ++ [new]).filter fun x => key x = k := by
  induction list with
  | nil => rfl
  | cons x rest ih =>
      obtain ⟨hfirst, hrest⟩ := List.pairwise_cons.mp hsorted
      rw [place]
      split
      case isTrue hpass =>
        simp only [List.cons_append, List.filter_cons, ih hrest]
      case isFalse hpass =>
        by_cases hk : key new = k
        · -- what follows is strictly behind, so nothing of it has the key
          have hnone : ((x :: rest).filter fun y => key y = k) = [] := by
            apply List.filter_eq_nil_iff.mpr
            intro y hy hkey
            have hsame : key y = key new := (of_decide_eq_true hkey).trans hk.symm
            apply hpass
            rcases List.mem_cons.mp hy with rfl | hy
            · exact (hpasses y).mpr (hsame ▸ Std.Refl.refl _)
            · exact (hpasses x).mpr (hsame ▸ hfirst y hy)
          rw [List.filter_append, hnone, List.filter_cons, hnone]
          simp [hk]
        · rw [List.filter_append, List.filter_cons]
          simp [hk]

theorem Arranged.place [DecidableEq κ] (h : Arranged key le given list)
    (hpasses : ∀ x, passes x = true ↔ le (key x) (key new)) :
    Arranged key le (given ++ [new]) (place passes new list) where
  perm := place_perm.trans ((h.perm.cons new).trans (List.perm_append_singleton new given).symm)
  sorted := place_sorted hpasses h.sorted
  stable := by
    intro k
    rw [place_stable hpasses h.sorted, List.filter_append, List.filter_append, h.stable]

end

end AfbBinder.Lib
