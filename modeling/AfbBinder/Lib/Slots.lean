/-!
# Tables of slots

A table of optional entries filled at its first empty slot and cleared at the
first slot that holds a given entry, and what replacing one entry of any table changes.
-/

namespace AfbBinder.Lib.Slots

universe u

variable {α : Type u}

/-- Puts `a` in the first empty slot; `none` when the table is full. -/
def fill (a : α) : List (Option α) → Option (List (Option α))
  | [] => none
  | none :: rest => some (some a :: rest)
  | some b :: rest =>
      match fill a rest with
      | none => none
      | some filled => some (some b :: filled)

/-- Empties the first slot that holds `a`; `none` when there is none. -/
def clear [DecidableEq α] (a : α) : List (Option α) → Option (List (Option α))
  | [] => none
  | slot :: rest =>
      if slot = some a then some (none :: rest)
      else
        match clear a rest with
        | none => none
        | some cleared => some (slot :: cleared)

def occupied (slots : List (Option α)) : Nat := slots.countP Option.isSome

theorem fill_some {a : α} {slots filled : List (Option α)} (h : fill a slots = some filled) :
    ∃ front back, slots = front ++ none :: back ∧ filled = front ++ some a :: back := by
  induction slots generalizing filled with
  | nil => simp [fill] at h
  | cons slot rest ih =>
      cases slot with
      | none =>
          simp only [fill, Option.some.injEq] at h
          exact ⟨[], rest, rfl, h.symm⟩
      | some b =>
          cases hr : fill a rest with
          | none => simp [fill, hr] at h
          | some restFilled =>
              simp only [fill, hr, Option.some.injEq] at h
              obtain ⟨front, back, rfl, rfl⟩ := ih hr
              exact ⟨some b :: front, back, rfl, h.symm⟩

theorem fill_isSome (a : α) (slots : List (Option α)) :
    (fill a slots).isSome ↔ none ∈ slots := by
  induction slots with
  | nil => simp [fill]
  | cons slot rest ih =>
      cases slot with
      | none => simp [fill]
      | some b =>
          cases hr : fill a rest with
          | none => simpa [fill, hr] using ih
          | some filled => simpa [fill, hr] using ih

theorem occupied_fill {a : α} {slots filled : List (Option α)} (h : fill a slots = some filled) :
    occupied filled = occupied slots + 1 := by
  obtain ⟨front, back, rfl, rfl⟩ := fill_some h
  simp only [occupied, List.countP_append, List.countP_cons, Option.isSome_none,
    Option.isSome_some, Bool.false_eq_true, if_false, if_true]
  omega

theorem length_fill {a : α} {slots filled : List (Option α)} (h : fill a slots = some filled) :
    filled.length = slots.length := by
  obtain ⟨front, back, rfl, rfl⟩ := fill_some h
  simp

theorem occupied_le_length (slots : List (Option α)) : occupied slots ≤ slots.length :=
  List.countP_le_length

/-! ## Replacing one entry -/

theorem split_set {xs : List α} {i : Nat} {x : α} (h : xs[i]? = some x) :
    ∃ front back, xs = front ++ x :: back ∧ ∀ y, xs.set i y = front ++ y :: back := by
  induction xs generalizing i with
  | nil => simp at h
  | cons first rest ih =>
      cases i with
      | zero =>
          simp only [List.getElem?_cons_zero, Option.some.injEq] at h
          subst h
          exact ⟨[], rest, rfl, fun y => rfl⟩
      | succ i =>
          obtain ⟨front, back, rfl, hset⟩ := ih (by simpa using h)
          exact ⟨first :: front, back, rfl, fun y => by simp [hset y]⟩

theorem countP_set_add (p : α → Bool) {xs : List α} {i : Nat} {x : α} (y : α)
    (hx : xs[i]? = some x) :
    (xs.set i y).countP p + (if p x then 1 else 0) = xs.countP p + (if p y then 1 else 0) := by
  obtain ⟨hi, rfl⟩ := List.getElem?_eq_some_iff.mp hx
  rw [List.countP_set hi]
  have hpos : p xs[i] = true → 0 < xs.countP p := fun h =>
    List.countP_pos_iff.mpr ⟨xs[i], List.getElem_mem hi, h⟩
  by_cases h : p xs[i] = true
  · have := hpos h
    simp only [h, if_true]
    omega
  · simp [h]

/-! ## Clearing -/

variable [DecidableEq α]

theorem clear_some {a : α} {slots cleared : List (Option α)} (h : clear a slots = some cleared) :
    ∃ front back, slots = front ++ some a :: back ∧ cleared = front ++ none :: back := by
  induction slots generalizing cleared with
  | nil => simp [clear] at h
  | cons slot rest ih =>
      by_cases hs : slot = some a
      · simp only [clear, hs, if_true, Option.some.injEq] at h
        exact ⟨[], rest, by simp [hs], h.symm⟩
      · cases hr : clear a rest with
        | none => simp [clear, hs, hr] at h
        | some restCleared =>
            simp only [clear, hs, hr, if_false, Option.some.injEq] at h
            obtain ⟨front, back, rfl, rfl⟩ := ih hr
            exact ⟨slot :: front, back, rfl, h.symm⟩

theorem clear_of_mem {a : α} {slots : List (Option α)} (h : some a ∈ slots) :
    ∃ cleared, clear a slots = some cleared := by
  induction slots with
  | nil => simp at h
  | cons slot rest ih =>
      by_cases hs : slot = some a
      · exact ⟨none :: rest, by simp [clear, hs]⟩
      · have hr : some a ∈ rest := by
          rcases List.mem_cons.mp h with h | h
          · exact absurd h.symm hs
          · exact h
        obtain ⟨cleared, hc⟩ := ih hr
        exact ⟨slot :: cleared, by simp [clear, hs, hc]⟩

theorem occupied_clear {a : α} {slots cleared : List (Option α)}
    (h : clear a slots = some cleared) : occupied slots = occupied cleared + 1 := by
  obtain ⟨front, back, rfl, rfl⟩ := clear_some h
  simp only [occupied, List.countP_append, List.countP_cons, Option.isSome_none,
    Option.isSome_some, Bool.false_eq_true, if_false, if_true]
  omega

theorem length_clear {a : α} {slots cleared : List (Option α)}
    (h : clear a slots = some cleared) : cleared.length = slots.length := by
  obtain ⟨front, back, rfl, rfl⟩ := clear_some h
  simp

theorem count_fill {a : α} {slots filled : List (Option α)} (h : fill a slots = some filled)
    (b : α) : filled.count (some b) = slots.count (some b) + if a = b then 1 else 0 := by
  obtain ⟨front, back, rfl, rfl⟩ := fill_some h
  simp only [List.count_append, List.count_cons, beq_iff_eq, Option.some.injEq]
  simp
  omega

theorem count_clear {a : α} {slots cleared : List (Option α)}
    (h : clear a slots = some cleared) (b : α) :
    slots.count (some b) = cleared.count (some b) + if a = b then 1 else 0 := by
  obtain ⟨front, back, rfl, rfl⟩ := clear_some h
  simp only [List.count_append, List.count_cons, beq_iff_eq, Option.some.injEq]
  simp
  omega

/-- Clearing an entry moves no other one. -/
theorem getElem?_clear {a b : α} {slots cleared : List (Option α)}
    (h : clear a slots = some cleared) (hne : a ≠ b) (i : Nat) :
    cleared[i]? = some (some b) ↔ slots[i]? = some (some b) := by
  induction slots generalizing cleared i with
  | nil => simp [clear] at h
  | cons slot rest ih =>
      by_cases hs : slot = some a
      · simp only [clear, hs, if_true, Option.some.injEq] at h
        subst h
        cases i with
        | zero => simp [hs, hne]
        | succ i => simp
      · cases hr : clear a rest with
        | none => simp [clear, hs, hr] at h
        | some restCleared =>
            simp only [clear, hs, hr, if_false, Option.some.injEq] at h
            subst h
            cases i with
            | zero => simp
            | succ i => simpa using ih hr i

theorem getElem?_of_clear {a b : α} {slots cleared : List (Option α)}
    (h : clear a slots = some cleared) {i : Nat} (hi : cleared[i]? = some (some b)) :
    slots[i]? = some (some b) := by
  obtain ⟨front, back, rfl, rfl⟩ := clear_some h
  rcases Nat.lt_trichotomy i front.length with hlt | heq | hgt
  · rwa [List.getElem?_append_left hlt] at hi ⊢
  · rw [List.getElem?_append_right (by omega), heq, Nat.sub_self] at hi
    cases hi
  · have hk : i - front.length = (i - front.length - 1) + 1 := by omega
    rw [List.getElem?_append_right (by omega), hk, List.getElem?_cons_succ] at hi ⊢
    exact hi

theorem index_unique {a : α} {slots : List (Option α)} (hcount : slots.count (some a) ≤ 1)
    {i j : Nat} (hi : slots[i]? = some (some a)) (hj : slots[j]? = some (some a)) : i = j := by
  induction slots generalizing i j with
  | nil => simp at hi
  | cons slot rest ih =>
      rw [List.count_cons] at hcount
      have hmem : ∀ k, rest[k]? = some (some a) → 0 < rest.count (some a) := fun k hk =>
        List.count_pos_iff.mpr (List.mem_of_getElem? hk)
      cases i with
      | zero =>
          cases j with
          | zero => rfl
          | succ j =>
              simp only [List.getElem?_cons_zero, Option.some.injEq] at hi
              have := hmem j (by simpa using hj)
              simp only [hi, beq_self_eq_true, if_true] at hcount
              omega
      | succ i =>
          cases j with
          | zero =>
              simp only [List.getElem?_cons_zero, Option.some.injEq] at hj
              have := hmem i (by simpa using hi)
              simp only [hj, beq_self_eq_true, if_true] at hcount
              omega
          | succ j =>
              have h := ih (by omega) (by simpa using hi) (by simpa using hj)
              omega

end AfbBinder.Lib.Slots
