import Mathlib.Logic.Function.Iterate

/-!
# Loops bounded by a number of turns

A loop of C gives a result when it ends within the turns, and a bound that is enough may
be raised.  For the loop `do body while (again)` that looks for a free value, when the
values it tries are distinct and only those of a given list make it turn again, one turn
more than the length of the list is enough.  For the loop `while (test) body`, a measure
that the body decreases is enough.
-/

namespace AfbBinder.Lib

universe u v

variable {σ : Type u} {κ : Type v}

/-- What the first computation gives, the second gives. -/
def Extends {α : Type u} (x y : Option α) : Prop := ∀ a, x = some a → y = some a

namespace Extends

variable {α : Type u} {β : Type v} {x y : Option α} {f g : α → Option β}

theorem refl (x : Option α) : Extends x x := fun _ h => h

theorem bind (hx : Extends x y) (hf : ∀ a, Extends (f a) (g a)) :
    Extends (x.bind f) (y.bind g) := by
  intro b hb
  obtain ⟨a, ha, hfa⟩ := Option.bind_eq_some_iff.mp hb
  rw [hx a ha, Option.bind_some]
  exact hf a b hfa

theorem map (f : α → β) (hx : Extends x y) : Extends (x.map f) (y.map f) := by
  intro b hb
  obtain ⟨a, ha, rfl⟩ := Option.map_eq_some_iff.mp hb
  rw [hx a ha, Option.map_some]

end Extends

/-- `do body while (again)`: `none` when it does not end within the turns. -/
def doWhile (body : σ → σ) (again : σ → Bool) : Nat → σ → Option σ
  | 0, _ => none
  | turns + 1, s => if again (body s) then doWhile body again turns (body s) else some (body s)

variable {body : σ → σ} {again : σ → Bool} {turns : Nat} {s s' : σ}

theorem doWhile_exit (h : doWhile body again turns s = some s') : again s' = false := by
  induction turns generalizing s with
  | zero => cases h
  | succ turns ih =>
      rw [doWhile] at h
      split at h
      case isTrue => exact ih h
      case isFalse hnot =>
        cases h
        simpa using hnot

theorem doWhile_mono {turns' : Nat} (hle : turns ≤ turns')
    (h : doWhile body again turns s = some s') : doWhile body again turns' s = some s' := by
  induction turns generalizing s turns' with
  | zero => cases h
  | succ turns ih =>
      cases turns' with
      | zero => cases hle
      | succ turns' =>
          rw [doWhile] at h ⊢
          split at h
          case isTrue hagain =>
            rw [if_pos hagain]
            exact ih (by omega) h
          case isFalse hagain =>
            rw [if_neg hagain]
            exact h

/-- Every turn of the loop keeps an invariant. -/
theorem doWhile_invariant (inv : σ → Prop) (hbody : ∀ s, inv s → inv (body s)) (hs : inv s)
    (h : doWhile body again turns s = some s') : inv s' := by
  induction turns generalizing s with
  | zero => cases h
  | succ turns ih =>
      rw [doWhile] at h
      split at h
      case isTrue => exact ih (hbody s hs) h
      case isFalse =>
        cases h
        exact hbody s hs

/-- The loop ends on the value of one of its turns. -/
theorem doWhile_iterate (h : doWhile body again turns s = some s') :
    ∃ i, s' = body^[i + 1] s := by
  induction turns generalizing s with
  | zero => cases h
  | succ turns ih =>
      rw [doWhile] at h
      split at h
      case isTrue =>
        obtain ⟨i, rfl⟩ := ih h
        exact ⟨i + 1, rfl⟩
      case isFalse =>
        cases h
        exact ⟨0, rfl⟩

theorem doWhile_none (h : doWhile body again turns s = none) :
    ∀ i < turns, again (body^[i + 1] s) = true := by
  induction turns generalizing s with
  | zero => simp
  | succ turns ih =>
      rw [doWhile] at h
      split at h
      case isFalse => cases h
      case isTrue hagain =>
        intro i hi
        cases i with
        | zero => exact hagain
        | succ i => exact ih h i (by omega)

/-- The loop ends when only the values of a list are refused and the values tried are
distinct. -/
theorem doWhile_ends {key : σ → κ} {used : List κ} (hused : ∀ s, again s = true → key s ∈ used)
    (hdistinct : ∀ i ≤ used.length, ∀ j ≤ used.length,
      key (body^[i + 1] s) = key (body^[j + 1] s) → i = j) :
    ∃ s', doWhile body again (used.length + 1) s = some s' := by
  cases hloop : doWhile body again (used.length + 1) s with
  | some s' => exact ⟨s', rfl⟩
  | none =>
      have hrefused := doWhile_none hloop
      let tried := (List.range (used.length + 1)).map fun i => key (body^[i + 1] s)
      have hnodup : tried.Nodup := by
        apply List.pairwise_map.mpr
        apply List.nodup_range.imp_of_mem
        intro i j hi hj hne heq
        rw [List.mem_range] at hi hj
        exact hne (hdistinct i (by omega) j (by omega) heq)
      have hsubset : tried ⊆ used := by
        intro k hk
        obtain ⟨i, hi, rfl⟩ := List.mem_map.mp hk
        exact hused _ (hrefused i (List.mem_range.mp hi))
      have hlength := hnodup.length_le_of_subset hsubset
      simp only [tried, List.length_map, List.length_range] at hlength
      omega

/-! ## Testing before the body -/

/-- `while (test) body`, stopped after the turns. -/
def whileDo (test : σ → Bool) (body : σ → σ) : Nat → σ → σ
  | 0, s => s
  | turns + 1, s => if test s then whileDo test body turns (body s) else s

variable {test : σ → Bool}

/-- What the body keeps holds at the end; with enough turns the loop has ended. -/
theorem whileDo_spec (inv : σ → Prop) (size : σ → Nat)
    (hbody : ∀ s, inv s → test s = true → inv (body s) ∧ size (body s) < size s)
    (hs : inv s) (hturns : size s ≤ turns) :
    inv (whileDo test body turns s) ∧ test (whileDo test body turns s) = false := by
  induction turns generalizing s with
  | zero =>
      refine ⟨hs, ?_⟩
      cases htest : test s with
      | false => exact htest
      | true =>
          have hlt := (hbody s hs htest).2
          omega
  | succ turns ih =>
      rw [whileDo]
      split
      case isTrue htest =>
        obtain ⟨hinv, hlt⟩ := hbody s hs htest
        exact ih hinv (by omega)
      case isFalse htest => exact ⟨hs, by simpa using htest⟩

/-- Turns that are enough, and other ones that are enough. -/
theorem whileDo_stable {turns' : Nat} (size : σ → Nat)
    (hbody : ∀ s, test s = true → size (body s) < size s) (hturns : size s ≤ turns)
    (hturns' : size s ≤ turns') : whileDo test body turns s = whileDo test body turns' s := by
  have hzero : ∀ s turns, size s = 0 → whileDo test body turns s = s := by
    intro s turns hsize
    cases turns with
    | zero => rfl
    | succ turns =>
        rw [whileDo]
        split
        case isTrue htest =>
          have hlt := hbody s htest
          omega
        case isFalse => rfl
  induction turns generalizing s turns' with
  | zero =>
      have hsize : size s = 0 := by omega
      rw [hzero s 0 hsize, hzero s turns' hsize]
  | succ turns ih =>
      cases turns' with
      | zero =>
          have hsize : size s = 0 := by omega
          rw [hzero s 0 hsize, hzero s (turns + 1) hsize]
      | succ turns' =>
          rw [whileDo, whileDo]
          split
          case isTrue htest =>
            have hlt := hbody s htest
            exact ih (by omega) (by omega)
          case isFalse => rfl

/-- Two loops go on together. -/
theorem whileDo_related {τ : Type v} {test' : τ → Bool} {body' : τ → τ} {s' : τ}
    (related : σ → τ → Prop) (htest : ∀ s s', related s s' → test s = test' s')
    (hbody : ∀ s s', related s s' → test s = true → related (body s) (body' s'))
    (h : related s s') : related (whileDo test body turns s) (whileDo test' body' turns s') := by
  induction turns generalizing s s' with
  | zero => exact h
  | succ turns ih =>
      rw [whileDo, whileDo, ← htest s s' h]
      split
      case isTrue hs => exact ih (hbody s s' h hs)
      case isFalse => exact h

end AfbBinder.Lib
