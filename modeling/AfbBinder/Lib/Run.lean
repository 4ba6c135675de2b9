/-!
# Runs of a labelled transition relation

A component is observed through the list of its transitions, each with the state
it started from, so that a condition on the steps of a run is a condition on the
recorded prestates.  The rules below are the only inductions over runs that the
rest of the development performs.
-/

namespace AfbBinder.Lib

universe u v

/-- One executed action with its own prestate and poststate. -/
structure Transition (σ : Type u) (α : Type v) where
  before : σ
  action : α
  after : σ

/-- `Runs step s s' ts`: the transitions `ts`, in order, lead from `s` to `s'`. -/
inductive Runs {σ : Type u} {α : Type v} (step : σ → α → σ → Prop) (s : σ) :
    σ → List (Transition σ α) → Prop
  | refl : Runs step s s []
  | snoc {s' s'' : σ} {a : α} {ts : List (Transition σ α)} :
      Runs step s s' ts → step s' a s'' → Runs step s s'' (ts ++ [⟨s', a, s''⟩])

namespace Runs

variable {σ : Type u} {α : Type v} {step : σ → α → σ → Prop} {s s' : σ} {ts : List (Transition σ α)}

theorem single {a : α} (h : step s a s') : Runs step s s' [⟨s, a, s'⟩] :=
  Runs.snoc Runs.refl h

/-- A run is its last transition after the run of the others. -/
theorem last {t : Transition σ α} (h : Runs step s s' (ts ++ [t])) :
    Runs step s t.before ts ∧ step t.before t.action s' ∧ t.after = s' := by
  generalize hus : ts ++ [t] = us at h
  cases h with
  | refl => simp at hus
  | snoc hrun hstep =>
      obtain ⟨rfl, hlast⟩ := List.append_inj' hus rfl
      cases hlast
      exact ⟨hrun, hstep, rfl⟩

/-- Every recorded transition is a genuine step from a state the run reaches. -/
theorem mem_spec (h : Runs step s s' ts) {t : Transition σ α} (ht : t ∈ ts) :
    step t.before t.action t.after ∧ ∃ us, us <+: ts ∧ Runs step s t.before us := by
  induction h with
  | refl => simp at ht
  | @snoc _ _ _ us hrun hstep ih =>
      rcases List.mem_append.mp ht with ht | ht
      · obtain ⟨hs, vs, hp, hv⟩ := ih ht
        exact ⟨hs, vs, hp.trans (List.prefix_append _ _), hv⟩
      · rw [List.mem_singleton] at ht
        subst ht
        exact ⟨hstep, us, List.prefix_append _ _, hrun⟩

/-- Invariant rule for the runs whose transitions all meet a condition, the invariant
being about the state reached and the transitions that lead to it. -/
theorem history_of (inv : σ → List (Transition σ α) → Prop) (cond : Transition σ α → Prop)
    (preserved : ∀ s a s' ts, inv s ts → cond ⟨s, a, s'⟩ → step s a s' →
      inv s' (ts ++ [⟨s, a, s'⟩]))
    (h : Runs step s s' ts) (hinit : inv s []) (hcond : ∀ t ∈ ts, cond t) : inv s' ts := by
  induction h with
  | refl => exact hinit
  | snoc _ hstep ih =>
      have hprev := ih (fun t ht => hcond t (List.mem_append_left _ ht))
      exact preserved _ _ _ _ hprev (hcond _ (by simp)) hstep

theorem history (inv : σ → List (Transition σ α) → Prop)
    (preserved : ∀ s a s' ts, inv s ts → step s a s' → inv s' (ts ++ [⟨s, a, s'⟩]))
    (h : Runs step s s' ts) (hinit : inv s []) : inv s' ts :=
  history_of inv (fun _ => True)
    (fun s a s' ts hi _ hs => preserved s a s' ts hi hs) h hinit (fun _ _ => trivial)

/-- Invariant rule for the runs whose transitions all meet a condition. -/
theorem invariant_of (inv : σ → Prop) (cond : Transition σ α → Prop)
    (preserved : ∀ s a s', inv s → cond ⟨s, a, s'⟩ → step s a s' → inv s')
    (h : Runs step s s' ts) (hinit : inv s) (hcond : ∀ t ∈ ts, cond t) : inv s' :=
  history_of (fun s _ => inv s) cond (fun s a s' _ => preserved s a s') h hinit hcond

/-- Invariant rule for all runs. -/
theorem invariant (inv : σ → Prop)
    (preserved : ∀ s a s', inv s → step s a s' → inv s')
    (h : Runs step s s' ts) (hinit : inv s) : inv s' :=
  invariant_of inv (fun _ => True)
    (fun s a s' hi _ hs => preserved s a s' hi hs) h hinit (fun _ _ => trivial)

end Runs

theorem snoc_split {β : Type u} {front back ts : List β} {t u : β}
    (h : ts ++ [u] = front ++ t :: back) :
    (back = [] ∧ t = u ∧ ts = front) ∨ ∃ back', back = back' ++ [u] ∧ ts = front ++ t :: back' := by
  rcases List.eq_nil_or_concat back with rfl | ⟨back', last, rfl⟩
  · obtain ⟨rfl, hlast⟩ := List.append_inj' h rfl
    cases hlast
    exact Or.inl ⟨rfl, rfl, rfl⟩
  · rw [List.concat_eq_append] at h ⊢
    have h' : ts ++ [u] = (front ++ t :: back') ++ [last] := by simpa using h
    obtain ⟨rfl, hlast⟩ := List.append_inj' h' rfl
    cases hlast
    exact Or.inr ⟨back', rfl, rfl⟩

end AfbBinder.Lib
