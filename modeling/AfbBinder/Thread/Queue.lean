import AfbBinder.Thread.Pool
import AfbBinder.Lib.Slots

/-!
# What the queue operations do

A splitting lemma for `jobGet`, what `jobUnblock` changes, and the counts of ready jobs
after it.
-/

namespace AfbBinder.Thread

open Lib

variable {ρ γ : Type}

theorem jobGet_some {queue rest : List (Job ρ γ)} {job : Job ρ γ}
    (h : jobGet queue = some (job, rest)) :
    ∃ front back, queue = front ++ job :: back ∧ rest = front ++ back ∧ job.blocked = false ∧
      ∀ ijob ∈ front, ijob.blocked = true := by
  induction queue generalizing rest with
  | nil => simp [jobGet] at h
  | cons ijob queue ih =>
      by_cases hb : ijob.blocked = true
      · cases hq : jobGet queue with
        | none => simp [jobGet, hb, hq] at h
        | some pair =>
            rcases pair with ⟨found, others⟩
            simp only [jobGet, hb, hq, if_true, Option.some.injEq, Prod.mk.injEq] at h
            obtain ⟨rfl, rfl⟩ := h
            obtain ⟨front, back, rfl, rfl, hjob, hfront⟩ := ih hq
            exact ⟨ijob :: front, back, rfl, rfl, hjob, by simpa [hb] using hfront⟩
      · simp [jobGet, hb] at h
        obtain ⟨rfl, rfl⟩ := h
        exact ⟨[], queue, rfl, rfl, by simpa using hb, by simp⟩

theorem jobGet_none {queue : List (Job ρ γ)} (h : jobGet queue = none) :
    ∀ job ∈ queue, job.blocked = true := by
  induction queue with
  | nil => simp
  | cons job queue ih =>
      by_cases hb : job.blocked = true
      · have hq : jobGet queue = none := by
          cases hq : jobGet queue with
          | none => rfl
          | some pair => simp [jobGet, hb, hq] at h
        simpa [hb] using ih hq
      · simp [jobGet, hb] at h

variable [DecidableEq γ]

/-- The job can be taken by `job_get` and belongs to the group `g`. -/
def Job.ready (g : γ) (job : Job ρ γ) : Bool := job.inGroup g && !job.blocked

theorem Job.inGroup_unique {g g' : γ} {job : Job ρ γ} (h : job.inGroup g = true)
    (h' : job.inGroup g' = true) : g = g' := by
  simp only [Job.inGroup, decide_eq_true_eq] at h h'
  simpa using h.symm.trans h'

theorem mem_jobUnblock {g : γ} {queue : List (Job ρ γ)} {job : Job ρ γ}
    (h : job ∈ jobUnblock g queue) :
    job ∈ queue ∨ ∃ ijob ∈ queue, ijob.inGroup g = true ∧ job = { ijob with blocked := false } := by
  induction queue with
  | nil => simp [jobUnblock] at h
  | cons first queue ih =>
      by_cases hg : first.inGroup g = true
      · simp only [jobUnblock, hg, if_true, List.mem_cons] at h
        rcases h with rfl | h
        · exact Or.inr ⟨first, by simp, hg, rfl⟩
        · exact Or.inl (by simp [h])
      · simp only [jobUnblock, hg, Bool.false_eq_true, if_false, List.mem_cons] at h
        rcases h with rfl | h
        · exact Or.inl (by simp)
        · rcases ih h with hold | ⟨ijob, hi, hrest⟩
          · exact Or.inl (by simp [hold])
          · exact Or.inr ⟨ijob, by simp [hi], hrest⟩

theorem jobUnblock_map {β : Type} (f : Job ρ γ → β)
    (hf : ∀ job : Job ρ γ, f { job with blocked := false } = f job) (g : γ)
    (queue : List (Job ρ γ)) : (jobUnblock g queue).map f = queue.map f := by
  induction queue with
  | nil => rfl
  | cons job queue ih =>
      by_cases hg : job.inGroup g = true
      · simp [jobUnblock, hg, hf]
      · simp [jobUnblock, hg, ih]

theorem length_jobUnblock (g : γ) (queue : List (Job ρ γ)) :
    (jobUnblock g queue).length = queue.length := by
  simpa using congrArg List.length (jobUnblock_map (fun _ => ()) (fun _ => rfl) g queue)

theorem ready_jobUnblock_other {g g' : γ} (hne : g' ≠ g) (queue : List (Job ρ γ)) :
    (jobUnblock g' queue).countP (Job.ready g) = queue.countP (Job.ready g) := by
  induction queue with
  | nil => rfl
  | cons job queue ih =>
      by_cases hg : job.inGroup g' = true
      · have hn : job.inGroup g = false := by
          cases h : job.inGroup g with
          | false => rfl
          | true => exact absurd (Job.inGroup_unique hg h) hne
        have hn' : Job.inGroup g { job with blocked := false } = false := hn
        simp [jobUnblock, hg, Job.ready, hn, hn']
      · simp [jobUnblock, hg, List.countP_cons, ih]

theorem ready_jobUnblock_pos {g : γ} {queue : List (Job ρ γ)}
    (h : ∃ job ∈ queue, job.inGroup g = true) :
    0 < (jobUnblock g queue).countP (Job.ready g) := by
  induction queue with
  | nil => simp at h
  | cons job queue ih =>
      by_cases hg : job.inGroup g = true
      · have hg' : Job.inGroup g { job with blocked := false } = true := hg
        simp [jobUnblock, hg, Job.ready, hg']
      · have hq : ∃ ijob ∈ queue, ijob.inGroup g = true := by
          obtain ⟨ijob, hmem, hi⟩ := h
          rcases List.mem_cons.mp hmem with rfl | hmem
          · exact absurd hi hg
          · exact ⟨ijob, hmem, hi⟩
        have hpos := ih hq
        simp only [jobUnblock, hg, Bool.false_eq_true, if_false, List.countP_cons]
        omega

theorem ready_jobUnblock_le (g : γ) (queue : List (Job ρ γ)) :
    (jobUnblock g queue).countP (Job.ready g) ≤ queue.countP (Job.ready g) + 1 := by
  induction queue with
  | nil => simp [jobUnblock]
  | cons job queue ih =>
      by_cases hg : job.inGroup g = true
      · simp only [jobUnblock, hg, if_true, List.countP_cons]
        split <;> split <;> omega
      · simp only [jobUnblock, hg, Bool.false_eq_true, if_false, List.countP_cons]
        omega

end AfbBinder.Thread
