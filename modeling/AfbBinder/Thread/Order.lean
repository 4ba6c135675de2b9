import AfbBinder.Thread.Exclusion

/-!
# The order of the jobs of a group

In the queue only the first job of a group may be taken, and the jobs of the group that
started were submitted before those still queued.
-/

namespace AfbBinder.Thread

open Lib

variable {ρ γ : Type}

/-- The jobs that were started, as the log tells. -/
def starts (log : List (Effect ρ γ)) : List (Job ρ γ) :=
  log.filterMap fun
    | .start job => some job
    | _ => none

def Worker.job? (w : Worker ρ γ) : Option (Job ρ γ) :=
  match w.phase with
  | .executing job => some job
  | _ => none

def Pool.executing (s : Pool ρ γ) : List (Job ρ γ) := s.threads.filterMap Worker.job?

/-! ## Workers -/

theorem Worker.job?_of_idle {w : Worker ρ γ} (h : w.busy = false) : w.job? = none := by
  unfold Worker.busy at h
  unfold Worker.job?
  cases hp : w.phase <;> simp_all

theorem executing_set {s : Pool ρ γ} {i : Nat} {w : Worker ρ γ} (hw : s.threads[i]? = some w)
    (w' : Worker ρ γ) :
    ∃ front back, s.executing = front ++ w.job?.toList ++ back ∧
      (s.threads.set i w').filterMap Worker.job? = front ++ w'.job?.toList ++ back := by
  obtain ⟨front, back, hsplit, hset⟩ := Slots.split_set hw
  refine ⟨front.filterMap Worker.job?, back.filterMap Worker.job?, ?_, ?_⟩
  · rw [Pool.executing, hsplit]
    cases hj : w.job? <;> simp [hj]
  · rw [hset w']
    cases hj : w'.job? <;> simp [hj]

/-- The change touches neither the jobs nor the log. -/
structure SameBooks (s s' : Pool ρ γ) : Prop where
  queue : s'.queue = s.queue
  log : s'.log = s.log
  nextTicket : s'.nextTicket = s.nextTicket
  executing : s'.executing = s.executing

theorem sameBooks_set {s : Pool ρ γ} {i : Nat} {w w' : Worker ρ γ}
    (hw : s.threads[i]? = some w) (hidle : w.busy = false) (hidle' : w'.busy = false) :
    SameBooks s { s with threads := s.threads.set i w' } := by
  obtain ⟨front, back, hold, hnew⟩ := executing_set hw w'
  refine ⟨rfl, rfl, rfl, ?_⟩
  rw [Worker.job?_of_idle hidle] at hold
  rw [Worker.job?_of_idle hidle'] at hnew
  rw [hold]
  exact hnew

theorem sameBooks_map {s : Pool ρ γ} (f : Worker ρ γ → Worker ρ γ)
    (hf : ∀ w, (f w).job? = w.job?) :
    SameBooks s { s with threads := s.threads.map f } := by
  refine ⟨rfl, rfl, rfl, ?_⟩
  simp only [Pool.executing, List.filterMap_map]
  congr 1
  funext w
  exact hf w

theorem sameBooks_wake (i : Nat) (s : Pool ρ γ) : SameBooks s (wake i s) := by
  unfold wake
  split
  · rename_i w hw
    split
    · rename_i hp
      exact sameBooks_set hw (by simp [Worker.busy, hp]) rfl
    · exact ⟨rfl, rfl, rfl, rfl⟩
  · exact ⟨rfl, rfl, rfl, rfl⟩

theorem sameBooks_startOneThread (s : Pool ρ γ) : SameBooks s (startOneThread true s).1 := by
  refine ⟨rfl, rfl, rfl, ?_⟩
  simp [Pool.executing, startOneThread, Worker.job?, freshWorker]

theorem executing_runJob {s : Pool ρ γ} {i : Nat} {w : Worker ρ γ}
    (hw : s.threads[i]? = some w) (hidle : w.busy = false) (job : Job ρ γ) :
    (runJob i w job s).executing.Perm (job :: s.executing) := by
  obtain ⟨front, back, hold, hnew⟩ :=
    executing_set hw { w with works := true, phase := .executing job }
  rw [Worker.job?_of_idle hidle] at hold
  have hjob : Worker.job? { w with works := true, phase := .executing job } = some job := rfl
  rw [hjob] at hnew
  have hpool : (runJob i w job s).executing = front ++ [job] ++ back := hnew
  rw [hpool, hold]
  simp

theorem executing_finishJob [DecidableEq γ] {s : Pool ρ γ} {i : Nat} {w : Worker ρ γ}
    {job : Job ρ γ} (hw : s.threads[i]? = some w) (hphase : w.phase = .executing job) :
    s.executing.Perm (job :: (finishJob i w job s).executing) := by
  obtain ⟨front, back, hold, hnew⟩ := executing_set hw w.rested
  have hjob : w.job? = some job := by simp [Worker.job?, hphase]
  have hrest : w.rested.job? = none := rfl
  rw [hjob] at hold
  rw [hrest] at hnew
  have hpool : (finishJob i w job s).executing = front ++ [] ++ back := hnew
  rw [hpool, hold]
  simp

/-! ## The order -/

structure Ordered (s : Pool ρ γ) : Prop where
  queue : s.queue.Pairwise fun a b =>
    a.ticket < b.ticket ∧ ∀ g, a.group = some g → b.group = some g → b.blocked = true
  queued : ∀ job ∈ s.queue, job.ticket < s.nextTicket
  started : ∀ job ∈ starts s.log, job.ticket < s.nextTicket
  starts : (starts s.log).Pairwise fun a b =>
    ∀ g, a.group = some g → b.group = some g → a.ticket < b.ticket
  behind : ∀ a ∈ Thread.starts s.log, ∀ b ∈ s.queue,
    ∀ g, a.group = some g → b.group = some g → a.ticket < b.ticket

theorem SameBooks.ordered {s s' : Pool ρ γ} (h : SameBooks s s') (hs : Ordered s) :
    Ordered s' := by
  obtain ⟨h₁, h₂, h₃, h₄, h₅⟩ := hs
  rw [← h.queue] at h₁ h₂ h₅
  rw [← h.log] at h₃ h₄ h₅
  rw [← h.nextTicket] at h₂ h₃
  exact ⟨h₁, h₂, h₃, h₄, h₅⟩

/-- A log that starts nothing more, with a shorter queue. -/
theorem Ordered.of_subset {s s' : Pool ρ γ} (hs : Ordered s) (hqueue : s'.queue = [])
    (hstarts : Thread.starts s'.log = Thread.starts s.log)
    (hticket : s'.nextTicket = s.nextTicket) : Ordered s' where
  queue := by simp [hqueue]
  queued := by simp [hqueue]
  started := by
    rw [hstarts, hticket]
    exact hs.started
  starts := by
    rw [hstarts]
    exact hs.starts
  behind := by simp [hqueue]

section Turn

variable {s : Pool ρ γ} {i : Nat} {w : Worker ρ γ}

/-- The job that is taken has no older job of its group behind it in the queue. -/
theorem ordered_take (hs : Ordered s) {job : Job ρ γ} {rest : List (Job ρ γ)}
    (hget : jobGet s.queue = some (job, rest)) :
    Ordered (runJob i w job { s with queue := rest, remains := s.remains + 1 }) := by
  obtain ⟨front, back, hq, rfl, hready, -⟩ := jobGet_some hget
  have hpair := hs.queue
  rw [hq, List.pairwise_append, List.pairwise_cons] at hpair
  obtain ⟨hfront, ⟨hback, hbacks⟩, hcross⟩ := hpair
  have hmem : ∀ ijob ∈ front ++ back, ijob ∈ s.queue := by
    intro ijob hi
    rw [List.mem_append] at hi
    rcases hi with hi | hi <;> simp [hq, hi]
  have hjob : job ∈ s.queue := by simp [hq]
  have hstarts : Thread.starts (s.log ++ [.start job]) = Thread.starts s.log ++ [job] := by
    simp [Thread.starts]
  refine ⟨?_, fun ijob hi => hs.queued ijob (hmem ijob hi), ?_, ?_, ?_⟩
  · exact List.pairwise_append.mpr ⟨hfront, hbacks,
      fun a ha b hb => hcross a ha b (List.mem_cons_of_mem _ hb)⟩
  · intro ijob hi
    simp only [runJob, hstarts, List.mem_append, List.mem_singleton] at hi
    rcases hi with hi | rfl
    · exact hs.started ijob hi
    · exact hs.queued ijob hjob
  · simp only [runJob, hstarts]
    refine List.pairwise_append.mpr ⟨hs.starts, by simp, ?_⟩
    intro a ha b hb g hga hgb
    rw [List.mem_singleton] at hb
    subst hb
    exact hs.behind a ha _ hjob g hga hgb
  · intro a ha b hb g hga hgb
    simp only [runJob, hstarts, List.mem_append, List.mem_singleton] at ha
    rcases ha with ha | rfl
    · exact hs.behind a ha b (hmem b hb) g hga hgb
    · rcases List.mem_append.mp hb with hb | hb
      · -- a job of the group in front would block this one
        have hblocked := (hcross b hb a List.mem_cons_self).2 g hgb hga
        rw [hready] at hblocked
        cases hblocked
      · exact (hback b hb).1

variable [DecidableEq γ]

theorem pairwise_jobUnblock (g : γ) {queue : List (Job ρ γ)}
    (h : queue.Pairwise fun a b =>
      a.ticket < b.ticket ∧ ∀ g, a.group = some g → b.group = some g → b.blocked = true) :
    (jobUnblock g queue).Pairwise fun a b =>
      a.ticket < b.ticket ∧ ∀ g, a.group = some g → b.group = some g → b.blocked = true := by
  induction queue with
  | nil => exact h
  | cons job queue ih =>
      rw [List.pairwise_cons] at h
      by_cases hg : job.inGroup g = true
      · simp only [jobUnblock, hg, if_true]
        exact List.pairwise_cons.mpr h
      · simp only [jobUnblock, hg, Bool.false_eq_true, if_false]
        refine List.pairwise_cons.mpr ⟨fun ijob hi => ?_, ih h.2⟩
        rcases mem_jobUnblock hi with hold | ⟨kjob, hk, hkg, rfl⟩
        · exact h.1 ijob hold
        · refine ⟨(h.1 kjob hk).1, fun g' hj hk' => ?_⟩
          -- the job that is unblocked is of the group, the first one is not
          simp only [Job.inGroup, decide_eq_true_eq] at hg hkg
          exact absurd (hj.trans (hk'.symm.trans hkg)) hg

theorem ordered_finishJob (hs : Ordered s) (job : Job ρ γ) : Ordered (finishJob i w job s) := by
  have hstarts : Thread.starts (finishJob i w job s).log = Thread.starts s.log := by
    simp [Thread.starts, finishJob]
  have hmem : ∀ ijob ∈ (finishJob i w job s).queue, ∃ kjob ∈ s.queue,
      kjob.ticket = ijob.ticket ∧ kjob.group = ijob.group := by
    intro ijob hi
    cases hj : job.group with
    | none => exact ⟨ijob, by simpa [finishJob, hj] using hi, rfl, rfl⟩
    | some g =>
        rcases mem_jobUnblock (g := g) (by simpa [finishJob, hj] using hi) with
          hold | ⟨kjob, hk, -, rfl⟩
        · exact ⟨ijob, hold, rfl, rfl⟩
        · exact ⟨kjob, hk, rfl, rfl⟩
  refine ⟨?_, ?_, ?_, ?_, ?_⟩
  · cases hj : job.group with
    | none => simpa [finishJob, hj] using hs.queue
    | some g => simpa [finishJob, hj] using pairwise_jobUnblock g hs.queue
  · intro ijob hi
    obtain ⟨kjob, hk, hticket, -⟩ := hmem ijob hi
    exact hticket ▸ hs.queued kjob hk
  · rw [hstarts]
    exact hs.started
  · rw [hstarts]
    exact hs.starts
  · intro a ha b hb g hga hgb
    rw [hstarts] at ha
    obtain ⟨kjob, hk, hticket, hgroup⟩ := hmem b hb
    exact hticket ▸ hs.behind a ha kjob hk g hga (hgroup.trans hgb)

theorem ordered_loopTurn (hw : s.threads[i]? = some w) (hidle : w.busy = false)
    (hserved : Served s) (hs : Ordered s) : Ordered (loopTurn i w s) := by
  rcases loopTurn_spec i w hserved with ⟨-, heq⟩ | ⟨-, -, heq⟩ | ⟨-, job, rest, hget, heq⟩
  · rw [heq]
    exact (sameBooks_set hw hidle rfl).ordered hs
  · rw [heq]
    exact (sameBooks_set hw hidle rfl).ordered hs
  · rw [heq]
    exact ordered_take hs hget

end Turn

theorem ordered_acceptCall [DecidableEq γ] {s : Pool ρ γ} (hs : Ordered s) (req : ρ)
    (timeout : Int) (group : Option γ) : Ordered (acceptCall req timeout group s) := by
  have hstarts : Thread.starts (acceptCall req timeout group s).log = Thread.starts s.log := by
    simp [Thread.starts, acceptCall, jobAdd]
  refine ⟨?_, ?_, ?_, ?_, ?_⟩
  · simp only [acceptCall, jobAdd]
    refine List.pairwise_append.mpr ⟨hs.queue, by simp, ?_⟩
    intro a ha b hb
    rw [List.mem_singleton] at hb
    subst hb
    refine ⟨hs.queued a ha, fun g hga hgb => ?_⟩
    -- a queued job of its group blocks the new one
    have hgroup : group = some g := hgb
    simp only [Bool.false_or, List.any_eq_true]
    exact ⟨a, ha, by simp [Job.blockedBy, hgroup, Job.inGroup, hga]⟩
  · intro job hjob
    simp only [acceptCall, jobAdd, List.mem_append, List.mem_singleton] at hjob
    rcases hjob with hjob | rfl
    · exact Nat.lt_succ_of_lt (hs.queued job hjob)
    · exact Nat.lt_succ_self _
  · rw [hstarts]
    exact fun job hjob => Nat.lt_succ_of_lt (hs.started job hjob)
  · rw [hstarts]
    exact hs.starts
  · intro a ha b hb g hga hgb
    rw [hstarts] at ha
    simp only [acceptCall, jobAdd, List.mem_append, List.mem_singleton] at hb
    rcases hb with hb | rfl
    · exact hs.behind a ha b hb g hga hgb
    · exact hs.started a ha

end AfbBinder.Thread
