import AfbBinder.Thread.Queue

/-!
# Serialisation of the jobs of a group

`Served` holds in every reachable pool: the counter `running` is the number of
executing workers, and a group with a queued job has a job that is executing or
ready to be taken.  It makes the branch "threads are blocked!" unreachable.

`Serial` says that each group has at most one such job.  It is broken by one kind
of step only: the submission of a job of a group that is executing and has no
queued job, since `job_add` looks at the queue and never at the workers.
-/

namespace AfbBinder.Thread

open Lib

variable {ρ γ : Type}

def Worker.busy (w : Worker ρ γ) : Bool :=
  match w.phase with
  | .executing _ => true
  | _ => false

variable [DecidableEq γ]

/-- The worker is executing a job of the group `g`. -/
def Worker.executes (g : γ) (w : Worker ρ γ) : Bool :=
  match w.phase with
  | .executing job => job.inGroup g
  | _ => false

/-- How many jobs of the group are executing or ready to be taken. -/
def Pool.active (g : γ) (s : Pool ρ γ) : Nat :=
  s.threads.countP (Worker.executes g) + s.queue.countP (Job.ready g)

/-- No two workers execute jobs of one group. -/
def GroupExclusive (s : Pool ρ γ) : Prop :=
  ∀ (i j : Nat) (w w' : Worker ρ γ) (g : γ), i ≠ j → s.threads[i]? = some w → s.threads[j]? = some w' →
    ¬ (w.executes g = true ∧ w'.executes g = true)

structure Served (s : Pool ρ γ) : Prop where
  running : s.running = s.threads.countP Worker.busy
  grouped : ∀ job ∈ s.queue, job.blocked = true → ∃ g, job.inGroup g = true
  active : ∀ g, (∃ job ∈ s.queue, job.inGroup g = true) → 0 < s.active g

def Serial (s : Pool ρ γ) : Prop := ∀ g, s.active g ≤ 1

/-! ## Frame lemmas -/

theorem Worker.executes_of_idle {w : Worker ρ γ} (h : w.busy = false) (g : γ) :
    w.executes g = false := by
  unfold Worker.busy at h
  unfold Worker.executes
  cases hp : w.phase <;> simp_all

/-- A change that keeps the queue and what the workers execute keeps everything. -/
structure SameWork (s s' : Pool ρ γ) : Prop where
  queue : s'.queue = s.queue
  running : s'.running = s.running
  busy : s'.threads.countP Worker.busy = s.threads.countP Worker.busy
  executes : ∀ g, s'.threads.countP (Worker.executes g) = s.threads.countP (Worker.executes g)

theorem SameWork.active {s s' : Pool ρ γ} (h : SameWork s s') (g : γ) :
    s'.active g = s.active g := by
  simp [Pool.active, h.queue, h.executes g]

theorem SameWork.served {s s' : Pool ρ γ} (h : SameWork s s') (hs : Served s) : Served s' where
  running := by rw [h.running, h.busy, hs.running]
  grouped := by rw [h.queue]; exact hs.grouped
  active := by
    intro g
    rw [h.queue, h.active g]
    exact hs.active g

theorem SameWork.serial {s s' : Pool ρ γ} (h : SameWork s s') (hs : Serial s) : Serial s' := by
  intro g
  rw [h.active g]
  exact hs g

theorem sameWork_set {s : Pool ρ γ} {i : Nat} {w w' : Worker ρ γ}
    (hw : s.threads[i]? = some w) (hidle : w.busy = false) (hidle' : w'.busy = false) :
    SameWork s { s with threads := s.threads.set i w' } where
  queue := rfl
  running := rfl
  busy := by simpa [hidle, hidle'] using Slots.countP_set_add Worker.busy w' hw
  executes := by
    intro g
    simpa [Worker.executes_of_idle hidle g, Worker.executes_of_idle hidle' g] using
      Slots.countP_set_add (Worker.executes g) w' hw

theorem sameWork_map {s : Pool ρ γ} (f : Worker ρ γ → Worker ρ γ)
    (hbusy : ∀ w, (f w).busy = w.busy)
    (hexec : ∀ g w, (f w).executes g = w.executes g) :
    SameWork s { s with threads := s.threads.map f } where
  queue := rfl
  running := rfl
  busy := by
    rw [List.countP_map]
    exact List.countP_congr (by simp [hbusy])
  executes := by
    intro g
    rw [List.countP_map]
    exact List.countP_congr (by simp [hexec])

/-! ## Taking and ending jobs -/

section Turn

variable {s : Pool ρ γ} {i : Nat} {w : Worker ρ γ}

theorem active_runJob (hw : s.threads[i]? = some w) (hidle : w.busy = false) (job : Job ρ γ)
    (g : γ) :
    (runJob i w job s).active g = s.active g + (if job.inGroup g then 1 else 0) := by
  have h := Slots.countP_set_add (Worker.executes g) { w with works := true, phase := .executing job } hw
  have hj : Worker.executes g { w with works := true, phase := .executing job } =
      job.inGroup g := rfl
  rw [Worker.executes_of_idle hidle g, hj] at h
  simp only [Pool.active, runJob]
  simp only [Bool.false_eq_true, if_false, Nat.add_zero] at h
  omega

omit [DecidableEq γ] in
theorem running_runJob (hw : s.threads[i]? = some w) (hidle : w.busy = false) (job : Job ρ γ)
    (hs : s.running = s.threads.countP Worker.busy) :
    (runJob i w job s).running = (runJob i w job s).threads.countP Worker.busy := by
  have h := Slots.countP_set_add Worker.busy { w with works := true, phase := .executing job } hw
  have hj : Worker.busy { w with works := true, phase := .executing job } = true := rfl
  rw [hidle, hj] at h
  simp only [runJob, hs]
  simp only [Bool.false_eq_true, if_false, if_true, Nat.add_zero] at h
  omega

/-- Moving a ready job from the queue to a worker changes no count of active jobs. -/
theorem active_take (hw : s.threads[i]? = some w) (hidle : w.busy = false)
    {job : Job ρ γ} {rest : List (Job ρ γ)} (hget : jobGet s.queue = some (job, rest)) (g : γ) :
    (runJob i w job { s with queue := rest, remains := s.remains + 1 }).active g =
      s.active g := by
  obtain ⟨front, back, hq, rfl, hjob, -⟩ := jobGet_some hget
  rw [active_runJob (s := { s with queue := front ++ back, remains := s.remains + 1 }) hw hidle]
  simp only [Pool.active, hq, List.countP_append, List.countP_cons, Job.ready, hjob,
    Bool.not_false, Bool.and_true]
  omega

/-- With every queued group served, no turn takes a blocked job. -/
theorem not_blocked_of_served (hs : Served s) (hget : jobGet s.queue = none)
    (hrun : s.running = 0) : s.queue = [] := by
  cases hq : s.queue with
  | nil => rfl
  | cons job rest =>
      have hblocked := jobGet_none hget
      obtain ⟨g, hg⟩ := hs.grouped job (by simp [hq]) (hblocked job (by simp [hq]))
      have hact := hs.active g ⟨job, by simp [hq], hg⟩
      have hready : s.queue.countP (Job.ready g) = 0 := by
        rw [List.countP_eq_zero]
        intro ijob hi
        simp [Job.ready, hblocked ijob hi]
      have hbusy : s.threads.countP (Worker.executes g) ≤ s.threads.countP Worker.busy := by
        apply List.countP_mono_left
        intro x _ hx
        unfold Worker.executes at hx
        unfold Worker.busy
        cases hp : x.phase <;> simp_all
      have hcount := hs.running
      unfold Pool.active at hact
      omega

/-- What one turn can do once the previous job is ended. -/
theorem loopTurn_spec (i : Nat) (w : Worker ρ γ) (hs : Served s) :
    (w.stop = true ∧ loopTurn i w s =
        { s with threads := s.threads.set i { w with ended := true, phase := .returned } }) ∨
      (w.stop = false ∧ jobGet s.queue = none ∧ loopTurn i w s = waitCond i w s) ∨
      (w.stop = false ∧ ∃ job rest, jobGet s.queue = some (job, rest) ∧
        loopTurn i w s = runJob i w job { s with queue := rest, remains := s.remains + 1 }) := by
  by_cases hstop : w.stop = true
  · exact Or.inl ⟨hstop, by simp [loopTurn, hstop]⟩
  · have hgoes : w.stop = false := by simpa using hstop
    cases hget : jobGet s.queue with
    | some pair =>
        rcases pair with ⟨job, rest⟩
        exact Or.inr (Or.inr ⟨hgoes, job, rest, rfl, by simp [loopTurn, hstop, hget]⟩)
    | none =>
        refine Or.inr (Or.inl ⟨hgoes, rfl, ?_⟩)
        cases hq : s.queue with
        | nil => simp [loopTurn, hstop, hq, jobGet]
        | cons job rest =>
            have hrun : s.running ≠ 0 := by
              intro hrun
              simp [not_blocked_of_served hs hget hrun] at hq
            rw [hq] at hget
            simp [loopTurn, hstop, hq, hget, hrun]

theorem loopTurn_cases (hw : s.threads[i]? = some w) (hidle : w.busy = false) (hs : Served s) :
    SameWork s (loopTurn i w s) ∨
      ∃ job rest, jobGet s.queue = some (job, rest) ∧
        loopTurn i w s = runJob i w job { s with queue := rest, remains := s.remains + 1 } := by
  rcases loopTurn_spec i w hs with ⟨-, heq⟩ | ⟨-, -, heq⟩ | ⟨-, hjob⟩
  · rw [heq]
    exact Or.inl (sameWork_set hw hidle rfl)
  · rw [heq]
    exact Or.inl (sameWork_set hw hidle rfl)
  · exact Or.inr hjob

theorem served_loopTurn (hw : s.threads[i]? = some w) (hidle : w.busy = false)
    (hs : Served s) : Served (loopTurn i w s) := by
  rcases loopTurn_cases hw hidle hs with hsame | ⟨job, rest, hget, heq⟩
  · exact hsame.served hs
  · rw [heq]
    obtain ⟨front, back, hq, hrest, -, -⟩ := jobGet_some hget
    have hsub : ∀ ijob ∈ rest, ijob ∈ s.queue := by
      intro ijob hi
      rw [hrest, List.mem_append] at hi
      rcases hi with hi | hi <;> simp [hq, hi]
    refine ⟨running_runJob (s := { s with queue := rest, remains := s.remains + 1 })
      hw hidle job hs.running, fun ijob hi => hs.grouped ijob (hsub ijob hi), ?_⟩
    rintro g ⟨ijob, hi, hg⟩
    rw [active_take hw hidle hget]
    exact hs.active g ⟨ijob, hsub ijob hi, hg⟩

theorem serial_loopTurn (hw : s.threads[i]? = some w) (hidle : w.busy = false)
    (hs : Served s) (hserial : Serial s) : Serial (loopTurn i w s) := by
  rcases loopTurn_cases hw hidle hs with hsame | ⟨job, rest, hget, heq⟩
  · exact hsame.serial hserial
  · intro g
    rw [heq, active_take hw hidle hget]
    exact hserial g

theorem executes_finishJob {job : Job ρ γ} (hw : s.threads[i]? = some w)
    (hphase : w.phase = .executing job) (g : γ) :
    (s.threads.set i w.rested).countP (Worker.executes g) + (if job.inGroup g then 1 else 0) =
      s.threads.countP (Worker.executes g) := by
  have h := Slots.countP_set_add (Worker.executes g) w.rested hw
  have hj : w.executes g = job.inGroup g := by simp [Worker.executes, hphase]
  have hr : w.rested.executes g = false := rfl
  simpa [hj, hr] using h

theorem running_finishJob {job : Job ρ γ} (hw : s.threads[i]? = some w)
    (hphase : w.phase = .executing job) (hs : s.running = s.threads.countP Worker.busy) :
    (finishJob i w job s).running = (finishJob i w job s).threads.countP Worker.busy := by
  have h := Slots.countP_set_add Worker.busy w.rested hw
  have hj : w.busy = true := by simp [Worker.busy, hphase]
  have hr : w.rested.busy = false := rfl
  simp only [hj, hr, Bool.false_eq_true, if_false, if_true, Nat.add_zero] at h
  simp only [finishJob, hs]
  omega

/-- Ending a job of another group, or of none, changes nothing for the group. -/
theorem active_finishJob_other {job : Job ρ γ} (hw : s.threads[i]? = some w)
    (hphase : w.phase = .executing job) {g : γ} (hg : job.inGroup g = false) :
    (finishJob i w job s).active g = s.active g := by
  have h := executes_finishJob hw hphase g
  simp only [hg, Bool.false_eq_true, if_false, Nat.add_zero] at h
  simp only [Pool.active, finishJob, h]
  cases hj : job.group with
  | none => rfl
  | some g' =>
      have hne : g' ≠ g := by
        intro he
        simp [Job.inGroup, hj, he] at hg
      simp only [ready_jobUnblock_other hne]

/-- Ending a job of the group hands its place to the first queued job of the group. -/
theorem active_finishJob_same {job : Job ρ γ} (hw : s.threads[i]? = some w)
    (hphase : w.phase = .executing job) {g : γ} (hg : job.inGroup g = true) :
    (finishJob i w job s).active g + 1 =
      s.threads.countP (Worker.executes g) + (jobUnblock g s.queue).countP (Job.ready g) := by
  have h := executes_finishJob hw hphase g
  have hj : job.group = some g := by simpa [Job.inGroup] using hg
  simp only [hg, if_true] at h
  simp only [Pool.active, finishJob, hj]
  omega

theorem served_finishJob {job : Job ρ γ} (hw : s.threads[i]? = some w)
    (hphase : w.phase = .executing job) (hs : Served s) : Served (finishJob i w job s) := by
  have hmem : ∀ ijob ∈ (finishJob i w job s).queue, ∃ kjob ∈ s.queue,
      kjob.group = ijob.group ∧ (ijob.blocked = true → kjob.blocked = true) := by
    intro ijob hi
    cases hj : job.group with
    | none => exact ⟨ijob, by simpa [finishJob, hj] using hi, rfl, id⟩
    | some g =>
        have hi' : ijob ∈ jobUnblock g s.queue := by simpa [finishJob, hj] using hi
        rcases mem_jobUnblock hi' with hold | ⟨kjob, hk, -, rfl⟩
        · exact ⟨ijob, hold, rfl, id⟩
        · exact ⟨kjob, hk, rfl, by simp⟩
  refine ⟨running_finishJob hw hphase hs.running, ?_, ?_⟩
  · intro ijob hi hb
    obtain ⟨kjob, hk, hgroup, hblocked⟩ := hmem ijob hi
    obtain ⟨g, hg⟩ := hs.grouped kjob hk (hblocked hb)
    exact ⟨g, by simpa [Job.inGroup, hgroup] using hg⟩
  · rintro g ⟨ijob, hi, hg⟩
    obtain ⟨kjob, hk, hgroup, -⟩ := hmem ijob hi
    have hin : ∃ kjob ∈ s.queue, kjob.inGroup g = true :=
      ⟨kjob, hk, by simpa [Job.inGroup, hgroup] using hg⟩
    cases hjg : job.inGroup g with
    | false =>
        rw [active_finishJob_other hw hphase hjg]
        exact hs.active g hin
    | true =>
        have hsame := active_finishJob_same hw hphase hjg
        have hpos := ready_jobUnblock_pos hin
        have hexec := executes_finishJob hw hphase g
        simp only [hjg, if_true] at hexec
        omega

theorem serial_finishJob {job : Job ρ γ} (hw : s.threads[i]? = some w)
    (hphase : w.phase = .executing job) (hserial : Serial s) :
    Serial (finishJob i w job s) := by
  intro g
  cases hjg : job.inGroup g with
  | false =>
      rw [active_finishJob_other hw hphase hjg]
      exact hserial g
  | true =>
      have hsame := active_finishJob_same hw hphase hjg
      have hle := ready_jobUnblock_le g s.queue
      have hone : s.threads.countP (Worker.executes g) + s.queue.countP (Job.ready g) ≤ 1 :=
        hserial g
      omega

theorem workerTurn_cases {s' : Pool ρ γ} (h : workerTurn i s = some s') :
    ∃ w, s.threads[i]? = some w ∧
      ((w.busy = false ∧ s' = loopTurn i w s) ∨
        ∃ job, w.phase = .executing job ∧ s' = loopTurn i w.rested (finishJob i w job s)) := by
  unfold workerTurn at h
  cases hw : s.threads[i]? with
  | none => simp [hw] at h
  | some w =>
      refine ⟨w, rfl, ?_⟩
      simp only [hw] at h
      cases hp : w.phase with
      | entering => exact Or.inl ⟨by simp [Worker.busy, hp], by simpa [hp] using h.symm⟩
      | executing job => exact Or.inr ⟨job, rfl, by simpa [hp] using h.symm⟩
      | waiting => simp [hp] at h
      | returned => simp [hp] at h

/-- After the end of its job the worker stands at the head of the loop. -/
theorem finishJob_threads (hw : s.threads[i]? = some w) (job : Job ρ γ) :
    (finishJob i w job s).threads[i]? = some w.rested := by
  have hi : i < s.threads.length := (List.getElem?_eq_some_iff.mp hw).1
  simp [finishJob, hi]

theorem served_workerTurn {s' : Pool ρ γ} (h : workerTurn i s = some s') (hs : Served s) :
    Served s' := by
  obtain ⟨w, hw, ⟨hidle, rfl⟩ | ⟨job, hphase, rfl⟩⟩ := workerTurn_cases h
  · exact served_loopTurn hw hidle hs
  · exact served_loopTurn (finishJob_threads hw job) rfl (served_finishJob hw hphase hs)

theorem serial_workerTurn {s' : Pool ρ γ} (h : workerTurn i s = some s') (hs : Served s)
    (hserial : Serial s) : Serial s' := by
  obtain ⟨w, hw, ⟨hidle, rfl⟩ | ⟨job, hphase, rfl⟩⟩ := workerTurn_cases h
  · exact serial_loopTurn hw hidle hs hserial
  · exact serial_loopTurn (finishJob_threads hw job) rfl (served_finishJob hw hphase hs)
      (serial_finishJob hw hphase hserial)

end Turn

/-! ## Submissions and the other steps -/

/-- The submission of a job of an executing group meets a queued job of the group. -/
def SubmissionOrdered (s : Pool ρ γ) : Action ρ γ → Prop
  | .call _ _ _ _ (some g) =>
      (∃ job ∈ s.queue, job.inGroup g = true) ∨ ∀ w ∈ s.threads, w.executes g = false
  | _ => True

theorem sameWork_startOneThread (created : Bool) (s : Pool ρ γ) :
    SameWork s (startOneThread created s).1 := by
  cases created with
  | false => exact ⟨rfl, rfl, rfl, fun _ => rfl⟩
  | true =>
      refine ⟨rfl, rfl, ?_, fun g => ?_⟩
      · simp [startOneThread, Worker.busy, freshWorker]
      · simp [startOneThread, Worker.executes, freshWorker]

/-- A submission is rejected, or accepted after it started one thread at most. -/
theorem afbThreadCall_spec (allocated created : Bool) (req : ρ) (timeout : Int)
    (group : Option γ) (s : Pool ρ γ) :
    (∃ info, afbThreadCall allocated created req timeout group s = rejectCall req info s) ∨
      (s.remains ≠ 0 ∧ ∃ s', (s' = s ∨ s' = (startOneThread true s).1) ∧
        afbThreadCall allocated created req timeout group s = acceptCall req timeout group s') := by
  unfold afbThreadCall
  split
  · exact Or.inl ⟨_, rfl⟩
  · split
    · exact Or.inl ⟨_, rfl⟩
    · rename_i hroom
      split
      · cases created with
        | false =>
            split
            · exact Or.inl ⟨_, rfl⟩
            · exact Or.inr ⟨hroom, s, Or.inl rfl, rfl⟩
        | true =>
            right
            refine ⟨hroom, _, Or.inr rfl, ?_⟩
            simp [startOneThread]
      · exact Or.inr ⟨hroom, s, Or.inl rfl, rfl⟩

theorem afbThreadCall_cases (allocated created : Bool) (req : ρ) (timeout : Int)
    (group : Option γ) (s : Pool ρ γ) :
    SameWork s (afbThreadCall allocated created req timeout group s) ∨
      ∃ s', SameWork s s' ∧
        afbThreadCall allocated created req timeout group s =
          acceptCall req timeout group s' := by
  rcases afbThreadCall_spec allocated created req timeout group s with
    ⟨info, heq⟩ | ⟨-, s', rfl | rfl, heq⟩
  · rw [heq]
    exact Or.inl ⟨rfl, rfl, rfl, fun _ => rfl⟩
  · exact Or.inr ⟨_, ⟨rfl, rfl, rfl, fun _ => rfl⟩, heq⟩
  · exact Or.inr ⟨_, sameWork_startOneThread true s, heq⟩

section Accept

variable (req : ρ) (timeout : Int) (s : Pool ρ γ)

theorem acceptCall_none_queue :
    ∃ job : Job ρ γ, job.group = none ∧ job.blocked = false ∧
      (acceptCall req timeout none s).queue = s.queue ++ [job] := by
  refine ⟨{ ticket := s.nextTicket, req := req, timeout := timeout, blocked := false,
            group := none }, rfl, rfl, ?_⟩
  simp [acceptCall, jobAdd, Job.blockedBy]

/-- A job of the group `g` is blocked exactly by a queued job of the group. -/
theorem acceptCall_some_queue (g : γ) :
    ∃ job : Job ρ γ, job.group = some g ∧
      job.blocked = s.queue.any (Job.inGroup g) ∧
      (acceptCall req timeout (some g) s).queue = s.queue ++ [job] := by
  refine ⟨{ ticket := s.nextTicket, req := req, timeout := timeout,
            blocked := s.queue.any (Job.inGroup g), group := some g }, rfl, rfl, ?_⟩
  simp only [acceptCall, jobAdd, Bool.false_or]
  rfl

theorem active_acceptCall_of_queue {group : Option γ} {job : Job ρ γ}
    (hq : (acceptCall req timeout group s).queue = s.queue ++ [job]) (g : γ) :
    (acceptCall req timeout group s).active g = s.active g + (if job.ready g then 1 else 0) := by
  have hthreads : (acceptCall req timeout group s).threads = s.threads := rfl
  simp only [Pool.active, hq, hthreads, List.countP_append, List.countP_singleton]
  omega

theorem served_acceptCall (group : Option γ) (hs : Served s) :
    Served (acceptCall req timeout group s) := by
  cases group with
  | none =>
      obtain ⟨job, hgroup, hblocked, hq⟩ := acceptCall_none_queue req timeout s
      refine ⟨hs.running, ?_, ?_⟩
      · intro ijob hi hb
        rw [hq, List.mem_append, List.mem_singleton] at hi
        rcases hi with hi | rfl
        · exact hs.grouped ijob hi hb
        · simp [hblocked] at hb
      · rintro g ⟨ijob, hi, hg⟩
        rw [active_acceptCall_of_queue req timeout s hq]
        rw [hq, List.mem_append, List.mem_singleton] at hi
        rcases hi with hi | rfl
        · have := hs.active g ⟨ijob, hi, hg⟩
          omega
        · simp [Job.inGroup, hgroup] at hg
  | some g =>
      obtain ⟨job, hgroup, hblocked, hq⟩ := acceptCall_some_queue req timeout s g
      refine ⟨hs.running, ?_, ?_⟩
      · intro ijob hi hb
        rw [hq, List.mem_append, List.mem_singleton] at hi
        rcases hi with hi | rfl
        · exact hs.grouped ijob hi hb
        · exact ⟨g, by simp [Job.inGroup, hgroup]⟩
      · rintro g' ⟨ijob, hi, hg⟩
        rw [active_acceptCall_of_queue req timeout s hq]
        by_cases hold : ∃ kjob ∈ s.queue, kjob.inGroup g' = true
        · have := hs.active g' hold
          omega
        · -- the new job is the first of its group, so it is ready
          rw [hq, List.mem_append, List.mem_singleton] at hi
          rcases hi with hi | rfl
          · exact absurd ⟨ijob, hi, hg⟩ hold
          · have he : g = g' := by
              simpa [Job.inGroup, hgroup] using hg
            subst he
            have hnone : s.queue.any (Job.inGroup g) = false := by
              rw [List.any_eq_false]
              exact fun kjob hk hkg => hold ⟨kjob, hk, hkg⟩
            simp [Job.ready, hg, hblocked, hnone]

theorem serial_acceptCall (group : Option γ) (hserial : Serial s)
    (hordered : ∀ g, group = some g →
      (∃ job ∈ s.queue, job.inGroup g = true) ∨
        s.threads.countP (Worker.executes g) = 0) :
    Serial (acceptCall req timeout group s) := by
  intro g'
  cases group with
  | none =>
      obtain ⟨job, hgroup, -, hq⟩ := acceptCall_none_queue req timeout s
      rw [active_acceptCall_of_queue req timeout s hq]
      simpa [Job.ready, Job.inGroup, hgroup] using hserial g'
  | some g =>
      obtain ⟨job, hgroup, hblocked, hq⟩ := acceptCall_some_queue req timeout s g
      rw [active_acceptCall_of_queue req timeout s hq]
      by_cases he : g = g'
      · subst he
        cases hany : s.queue.any (Job.inGroup g) with
        | true => simpa [Job.ready, hblocked, hany] using hserial g
        | false =>
            rw [List.any_eq_false] at hany
            have hready : s.queue.countP (Job.ready g) = 0 := by
              rw [List.countP_eq_zero]
              intro ijob hi
              simp [Job.ready, hany ijob hi]
            have hexec : s.threads.countP (Worker.executes g) = 0 := by
              rcases hordered g rfl with ⟨ijob, hi, hg⟩ | h
              · exact absurd hg (hany ijob hi)
              · exact h
            simp only [Pool.active, hready, hexec]
            split <;> omega
      · simpa [Job.ready, Job.inGroup, hgroup, he] using hserial g'

end Accept

theorem sameWork_wake (i : Nat) (s : Pool ρ γ) : SameWork s (wake i s) := by
  unfold wake
  split
  · rename_i w hw
    split
    · rename_i hp
      exact sameWork_set hw (by simp [Worker.busy, hp]) rfl
    · exact ⟨rfl, rfl, rfl, fun _ => rfl⟩
  · exact ⟨rfl, rfl, rfl, fun _ => rfl⟩

omit [DecidableEq γ] in
theorem Worker.broadcast_busy (w : Worker ρ γ) : w.broadcast.busy = w.busy := by
  unfold Worker.broadcast Worker.busy
  cases hp : w.phase <;> simp [hp]

theorem Worker.broadcast_executes (g : γ) (w : Worker ρ γ) :
    w.broadcast.executes g = w.executes g := by
  unfold Worker.broadcast Worker.executes
  cases hp : w.phase <;> simp [hp]

/-- Every step is a submission, a turn of a worker, or changes no work, except that
cancelling empties the queue. -/
theorem step_cases {s s' : Pool ρ γ} {a : Action ρ γ} (h : Step s a s') :
    SameWork s s' ∨
      (∃ allocated created req timeout group,
        a = .call allocated created req timeout group ∧
          s' = afbThreadCall allocated created req timeout group s) ∨
      (∃ i, workerTurn i s = some s') ∨ s' = terminateCancel s := by
  cases h with
  | call allocated created req timeout group =>
      exact Or.inr (Or.inl ⟨allocated, created, req, timeout, group, rfl, rfl⟩)
  | turn h => exact Or.inr (Or.inr (Or.inl ⟨_, h⟩))
  | signal pending found waits =>
      obtain ⟨hq, hr, hb, he⟩ := sameWork_wake _ { s with signals := s.signals - 1 }
      exact Or.inl ⟨hq, hr, hb, he⟩
  | signalNone pending idle => exact Or.inl ⟨rfl, rfl, rfl, fun _ => rfl⟩
  | spurious i => exact Or.inl (sameWork_wake i s)
  | terminateBegin =>
      obtain ⟨hq, hr, hb, he⟩ := sameWork_map (s := s)
        (fun w : Worker ρ γ => { w with stop := true }) (fun _ => rfl) (fun _ _ => rfl)
      exact Or.inl ⟨hq, hr, hb, he⟩
  | terminateRound stopping waits =>
      obtain ⟨hq, hr, hb, he⟩ := sameWork_map (s := s)
        (fun w : Worker ρ γ => { w.broadcast with joined := w.joined || w.joinable })
        (fun w => w.broadcast_busy) (fun g w => w.broadcast_executes g)
      exact Or.inl ⟨hq, hr, hb, he⟩
  | terminateCancel stopping joined => exact Or.inr (Or.inr (Or.inr rfl))

theorem served_step {s s' : Pool ρ γ} {a : Action ρ γ} (hs : Served s) (h : Step s a s') :
    Served s' := by
  rcases step_cases h with hsame | ⟨allocated, created, req, timeout, group, -, rfl⟩ | ⟨i, hturn⟩ |
    rfl
  · exact hsame.served hs
  · rcases afbThreadCall_cases allocated created req timeout group s with hsame | ⟨s', hsame, heq⟩
    · exact hsame.served hs
    · rw [heq]
      exact served_acceptCall req timeout s' group (hsame.served hs)
  · exact served_workerTurn hturn hs
  · exact ⟨hs.running, by simp [terminateCancel], by simp [terminateCancel]⟩

theorem serial_step {s s' : Pool ρ γ} {a : Action ρ γ} (hs : Served s) (hserial : Serial s)
    (hordered : SubmissionOrdered s a) (h : Step s a s') : Serial s' := by
  rcases step_cases h with hsame | ⟨allocated, created, req, timeout, group, rfl, rfl⟩ |
    ⟨i, hturn⟩ | rfl
  · exact hsame.serial hserial
  · rcases afbThreadCall_cases allocated created req timeout group s with hsame | ⟨s', hsame, heq⟩
    · exact hsame.serial hserial
    · rw [heq]
      apply serial_acceptCall req timeout s' group (hsame.serial hserial)
      rintro g rfl
      rcases hordered with hqueued | hidle
      · exact Or.inl (hsame.queue ▸ hqueued)
      · right
        rw [hsame.executes g, List.countP_eq_zero]
        intro w hw
        simp [hidle w hw]
  · exact serial_workerTurn hturn hs hserial
  · intro g
    have hle : s.active g ≤ 1 := hserial g
    simp only [Pool.active, terminateCancel, List.countP_nil] at hle ⊢
    omega

theorem served_startThreads (created : List Bool) {s : Pool ρ γ} (hs : Served s)
    (hserial : Serial s) : Served (startThreads created s) ∧ Serial (startThreads created s) := by
  induction created generalizing s with
  | nil => exact ⟨hs, hserial⟩
  | cons ok rest ih =>
      have hsame := sameWork_startOneThread ok s
      simp only [startThreads]
      split
      · exact ih (hsame.served hs) (hsame.serial hserial)
      · exact ⟨hsame.served hs, hsame.serial hserial⟩

theorem afbThreadInit_spec (allowedCount : Nat) (created : List Bool) (waiterCount : Nat) :
    Served (afbThreadInit allowedCount created waiterCount : Pool ρ γ) ∧
      Serial (afbThreadInit allowedCount created waiterCount : Pool ρ γ) := by
  apply served_startThreads
  · exact ⟨rfl, by simp, by simp⟩
  · intro g
    simp [Pool.active]

theorem groupExclusive_of_serial {s : Pool ρ γ} (hserial : Serial s) : GroupExclusive s := by
  rintro i j w w' g hne hi hj ⟨hw, hw'⟩
  -- replacing both workers by idle ones takes two from the count
  have h₁ := Slots.countP_set_add (Worker.executes g) w.rested hi
  have hj' : (s.threads.set i w.rested)[j]? = some w' := by
    rw [List.getElem?_set_ne hne]
    exact hj
  have h₂ := Slots.countP_set_add (Worker.executes g) w'.rested hj'
  have hr : w.rested.executes g = false := rfl
  have hr' : w'.rested.executes g = false := rfl
  have hone : s.threads.countP (Worker.executes g) + s.queue.countP (Job.ready g) ≤ 1 :=
    hserial g
  simp only [hw, hw', hr, hr', Bool.false_eq_true, if_false, if_true] at h₁ h₂
  omega

/-- In every run whose submissions are ordered, no two workers ever execute jobs
of one group. -/
theorem groupExclusive_of_ordered (allowedCount : Nat) (created : List Bool) (waiterCount : Nat)
    {s : Pool ρ γ} {ts : List (Transition (Pool ρ γ) (Action ρ γ))}
    (hrun : Runs Step (afbThreadInit allowedCount created waiterCount) s ts)
    (hordered : ∀ t ∈ ts, SubmissionOrdered t.before t.action) : GroupExclusive s := by
  have hinit := afbThreadInit_spec (ρ := ρ) (γ := γ) allowedCount created waiterCount
  have hinv : Served s ∧ Serial s :=
    hrun.invariant_of (fun s => Served s ∧ Serial s)
      (fun t => SubmissionOrdered t.before t.action)
      (fun s a s' hi hc hs => ⟨served_step hi.1 hs, serial_step hi.1 hi.2 hc hs⟩) hinit hordered
  exact groupExclusive_of_serial hinv.2

/-- Two jobs of one group, the second submitted while the first is queued. -/
theorem groupExclusive_queued_pair :
    ∃ (s : Pool Nat Nat) (ts : List (Transition (Pool Nat Nat) (Action Nat Nat))),
      Runs Step (afbThreadInit 3 [true] 20) s ts ∧
        (∃ w ∈ s.threads, w.executes 7 = true) ∧ s.queue.length = 1 ∧ GroupExclusive s := by
  have hrun := ((Runs.refl (s := (afbThreadInit 3 [true] 20 : Pool Nat Nat))).snoc
    (Step.call _ true true 0 5 (some 7))).snoc (Step.call _ true true 1 5 (some 7)) |>.snoc
    (Step.turn (i := 0) rfl)
  refine ⟨_, _, hrun, ⟨_, List.mem_cons_self, rfl⟩, rfl, ?_⟩
  apply groupExclusive_of_ordered 3 [true] 20 hrun
  intro t ht
  simp only [List.nil_append, List.mem_append, List.mem_singleton] at ht
  rcases ht with (rfl | rfl) | rfl
  · exact Or.inr (by decide)
  · exact Or.inl ⟨_, List.mem_cons_self, rfl⟩
  · trivial

/-- A job submitted while a job of its group executes and none is queued is taken
by a second worker at once. -/
theorem groupExclusive_fails :
    ¬ ∀ (allowedCount : Nat) (created : List Bool) (waiterCount : Nat) (s : Pool Nat Nat)
        (ts : List (Transition (Pool Nat Nat) (Action Nat Nat))),
        Runs Step (afbThreadInit allowedCount created waiterCount) s ts → GroupExclusive s := by
  intro h
  have hrun := (((Runs.refl (s := (afbThreadInit 3 [true] 20 : Pool Nat Nat))).snoc
    (Step.call _ true true 0 5 (some 7))).snoc (Step.turn (i := 0) rfl)).snoc
    (Step.call _ true true 1 5 (some 7)) |>.snoc (Step.turn (i := 1) rfl)
  exact h 3 [true] 20 _ _ hrun 0 1 _ _ 7 (by decide) rfl rfl ⟨rfl, rfl⟩

end AfbBinder.Thread
