import AfbBinder.Thread.Order

/-!
# The accounting of the jobs

The log is related to the transitions of the run: every accepted job is started, queued or
cancelled, each once, and every reference taken is held for a job that executes or waits, or
was released.  The workers that are joined have returned, so that nothing executes when the
jobs left are cancelled.
-/

namespace AfbBinder.Thread

open Lib

variable {ρ γ : Type}

/-! ## What the log says -/

def addrefs (log : List (Effect ρ γ)) : List ρ :=
  log.filterMap fun
    | .addref req => some req
    | _ => none

def unrefs (log : List (Effect ρ γ)) : List ρ :=
  log.filterMap fun
    | .unref req => some req
    | _ => none

/-- The requests that were failed with the given status. -/
def failures (status : String) (log : List (Effect ρ γ)) : List ρ :=
  log.filterMap fun
    | .fail req given _ => if given = status then some req else none
    | _ => none

/-- What a job keeps from its submission to its end. -/
def Job.identity (job : Job ρ γ) : Nat × ρ × Option γ := (job.ticket, job.req, job.group)

/-! ## What the run was asked -/

/-- The jobs accepted into the queue, in the order of their submissions. -/
def accepted (ts : List (Transition (Pool ρ γ) (Action ρ γ))) : List (Nat × ρ × Option γ) :=
  ts.flatMap fun t =>
    match t.action with
    | .call _ _ req _ group =>
        if t.after.nextTicket = t.before.nextTicket then []
        else [(t.before.nextTicket, req, group)]
    | _ => []

/-- The requests of the rejected submissions. -/
def rejected (ts : List (Transition (Pool ρ γ) (Action ρ γ))) : List ρ :=
  ts.flatMap fun t =>
    match t.action with
    | .call _ _ req _ _ => if t.after.nextTicket = t.before.nextTicket then [req] else []
    | _ => []

/-- The jobs that were still queued when the threading ended. -/
def cancelled (ts : List (Transition (Pool ρ γ) (Action ρ γ))) : List (Nat × ρ × Option γ) :=
  ts.flatMap fun t =>
    match t.action with
    | .terminateCancel => t.before.queue.map Job.identity
    | _ => []

/-! ## The accounting -/

/-- The jobs of a pool, for the accepted, rejected and cancelled submissions of its run. -/
structure Accounted (s : Pool ρ γ) (accepted : List (Nat × ρ × Option γ)) (rejected : List ρ)
    (cancelled : List (Nat × ρ × Option γ)) : Prop where
  tickets : accepted.map Prod.fst = List.range s.nextTicket
  addrefs : addrefs s.log = accepted.map fun job => job.2.1
  rejects : failures "internal-error" s.log = rejected
  aborts : failures "aborted" s.log = cancelled.map fun job => job.2.1
  jobs : ((starts s.log).map Job.identity ++ (s.queue.map Job.identity ++ cancelled)).Perm accepted
  unrefs : (unrefs s.log ++ s.executing.map Job.req).Perm
    ((starts s.log).map Job.req ++ cancelled.map fun job => job.2.1)

section Accounts

variable {s s' : Pool ρ γ} {A C : List (Nat × ρ × Option γ)} {R : List ρ} {i : Nat}
  {w : Worker ρ γ}

theorem SameBooks.accounted (h : SameBooks s s') (hs : Accounted s A R C) :
    Accounted s' A R C := by
  obtain ⟨h₁, h₂, h₃, h₄, h₅, h₆⟩ := hs
  rw [← h.nextTicket] at h₁
  rw [← h.log] at h₂ h₃ h₄ h₅ h₆
  rw [← h.queue] at h₅
  rw [← h.executing] at h₆
  exact ⟨h₁, h₂, h₃, h₄, h₅, h₆⟩

theorem accounted_take (hw : s.threads[i]? = some w) (hidle : w.busy = false)
    {job : Job ρ γ} {rest : List (Job ρ γ)} (hget : jobGet s.queue = some (job, rest))
    (hs : Accounted s A R C) :
    Accounted (runJob i w job { s with queue := rest, remains := s.remains + 1 }) A R C := by
  obtain ⟨front, back, hq, rfl, -, -⟩ := jobGet_some hget
  have hrun := executing_runJob (s := { s with queue := front ++ back, remains := s.remains + 1 })
    hw hidle job
  refine ⟨hs.tickets, ?_, ?_, ?_, ?_, ?_⟩
  · simpa [Thread.addrefs, runJob] using hs.addrefs
  · simpa [failures, runJob] using hs.rejects
  · simpa [failures, runJob] using hs.aborts
  · -- the job moves from the queue to the end of those that started
    have hstarts : Thread.starts (s.log ++ [.start job]) = Thread.starts s.log ++ [job] := by
      simp [Thread.starts]
    refine List.Perm.trans ?_ hs.jobs
    simp only [runJob, hstarts, hq, List.map_append, List.map_cons, List.map_nil,
      List.append_assoc, List.singleton_append]
    exact (List.perm_middle.symm).append_left _
  · have hstarts : Thread.starts (s.log ++ [.start job]) = Thread.starts s.log ++ [job] := by
      simp [Thread.starts]
    have hunrefs : Thread.unrefs (s.log ++ [.start job]) = Thread.unrefs s.log := by
      simp [Thread.unrefs]
    have hexec := (hrun.map Job.req).append_left (Thread.unrefs s.log)
    have hold := hs.unrefs.cons job.req
    simp only [runJob, hstarts, hunrefs, List.map_append, List.map_cons, List.map_nil,
      List.append_assoc, List.singleton_append] at hexec ⊢
    exact hexec.trans (List.perm_middle.trans (hold.trans List.perm_middle.symm))

variable [DecidableEq γ]

theorem accounted_finishJob {job : Job ρ γ} (hw : s.threads[i]? = some w)
    (hphase : w.phase = .executing job) (hs : Accounted s A R C) :
    Accounted (finishJob i w job s) A R C := by
  have hfinish := executing_finishJob hw hphase
  have hqueue : (finishJob i w job s).queue.map Job.identity = s.queue.map Job.identity := by
    cases hj : job.group with
    | none => simp [finishJob, hj]
    | some g => simpa [finishJob, hj] using jobUnblock_map Job.identity (fun _ => rfl) g s.queue
  refine ⟨hs.tickets, ?_, ?_, ?_, ?_, ?_⟩
  · simpa [Thread.addrefs, finishJob] using hs.addrefs
  · simpa [failures, finishJob] using hs.rejects
  · simpa [failures, finishJob] using hs.aborts
  · rw [hqueue]
    simpa [Thread.starts, finishJob] using hs.jobs
  · -- the reference of the ended job is released
    have hunrefs : Thread.unrefs (finishJob i w job s).log = Thread.unrefs s.log ++ [job.req] := by
      simp [Thread.unrefs, finishJob]
    have hstarts : Thread.starts (finishJob i w job s).log = Thread.starts s.log := by
      simp [Thread.starts, finishJob]
    rw [hunrefs, hstarts, List.append_assoc]
    exact ((hfinish.map Job.req).symm.append_left _).trans hs.unrefs

theorem accounted_loopTurn (hw : s.threads[i]? = some w) (hidle : w.busy = false)
    (hserved : Served s) (hs : Accounted s A R C) : Accounted (loopTurn i w s) A R C := by
  rcases loopTurn_spec i w hserved with ⟨-, heq⟩ | ⟨-, -, heq⟩ | ⟨-, job, rest, hget, heq⟩
  · rw [heq]
    exact (sameBooks_set hw hidle rfl).accounted hs
  · rw [heq]
    exact (sameBooks_set hw hidle rfl).accounted hs
  · rw [heq]
    exact accounted_take hw hidle hget hs

theorem accounted_acceptCall (hs : Accounted s A R C) (req : ρ) (timeout : Int)
    (group : Option γ) :
    Accounted (acceptCall req timeout group s) (A ++ [(s.nextTicket, req, group)]) R C where
  tickets := by
    have htickets := hs.tickets
    simp only [acceptCall, jobAdd, List.map_append, List.map_cons, List.map_nil, htickets,
      List.range_succ]
  addrefs := by simp [Thread.addrefs, acceptCall, jobAdd, ← hs.addrefs]
  rejects := by simpa [failures, acceptCall, jobAdd] using hs.rejects
  aborts := by simpa [failures, acceptCall, jobAdd] using hs.aborts
  jobs := by
    have hstarts : Thread.starts (acceptCall req timeout group s).log = Thread.starts s.log := by
      simp [Thread.starts, acceptCall, jobAdd]
    have hqueue : (acceptCall req timeout group s).queue.map Job.identity =
        s.queue.map Job.identity ++ [(s.nextTicket, req, group)] := by
      simp [acceptCall, jobAdd, Job.identity]
    have hlast : ((starts s.log).map Job.identity ++ (s.queue.map Job.identity ++
        ([(s.nextTicket, req, group)] ++ C))).Perm
        ((starts s.log).map Job.identity ++ (s.queue.map Job.identity ++ C) ++
          [(s.nextTicket, req, group)]) := by
      simp only [List.append_assoc]
      exact (List.perm_append_comm.append_left _).append_left _
    rw [hstarts, hqueue, List.append_assoc]
    exact hlast.trans (hs.jobs.append_right _)
  unrefs := by simpa [Thread.starts, Thread.unrefs, acceptCall, jobAdd, Pool.executing] using hs.unrefs

omit [DecidableEq γ] in
theorem accounted_rejectCall (hs : Accounted s A R C) (req : ρ) (info : String) :
    Accounted (rejectCall req info s) A (R ++ [req]) C where
  tickets := hs.tickets
  addrefs := by simpa [Thread.addrefs, rejectCall] using hs.addrefs
  rejects := by simp [failures, rejectCall, ← hs.rejects]
  aborts := by simpa [failures, rejectCall] using hs.aborts
  jobs := by simpa [Thread.starts, rejectCall] using hs.jobs
  unrefs := by
    simpa [Thread.starts, Thread.unrefs, rejectCall, Pool.executing] using hs.unrefs

omit [DecidableEq γ] in
theorem cancel_log (queue : List (Job ρ γ)) :
    let log := queue.flatMap fun job =>
      [Effect.fail (γ := γ) job.req "aborted" "termination of threading", .unref job.req]
    starts log = [] ∧ addrefs log = [] ∧ unrefs log = queue.map Job.req ∧
      failures "aborted" log = queue.map Job.req ∧ failures "internal-error" log = [] := by
  induction queue with
  | nil => simp [starts, addrefs, unrefs, failures]
  | cons job queue ih =>
      simp only [starts, addrefs, unrefs, failures] at ih
      simp [starts, addrefs, unrefs, failures, ih]

omit [DecidableEq γ] in
theorem accounted_terminateCancel (hs : Accounted s A R C) :
    Accounted (terminateCancel s) A R (C ++ s.queue.map Job.identity) := by
  obtain ⟨hstarts, haddrefs, hunrefs, haborts, hrejects⟩ := cancel_log s.queue
  have hreqs : (s.queue.map Job.identity).map (fun job => job.2.1) = s.queue.map Job.req := by
    simp [Job.identity, Function.comp_def]
  refine ⟨hs.tickets, ?_, ?_, ?_, ?_, ?_⟩
  · rw [terminateCancel, ← hs.addrefs]
    simpa [Thread.addrefs] using haddrefs
  · rw [← hs.rejects]
    simpa [terminateCancel, failures] using hrejects
  · rw [List.map_append, hreqs, ← hs.aborts, ← haborts]
    simp [terminateCancel, failures]
  · have hlog : Thread.starts (terminateCancel s).log = Thread.starts s.log := by
      simpa [terminateCancel, Thread.starts] using hstarts
    have hempty : (terminateCancel s).queue.map Job.identity = [] := rfl
    rw [hlog, hempty, List.nil_append]
    exact (List.perm_append_comm.append_left _).trans hs.jobs
  · have hlog : Thread.starts (terminateCancel s).log = Thread.starts s.log := by
      simpa [terminateCancel, Thread.starts] using hstarts
    have hreleased : Thread.unrefs (terminateCancel s).log =
        Thread.unrefs s.log ++ s.queue.map Job.req := by
      rw [← hunrefs]
      simp [terminateCancel, Thread.unrefs]
    have hexec : (terminateCancel s).executing = s.executing := rfl
    have hall := hs.unrefs.append_right (s.queue.map Job.req)
    rw [hlog, hreleased, hexec, List.map_append, hreqs]
    simp only [List.append_assoc] at hall ⊢
    exact (List.perm_append_comm.append_left _).trans hall

end Accounts

/-! ## The end of the workers -/

/-- The counter `started` is the number of the workers that are still to be joined, and only
workers that returned are joined. -/
structure Joined (s : Pool ρ γ) : Prop where
  started : s.started = s.threads.countP fun w => !w.joined
  joined : ∀ w ∈ s.threads, w.joined = true → w.ended = true
  ended : ∀ w ∈ s.threads, w.ended = true → w.phase = .returned

section End

variable {s s' : Pool ρ γ} {i : Nat} {w : Worker ρ γ}

theorem Joined.idle {s : Pool ρ γ} (h : Joined s) (hnone : s.started = 0) : s.executing = [] := by
  have hcount : s.threads.countP (fun w => !w.joined) = 0 := by
    have := h.started
    omega
  rw [List.countP_eq_zero] at hcount
  rw [Pool.executing, List.filterMap_eq_nil_iff]
  intro w hw
  have hjoined : w.joined = true := by simpa using hcount w hw
  simp [Worker.job?, h.ended w hw (h.joined w hw hjoined)]

theorem joined_set {u : Worker ρ γ} (h : Joined s) (hw : s.threads[i]? = some w)
    (hjoined : u.joined = w.joined) (hkeeps : u.joined = true → u.ended = true)
    (hended : u.ended = true → u.phase = .returned) :
    Joined { s with threads := s.threads.set i u } := by
  have hcount := Slots.countP_set_add (fun x : Worker ρ γ => !x.joined) u hw
  simp only [hjoined, Nat.add_right_cancel_iff] at hcount
  refine ⟨?_, ?_, ?_⟩
  · rw [h.started]
    exact congrArg Int.ofNat hcount.symm
  · intro x hx
    rcases List.mem_or_eq_of_mem_set hx with hold | rfl
    · exact h.joined x hold
    · exact hkeeps
  · intro x hx
    rcases List.mem_or_eq_of_mem_set hx with hold | rfl
    · exact h.ended x hold
    · exact hended

theorem not_ended (h : Joined s) (hw : s.threads[i]? = some w) (hphase : w.phase ≠ .returned) :
    w.ended = false ∧ w.joined = false := by
  have hmem := List.mem_of_getElem? hw
  have hended : w.ended = false := by
    cases he : w.ended with
    | false => rfl
    | true => exact absurd (h.ended w hmem he) hphase
  refine ⟨hended, ?_⟩
  cases hj : w.joined with
  | false => rfl
  | true => simpa [hended] using h.joined w hmem hj

theorem joined_loopTurn [DecidableEq γ] (h : Joined s) (hserved : Served s)
    (hw : s.threads[i]? = some w) (hended : w.ended = false) (hjoined : w.joined = false) :
    Joined (loopTurn i w s) := by
  rcases loopTurn_spec i w hserved with ⟨-, heq⟩ | ⟨-, -, heq⟩ | ⟨-, job, rest, -, heq⟩
  · rw [heq]
    exact joined_set h hw rfl (by simp) (by simp)
  · rw [heq]
    exact joined_set h hw rfl (by simp [hjoined]) (by simp [hended])
  · rw [heq]
    obtain ⟨h₁, h₂, h₃⟩ := joined_set (u := { w with works := true, phase := .executing job })
      h hw rfl (by simp [hjoined]) (by simp [hended])
    exact ⟨h₁, h₂, h₃⟩

theorem joined_workerTurn [DecidableEq γ] (h : Joined s) (hserved : Served s)
    (hturn : workerTurn i s = some s') : Joined s' := by
  obtain ⟨w, hw, ⟨-, rfl⟩ | ⟨job, hphase, rfl⟩⟩ := workerTurn_cases hturn
  · have hphase : w.phase ≠ .returned := by
      intro hp
      simp [workerTurn, hw, hp] at hturn
    obtain ⟨hended, hjoined⟩ := not_ended h hw hphase
    exact joined_loopTurn h hserved hw hended hjoined
  · obtain ⟨hended, hjoined⟩ := not_ended h hw (by simp [hphase])
    obtain ⟨h₁, h₂, h₃⟩ := joined_set (u := w.rested) h hw rfl
      (by simp [Worker.rested, hjoined]) (by simp [Worker.rested, hended])
    exact joined_loopTurn ⟨h₁, h₂, h₃⟩ (served_finishJob hw hphase hserved)
      (finishJob_threads hw job) hended hjoined

theorem joined_wake (h : Joined s) (i : Nat) : Joined (wake i s) := by
  unfold wake
  split
  · rename_i w hw
    split
    · rename_i hp
      obtain ⟨hended, hjoined⟩ := not_ended h hw (by simp [hp])
      exact joined_set h hw rfl (by simp [hjoined]) (by simp [hended])
    · exact h
  · exact h

theorem joined_startOneThread (h : Joined s) : Joined (startOneThread true s).1 := by
  refine ⟨?_, ?_, ?_⟩
  · have := h.started
    simp only [startOneThread, if_true, List.countP_append, freshWorker, List.countP_singleton,
      Bool.not_false]
    omega
  · intro w hw
    simp only [startOneThread, if_true, List.mem_append, List.mem_singleton] at hw
    rcases hw with hold | rfl
    · exact h.joined w hold
    · simp [freshWorker]
  · intro w hw
    simp only [startOneThread, if_true, List.mem_append, List.mem_singleton] at hw
    rcases hw with hold | rfl
    · exact h.ended w hold
    · simp [freshWorker]

theorem joined_terminateBegin (h : Joined s) : Joined (terminateBegin s) := by
  refine ⟨?_, ?_, ?_⟩
  · have hcount : (s.threads.map fun w => { w with stop := true }).countP (fun w => !w.joined) =
        s.threads.countP fun w => !w.joined := by
      rw [List.countP_map]
      rfl
    simp only [terminateBegin, hcount]
    exact h.started
  · intro w hw
    obtain ⟨old, hold, rfl⟩ := List.mem_map.mp hw
    exact h.joined old hold
  · intro w hw
    obtain ⟨old, hold, rfl⟩ := List.mem_map.mp hw
    exact h.ended old hold

/-- The workers still to join are those that are joined now and those that are not. -/
theorem countP_joinable (threads : List (Worker ρ γ)) :
    threads.countP (fun w => !w.joined) =
      threads.countP Worker.joinable + threads.countP fun w => !(w.joined || w.joinable) := by
  induction threads with
  | nil => rfl
  | cons w threads ih =>
      rw [List.countP_cons, List.countP_cons, List.countP_cons, ih]
      cases hj : w.joined <;> cases he : w.ended <;> simp [Worker.joinable, hj, he] <;> omega

theorem Worker.broadcast_ended (w : Worker ρ γ) :
    w.broadcast.ended = w.ended ∧ (w.phase = .returned → w.broadcast.phase = .returned) := by
  unfold Worker.broadcast
  cases hp : w.phase <;> simp [hp]

theorem joined_terminateRound (h : Joined s) : Joined (terminateRound s) := by
  refine ⟨?_, ?_, ?_⟩
  · have hcount := countP_joinable s.threads
    have hnow : (terminateRound s).threads.countP (fun w => !w.joined) =
        s.threads.countP fun w => !(w.joined || w.joinable) := by
      simp only [terminateRound]
      rw [List.countP_map]
      rfl
    have hstarted := h.started
    rw [hnow]
    simp only [terminateRound]
    omega
  · intro w hw hjoined
    obtain ⟨old, hold, rfl⟩ := List.mem_map.mp hw
    simp only [Bool.or_eq_true] at hjoined
    rw [old.broadcast_ended.1]
    rcases hjoined with hjoined | hjoinable
    · exact h.joined old hold hjoined
    · simp only [Worker.joinable, Bool.and_eq_true] at hjoinable
      exact hjoinable.2
  · intro w hw hended
    obtain ⟨old, hold, rfl⟩ := List.mem_map.mp hw
    rw [old.broadcast_ended.1] at hended
    exact old.broadcast_ended.2 (h.ended old hold hended)

end End

theorem joined_startThreads (created : List Bool) {s : Pool ρ γ} (h : Joined s) :
    Joined (startThreads created s) := by
  induction created generalizing s with
  | nil => exact h
  | cons ok rest ih =>
      cases ok with
      | false => exact h
      | true => exact ih (joined_startOneThread h)

theorem sameBooks_startThreads (created : List Bool) (s : Pool ρ γ) :
    SameBooks s (startThreads created s) := by
  induction created generalizing s with
  | nil => exact ⟨rfl, rfl, rfl, rfl⟩
  | cons ok rest ih =>
      cases ok with
      | false => exact ⟨rfl, rfl, rfl, rfl⟩
      | true =>
          have hstart := sameBooks_startOneThread s
          obtain ⟨h₁, h₂, h₃, h₄⟩ := ih (startOneThread true s).1
          exact ⟨h₁.trans hstart.queue, h₂.trans hstart.log, h₃.trans hstart.nextTicket,
            h₄.trans hstart.executing⟩

/-! ## Runs -/

section Runs

variable [DecidableEq γ] {s s' : Pool ρ γ} {a : Action ρ γ}

/-- The action neither submits nor cancels, so that it is not in the books of a run. -/
def Action.offBooks : Action ρ γ → Bool
  | .call _ _ _ _ _ => false
  | .terminateCancel => false
  | _ => true

omit [DecidableEq γ] in
theorem offBooks_nil {t : Transition (Pool ρ γ) (Action ρ γ)} (h : t.action.offBooks = true) :
    accepted [t] = [] ∧ rejected [t] = [] ∧ cancelled [t] = [] := by
  cases ha : t.action <;> simp_all [accepted, rejected, cancelled, Action.offBooks]

/-- What is known of a pool after the transitions `ts`. -/
structure Audited (s : Pool ρ γ) (ts : List (Transition (Pool ρ γ) (Action ρ γ))) : Prop where
  served : Served s
  ordered : Ordered s
  joined : Joined s
  accounted : Accounted s (accepted ts) (rejected ts) (cancelled ts)

theorem Audited.offBooks {ts : List (Transition (Pool ρ γ) (Action ρ γ))} (hserved : Served s')
    (hordered : Ordered s') (hjoined : Joined s')
    (haccounted : Accounted s' (accepted ts) (rejected ts) (cancelled ts))
    (ha : a.offBooks = true) : Audited s' (ts ++ [⟨s, a, s'⟩]) := by
  obtain ⟨haccepted, hrejected, hcancelled⟩ := offBooks_nil (t := ⟨s, a, s'⟩) ha
  refine ⟨hserved, hordered, hjoined, ?_⟩
  have h₁ : accepted (ts ++ [⟨s, a, s'⟩]) = accepted ts := by
    rw [accepted, List.flatMap_append]
    exact (congrArg _ haccepted).trans (List.append_nil _)
  have h₂ : rejected (ts ++ [⟨s, a, s'⟩]) = rejected ts := by
    rw [rejected, List.flatMap_append]
    exact (congrArg _ hrejected).trans (List.append_nil _)
  have h₃ : cancelled (ts ++ [⟨s, a, s'⟩]) = cancelled ts := by
    rw [cancelled, List.flatMap_append]
    exact (congrArg _ hcancelled).trans (List.append_nil _)
  rw [h₁, h₂, h₃]
  exact haccounted

theorem Audited.quiet {ts : List (Transition (Pool ρ γ) (Action ρ γ))} (h : Audited s ts)
    (hbooks : SameBooks s s') (hserved : Served s') (hjoined : Joined s')
    (ha : a.offBooks = true) : Audited s' (ts ++ [⟨s, a, s'⟩]) :=
  .offBooks hserved (hbooks.ordered h.ordered) hjoined (hbooks.accounted h.accounted) ha

theorem audited_call {ts : List (Transition (Pool ρ γ) (Action ρ γ))} (h : Audited s ts)
    (allocated created : Bool) (req : ρ) (timeout : Int) (group : Option γ)
    (hstep : Step s (.call allocated created req timeout group) s')
    (hs' : s' = afbThreadCall allocated created req timeout group s) :
    Audited s' (ts ++ [⟨s, .call allocated created req timeout group, s'⟩]) := by
  have hserved := served_step h.served hstep
  rcases afbThreadCall_spec allocated created req timeout group s with
    ⟨info, heq⟩ | ⟨-, s₁, hs₁, heq⟩
  · rw [heq] at hs'
    subst hs'
    refine ⟨hserved, ?_, ⟨h.joined.started, h.joined.joined, h.joined.ended⟩, ?_⟩
    · obtain ⟨h₁, h₂, h₃, h₄, h₅⟩ := h.ordered
      have hstarts : starts (rejectCall req info s).log = starts s.log := by
        simp [starts, rejectCall]
      rw [← hstarts] at h₃ h₄ h₅
      exact ⟨h₁, h₂, h₃, h₄, h₅⟩
    · simpa [accepted, rejected, cancelled, rejectCall] using
        accounted_rejectCall h.accounted req info
  · rw [heq] at hs'
    subst hs'
    have hbooks : SameBooks s s₁ ∧ Joined s₁ := by
      rcases hs₁ with rfl | rfl
      · exact ⟨⟨rfl, rfl, rfl, rfl⟩, h.joined⟩
      · exact ⟨sameBooks_startOneThread s, joined_startOneThread h.joined⟩
    have hticket := hbooks.1.nextTicket
    refine ⟨hserved, ordered_acceptCall (hbooks.1.ordered h.ordered) req timeout group,
      ⟨hbooks.2.started, hbooks.2.joined, hbooks.2.ended⟩, ?_⟩
    have hnew := accounted_acceptCall (hbooks.1.accounted h.accounted) req timeout group
    have hnext : (acceptCall req timeout group s₁).nextTicket = s.nextTicket + 1 := by
      simp [acceptCall, jobAdd, hticket]
    rw [hticket] at hnew
    simpa [accepted, rejected, cancelled, hnext] using hnew

theorem audited_step {ts : List (Transition (Pool ρ γ) (Action ρ γ))} (h : Audited s ts)
    (hstep : Step s a s') : Audited s' (ts ++ [⟨s, a, s'⟩]) := by
  have hserved := served_step h.served hstep
  cases hstep with
  | call allocated created req timeout group =>
      exact audited_call h allocated created req timeout group (.call _ _ _ _ _ _) rfl
  | turn hturn =>
      have hjoined := joined_workerTurn h.joined h.served hturn
      obtain ⟨w, hw, ⟨hidle, rfl⟩ | ⟨job, hphase, rfl⟩⟩ := workerTurn_cases hturn
      · exact .offBooks hserved (ordered_loopTurn hw hidle h.served h.ordered) hjoined
          (accounted_loopTurn hw hidle h.served h.accounted) rfl
      · have hfinished := served_finishJob hw hphase h.served
        have hthreads := finishJob_threads hw job
        exact .offBooks hserved
          (ordered_loopTurn hthreads rfl hfinished (ordered_finishJob h.ordered job)) hjoined
          (accounted_loopTurn hthreads rfl hfinished (accounted_finishJob hw hphase h.accounted)) rfl
  | signal pending found waits =>
      obtain ⟨h₁, h₂, h₃, h₄⟩ := sameBooks_wake _ { s with signals := s.signals - 1 }
      have hjoined : Joined { s with signals := s.signals - 1 } :=
        ⟨h.joined.started, h.joined.joined, h.joined.ended⟩
      exact h.quiet ⟨h₁, h₂, h₃, h₄⟩ hserved (joined_wake hjoined _) rfl
  | signalNone pending idle =>
      exact h.quiet ⟨rfl, rfl, rfl, rfl⟩ hserved
        ⟨h.joined.started, h.joined.joined, h.joined.ended⟩ rfl
  | spurious i => exact h.quiet (sameBooks_wake i s) hserved (joined_wake h.joined i) rfl
  | terminateBegin =>
      obtain ⟨h₁, h₂, h₃, h₄⟩ := sameBooks_map (s := s)
        (fun w : Worker ρ γ => { w with stop := true }) (fun _ => rfl)
      exact h.quiet ⟨h₁, h₂, h₃, h₄⟩ hserved (joined_terminateBegin h.joined) rfl
  | terminateRound stopping waits =>
      obtain ⟨h₁, h₂, h₃, h₄⟩ := sameBooks_map (s := s)
        (fun w : Worker ρ γ => { w.broadcast with joined := w.joined || w.joinable })
        (fun w => by
          unfold Worker.broadcast Worker.job?
          cases hp : w.phase <;> simp [hp])
      exact h.quiet ⟨h₁, h₂, h₃, h₄⟩ hserved (joined_terminateRound h.joined) rfl
  | terminateCancel stopping joined =>
      refine ⟨hserved, h.ordered.of_subset rfl ?_ rfl,
        ⟨h.joined.started, h.joined.joined, h.joined.ended⟩, ?_⟩
      · simpa [terminateCancel, starts] using (cancel_log s.queue).1
      · simpa [accepted, rejected, cancelled] using accounted_terminateCancel h.accounted

theorem audited_init (allowedCount : Nat) (created : List Bool) (waiterCount : Nat) :
    Audited (afbThreadInit allowedCount created waiterCount : Pool ρ γ) [] := by
  refine ⟨(afbThreadInit_spec allowedCount created waiterCount).1, ?_, ?_, ?_⟩
  · apply (sameBooks_startThreads created _).ordered
    exact ⟨List.Pairwise.nil, by simp, by simp [starts], List.Pairwise.nil, by simp [starts]⟩
  · apply joined_startThreads
    exact ⟨rfl, by simp, by simp⟩
  · apply (sameBooks_startThreads created _).accounted
    exact ⟨rfl, rfl, rfl, rfl, List.Perm.nil, List.Perm.nil⟩

end Runs

/-- Over every run: the tickets follow the submissions, and the jobs of a group start in the
order of their tickets; a job starts once at most, and only an accepted one; a request is
referenced once for each accepted job, and failed once for each rejected one.  After the
termination every accepted job was executed to its end or failed as aborted, once, and its
request was released. -/
theorem jobs_ordered_once [DecidableEq γ] (allowedCount : Nat) (created : List Bool)
    (waiterCount : Nat) {s : Pool ρ γ} {ts : List (Transition (Pool ρ γ) (Action ρ γ))}
    (hrun : Runs Step (afbThreadInit allowedCount created waiterCount) s ts) :
    (accepted ts).map Prod.fst = List.range s.nextTicket ∧
    ((starts s.log).Pairwise fun a b =>
      ∀ g, a.group = some g → b.group = some g → a.ticket < b.ticket) ∧
    ((starts s.log).map Job.ticket).Nodup ∧
    (∀ job ∈ starts s.log, job.identity ∈ accepted ts) ∧
    (addrefs s.log = (accepted ts).map fun job => job.2.1) ∧
    failures "internal-error" s.log = rejected ts ∧
    ∀ us t, ts = us ++ [t] → t.action = .terminateCancel →
      ((starts s.log).map Job.identity ++ cancelled ts).Perm (accepted ts) ∧
      s.executing = [] ∧
      (failures "aborted" s.log = (cancelled ts).map fun job => job.2.1) ∧
      (unrefs s.log).Perm ((accepted ts).map fun job => job.2.1) := by
  have haudit : Audited s ts := hrun.history Audited
    (fun _ _ _ _ hi hstep => audited_step hi hstep) (audited_init allowedCount created waiterCount)
  have hbooks := haudit.accounted
  refine ⟨hbooks.tickets, haudit.ordered.starts, ?_, ?_, hbooks.addrefs, hbooks.rejects, ?_⟩
  · -- the tickets of all the jobs are those of the accepted ones, which are distinct
    have hnodup : ((accepted ts).map Prod.fst).Nodup := by
      rw [hbooks.tickets]
      exact List.nodup_range
    have hall := (hbooks.jobs.map Prod.fst).nodup_iff.mpr hnodup
    rw [List.map_append, List.map_map] at hall
    exact (List.nodup_append.mp hall).1
  · intro job hjob
    exact hbooks.jobs.subset (List.mem_append_left _ (List.mem_map_of_mem hjob))
  · rintro us t rfl hcancel
    obtain ⟨hbefore, hstep, -⟩ := hrun.last
    have haudit' : Audited t.before us := hbefore.history Audited
      (fun _ _ _ _ hi hstep => audited_step hi hstep)
      (audited_init allowedCount created waiterCount)
    rw [hcancel] at hstep
    cases hstep with
    | terminateCancel stopping joined =>
        have hidle : (terminateCancel t.before).executing = [] := haudit'.joined.idle joined
        have hjobs := hbooks.jobs
        have hunrefs := hbooks.unrefs
        rw [show (terminateCancel t.before).queue.map Job.identity = [] from rfl,
          List.nil_append] at hjobs
        rw [hidle, List.map_nil, List.append_nil] at hunrefs
        refine ⟨hjobs, hidle, hbooks.aborts, hunrefs.trans ?_⟩
        simpa [Function.comp_def, Job.identity] using hjobs.map fun job => job.2.1

/-- Two jobs of one group: the first is executed, the second is cancelled. -/
theorem jobs_ordered_once_cancelled :
    ∃ (s : Pool Nat Nat) (ts : List (Transition (Pool Nat Nat) (Action Nat Nat))),
      Runs Step (afbThreadInit 3 [true] 20) s ts ∧ (starts s.log).map Job.ticket = [0] ∧
        failures "aborted" s.log = [9] ∧ (unrefs s.log).Perm [8, 9] := by
  have hrun := (Runs.single (s := (afbThreadInit 3 [true] 20 : Pool Nat Nat))
    (Step.call _ true true 8 5 (some 7))).snoc (Step.call _ true true 9 5 (some 7)) |>.snoc
    (Step.turn (i := 0) rfl) |>.snoc (Step.terminateBegin _) |>.snoc (Step.turn (i := 0) rfl)
    |>.snoc (Step.terminateRound rfl (by decide)) |>.snoc (Step.terminateCancel rfl rfl)
  obtain ⟨-, -, -, -, -, -, hend⟩ := jobs_ordered_once 3 [true] 20 hrun
  obtain ⟨-, -, haborts, hunrefs⟩ := hend _ _ rfl rfl
  exact ⟨_, _, hrun, rfl, haborts, hunrefs⟩

end AfbBinder.Thread
