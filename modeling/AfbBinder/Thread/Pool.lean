import AfbBinder.Lib.Run

/-!
# The job queue and its worker threads

The model of `afb-thread.c`.  Every part of the code between two releases of the
mutex is one action: a submission by `afb_thread_call`, one turn of a worker in
`thread_main_loop`, the signal a submitter issues after it released the mutex,
and the three parts of `afb_thread_terminate`.  A worker that ends a job takes
the next one without releasing the mutex, so both are one turn.

A request stands for the `afb_req` with its processing callback.  The pointer of
a job never equals the group of another job, so a job without a group is blocked
by nothing.
-/

namespace AfbBinder.Thread

variable {ρ γ : Type}

/-- `struct job`; `ticket` is the identity of the allocated job. -/
structure Job (ρ γ : Type) where
  ticket : Nat
  req : ρ
  timeout : Int
  blocked : Bool
  group : Option γ

/-- Where a worker stands between two of its critical sections. -/
inductive Phase (ρ γ : Type) where
  | entering
  | waiting
  | executing (job : Job ρ γ)
  | returned

/-- `struct thread`, with `joined` for a cleared `tid`. -/
structure Worker (ρ γ : Type) where
  stop : Bool
  ended : Bool
  works : Bool
  joined : Bool
  phase : Phase ρ γ

/-- What the pool does to the requests it is given. -/
inductive Effect (ρ γ : Type) where
  | addref (req : ρ)
  | start (job : Job ρ γ)
  | unref (req : ρ)
  | fail (req : ρ) (status info : String)

/-- The static variables of `afb-thread.c`.  `signals` counts the submitters that
released the mutex and have yet to call `pthread_cond_signal`. -/
structure Pool (ρ γ : Type) where
  queue : List (Job ρ γ)
  allowed : Int
  started : Int
  running : Int
  remains : Int
  threads : List (Worker ρ γ)
  signals : Nat
  terminating : Bool
  nextTicket : Nat
  log : List (Effect ρ γ)

/-! ## The queue -/

/-- The job has the non-NULL group `g`. -/
def Job.inGroup [DecidableEq γ] (g : γ) (job : Job ρ γ) : Bool := job.group = some g

/-- The test of `job_add` on each queued job. -/
def Job.blockedBy [DecidableEq γ] (job ijob : Job ρ γ) : Bool :=
  match job.group with
  | none => false
  | some g => ijob.inGroup g

def jobAdd [DecidableEq γ] (job : Job ρ γ) (s : Pool ρ γ) : Pool ρ γ :=
  { s with
    queue := s.queue ++ [{ job with blocked := job.blocked || s.queue.any job.blockedBy }]
    remains := s.remains - 1 }

/-- The list part of `job_get`: the first job not blocked, and the other ones. -/
def jobGet : List (Job ρ γ) → Option (Job ρ γ × List (Job ρ γ))
  | [] => none
  | job :: rest =>
      if job.blocked then
        match jobGet rest with
        | none => none
        | some (found, others) => some (found, job :: others)
      else some (job, rest)

def jobUnblock [DecidableEq γ] (g : γ) : List (Job ρ γ) → List (Job ρ γ)
  | [] => []
  | job :: rest =>
      if job.inGroup g then { job with blocked := false } :: rest
      else job :: jobUnblock g rest

/-! ## The workers -/

/-- The worker enters its job and releases the mutex. -/
def runJob (i : Nat) (w : Worker ρ γ) (job : Job ρ γ) (s : Pool ρ γ) : Pool ρ γ :=
  { s with
    running := s.running + 1
    threads := s.threads.set i { w with works := true, phase := .executing job }
    log := s.log ++ [.start job] }

def waitCond (i : Nat) (w : Worker ρ γ) (s : Pool ρ γ) : Pool ρ γ :=
  { s with threads := s.threads.set i { w with phase := .waiting } }

/-- The loop of `thread_main_loop` from the test of `stop` to the release of the mutex. -/
def loopTurn (i : Nat) (w : Worker ρ γ) (s : Pool ρ γ) : Pool ρ γ :=
  if w.stop then
    { s with threads := s.threads.set i { w with ended := true, phase := .returned } }
  else
    match jobGet s.queue with
    | some (job, rest) => runJob i w job { s with queue := rest, remains := s.remains + 1 }
    | none =>
        match s.queue with
        | [] => waitCond i w s
        | job :: rest =>
            -- the branch "threads are blocked!", which leaves `remains` as it is
            if s.running = 0 then runJob i w job { s with queue := rest }
            else waitCond i w s

/-- The worker back at the head of its loop, holding the mutex. -/
def Worker.rested (w : Worker ρ γ) : Worker ρ γ := { w with works := false, phase := .entering }

/-- The end of a job, up to the test of `stop`. -/
def finishJob [DecidableEq γ] (i : Nat) (w : Worker ρ γ) (job : Job ρ γ) (s : Pool ρ γ) :
    Pool ρ γ :=
  { s with
    queue := match job.group with
      | none => s.queue
      | some g => jobUnblock g s.queue
    running := s.running - 1
    threads := s.threads.set i w.rested
    log := s.log ++ [.unref job.req] }

/-- One critical section of the worker `i`. -/
def workerTurn [DecidableEq γ] (i : Nat) (s : Pool ρ γ) : Option (Pool ρ γ) :=
  match s.threads[i]? with
  | none => none
  | some w =>
      match w.phase with
      | .entering => some (loopTurn i w s)
      | .executing job => some (loopTurn i w.rested (finishJob i w job s))
      | .waiting => none
      | .returned => none

/-! ## Submission and control -/

def freshWorker : Worker ρ γ :=
  { stop := false, ended := false, works := false, joined := false, phase := .entering }

/-- `start_one_thread`, `created` being the success of `pthread_create`.  The
assertion `started < allowed` is checked by its callers' guards. -/
def startOneThread (created : Bool) (s : Pool ρ γ) : Pool ρ γ × Int :=
  if created then
    ({ s with started := s.started + 1, threads := s.threads ++ [freshWorker] }, 0)
  else (s, -1)

/-- The common exit of the rejected submissions. -/
def rejectCall (req : ρ) (info : String) (s : Pool ρ γ) : Pool ρ γ :=
  { s with log := s.log ++ [.fail req "internal-error" info] }

/-- Fills the job and queues it; the signal is still to come. -/
def acceptCall [DecidableEq γ] (req : ρ) (timeout : Int) (group : Option γ) (s : Pool ρ γ) : Pool ρ γ :=
  let job : Job ρ γ :=
    { ticket := s.nextTicket, req := req, timeout := timeout, blocked := false, group := group }
  jobAdd job { s with
    signals := s.signals + 1
    nextTicket := s.nextTicket + 1
    log := s.log ++ [.addref req] }

/-- `afb_thread_call`; `allocated` and `created` are the results of `malloc` and
`pthread_create`. -/
def afbThreadCall [DecidableEq γ] (allocated created : Bool) (req : ρ) (timeout : Int) (group : Option γ)
    (s : Pool ρ γ) : Pool ρ γ :=
  if !allocated then rejectCall req "out of memory" s
  else if s.remains = 0 then rejectCall req "too many jobs" s
  else if s.started = s.running ∧ s.started < s.allowed then
    if (startOneThread created s).2 < 0 ∧ (startOneThread created s).1.started = 0 then
      rejectCall req "can't start thread" (startOneThread created s).1
    else acceptCall req timeout group (startOneThread created s).1
  else acceptCall req timeout group s

/-- The starting loop of `afb_thread_init`: one `pthread_create` result per turn. -/
def startThreads : List Bool → Pool ρ γ → Pool ρ γ
  | [], s => s
  | created :: rest, s =>
      if (startOneThread created s).2 = 0 then
        startThreads rest (startOneThread created s).1
      else (startOneThread created s).1

/-- `afb_thread_init`: `created` has one result for each of the `start_count` threads. -/
def afbThreadInit (allowedCount : Nat) (created : List Bool) (waiterCount : Nat) : Pool ρ γ :=
  startThreads created
    { queue := [], allowed := allowedCount, started := 0, running := 0, remains := waiterCount,
      threads := [], signals := 0, terminating := false, nextTicket := 0, log := [] }

/-- `pthread_cond_signal`: the waiter `i`, if it is one, is woken up. -/
def wake (i : Nat) (s : Pool ρ γ) : Pool ρ γ :=
  match s.threads[i]? with
  | some w =>
      match w.phase with
      | .waiting => { s with threads := s.threads.set i { w with phase := .entering } }
      | _ => s
  | none => s

def Worker.isWaiting (w : Worker ρ γ) : Bool :=
  match w.phase with
  | .waiting => true
  | _ => false

/-- The first part of `afb_thread_terminate`. -/
def terminateBegin (s : Pool ρ γ) : Pool ρ γ :=
  { s with
    allowed := 0
    terminating := true
    threads := s.threads.map fun w => { w with stop := true } }

def Worker.broadcast (w : Worker ρ γ) : Worker ρ γ :=
  match w.phase with
  | .waiting => { w with phase := .entering }
  | _ => w

def Worker.joinable (w : Worker ρ γ) : Bool := !w.joined && w.ended

/-- One turn of the waiting loop: broadcast, then join the ended threads. -/
def terminateRound (s : Pool ρ γ) : Pool ρ γ :=
  { s with
    started := s.started - (s.threads.countP Worker.joinable : Int)
    threads := s.threads.map fun w =>
      { w.broadcast with joined := w.joined || w.joinable } }

/-- The last part: the pending jobs are cancelled in order. -/
def terminateCancel (s : Pool ρ γ) : Pool ρ γ :=
  { s with
    queue := []
    log := s.log ++ s.queue.flatMap fun job =>
      [.fail job.req "aborted" "termination of threading", .unref job.req] }

inductive Action (ρ γ : Type) where
  | call (allocated created : Bool) (req : ρ) (timeout : Int) (group : Option γ)
  | turn (i : Nat)
  | signal (woken : Option Nat)
  | spurious (i : Nat)
  | terminateBegin
  | terminateRound
  | terminateCancel

/-- The step relation of the pool.  A signal wakes one waiter if there is one. -/
inductive Step [DecidableEq γ] : Pool ρ γ → Action ρ γ → Pool ρ γ → Prop where
  | call (s : Pool ρ γ) (allocated created : Bool) (req : ρ) (timeout : Int)
      (group : Option γ) :
      Step s (.call allocated created req timeout group)
        (afbThreadCall allocated created req timeout group s)
  | turn {s s' : Pool ρ γ} {i : Nat} (h : workerTurn i s = some s') : Step s (.turn i) s'
  | signal {s : Pool ρ γ} {i : Nat} {w : Worker ρ γ} (pending : 0 < s.signals)
      (found : s.threads[i]? = some w) (waits : w.isWaiting = true) :
      Step s (.signal (some i)) (wake i { s with signals := s.signals - 1 })
  | signalNone {s : Pool ρ γ} (pending : 0 < s.signals)
      (idle : ∀ w ∈ s.threads, w.isWaiting = false) :
      Step s (.signal none) { s with signals := s.signals - 1 }
  | spurious (s : Pool ρ γ) (i : Nat) : Step s (.spurious i) (wake i s)
  | terminateBegin (s : Pool ρ γ) : Step s .terminateBegin (terminateBegin s)
  | terminateRound {s : Pool ρ γ} (stopping : s.terminating = true)
      (waits : s.started ≠ 0) : Step s .terminateRound (terminateRound s)
  | terminateCancel {s : Pool ρ γ} (stopping : s.terminating = true)
      (joined : s.started = 0) : Step s .terminateCancel (terminateCancel s)

end AfbBinder.Thread
