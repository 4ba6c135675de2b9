import AfbBinder.Thread.Exclusion

/-!
# The queue never gets stuck

Before the termination, a pool with a worker keeps serving its queue: the branch
"threads are blocked!" is never taken, a job that can be taken is never left with all
the workers asleep and no signal to come, and the free slots are counted exactly.
-/

namespace AfbBinder.Thread

open Lib

variable {ρ γ : Type}

/-- The condition of the branch "threads are blocked!". -/
def Blocked (s : Pool ρ γ) : Prop := jobGet s.queue = none ∧ s.queue ≠ [] ∧ s.running = 0

/-- The worker looks for a job or executes one. -/
def Worker.awake (w : Worker ρ γ) : Bool :=
  match w.phase with
  | .entering => true
  | .executing _ => true
  | _ => false

def Action.inService : Action ρ γ → Bool
  | .call _ _ _ _ _ => true
  | .turn _ => true
  | .signal _ => true
  | .spurious _ => true
  | _ => false

/-- The pool has workers, none of them was asked to stop, and its slots are counted. -/
structure Manned (waiterCount : Nat) (s : Pool ρ γ) : Prop where
  staffed : s.threads ≠ []
  working : ∀ w ∈ s.threads, w.stop = false ∧ w.phase ≠ .returned
  slots : s.remains + s.queue.length = waiterCount
  room : 0 ≤ s.remains

/-- A job that can be taken will be looked for. -/
def Alert (s : Pool ρ γ) : Prop :=
  (∃ job ∈ s.queue, job.blocked = false) →
    (∃ w ∈ s.threads, w.awake = true) ∨ 0 < s.signals

section Set

variable {waiterCount : Nat} {s : Pool ρ γ} {i : Nat} {w u : Worker ρ γ}

theorem mem_set_threads (hw : s.threads[i]? = some w) : u ∈ s.threads.set i u :=
  List.mem_set (List.getElem?_eq_some_iff.mp hw).1 _

theorem manned_set (hs : Manned waiterCount s) (hstop : u.stop = false)
    (hphase : u.phase ≠ .returned) :
    Manned waiterCount { s with threads := s.threads.set i u } where
  staffed := by
    have hlen := List.length_pos_iff.mpr hs.staffed
    exact List.length_pos_iff.mp (by simpa using hlen)
  working := by
    intro x hx
    rcases List.mem_or_eq_of_mem_set hx with hold | rfl
    · exact hs.working x hold
    · exact ⟨hstop, hphase⟩
  slots := hs.slots
  room := hs.room

theorem awake_of_not_waiting (hs : Manned waiterCount s) (hmem : w ∈ s.threads)
    (hw : w.isWaiting = false) : w.awake = true := by
  have hphase := (hs.working w hmem).2
  unfold Worker.isWaiting at hw
  unfold Worker.awake
  cases hp : w.phase <;> simp_all

end Set

/-! ## Turns of the workers -/

section Turn

variable [DecidableEq γ] {waiterCount : Nat} {s s' : Pool ρ γ} {i : Nat} {w : Worker ρ γ}

theorem manned_finishJob (hs : Manned waiterCount s) (hw : s.threads[i]? = some w)
    (job : Job ρ γ) : Manned waiterCount (finishJob i w job s) := by
  have hstop := (hs.working w (List.mem_of_getElem? hw)).1
  have hrested := manned_set (i := i) (u := w.rested) hs hstop (by simp [Worker.rested])
  refine ⟨hrested.staffed, hrested.working, ?_, hs.room⟩
  have hslots := hs.slots
  cases hg : job.group with
  | none => simpa [finishJob, hg] using hslots
  | some g => simpa [finishJob, hg, length_jobUnblock] using hslots

theorem alert_loopTurn (hs : Manned waiterCount s) (hserved : Served s)
    (hw : s.threads[i]? = some w) :
    Manned waiterCount (loopTurn i w s) ∧ Alert (loopTurn i w s) := by
  have hstop := (hs.working w (List.mem_of_getElem? hw)).1
  rcases loopTurn_spec i w hserved with ⟨hstopped, -⟩ | ⟨-, hget, heq⟩ |
    ⟨-, job, rest, hget, heq⟩
  · rw [hstop] at hstopped
    cases hstopped
  · rw [heq]
    refine ⟨manned_set hs hstop (by simp), ?_⟩
    rintro ⟨job, hjob, hready⟩
    have hblocked := jobGet_none hget job hjob
    rw [hready] at hblocked
    cases hblocked
  · rw [heq]
    obtain ⟨front, back, hq, rfl, -, -⟩ := jobGet_some hget
    have hrun := manned_set (i := i) (u := { w with works := true, phase := .executing job })
      hs hstop (by simp)
    have hslots := hs.slots
    have hroom := hs.room
    constructor
    · refine ⟨hrun.staffed, hrun.working, ?_, ?_⟩
      · rw [hq] at hslots
        simp only [runJob, List.length_append, List.length_cons] at hslots ⊢
        omega
      · simp only [runJob]
        omega
    · intro _
      exact Or.inl ⟨_, mem_set_threads hw, rfl⟩

theorem alert_workerTurn (hs : Manned waiterCount s) (hserved : Served s)
    (h : workerTurn i s = some s') : Manned waiterCount s' ∧ Alert s' := by
  obtain ⟨w, hw, ⟨-, rfl⟩ | ⟨job, hphase, rfl⟩⟩ := workerTurn_cases h
  · exact alert_loopTurn hs hserved hw
  · exact alert_loopTurn (manned_finishJob hs hw job) (served_finishJob hw hphase hserved)
      (finishJob_threads hw job)

end Turn

/-! ## The other steps -/

section Step

variable {waiterCount : Nat} {s s' : Pool ρ γ} {a : Action ρ γ}

theorem manned_startOneThread (hs : Manned waiterCount s) :
    Manned waiterCount (startOneThread true s).1 := by
  refine ⟨by simp [startOneThread], ?_, hs.slots, hs.room⟩
  intro w hw
  simp only [startOneThread, if_true, List.mem_append, List.mem_singleton] at hw
  rcases hw with hold | rfl
  · exact hs.working w hold
  · exact ⟨rfl, by simp [freshWorker]⟩

theorem manned_wake (i : Nat) (hs : Manned waiterCount s) : Manned waiterCount (wake i s) := by
  unfold wake
  split
  · rename_i w hw
    split
    · exact manned_set hs (hs.working w (List.mem_of_getElem? hw)).1 (by simp)
    · exact hs
  · exact hs

theorem awake_wake {i : Nat} {w : Worker ρ γ} (hw : s.threads[i]? = some w)
    (hwaits : w.isWaiting = true) : ∃ x ∈ (wake i s).threads, x.awake = true := by
  have hphase : w.phase = .waiting := by
    unfold Worker.isWaiting at hwaits
    cases hp : w.phase <;> simp_all
  refine ⟨{ w with phase := .entering }, ?_, rfl⟩
  simp only [wake, hw, hphase]
  exact mem_set_threads hw

/-- A wake-up without a signal puts no worker to sleep. -/
theorem alert_spurious (i : Nat) (halert : Alert s) : Alert (wake i s) := by
  cases hw : s.threads[i]? with
  | none =>
      have heq : wake i s = s := by simp [wake, hw]
      rw [heq]
      exact halert
  | some w =>
      cases hwaits : w.isWaiting with
      | true => exact fun _ => Or.inl (awake_wake hw hwaits)
      | false =>
          have heq : wake i s = s := by
            unfold Worker.isWaiting at hwaits
            cases hp : w.phase <;> simp_all [wake]
          rw [heq]
          exact halert

variable [DecidableEq γ]

theorem manned_acceptCall (req : ρ) (timeout : Int) (group : Option γ)
    (hs : Manned waiterCount s) (hroom : s.remains ≠ 0) :
    Manned waiterCount (acceptCall req timeout group s) := by
  have hslots := hs.slots
  have hge := hs.room
  refine ⟨hs.staffed, hs.working, ?_, ?_⟩
  · simp only [acceptCall, jobAdd, List.length_append, List.length_singleton]
    omega
  · simp only [acceptCall, jobAdd]
    omega

theorem alert_call (allocated created : Bool) (req : ρ) (timeout : Int) (group : Option γ)
    (hs : Manned waiterCount s) (halert : Alert s) :
    Manned waiterCount (afbThreadCall allocated created req timeout group s) ∧
      Alert (afbThreadCall allocated created req timeout group s) := by
  rcases afbThreadCall_spec allocated created req timeout group s with
    ⟨info, heq⟩ | ⟨hroom, s', hs', heq⟩
  · rw [heq]
    exact ⟨⟨hs.staffed, hs.working, hs.slots, hs.room⟩, halert⟩
  · rw [heq]
    have hsignal : 0 < (acceptCall req timeout group s').signals := Nat.succ_pos _
    refine ⟨?_, fun _ => Or.inr hsignal⟩
    rcases hs' with rfl | rfl
    · exact manned_acceptCall req timeout group hs hroom
    · exact manned_acceptCall req timeout group (manned_startOneThread hs) hroom

theorem alert_step (hs : Manned waiterCount s) (halert : Alert s) (hserved : Served s)
    (hservice : a.inService = true) (h : Step s a s') : Manned waiterCount s' ∧ Alert s' := by
  cases h with
  | call allocated created req timeout group =>
      exact alert_call allocated created req timeout group hs halert
  | turn h => exact alert_workerTurn hs hserved h
  | signal pending found waits =>
      have hs' : Manned waiterCount { s with signals := s.signals - 1 } :=
        ⟨hs.staffed, hs.working, hs.slots, hs.room⟩
      exact ⟨manned_wake _ hs', fun _ => Or.inl (awake_wake found waits)⟩
  | signalNone pending idle =>
      refine ⟨⟨hs.staffed, hs.working, hs.slots, hs.room⟩, fun _ => Or.inl ?_⟩
      -- nobody waits, and there is somebody
      obtain ⟨w, hw⟩ := List.exists_mem_of_ne_nil s.threads hs.staffed
      exact ⟨w, hw, awake_of_not_waiting hs hw (idle w hw)⟩
  | spurious i => exact ⟨manned_wake i hs, alert_spurious i halert⟩
  | terminateBegin => cases hservice
  | terminateRound stopping waits => cases hservice
  | terminateCancel stopping joined => cases hservice

end Step

/-! ## Runs -/

/-- The threads that `afb_thread_init` starts, before any of them runs. -/
theorem manned_startThreads (waiterCount : Nat) (created : List Bool) {s : Pool ρ γ}
    (hworking : ∀ w ∈ s.threads, w.stop = false ∧ w.phase ≠ .returned)
    (hslots : s.remains + s.queue.length = waiterCount) (hroom : 0 ≤ s.remains)
    (hstaffed : (startThreads created s).threads ≠ []) :
    Manned waiterCount (startThreads created s) := by
  induction created generalizing s with
  | nil => exact ⟨hstaffed, hworking, hslots, hroom⟩
  | cons ok rest ih =>
      cases ok with
      | false => exact ⟨hstaffed, hworking, hslots, hroom⟩
      | true =>
          apply ih (s := (startOneThread true s).1) _ hslots hroom hstaffed
          intro w hw
          simp only [startOneThread, if_true, List.mem_append, List.mem_singleton] at hw
          rcases hw with hold | rfl
          · exact hworking w hold
          · exact ⟨rfl, by simp [freshWorker]⟩

theorem startThreads_queue (created : List Bool) (s : Pool ρ γ) :
    (startThreads created s).queue = s.queue := by
  induction created generalizing s with
  | nil => rfl
  | cons ok rest ih =>
      cases ok with
      | false => rfl
      | true => exact ih _

theorem not_blocked [DecidableEq γ] {s : Pool ρ γ} (hs : Served s) : ¬ Blocked s := by
  rintro ⟨hget, hne, hrun⟩
  exact hne (not_blocked_of_served hs hget hrun)

/-- In every state before the termination: the running jobs are counted, a queue with
nothing running has a job to take, the branch "threads are blocked!" is not taken, a job to
take is looked for, and the free slots are those that the queue leaves. -/
theorem queue_never_stuck [DecidableEq γ] (allowedCount : Nat) (created : List Bool)
    (waiterCount : Nat)
    (hstarted : (afbThreadInit allowedCount created waiterCount : Pool ρ γ).threads ≠ [])
    {s : Pool ρ γ} {ts : List (Transition (Pool ρ γ) (Action ρ γ))}
    (hrun : Runs Step (afbThreadInit allowedCount created waiterCount) s ts)
    (hservice : ∀ t ∈ ts, t.action.inService = true) :
    s.running = s.threads.countP Worker.busy ∧
    (s.queue ≠ [] → s.running = 0 → ∃ job ∈ s.queue, job.blocked = false) ∧
    (∀ i w, s.threads[i]? = some w →
      (w.phase = .entering → ¬ Blocked s) ∧
      ∀ job, w.phase = .executing job → ¬ Blocked (finishJob i w job s)) ∧
    ((∃ job ∈ s.queue, job.blocked = false) →
      (∃ w ∈ s.threads, w.awake = true) ∨ 0 < s.signals) ∧
    s.remains + s.queue.length = waiterCount ∧ 0 ≤ s.remains := by
  have hinit : Manned waiterCount (afbThreadInit allowedCount created waiterCount : Pool ρ γ) :=
    manned_startThreads waiterCount created (by simp) (by simp) (by simp) hstarted
  have halert : Alert (afbThreadInit allowedCount created waiterCount : Pool ρ γ) := by
    rintro ⟨job, hjob, -⟩
    rw [afbThreadInit, startThreads_queue] at hjob
    cases hjob
  have hserved := (afbThreadInit_spec (ρ := ρ) (γ := γ) allowedCount created waiterCount).1
  have hinv := hrun.invariant_of (fun s => Served s ∧ Manned waiterCount s ∧ Alert s)
    (fun t => t.action.inService = true)
    (fun s a s' hi hc hstep => ⟨served_step hi.1 hstep,
      alert_step hi.2.1 hi.2.2 hi.1 hc hstep⟩)
    ⟨hserved, hinit, halert⟩ hservice
  obtain ⟨hs, hmanned, halert⟩ := hinv
  refine ⟨hs.running, fun hne hidle => ?_, fun i w hw => ⟨fun _ => not_blocked hs, fun job hphase =>
    not_blocked (served_finishJob hw hphase hs)⟩, halert, hmanned.slots, hmanned.room⟩
  cases hget : jobGet s.queue with
  | none => exact absurd ⟨hget, hne, hidle⟩ (not_blocked hs)
  | some pair =>
      obtain ⟨front, back, hq, -, hready, -⟩ := jobGet_some hget
      exact ⟨pair.1, by simp [hq], hready⟩

/-- The only worker sleeps when a job is submitted, and the signal is still to come. -/
def sleepingPool : Pool Nat Nat :=
  afbThreadCall true false 0 5 (some 7) (waitCond 0 freshWorker (afbThreadInit 3 [true] 20))

theorem queue_never_stuck_signal :
    (∀ w ∈ sleepingPool.threads, w.awake = false) ∧ 0 < sleepingPool.signals ∧
      sleepingPool.remains = 19 := by
  have hasleep : ∀ w ∈ sleepingPool.threads, w.awake = false := by decide
  have hrun : Runs Step (afbThreadInit 3 [true] 20) sleepingPool _ :=
    (Runs.single (Step.turn (i := 0) rfl)).snoc (Step.call _ true false 0 5 (some 7))
  obtain ⟨-, -, -, hwoken, -⟩ := queue_never_stuck 3 [true] 20 (by decide) hrun
    (by simp [Action.inService])
  refine ⟨hasleep, ?_, rfl⟩
  rcases hwoken ⟨_, List.mem_cons_self, rfl⟩ with ⟨w, hw, hawake⟩ | hsignal
  · rw [hasleep w hw] at hawake
    cases hawake
  · exact hsignal

end AfbBinder.Thread
