import AfbBinder.Http.Connections

/-!
# Runs of the server

The library is run for every connection that a reply has resumed, no request is lost or freed
too early, and the runs in which the library is misused or the binder faults are told.  In a
run the callbacks, the replies and the references are steps that come one after the other, and
every response given to the library is accepted.
-/

namespace AfbBinder.Http.Serving

open Lib

/-! ## The loop of `run_micro_httpd` -/

/-- The library is run once at a time, and again for the connections that were resumed. -/
structure Hsrv.Awake (d : Hsrv) : Prop where
  bound : d.inRun ≤ 2
  depth : d.depth = if d.inRun = 0 then 0 else 1
  armed : d.armed = true ↔ d.inRun = 0
  woken : d.woken ≠ [] → d.inRun = 2

variable {d d' : Hsrv} {c : Connection}

theorem Hsrv.Awake.runMicroHttpd (h : d.Awake) (woken : List Nat) :
    (Serving.runMicroHttpd { d with woken := woken }).Awake := by
  unfold Serving.runMicroHttpd
  split
  case isTrue hbusy =>
    have hdepth := h.depth
    rw [if_neg hbusy] at hdepth
    have hdisarmed : d.armed = false := by
      rw [← Bool.not_eq_true, h.armed]
      exact hbusy
    exact ⟨Nat.le_refl 2, hdepth, by simp [hdisarmed], fun _ => rfl⟩
  case isFalse hidle =>
    have hzero : d.inRun = 0 := Decidable.not_not.mp hidle
    have hdepth := h.depth
    rw [if_pos hzero] at hdepth
    exact ⟨Nat.le_succ 1, by simp [hdepth], by simp, fun hwoken => absurd rfl hwoken⟩

theorem Hsrv.Awake.mhdRunReturns (h : d.Awake) (hrunning : d.depth ≠ 0) :
    (Serving.mhdRunReturns d).Awake := by
  have hdepth := h.depth
  have hbusy : d.inRun ≠ 0 := by
    intro hzero
    rw [if_pos hzero] at hdepth
    exact hrunning hdepth
  rw [if_neg hbusy] at hdepth
  unfold Serving.mhdRunReturns
  split
  case isTrue hagain =>
    have hdisarmed : d.armed = false := by
      rw [← Bool.not_eq_true, h.armed]
      exact hbusy
    exact ⟨Nat.le_succ 1, hdepth, by simp [hdisarmed], fun hwoken => absurd rfl hwoken⟩
  case isFalse honce =>
    have hnone : d.woken = [] := by
      by_contra hwoken
      exact honce (h.woken hwoken)
    exact ⟨by simp, by simp [hdepth], by simp, fun hwoken => absurd hnone hwoken⟩

theorem Hsrv.Awake.commit (h : d.Awake) (index : Nat) (c : Connection) (result : Result) :
    (d.commit index c result).Awake := by
  unfold Hsrv.commit
  have hset : Hsrv.Awake { d with connections := d.connections.set index (c.apply result) } :=
    ⟨h.bound, h.depth, h.armed, h.woken⟩
  dsimp only
  split
  · exact hset.runMicroHttpd _
  · exact hset

theorem commit_connections (d : Hsrv) (index : Nat) (c : Connection) (result : Result) :
    (d.commit index c result).connections = d.connections.set index (c.apply result) := by
  unfold Hsrv.commit runMicroHttpd
  dsimp only
  split
  · split
    · rfl
    · rfl
  · rfl

theorem commit_faulted (d : Hsrv) (index : Nat) (c : Connection) (result : Result) :
    (d.commit index c result).faulted = d.faulted := by
  unfold Hsrv.commit runMicroHttpd
  dsimp only
  split
  · split
    · rfl
    · rfl
  · rfl

/-! ## Runs of the server -/

def Action.on : Action → Option Nat
  | .access index _ => some index
  | .complete index => some index
  | .reply index _ => some index
  | .addref index => some index
  | .unref index => some index
  | .cleanup index => some index
  | _ => none

/-- What a step is. -/
inductive Move (d : Hsrv) : Action → Hsrv → Prop
  | event : Move d .event (runMicroHttpd d)
  | accept : Move d .accept { d with connections := d.connections ++ [.fresh] }
  | returns (hrunning : d.depth ≠ 0) : Move d .returns (mhdRunReturns d)
  | call {index : Nat} {action : Action} {c c₀ : Connection} {result : Result}
      (hconn : d.connections[index]? = some c) (hon : action.on = some index)
      (hlegal : Legal c action c₀ result) : Move d action (d.commit index c₀ result)
  | cleanup {index : Nat} {c : Connection} (hconn : d.connections[index]? = some c)
      (hwebsock : c.websock = true) :
      Move d (.cleanup index) { d with
        connections := d.connections.set index
          { c with websock := false, lib := c.lib.note .resume } }
  | fault {index : Nat} {c : Connection} (hconn : d.connections[index]? = some c)
      (hrecord : c.record = false) (hqueued : c.lib.queued = true) :
      Move d (.complete index) { d with faulted := true }

theorem move_of_access (hkept : ∀ c ∈ d.connections, c.Kept) {index : Nat}
    (h : accessHandler index input d = some d') : Move d (.access index input) d' := by
  unfold accessHandler at h
  split at h
  case h_1 => cases h
  case h_2 c hconn =>
    split at h
    case isTrue => cases h
    case isFalse hopen =>
      simp only [Bool.or_eq_true, not_or, Bool.not_eq_true] at hopen
      rcases hopen with ⟨⟨hqueued, hsuspended⟩, hended⟩
      split at h
      case isTrue hrecord =>
        rcases (hkept c (List.mem_of_getElem? hconn)).active hrecord hended with ⟨hreq, hfound, -⟩
        simp only [hfound] at h
        cases h
        exact .call hconn rfl (.proceed hrecord hqueued hsuspended hended hfound)
      case isFalse hrecord =>
        cases h
        exact .call hconn rfl
          (.create (Bool.of_not_eq_true hrecord) hqueued hsuspended hended)

theorem move_of_end (hkept : ∀ c ∈ d.connections, c.Kept) {index : Nat}
    (h : endHandler index d = some d') : Move d (.complete index) d' := by
  unfold endHandler at h
  split at h
  case h_1 => cases h
  case h_2 c hconn =>
    split at h
    case isTrue => cases h
    case isFalse hopen =>
      simp only [Bool.or_eq_true, not_or, Bool.not_eq_true, Bool.not_eq_true',
        Bool.not_eq_false] at hopen
      rcases hopen with ⟨⟨hsuspended, hended⟩, hgiven⟩
      split at h
      case isTrue hrecord =>
        rcases (hkept c (List.mem_of_getElem? hconn)).active hrecord hended with ⟨hreq, hfound, -⟩
        simp only [hfound] at h
        cases h
        exact .call hconn rfl (.complete hrecord hsuspended hended hfound)
      case isFalse hrecord =>
        cases h
        have hqueued : c.lib.queued = true := by
          rcases hgiven with hrecorded | hqueued
          · exact absurd hrecorded hrecord
          · exact hqueued
        exact .fault hconn (Bool.of_not_eq_true hrecord) hqueued

/-- A binding finds the request that it holds. -/
theorem move_of_holding (hkept : ∀ c ∈ d.connections, c.Kept) {index : Nat} {action : Action}
    {act : Connection → Life → Connection × Result} (hon : action.on = some index)
    (hact : ∀ c hreq, c.holders ≠ 0 → c.hreq = some hreq →
      Legal c action (act c hreq).1 (act c hreq).2)
    (h : holding index d act = some d') : Move d action d' := by
  unfold holding at h
  split at h
  case h_1 => cases h
  case h_2 c hconn =>
    split at h
    case isTrue => cases h
    case isFalse hheld =>
      have hfound : ∃ hreq, c.hreq = some hreq := by
        have hc := hkept c (List.mem_of_getElem? hconn)
        cases hended : c.lib.ended with
        | true => exact Option.isSome_iff_exists.mp ((hc.ended hended).1.mpr (Nat.pos_of_ne_zero hheld))
        | false =>
            have hrecord : c.record = true := by
              by_contra hnone
              exact hheld (hc.unrecorded (Bool.of_not_eq_true hnone)).2.1
            rcases hc.active hrecord hended with ⟨hreq, hfound, -⟩
            exact ⟨hreq, hfound⟩
      rcases hfound with ⟨hreq, hfound⟩
      simp only [hfound] at h
      cases h
      exact .call hconn hon (hact c hreq hheld hfound)

theorem move_of_step {action : Action} (hkept : ∀ c ∈ d.connections, c.Kept)
    (h : Step d action d') : d.faulted = false ∧ Move d action d' := by
  unfold Step exec at h
  split at h
  case isTrue => cases h
  case isFalse hsafe =>
    refine ⟨Bool.of_not_eq_true hsafe, ?_⟩
    cases action with
    | event =>
        dsimp only at h
        split at h
        · cases h
          exact .event
        · cases h
    | accept =>
        dsimp only at h
        split at h
        · cases h
        · cases h
          exact .accept
    | access index input =>
        dsimp only at h
        split at h
        · cases h
        · exact move_of_access hkept h
    | complete index =>
        dsimp only at h
        split at h
        · cases h
        · exact move_of_end hkept h
    | returns =>
        dsimp only at h
        split at h
        · cases h
        · rename_i hrunning
          cases h
          exact .returns hrunning
    | reply index status =>
        exact move_of_holding hkept rfl (fun _ _ hheld hfound => .reply hheld hfound) h
    | addref index =>
        exact move_of_holding hkept rfl (fun _ _ hheld hfound => .addref hheld hfound) h
    | unref index =>
        exact move_of_holding hkept rfl (fun _ _ hheld hfound => .unref hheld hfound) h
    | cleanup index =>
        dsimp only at h
        split at h
        · cases h
        · rename_i c hconn
          split at h
          · rename_i hwebsock
            cases h
            exact .cleanup hconn hwebsock
          · cases h

/-- The requests are kept and the library is run. -/
structure Hsrv.Sound (d : Hsrv) : Prop where
  awake : d.Awake
  kept : ∀ c ∈ d.connections, c.Kept

theorem runMicroHttpd_connections (d : Hsrv) : (runMicroHttpd d).connections = d.connections := by
  unfold runMicroHttpd
  split
  · rfl
  · rfl

theorem mhdRunReturns_connections (d : Hsrv) :
    (mhdRunReturns d).connections = d.connections := by
  unfold mhdRunReturns
  split
  · rfl
  · rfl

theorem kept_cleanup (h : c.Kept) (hwebsock : c.websock = true) :
    Connection.Kept { c with websock := false, lib := c.lib.note .resume } := by
  have hrecord : c.record = true := by
    by_contra hnone
    have hdead := (h.unrecorded (Bool.of_not_eq_true hnone)).2.2.1
    rw [hwebsock] at hdead
    cases hdead
  cases hended : c.lib.ended with
  | true => exact kept_of_ended hrecord hended (h.ended hended).1 (h.ended hended).2
  | false =>
      rcases h.active hrecord hended with ⟨hreq, hfound, hactive⟩
      have hreplied := hactive.upgrade (hactive.websock hwebsock)
      refine Life.Active.kept ?_ hrecord hended hfound
      refine ⟨hactive.refcount, hactive.held, hactive.served, hactive.queued, fun hpaused => ?_,
        fun hlives => absurd hlives Bool.false_ne_true, hactive.upgrade⟩
      have hwaits := (hactive.suspended hpaused).1
      rw [hreplied] at hwaits
      cases hwaits

theorem Hsrv.Sound.step {action : Action} (h : d.Sound) (hstep : Step d action d') :
    d'.Sound := by
  rcases move_of_step h.kept hstep with ⟨-, hmove⟩
  cases hmove with
  | event =>
      constructor
      · exact h.awake.runMicroHttpd d.woken
      · rw [runMicroHttpd_connections]
        exact h.kept
  | accept =>
      constructor
      · exact ⟨h.awake.bound, h.awake.depth, h.awake.armed, h.awake.woken⟩
      · intro c hc
        rcases List.mem_append.mp hc with hc | hc
        · exact h.kept c hc
        · cases List.mem_singleton.mp hc
          exact fresh_kept
  | returns hrunning =>
      constructor
      · exact h.awake.mhdRunReturns hrunning
      · rw [mhdRunReturns_connections]
        exact h.kept
  | call hconn hon hlegal =>
      constructor
      · exact h.awake.commit ..
      · intro c hc
        rw [commit_connections] at hc
        rcases List.mem_or_eq_of_mem_set hc with hold | rfl
        · exact h.kept c hold
        · exact (hlegal.keeps (h.kept _ (List.mem_of_getElem? hconn))).1
  | cleanup hconn hwebsock =>
      constructor
      · exact ⟨h.awake.bound, h.awake.depth, h.awake.armed, h.awake.woken⟩
      · intro c hc
        rcases List.mem_or_eq_of_mem_set hc with hold | rfl
        · exact h.kept c hold
        · exact kept_cleanup (h.kept _ (List.mem_of_getElem? hconn)) hwebsock
  | fault hconn hrecord hqueued =>
      exact ⟨⟨h.awake.bound, h.awake.depth, h.awake.armed, h.awake.woken⟩, h.kept⟩

theorem sound_init : Hsrv.Sound .init := by
  constructor
  · exact ⟨Nat.zero_le 2, rfl, by simp [Hsrv.init], fun hwoken => absurd rfl hwoken⟩
  · intro c hc
    cases hc

variable {ts : List (Transition Hsrv Action)}

/-- In every run, `MHD_run` is never entered while it runs, and the server waits for its
events only when no resumed connection waits for it; a request handed to the handlers is
answered or suspended; it is freed when the library and the bindings have given back all
their references, and no earlier. -/
theorem requests_kept (hrun : Runs Step .init d ts) :
    d.depth ≤ 1 ∧ (d.depth = 0 → d.armed = true ∧ d.woken = []) ∧
      ∀ c ∈ d.connections,
        (c.record = true → c.lib.ended = false → ∃ hreq, c.hreq = some hreq ∧
          hreq.refcount = c.holders + 1 ∧ c.lib.queued = hreq.replied ∧
          (hreq.scanned = true → c.lib.queued = true ∨ c.lib.suspended = true)) ∧
        (c.lib.ended = true → (c.hreq.isSome = true ↔ 0 < c.holders) ∧
          ∀ hreq, c.hreq = some hreq → hreq.refcount = c.holders) := by
  have hsound : d.Sound := hrun.invariant Hsrv.Sound (fun _ _ _ h hstep => h.step hstep) sound_init
  have hdepth := hsound.awake.depth
  refine ⟨?_, fun hidle => ?_, fun c hc => ⟨fun hrecord hended => ?_, fun hended => ?_⟩⟩
  · split at hdepth <;> omega
  · have hzero : d.inRun = 0 := by
      by_contra hbusy
      rw [if_neg hbusy] at hdepth
      omega
    refine ⟨hsound.awake.armed.mpr hzero, ?_⟩
    by_contra hwoken
    have hagain := hsound.awake.woken hwoken
    omega
  · rcases (hsound.kept c hc).active hrecord hended with ⟨hreq, hfound, hactive⟩
    refine ⟨hreq, hfound, hactive.refcount, hactive.queued, fun hscanned => ?_⟩
    rcases hactive.served hscanned with hreplied | hpaused
    · exact .inl (hactive.queued.trans hreplied)
    · exact .inr (hactive.suspended hpaused).2
  · have hlast := (hsound.kept c hc).ended hended
    exact ⟨hlast.1, fun hreq hfound => (hlast.2 hreq hfound).1⟩

def plainGet (handling : Option Handling) : Access :=
  ⟨⟨[71, 69, 84], by decide⟩, none, 0, true, true, true, true, handling⟩

/-- A binding holds a request, and replies when the server waits for its events. -/
theorem requests_kept_later :
    ∃ d ts, Runs Step .init d ts ∧ ts.length = 6 ∧ d.depth = 0 ∧ d.armed = true ∧ d.woken = [] := by
  have hrun := ((Runs.refl : Runs Step .init _ []).snoc
    (show exec _ .event = some _ from rfl)).snoc (show exec _ .accept = some _ from rfl) |>.snoc
    (show exec _ (.access 0 (plainGet (some (.serves [.hold])))) = some _ from rfl) |>.snoc
    (show exec _ .returns = some _ from rfl) |>.snoc
    (show exec _ (.reply 0 200) = some _ from rfl) |>.snoc
    (show exec _ .returns = some _ from rfl)
  exact ⟨_, _, hrun, rfl, rfl, (requests_kept hrun).2.1 rfl⟩

/-! ### The use of the library -/

/-- A websocket ends after the request that opened it. -/
def Timely (t : Transition Hsrv Action) : Prop :=
  ∀ index, t.action = .cleanup index →
    ∀ c, t.before.connections[index]? = some c → c.lib.ended = true

theorem note_misused (calls : List MhdCall) (lib : Library) (h : lib.misused = true) :
    (calls.foldl Library.note lib).misused = true := by
  induction calls generalizing lib with
  | nil => exact h
  | cons call calls ih =>
      apply ih
      cases call <;> simp [Library.note, h]

theorem used_of_move {action : Action} (hmove : Move d action d')
    (h : ∀ c ∈ d'.connections, c.lib.misused = false) :
    ∀ c ∈ d.connections, c.lib.misused = false := by
  have hplaced : ∀ {index : Nat} {c c' : Connection}, d.connections[index]? = some c →
      d'.connections = d.connections.set index c' →
      (c.lib.misused = true → c'.lib.misused = true) →
      ∀ c ∈ d.connections, c.lib.misused = false := by
    intro index c c' hconn hset hkeeps other hother
    rw [hset] at h
    rcases List.getElem?_of_mem hother with ⟨i, hi⟩
    by_cases hsame : index = i
    · subst hsame
      cases hconn.symm.trans hi
      have hused := h c' (List.mem_of_getElem? (List.getElem?_set_self
        (List.getElem?_eq_some_iff.mp hconn).1))
      by_contra hmisused
      rw [hkeeps (Bool.of_not_eq_false hmisused)] at hused
      cases hused
    · apply h other
      apply List.mem_of_getElem?
      rw [List.getElem?_set_ne hsame]
      exact hi
  cases hmove with
  | event => rwa [runMicroHttpd_connections] at h
  | accept => exact fun c hc => h c (List.mem_append_left _ hc)
  | returns => rwa [mhdRunReturns_connections] at h
  | call hconn hon hlegal =>
      apply hplaced hconn (commit_connections ..)
      intro hmisused
      apply note_misused
      cases hlegal <;> exact hmisused
  | cleanup hconn hwebsock =>
      apply hplaced hconn rfl
      intro hmisused
      simp [Library.note, hmisused]
  | fault => exact h

theorem proper_cleanup (h : c.Proper) (hwebsock : c.websock = true)
    (hended : c.lib.ended = true) :
    Connection.Proper { c with websock := false, lib := c.lib.note .resume } := by
  have hsuspended : c.lib.suspended = true := (h.ended hended).trans hwebsock
  refine ⟨?_, fun _ => rfl, fun hlive => ?_, fun _ => rfl⟩
  · simp [Library.note, h.used, hsuspended]
  · have hlive' : c.lib.ended = false := hlive
    rw [hended] at hlive'
    cases hlive'

/-- A websocket that ends too early resumes a connection that is not suspended. -/
theorem misused_cleanup (h : c.Proper) (hkept : c.Kept) (hwebsock : c.websock = true)
    (hended : c.lib.ended = false) : (c.lib.note .resume).misused = true := by
  have hrecord : c.record = true := by
    by_contra hnone
    have hdead := (hkept.unrecorded (Bool.of_not_eq_true hnone)).2.2.1
    rw [hwebsock] at hdead
    cases hdead
  rcases hkept.active hrecord hended with ⟨hreq, hfound, hactive⟩
  have hsuspended : c.lib.suspended = false := by
    rw [(h.active hended hreq hfound).1]
    by_contra hpaused
    have hwaits := (hactive.suspended (Bool.of_not_eq_false hpaused)).1
    rw [hactive.upgrade (hactive.websock hwebsock)] at hwaits
    cases hwaits
  simp [Library.note, hsuspended]

/-- The library is used as it must be as long as the websockets end in time. -/
structure Hsrv.Used (d : Hsrv) (ts : List (Transition Hsrv Action)) : Prop where
  sound : d.Sound
  proper : (∀ t ∈ ts, Timely t) → ∀ c ∈ d.connections, c.Proper
  timely : (∀ c ∈ d.connections, c.lib.misused = false) → ∀ t ∈ ts, Timely t

theorem Hsrv.Used.step {action : Action} (h : d.Used ts) (hstep : Step d action d') :
    d'.Used (ts ++ [⟨d, action, d'⟩]) := by
  rcases move_of_step h.sound.kept hstep with ⟨-, hmove⟩
  refine ⟨h.sound.step hstep, fun htimely => ?_, fun hused => ?_⟩
  · have hproper := h.proper fun t ht => htimely t (List.mem_append_left _ ht)
    have hlast := htimely _ (List.mem_append_right _ (List.mem_singleton_self _))
    cases hmove with
    | event =>
        rw [runMicroHttpd_connections]
        exact hproper
    | accept =>
        intro c hc
        rcases List.mem_append.mp hc with hc | hc
        · exact hproper c hc
        · cases List.mem_singleton.mp hc
          exact fresh_proper
    | returns =>
        rw [mhdRunReturns_connections]
        exact hproper
    | call hconn hon hlegal =>
        intro c hc
        rw [commit_connections] at hc
        rcases List.mem_or_eq_of_mem_set hc with hold | rfl
        · exact hproper c hold
        · have hmem := List.mem_of_getElem? hconn
          exact (hlegal.keeps (h.sound.kept _ hmem)).2 (hproper _ hmem)
    | cleanup hconn hwebsock =>
        intro c hc
        rcases List.mem_or_eq_of_mem_set hc with hold | rfl
        · exact hproper c hold
        · have hmem := List.mem_of_getElem? hconn
          exact proper_cleanup (hproper _ hmem) hwebsock (hlast _ rfl _ hconn)
    | fault => exact hproper
  · have hbefore := h.timely (used_of_move hmove hused)
    intro t ht
    rcases List.mem_append.mp ht with ht | ht
    · exact hbefore t ht
    · cases List.mem_singleton.mp ht
      cases hmove with
      | @cleanup index c hconn hwebsock =>
          intro other hother c' hc'
          cases hother
          cases hconn.symm.trans hc'
          by_contra hlive
          have hmem := List.mem_of_getElem? hconn
          have hmisused := misused_cleanup (h.proper hbefore _ hmem) (h.sound.kept _ hmem) hwebsock
            (Bool.of_not_eq_true hlive)
          have hclean := hused _ (List.mem_of_getElem? (List.getElem?_set_self
            (List.getElem?_eq_some_iff.mp hconn).1))
          rw [hmisused] at hclean
          cases hclean
      | call hconn hon hlegal =>
          intro other hother
          cases hother
          cases hlegal
      | event => intro other hother; cases hother
      | accept => intro other hother; cases hother
      | returns => intro other hother; cases hother
      | fault => intro other hother; cases hother

/-- In every run, the library is asked nothing that it forbids (a second response, a response
after the end, a second suspension, the resuming of a connection that is not suspended, the
end of a suspended one) exactly when each websocket ends after the request that opened it. -/
theorem library_used_iff (hrun : Runs Step .init d ts) :
    (∀ c ∈ d.connections, c.lib.misused = false) ↔ ∀ t ∈ ts, Timely t := by
  have hinit : Hsrv.Used .init [] := by
    refine ⟨sound_init, fun _ c hc => ?_, fun _ t ht => ?_⟩
    · cases hc
    · cases ht
  have h : d.Used ts := hrun.history Hsrv.Used (fun _ _ _ _ h hstep => h.step hstep) hinit
  constructor
  · exact h.timely
  · exact fun htimely c hc => (h.proper htimely c hc).used

/-- A websocket is opened and ends. -/
theorem library_used_websocket :
    ∃ d ts, Runs Step .init d ts ∧ ts.length = 5 ∧
      ∀ c ∈ d.connections, c.lib.misused = false := by
  have hrun := ((Runs.refl : Runs Step .init _ []).snoc
    (show exec _ .event = some _ from rfl)).snoc (show exec _ .accept = some _ from rfl) |>.snoc
    (show exec _ (.access 0 (plainGet (some (.switches none)))) = some _ from rfl) |>.snoc
    (show exec _ (.complete 0) = some _ from rfl) |>.snoc
    (show exec _ (.cleanup 0) = some _ from rfl)
  refine ⟨_, _, hrun, rfl, (library_used_iff hrun).mpr ?_⟩
  intro t ht index hcleanup c hc
  simp only [List.nil_append, List.mem_append, List.mem_singleton] at ht
  rcases ht with (((rfl | rfl) | rfl) | rfl) | rfl
  · cases hcleanup
  · cases hcleanup
  · cases hcleanup
  · cases hcleanup
  · cases hcleanup
    cases hc
    rfl

/-! ### Faults -/

/-- The first call for the connection at `index` refuses its request. -/
def Refuses (t : Transition Hsrv Action) (index : Nat) : Prop :=
  ∃ input c, t.action = .access index input ∧ t.before.connections[index]? = some c ∧
    c.record = false ∧ input.Refused

structure Hsrv.Told (d : Hsrv) (ts : List (Transition Hsrv Action)) : Prop where
  sound : d.Sound
  refused : ∀ t ∈ ts, ∀ index, Refuses t index →
    ∃ c, d.connections[index]? = some c ∧ c.record = false ∧ c.lib.queued = true
  unrecorded : ∀ index c, d.connections[index]? = some c → c.record = false →
    c.lib.queued = true → ∃ t ∈ ts, Refuses t index
  completed : d.faulted = false → ∀ t ∈ ts, ∀ index, t.action = .complete index →
    ∃ c, d.connections[index]? = some c ∧ c.lib.ended = true
  faulted : d.faulted = true → ∃ index, (∃ t ∈ ts, Refuses t index) ∧
    ∃ t ∈ ts, t.action = .complete index

/-- The record of a connection is set by its first call, unless it refuses the request. -/
theorem Legal.record_cases {c₀ : Connection} {action : Action} {result : Result} (hkept : c.Kept)
    (hlegal : Legal c action c₀ result) :
    (c.record = true ∧ (c₀.apply result).record = true) ∨
      ∃ index input, action = .access index input ∧ c.record = false ∧ c.lib.queued = false ∧
        (input.Refused ∧ (c₀.apply result).record = false ∧ (c₀.apply result).lib.queued = true ∨
          ¬input.Refused ∧ (c₀.apply result).record = true) := by
  have hholds : c.holders ≠ 0 → c.record = true := by
    intro hheld
    by_contra hnone
    exact hheld (hkept.unrecorded (Bool.of_not_eq_true hnone)).2.1
  cases hlegal with
  | create hrecord hqueued hsuspended hended =>
      rename_i index input
      right
      refine ⟨index, input, rfl, hrecord, hqueued, ?_⟩
      rcases create_cases input with ⟨hrefused, status, hcreate⟩ | ⟨hserved, hreq, hleaves⟩
      · rw [hcreate]
        exact .inl ⟨hrefused, rfl, rfl⟩
      · right
        refine ⟨hserved, ?_⟩
        rw [Connection.apply, hleaves.found]
        rfl
  | proceed hrecord => exact .inl ⟨hrecord, hrecord⟩
  | complete hrecord => exact .inl ⟨hrecord, hrecord⟩
  | reply hheld => exact .inl ⟨hholds hheld, hholds hheld⟩
  | addref hheld => exact .inl ⟨hholds hheld, hholds hheld⟩
  | unref hheld => exact .inl ⟨hholds hheld, hholds hheld⟩

theorem note_ended (calls : List MhdCall) (lib : Library) (h : lib.ended = true) :
    (calls.foldl Library.note lib).ended = true := by
  induction calls generalizing lib with
  | nil => exact h
  | cons call calls ih =>
      apply ih
      cases call <;> simp [Library.note, h]

theorem Legal.completed {c₀ : Connection} {action : Action} {index : Nat} {result : Result}
    (hlegal : Legal c action c₀ result) (haction : action = .complete index) :
    (c₀.apply result).lib.ended = true := by
  cases hlegal with
  | @complete _ hreq hrecord hsuspended hended hfound =>
      rw [Connection.apply]
      cases hreq.upgrade <;> rfl
  | _ => cases haction

theorem getElem?_set_cases {l : List Connection} {index i : Nat} {c' x : Connection}
    (h : (l.set index c')[i]? = some x) : (i = index ∧ x = c') ∨ l[i]? = some x := by
  by_cases hsame : index = i
  · subst hsame
    rcases List.getElem?_eq_some_iff.mp h with ⟨hlt, hx⟩
    rw [List.getElem_set_self] at hx
    exact .inl ⟨rfl, hx.symm⟩
  · rw [List.getElem?_set_ne hsame] at h
    exact .inr h

/-- The connections after a step, seen from the one at `i`. -/
theorem Move.frame {action : Action} (hkept : ∀ c ∈ d.connections, c.Kept)
    (hmove : Move d action d') {i : Nat} (hi : d.connections[i]? = some c) :
    ∃ c', d'.connections[i]? = some c' ∧ (c.lib.ended = true → c'.lib.ended = true) ∧
      (c.record = false → c.lib.queued = true → c'.record = false ∧ c'.lib.queued = true) := by
  have hsame : ∀ {connections : List Connection}, connections[i]? = some c →
      ∃ c', connections[i]? = some c' ∧ (c.lib.ended = true → c'.lib.ended = true) ∧
        (c.record = false → c.lib.queued = true → c'.record = false ∧ c'.lib.queued = true) :=
    fun h => ⟨c, h, id, fun hrecord hqueued => ⟨hrecord, hqueued⟩⟩
  have hlt := (List.getElem?_eq_some_iff.mp hi).1
  cases hmove with
  | event => exact hsame (by rwa [runMicroHttpd_connections])
  | accept => exact hsame (by rwa [List.getElem?_append_left hlt])
  | returns => exact hsame (by rwa [mhdRunReturns_connections])
  | @call index _ c₁ c₀ result hconn hon hlegal =>
      rw [commit_connections]
      by_cases hindex : index = i
      · subst hindex
        cases hconn.symm.trans hi
        refine ⟨_, List.getElem?_set_self hlt, fun hended => ?_, fun hrecord hqueued => ?_⟩
        · apply note_ended
          cases hlegal <;> exact hended
        · rcases hlegal.record_cases (hkept _ (List.mem_of_getElem? hi)) with
            ⟨hrecorded, -⟩ | ⟨_, _, -, -, hopen, -⟩
          · rw [hrecord] at hrecorded
            cases hrecorded
          · rw [hqueued] at hopen
            cases hopen
      · exact hsame (by rwa [List.getElem?_set_ne hindex])
  | @cleanup index c₁ hconn hwebsock =>
      by_cases hindex : index = i
      · subst hindex
        cases hconn.symm.trans hi
        exact ⟨_, List.getElem?_set_self hlt, id, fun hrecord hqueued => ⟨hrecord, hqueued⟩⟩
      · exact hsame (by rwa [List.getElem?_set_ne hindex])
  | fault => exact hsame hi

theorem Hsrv.Told.refused_step {action : Action} (h : d.Told ts) (hmove : Move d action d') :
    ∀ t ∈ ts ++ [⟨d, action, d'⟩], ∀ index, Refuses t index →
      ∃ c, d'.connections[index]? = some c ∧ c.record = false ∧ c.lib.queued = true := by
  intro t ht index hrefuses
  rcases List.mem_append.mp ht with ht | ht
  · rcases h.refused t ht index hrefuses with ⟨c, hc, hrecord, hqueued⟩
    rcases hmove.frame h.sound.kept hc with ⟨c', hc', -, hstays⟩
    exact ⟨c', hc', hstays hrecord hqueued⟩
  · cases List.mem_singleton.mp ht
    rcases hrefuses with ⟨input, c, haction, hc, hrecord, hrefused⟩
    cases haction
    cases hmove with
    | call hconn hon hlegal =>
        cases hon
        cases hc.symm.trans hconn
        have hlt := (List.getElem?_eq_some_iff.mp hc).1
        rcases hlegal.record_cases (h.sound.kept _ (List.mem_of_getElem? hc)) with
          ⟨hrecorded, -⟩ | ⟨_, _, haction, -, -, hcases⟩
        · rw [hrecord] at hrecorded
          cases hrecorded
        · cases haction
          rcases hcases with ⟨-, hleft⟩ | ⟨hserved, -⟩
          · exact ⟨_, by rw [commit_connections]; exact List.getElem?_set_self hlt, hleft⟩
          · exact absurd hrefused hserved

theorem Hsrv.Told.unrecorded_step {action : Action} (h : d.Told ts) (hmove : Move d action d') :
    ∀ index c, d'.connections[index]? = some c → c.record = false → c.lib.queued = true →
      ∃ t ∈ ts ++ [⟨d, action, d'⟩], Refuses t index := by
  intro index c hc hrecord hqueued
  have hold : d.connections[index]? = some c →
      ∃ t ∈ ts ++ [⟨d, action, d'⟩], Refuses t index := by
    intro hc
    rcases h.unrecorded index c hc hrecord hqueued with ⟨t, ht, hrefuses⟩
    exact ⟨t, List.mem_append_left _ ht, hrefuses⟩
  cases hmove with
  | event =>
      rw [runMicroHttpd_connections] at hc
      exact hold hc
  | accept =>
      rw [List.getElem?_append] at hc
      split at hc
      · exact hold hc
      · have hfresh := List.mem_singleton.mp (List.mem_of_getElem? hc)
        rw [hfresh] at hqueued
        cases hqueued
  | returns =>
      rw [mhdRunReturns_connections] at hc
      exact hold hc
  | call hconn hon hlegal =>
      rw [commit_connections] at hc
      rcases getElem?_set_cases hc with ⟨rfl, rfl⟩ | hc
      · rcases hlegal.record_cases (h.sound.kept _ (List.mem_of_getElem? hconn)) with
          ⟨-, hrecorded⟩ | ⟨other, input, rfl, hnone, -, hcases⟩
        · rw [hrecord] at hrecorded
          cases hrecorded
        · cases hon
          rcases hcases with ⟨hrefused, -⟩ | ⟨-, hrecorded⟩
          · exact ⟨_, List.mem_append_right _ (List.mem_singleton_self _), input, _, rfl, hconn,
              hnone, hrefused⟩
          · rw [hrecord] at hrecorded
            cases hrecorded
      · exact hold hc
  | cleanup hconn hwebsock =>
      rcases getElem?_set_cases hc with ⟨rfl, rfl⟩ | hc
      · have hdead := ((h.sound.kept _ (List.mem_of_getElem? hconn)).unrecorded hrecord).2.2.1
        rw [hwebsock] at hdead
        cases hdead
      · exact hold hc
  | fault => exact hold hc

theorem Hsrv.Told.completed_step {action : Action} (h : d.Told ts) (hsafe : d.faulted = false)
    (hmove : Move d action d') (hsafe' : d'.faulted = false) :
    ∀ t ∈ ts ++ [⟨d, action, d'⟩], ∀ index, t.action = .complete index →
      ∃ c, d'.connections[index]? = some c ∧ c.lib.ended = true := by
  intro t ht index hcomplete
  rcases List.mem_append.mp ht with ht | ht
  · rcases h.completed hsafe t ht index hcomplete with ⟨c, hc, hended⟩
    rcases hmove.frame h.sound.kept hc with ⟨c', hc', hstays, -⟩
    exact ⟨c', hc', hstays hended⟩
  · cases List.mem_singleton.mp ht
    cases hcomplete
    cases hmove with
    | call hconn hon hlegal =>
        cases hon
        have hlt := (List.getElem?_eq_some_iff.mp hconn).1
        exact ⟨_, by rw [commit_connections]; exact List.getElem?_set_self hlt,
          hlegal.completed rfl⟩
    | fault => cases hsafe'

/-- Only the end told for a request without record faults. -/
theorem Move.faulted {action : Action} (hsafe : d.faulted = false) (hmove : Move d action d')
    (hfault : d'.faulted = true) :
    ∃ index c, action = .complete index ∧ d.connections[index]? = some c ∧ c.record = false ∧
      c.lib.queued = true := by
  cases hmove with
  | event =>
      have hsame : (runMicroHttpd d).faulted = d.faulted := by
        unfold runMicroHttpd
        split <;> rfl
      rw [hsame, hsafe] at hfault
      cases hfault
  | accept =>
      rw [hsafe] at hfault
      cases hfault
  | returns =>
      have hsame : (mhdRunReturns d).faulted = d.faulted := by
        unfold mhdRunReturns
        split <;> rfl
      rw [hsame, hsafe] at hfault
      cases hfault
  | call hconn hon hlegal =>
      rw [commit_faulted, hsafe] at hfault
      cases hfault
  | cleanup hconn hwebsock =>
      rw [hsafe] at hfault
      cases hfault
  | fault hconn hrecord hqueued => exact ⟨_, _, rfl, hconn, hrecord, hqueued⟩

theorem Hsrv.Told.step {action : Action} (h : d.Told ts) (hstep : Step d action d') :
    d'.Told (ts ++ [⟨d, action, d'⟩]) := by
  rcases move_of_step h.sound.kept hstep with ⟨hsafe, hmove⟩
  refine ⟨h.sound.step hstep, h.refused_step hmove, h.unrecorded_step hmove,
    h.completed_step hsafe hmove, fun hfault => ?_⟩
  rcases hmove.faulted hsafe hfault with ⟨index, c, rfl, hconn, hrecord, hqueued⟩
  rcases h.unrecorded index c hconn hrecord hqueued with ⟨t, ht, hrefuses⟩
  exact ⟨index, ⟨t, List.mem_append_left _ ht, hrefuses⟩, _,
    List.mem_append_right _ (List.mem_singleton_self _), rfl⟩

/-- In every run, the binder reads memory that is not there exactly when the library tells the
end of a request that was refused at its first call, its method being neither GET nor POST or
the memory lacking: `end_handler` reads `upgrade` of NULL. -/
theorem faulted_iff_refused_ends (hrun : Runs Step .init d ts) :
    d.faulted = true ↔
      ∃ index, (∃ t ∈ ts, Refuses t index) ∧ ∃ t ∈ ts, t.action = .complete index := by
  have hinit : Hsrv.Told .init [] := by
    refine ⟨sound_init, fun t ht => ?_, fun index c hc => ?_, fun _ t ht => ?_, fun hfault => ?_⟩
    · cases ht
    · cases hc
    · cases ht
    · cases hfault
  have h : d.Told ts := hrun.history Hsrv.Told (fun _ _ _ _ h hstep => h.step hstep) hinit
  constructor
  · exact h.faulted
  · rintro ⟨index, ⟨t, ht, hrefuses⟩, u, hu, hcomplete⟩
    by_contra hsafe
    rcases h.refused t ht index hrefuses with ⟨c, hc, hrecord, -⟩
    rcases h.completed (Bool.of_not_eq_true hsafe) u hu index hcomplete with ⟨c', hc', hended⟩
    cases hc.symm.trans hc'
    have hlive := ((h.sound.kept c (List.mem_of_getElem? hc)).unrecorded hrecord).2.2.2
    rw [hended] at hlive
    cases hlive

/-- The request `HEAD`. -/
theorem faulted_head :
    ∃ d ts, Runs Step .init d ts ∧ ts.length = 4 ∧ d.faulted = true := by
  have hrun := ((Runs.refl : Runs Step .init _ []).snoc
    (show exec _ .event = some _ from rfl)).snoc (show exec _ .accept = some _ from rfl) |>.snoc
    (show exec _ (.access 0 { plainGet none with method := ⟨[72, 69, 65, 68], by decide⟩ }) =
      some _ from rfl) |>.snoc
    (show exec _ (.complete 0) = some _ from rfl)
  refine ⟨_, _, hrun, rfl, (faulted_iff_refused_ends hrun).mpr ⟨0, ⟨_,
    List.mem_append_left _ (List.mem_append_right _ (List.mem_singleton_self _)), ?_⟩, _,
    List.mem_append_right _ (List.mem_singleton_self _), rfl⟩⟩
  exact ⟨_, _, rfl, rfl, rfl, .inl rfl⟩

end AfbBinder.Http.Serving
