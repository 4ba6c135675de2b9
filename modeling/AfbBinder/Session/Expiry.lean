import AfbBinder.Session.Follows
import AfbBinder.Session.Lookup

/-!
# The expiry of the sessions

`ctxClientCreate` and `ctxClientGetSession` begin by closing the sessions whose expiration
is past.  The runs below are those of the store, on a clock that can be set to any value,
with the dates that a session is judged by: when it was created and when it got its last
token.
-/

namespace AfbBinder.Session

open Lib

/-- The users of the store, the dates of the creations and those of the last tokens. -/
structure Chronicle where
  world : World
  created : Nat → Int
  refreshed : Nat → Option Int

inductive TimedAction where
  | act (action : Action)
  | clock (now : Int)

namespace Chronicle

/-- The last token of a session if it got one, its creation otherwise. -/
def stamp (h : Chronicle) (a : Nat) : Int := (h.refreshed a).getD (h.created a)

/-- The session is made by the action. -/
def makes (h : Chronicle) (action : Action) (a : Nat) : Bool :=
  (h.world.store.mem a).isNone && ((exec h.world action).store.mem a).isSome

/-- The action is `ctxTokenNew` on that session. -/
def refreshes (a : Nat) : Action → Bool
  | .tokenNew client _ => client == a
  | _ => false

def exec (h : Chronicle) : TimedAction → Chronicle
  | .act action =>
      { world := Session.exec h.world action
        created := fun a => if h.makes action a then h.world.now else h.created a
        refreshed := fun a =>
          if h.makes action a then none
          else if refreshes a action then some h.world.now else h.refreshed a }
  | .clock now => { h with world := { h.world with now := now } }

def Step (h : Chronicle) (timed : TimedAction) (h' : Chronicle) : Prop :=
  (∀ action, timed = .act action → Allowed h.world action) ∧ h' = h.exec timed

def init (maxSessionCount : Nat) (timeout : Int) (initok : Bytes) (contextCount timeBits : Nat)
    (now : Int) : Chronicle :=
  { world := World.init maxSessionCount timeout initok contextCount timeBits now
    created := fun _ => now
    refreshed := fun _ => none }

end Chronicle

/-! ## The dates of a session -/

/-- Neither the timeout nor the expiration changes. -/
def SameDates (c c' : ClientCtx) : Prop :=
  c'.timeout = c.timeout ∧ c'.expiration = c.expiration

theorem sameDates_closedCtx (apicount : Nat) (c : ClientCtx) :
    SameDates c (closedCtx apicount c) := by
  obtain ⟨values, hclosed⟩ := closedCtx_frame apicount c
  rw [hclosed]
  exact ⟨rfl, rfl⟩

theorem tolerant_sameDates (s : Store) : Tolerant s SameDates where
  refl := fun _ => ⟨rfl, rfl⟩
  trans := fun _ _ _ h h' => ⟨h'.1.trans h.1, h'.2.trans h.2⟩
  counted := fun _ _ _ => ⟨rfl, rfl⟩
  closed := fun _ c _ _ => sameDates_closedCtx s.apicount c

theorem grows_sameDates {w : World} (hw : Inv w) (act : Action)
    (hact : ∀ client generated, act ≠ .tokenNew client generated) :
    Grows SameDates
      (fun c => c.expiration = newExpiration w.store.timeBits c.timeout w.now)
      w.store (exec w act).store := by
  apply grows_exec hw (tolerant_sameDates w.store)
  · intro client f hedit c _
    cases act with
    | tokenNew client generated => exact absurd rfl (hact client generated)
    | setLOA client loa =>
        cases hedit
        exact ⟨rfl, rfl⟩
    | valueSet client index value freeValue =>
        cases hedit
        unfold ctxClientValueSet
        split <;> exact ⟨rfl, rfl⟩
    | cookieSet client allocated key value freeValue =>
        cases hedit
        unfold ctxClientCookieSet
        split
        · exact ⟨rfl, rfl⟩
        · split <;> exact ⟨rfl, rfl⟩
    | _ => cases hedit
  · intro generated uuid timeout
    have hbits := (ctxStoreCleanUp_spec w.now hw.wf).2.1.timeBits
    show newExpiration (ctxStoreCleanUp w.now w.store).timeBits timeout w.now = _
    rw [hbits]
    rfl

/-- A token moves the expiration of its session as a creation would set it. -/
theorem ctxTokenNew_dates {timeBits : Nat} {c : ClientCtx} {stamp : Int} (generated : Bytes)
    (now : Int) (hc : c.expiration = newExpiration timeBits c.timeout stamp) :
    (ctxTokenNew timeBits generated now c).timeout = c.timeout ∧
      (ctxTokenNew timeBits generated now c).expiration = newExpiration timeBits c.timeout now := by
  refine ⟨rfl, ?_⟩
  unfold ctxTokenNew newExpiration
  unfold newExpiration at hc
  dsimp only
  split
  · rfl
  · rename_i hzero
    rw [if_neg hzero] at hc
    exact hc

theorem exec_tokenNew_mem {w : World} {client a : Nat} {generated : Bytes} {c' : ClientCtx}
    (h : (exec w (.tokenNew client generated)).store.mem a = some c') :
    ∃ c, w.store.mem a = some c ∧
      c' = if client = a then ctxTokenNew w.store.timeBits generated w.now c else c := by
  simp only [exec, Store.modify] at h
  split at h
  case h_1 hnone =>
    refine ⟨c', h, ?_⟩
    split
    case isTrue hclient =>
      rw [hclient, h] at hnone
      cases hnone
    case isFalse => rfl
  case h_2 c hc =>
    rw [put_mem, Function.update_apply] at h
    split at h
    case isTrue ha =>
      cases h
      exact ⟨c, ha ▸ hc, (if_pos ha.symm).symm⟩
    case isFalse hne => exact ⟨c', h, (if_neg (Ne.symm hne)).symm⟩

namespace Chronicle

/-- The expirations are those that the recorded dates give. -/
structure Inv (h : Chronicle) : Prop where
  world : Session.Inv h.world
  expiration : ∀ a c, h.world.store.mem a = some c →
    c.expiration = newExpiration h.world.store.timeBits c.timeout (h.stamp a)

theorem inv_init (maxSessionCount : Nat) (timeout : Int) (initok : Bytes)
    (contextCount timeBits : Nat) (now : Int) :
    Inv (init maxSessionCount timeout initok contextCount timeBits now) where
  world := Session.inv_init ..
  expiration := by
    intro a c hc
    cases hc

theorem makes_of_mem {h : Chronicle} {a : Nat} {c : ClientCtx} (action : Action)
    (hc : h.world.store.mem a = some c) : h.makes action a = false := by
  unfold makes
  rw [hc]
  rfl

theorem makes_of_none {h : Chronicle} {action : Action} {a : Nat} {c : ClientCtx}
    (hnone : h.world.store.mem a = none) (hc : (Session.exec h.world action).store.mem a = some c) :
    h.makes action a = true := by
  unfold makes
  rw [hnone, hc]
  rfl

theorem stamp_kept {h : Chronicle} {action : Action} {a : Nat}
    (hmakes : h.makes action a = false) :
    (h.exec (.act action)).stamp a = if refreshes a action then h.world.now else h.stamp a := by
  unfold stamp exec
  dsimp only
  rw [hmakes]
  cases refreshes a action <;> rfl

theorem stamp_made {h : Chronicle} {action : Action} {a : Nat}
    (hmakes : h.makes action a = true) : (h.exec (.act action)).stamp a = h.world.now := by
  unfold stamp exec
  dsimp only
  rw [hmakes]
  rfl

/-- What an action leaves of a session keeps its timeout and has the expiration of the
new dates. -/
theorem exec_dates {h : Chronicle} (hh : Inv h) {action : Action} {a : Nat} {c' : ClientCtx}
    (hc' : (Session.exec h.world action).store.mem a = some c') :
    c'.expiration =
        newExpiration h.world.store.timeBits c'.timeout ((h.exec (.act action)).stamp a) ∧
      ∀ c, h.world.store.mem a = some c → c'.timeout = c.timeout := by
  by_cases htoken : ∃ client generated, action = .tokenNew client generated
  · obtain ⟨client, generated, rfl⟩ := htoken
    obtain ⟨c, hc, hbecomes⟩ := exec_tokenNew_mem hc'
    have htimes := ctxTokenNew_dates generated h.world.now (hh.expiration a c hc)
    have hsame : ∀ x, h.world.store.mem a = some x → c.timeout = x.timeout := by
      intro x hx
      rw [hc] at hx
      cases hx
      rfl
    rw [stamp_kept (makes_of_mem _ hc), hbecomes]
    by_cases hclient : client = a
    · rw [if_pos hclient, if_pos (show refreshes a (.tokenNew client generated) = true by
        simpa [refreshes] using hclient)]
      exact ⟨htimes.2, hsame⟩
    · rw [if_neg hclient, if_neg (show ¬ refreshes a (.tokenNew client generated) = true by
        simpa [refreshes] using hclient)]
      exact ⟨hh.expiration a c hc, hsame⟩
  · have hgrows := grows_sameDates hh.world action
      (fun client generated he => htoken ⟨client, generated, he⟩)
    have hrefreshes : refreshes a action = false := by
      cases action <;> first | rfl | exact absurd ⟨_, _, rfl⟩ htoken
    rcases hgrows a c' hc' with ⟨c, hc, htimeout, hexpiration⟩ | ⟨hnone, hexpiration⟩
    · rw [stamp_kept (makes_of_mem action hc), hrefreshes, htimeout, hexpiration]
      refine ⟨hh.expiration a c hc, ?_⟩
      intro x hx
      rw [hc] at hx
      cases hx
      rfl
    · rw [stamp_made (makes_of_none hnone hc')]
      refine ⟨hexpiration, ?_⟩
      intro x hx
      rw [hnone] at hx
      cases hx

theorem inv_step {h h' : Chronicle} {timed : TimedAction} (hh : Inv h) (hstep : Step h timed h') :
    Inv h' ∧ SameConfig h.world.store h'.world.store := by
  obtain ⟨hallowed, rfl⟩ := hstep
  cases timed with
  | act action =>
      have hworld : Session.Step h.world action (Session.exec h.world action) :=
        step_exec action (hallowed action rfl)
      have hconfig := sameConfig_step hh.world hworld
      refine ⟨⟨(Session.inv_step hh.world hworld).1, ?_⟩, hconfig⟩
      intro a c hc
      have hbits : (h.exec (.act action)).world.store.timeBits = h.world.store.timeBits :=
        hconfig.timeBits
      rw [hbits]
      exact (exec_dates hh hc).1
  | clock now =>
      have hinv := hh.world
      exact ⟨⟨⟨hinv.wf, hinv.referenced, hinv.unheld, hinv.alive⟩, hh.expiration⟩,
        SameConfig.refl _⟩

theorem runs_inv {h₀ h : Chronicle} {ts : List (Transition Chronicle TimedAction)}
    (hrun : Runs Step h₀ h ts) (hinit : Inv h₀) :
    Inv h ∧ SameConfig h₀.world.store h.world.store := by
  apply hrun.invariant (fun h => Inv h ∧ SameConfig h₀.world.store h.world.store)
  · intro h₁ timed h₂ hprev hstep
    have hnext := inv_step hprev.1 hstep
    exact ⟨hnext.1, hprev.2.trans hnext.2⟩
  · exact ⟨hinit, SameConfig.refl _⟩

end Chronicle

/-! ## The clean-up -/

/-- After the step the session is closed or freed. -/
def Closed (t : Transition Chronicle TimedAction) (a : Nat) : Prop :=
  ∀ c', t.after.world.store.mem a = some c' → c'.uuid = []

/-- A clean-up closes the open sessions whose date is older than their timeout, when the sum of
both is a time, and never one whose timeout is zero. -/
def ExpiryLaw (t : Transition Chronicle TimedAction) : Prop :=
  ∀ action, t.action = .act action → action.cleans = true →
    ∀ a c, t.before.world.store.mem a = some c → c.uuid ≠ [] →
      (0 < c.timeout → IsTime t.before.world.store.timeBits (c.timeout + t.before.stamp a) →
        (Closed t a ↔ c.timeout + t.before.stamp a < t.before.world.now)) ∧
      (c.timeout = 0 → ¬ Closed t a)

/-- No session without timeout is open at a clean-up, unless the times have 64 bits or the
date is before the epoch. -/
def SparesUnlimited (t : Transition Chronicle TimedAction) : Prop :=
  ∀ action, t.action = .act action → action.cleans = true →
    t.before.world.store.timeBits = 64 ∨ t.before.world.now < 0 ∨
      ∀ a c, t.before.world.store.mem a = some c → c.uuid ≠ [] → c.timeout ≠ 0

/-- The clean-up closes exactly the open sessions whose expiration is past. -/
theorem closed_iff {t : Transition Chronicle TimedAction} (hbefore : Inv t.before.world)
    (hstep : Chronicle.Step t.before t.action t.after) {action : Action}
    (haction : t.action = .act action) (hcleans : action.cleans = true) {a : Nat} {c : ClientCtx}
    (hc : t.before.world.store.mem a = some c) (hopen : c.uuid ≠ []) :
    Closed t a ↔ c.expiration < t.before.world.now := by
  obtain ⟨hallowed, hafter⟩ := hstep
  have hworld : t.after.world = exec t.before.world action := by
    rw [hafter, haction]
    rfl
  have hlaw := (inv_step hbefore (step_exec action (hallowed action haction))).2 a c hc
  rw [← hworld] at hlaw
  have hcloses : Closes t.before.world action a c ↔ c.expiration < t.before.world.now := by
    have hnotClose : action ≠ .close a := by
      intro he
      rw [he] at hcleans
      cases hcleans
    simp [Closes, hopen, hnotClose, hcleans, ctxStoreTooOld]
  rw [← hcloses]
  unfold Closed
  cases hm : t.after.world.store.mem a with
  | none => simp [(hlaw.1.mp hm).1]
  | some c' =>
      have huuid := hlaw.2.2 c' hm
      simpa using huuid

/-- On times of fewer than 64 bits a session without timeout is past its expiration from the
epoch on. -/
theorem newExpiration_zero_lt {timeBits : Nat} {now : Int} (hnow : IsTime timeBits now)
    (stamp : Int) :
    newExpiration timeBits 0 stamp < now ↔ ¬ (timeBits = 64 ∨ now < 0) := by
  obtain ⟨hpos, hle, -, hlt⟩ := hnow
  rw [newExpiration_forever hpos hle]
  by_cases hwide : timeBits = 64
  · subst hwide
    simp only [if_true, true_or, not_true_eq_false, iff_false]
    omega
  · rw [if_neg hwide]
    simp only [hwide, false_or]
    omega

/-- One clean-up from a state that a run reaches. -/
theorem expiryLaw_iff {t : Transition Chronicle TimedAction} (hbefore : Chronicle.Inv t.before)
    (hstep : Chronicle.Step t.before t.action t.after)
    (hnow : IsTime t.before.world.store.timeBits t.before.world.now) :
    ExpiryLaw t ↔ SparesUnlimited t := by
  constructor
  · intro hlaw action haction hcleans
    by_contra hbad
    obtain ⟨hwide, hbad⟩ := not_or.mp hbad
    obtain ⟨hepoch, hbad⟩ := not_or.mp hbad
    apply hbad
    intro a c hc hopen hzero
    apply (hlaw action haction hcleans a c hc hopen).2 hzero
    rw [closed_iff hbefore.world hstep haction hcleans hc hopen, hbefore.expiration a c hc, hzero,
      newExpiration_zero_lt hnow]
    exact not_or.mpr ⟨hwide, hepoch⟩
  · intro hspares action haction hcleans a c hc hopen
    rw [closed_iff hbefore.world hstep haction hcleans hc hopen, hbefore.expiration a c hc]
    constructor
    · intro hpos htime
      have hne : c.timeout ≠ 0 := by omega
      rw [newExpiration, if_pos hne, Int.add_comm, toSigned_time htime]
    · intro hzero
      rw [hzero, newExpiration_zero_lt hnow, not_not]
      rcases hspares action haction hcleans with hwide | hepoch | hnone
      · exact Or.inl hwide
      · exact Or.inr hepoch
      · exact absurd hzero (hnone a c hc hopen)

/-! ## A clock that never goes back -/

/-- No date is ahead of the clock, nor a creation ahead of a token. -/
def Chronicle.Ordered (h : Chronicle) : Prop :=
  ∀ a, h.created a ≤ h.world.now ∧ h.created a ≤ h.stamp a

theorem Chronicle.ordered_step {h h' : Chronicle} {timed : TimedAction} (hh : h.Ordered)
    (hclock : h.world.now ≤ h'.world.now) (hstep : Chronicle.Step h timed h') : h'.Ordered := by
  obtain ⟨-, rfl⟩ := hstep
  intro a
  cases timed with
  | act action =>
      have hcreated : (h.exec (.act action)).created a =
          if h.makes action a then h.world.now else h.created a := rfl
      cases hmakes : h.makes action a with
      | true =>
          rw [hcreated, stamp_made hmakes, hmakes]
          exact ⟨hclock, Int.le_refl _⟩
      | false =>
          rw [hcreated, stamp_kept hmakes, if_neg (by simp [hmakes])]
          refine ⟨Int.le_trans (hh a).1 hclock, ?_⟩
          split
          · exact (hh a).1
          · exact (hh a).2
  | clock now => exact ⟨Int.le_trans (hh a).1 hclock, (hh a).2⟩

theorem Chronicle.runs_ordered {h₀ h : Chronicle} {ts : List (Transition Chronicle TimedAction)}
    (hrun : Runs Step h₀ h ts) (hinit : h₀.Ordered)
    (hclock : ∀ t ∈ ts, t.before.world.now ≤ t.after.world.now) : h.Ordered := by
  apply hrun.invariant_of Ordered (fun t => t.before.world.now ≤ t.after.world.now) _ hinit hclock
  intro h₁ timed h₂ hprev hcond hstep
  exact ordered_step hprev hcond hstep

/-! ## Every run -/

/-- Over every run on times of at most 64 bits: the clean-ups obey the law exactly when none
of them meets an open session without timeout, or when the times have 64 bits or the date
is before the epoch.  A session keeps the timeout it was created with and, on a clock that
never goes back, its date is the later of its creation and of its last token. -/
theorem session_expiry_iff (maxSessionCount : Nat) (timeout : Int) (initok : Bytes)
    (contextCount timeBits : Nat) (start : Int) {h : Chronicle}
    {ts : List (Transition Chronicle TimedAction)}
    (hrun : Runs Chronicle.Step
      (Chronicle.init maxSessionCount timeout initok contextCount timeBits start) h ts)
    (htimes : ∀ t ∈ ts, IsTime timeBits t.before.world.now) :
    ((∀ t ∈ ts, ExpiryLaw t) ↔ ∀ t ∈ ts, SparesUnlimited t) ∧
      (∀ t ∈ ts, ∀ a c c', t.before.world.store.mem a = some c →
        t.after.world.store.mem a = some c' → c'.timeout = c.timeout) ∧
      ((∀ t ∈ ts, t.before.world.now ≤ t.after.world.now) → ∀ t ∈ ts, ∀ a,
        t.before.stamp a = max (t.before.created a) (t.before.stamp a)) := by
  have hinit := Chronicle.inv_init maxSessionCount timeout initok contextCount timeBits start
  have heach : ∀ t ∈ ts, ExpiryLaw t ↔ SparesUnlimited t := by
    intro t ht
    obtain ⟨hstep, us, -, hreached⟩ := hrun.mem_spec ht
    have hbefore := Chronicle.runs_inv hreached hinit
    apply expiryLaw_iff hbefore.1 hstep
    rw [hbefore.2.timeBits]
    exact htimes t ht
  refine ⟨⟨fun hlaw t ht => (heach t ht).mp (hlaw t ht),
    fun hspares t ht => (heach t ht).mpr (hspares t ht)⟩, ?_, ?_⟩
  · intro t ht a c c' hc hc'
    obtain ⟨⟨-, hafter⟩, us, -, hreached⟩ := hrun.mem_spec ht
    rw [hafter] at hc'
    cases haction : t.action with
    | act action =>
        rw [haction] at hc'
        exact (Chronicle.exec_dates (Chronicle.runs_inv hreached hinit).1 hc').2 c hc
    | clock now =>
        rw [haction] at hc'
        cases hc.symm.trans hc'
        rfl
  · intro hclock t ht a
    obtain ⟨-, us, hearlier, hreached⟩ := hrun.mem_spec ht
    have hordered := Chronicle.runs_ordered hreached (fun _ => ⟨Int.le_refl _, Int.le_refl _⟩)
      (fun u hu => hclock u (hearlier.subset hu))
    exact (Int.max_eq_right (hordered a).2).symm

/-- A text that the only session ever made does not have. -/
theorem generates_single {h : Chronicle} (hh : Chronicle.Inv h) {generated uuid : Bytes}
    (hfits : generated ≠ [] ∧ generated.length < uuidSize) (hnext : h.world.store.next = 1)
    (huuid : (h.world.store.mem 0).map ClientCtx.uuid = some uuid) (hne : uuid ≠ generated) :
    Generates generated h.world.store := by
  refine ⟨hfits.1, hfits.2, ?_⟩
  intro a c hc hu
  have hlt := lt_next_of_mem hh.world.wf hc
  have ha : a = 0 := by omega
  rw [ha] at hc
  rw [hc, Option.map_some, hu] at huuid
  exact hne (Option.some.inj huuid).symm

theorem generates_init (timeBits : Nat) :
    Generates [97] (Chronicle.init 2 3600 [] 0 timeBits 0).world.store :=
  ⟨by decide, by decide, by intro a c hc; cases hc⟩

theorem Chronicle.step_act {h : Chronicle} (action : Action) (hallowed : Allowed h.world action) :
    Step h (.act action) (h.exec (.act action)) := by
  refine ⟨?_, rfl⟩
  rintro act ⟨⟩
  exact hallowed

theorem Chronicle.step_clock (h : Chronicle) (now : Int) :
    Step h (.clock now) (h.exec (.clock now)) := by
  refine ⟨?_, rfl⟩
  rintro act ⟨⟩

theorem Chronicle.isTime_of_clock {h₀ h : Chronicle}
    {ts : List (Transition Chronicle TimedAction)} (_hrun : Runs Step h₀ h ts) {timeBits : Nat}
    (nows : List Int) (hnows : ts.map (fun t => t.before.world.now) = nows)
    (hall : ∀ now ∈ nows, IsTime timeBits now) :
    ∀ t ∈ ts, IsTime timeBits t.before.world.now := by
  intro t ht
  apply hall
  rw [← hnows]
  exact List.mem_map_of_mem ht

/-- A token moves the end of a session: 12 seconds after its creation and 7 after its token,
the session with a timeout of 10 is spared. -/
theorem session_expiry_iff_refreshed :
    ∃ (h : Chronicle) (ts : List (Transition Chronicle TimedAction)),
      Runs Chronicle.Step (Chronicle.init 2 3600 [] 0 64 0) h ts ∧
        (∀ t ∈ ts, IsTime 64 t.before.world.now) ∧ h.world.now = 12 ∧
        (h.world.store.mem 0).map ClientCtx.uuid = some [97] ∧
        ∀ t ∈ ts, ExpiryLaw t := by
  have hfront := (((Runs.single (Chronicle.step_act (.create true [97] none 10)
    (generates_init 64))).snoc (Chronicle.step_clock _ 5)).snoc
    (Chronicle.step_act (.tokenNew 0 [99]) rfl)).snoc (Chronicle.step_clock _ 12)
  have hgen := @generates_single _ (Chronicle.runs_inv hfront (Chronicle.inv_init ..)).1 [98] _
    (by decide) rfl rfl (by decide)
  have hrun := hfront.snoc (Chronicle.step_act (.getSession true [98] none) hgen)
  have htimes := @Chronicle.isTime_of_clock _ _ _ hrun 64 [0, 0, 5, 5, 12] rfl (by simp [IsTime])
  refine ⟨_, _, hrun, htimes, rfl, rfl, ?_⟩
  apply (session_expiry_iff 2 3600 [] 0 64 0 hrun htimes).1.mpr
  intro t ht action haction hcleans
  obtain ⟨-, us, -, hreached⟩ := hrun.mem_spec ht
  exact Or.inl (Chronicle.runs_inv hreached (Chronicle.inv_init ..)).2.timeBits

/-- On times of 32 bits a session without timeout is closed by the first clean-up. -/
theorem session_unlimited_closed :
    ∃ (h : Chronicle) (ts : List (Transition Chronicle TimedAction)),
      Runs Chronicle.Step (Chronicle.init 2 3600 [] 0 32 0) h ts ∧
        (∀ t ∈ ts, IsTime 32 t.before.world.now) ∧ ¬ ∀ t ∈ ts, ExpiryLaw t := by
  have hfront := Runs.single (Chronicle.step_act (.create true [97] none 0) (generates_init 32))
  have hgen := @generates_single _ (Chronicle.runs_inv hfront (Chronicle.inv_init ..)).1 [98] _
    (by decide) rfl rfl (by decide)
  have hrun := hfront.snoc (Chronicle.step_act (.create true [98] none 10) hgen)
  refine ⟨_, _, hrun, Chronicle.isTime_of_clock hrun [0, 0] rfl (by simp [IsTime]), ?_⟩
  intro hlaw
  -- the session that is closed was made by the first step
  have hspared := (hlaw _ (List.mem_append_right _ (List.mem_singleton_self _)) _ rfl rfl 0 _ rfl
    (by decide)).2 rfl
  apply hspared
  rintro c' ⟨⟩
  rfl

end AfbBinder.Session
