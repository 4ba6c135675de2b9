import AfbBinder.Session.Lifetime

/-!
# Looking a session up

`ctxClientGetSession` gives the stored context whose text is the one asked for, or
makes a new one.  A closed context that is still referenced stays in its slot with an
empty text, and the default timeout zero stands for a session that never expires.
-/

namespace AfbBinder.Session

open Lib

/-- The values of a signed `time_t` of `timeBits` bits. -/
def IsTime (timeBits : Nat) (time : Int) : Prop :=
  0 < timeBits ∧ timeBits ≤ 64 ∧ -2 ^ (timeBits - 1) ≤ time ∧ time < 2 ^ (timeBits - 1)

/-- What a lookup gives is open, not expired, and the session asked for. -/
def ReturnsLive (allocated : Bool) (generated uuid : Bytes) (now : Int) (s : Store) : Prop :=
  ∀ client created s',
    ctxClientGetSession allocated generated (some uuid) now s = (.ok client, created, s') →
      ∃ c, s'.mem client = some c ∧ c.uuid ≠ [] ∧ ctxStoreTooOld c now = false ∧ c.uuid = uuid

/-! ## The store before the lookup -/

/-- A live session of that text is stored. -/
def Live (uuid : Bytes) (now : Int) (s : Store) : Prop :=
  ∃ a c, s.mem a = some c ∧ c.uuid = uuid ∧ ctxStoreTooOld c now = false

/-- A context is stored that is closed, or that the clean-up closes and keeps. -/
def Blank (now : Int) (s : Store) : Prop :=
  ∃ a c, s.mem a = some c ∧ (c.uuid = [] ∨ (ctxStoreTooOld c now = true ∧ c.refcount ≠ 0))

/-- A slot is empty, or the clean-up empties one. -/
def Room (now : Int) (s : Store) : Prop :=
  none ∈ s.slots ∨
    ∃ a c, s.mem a = some c ∧ c.uuid ≠ [] ∧ ctxStoreTooOld c now = true ∧ c.refcount = 0

/-! ## The slots after the clean-up -/

theorem ctxClientClose_slot {s : Store} {client i a : Nat}
    (h : (ctxClientClose client s).slots[i]? = some (some a)) : s.slots[i]? = some (some a) := by
  unfold ctxClientClose at h
  split at h
  · exact h
  · split at h
    · exact h
    · dsimp only at h
      split at h
      · unfold ctxDelete ctxStoreDel at h
        split at h
        · rename_i slots hslots
          exact Slots.getElem?_of_clear hslots h
        · exact h
      · exact h

theorem cleanUpSlot_slot {now : Int} {s : Store} {idx i a : Nat}
    (h : (cleanUpSlot now s idx).slots[i]? = some (some a)) : s.slots[i]? = some (some a) := by
  unfold cleanUpSlot at h
  split at h
  · split at h
    · split at h
      · exact ctxClientClose_slot h
      · exact h
    · exact h
  · exact h

theorem ctxStoreCleanUp_slot {now : Int} {s : Store} {i a : Nat}
    (h : (ctxStoreCleanUp now s).slots[i]? = some (some a)) : s.slots[i]? = some (some a) := by
  have hloop : ∀ (indices : List Nat) (s : Store),
      (indices.foldl (cleanUpSlot now) s).slots[i]? = some (some a) →
        s.slots[i]? = some (some a) := by
    intro indices
    induction indices with
    | nil => exact fun s hi => hi
    | cons idx rest ih => exact fun s hi => cleanUpSlot_slot (ih _ hi)
  exact hloop _ s h

theorem expireCtx_none {apicount : Nat} {now : Int} {c : ClientCtx} :
    expireCtx apicount now c = none ↔
      c.uuid ≠ [] ∧ ctxStoreTooOld c now = true ∧ c.refcount = 0 := by
  by_cases hold : c.uuid ≠ [] ∧ c.expiration < now
  · by_cases href : c.refcount = 0
    · simp [expireCtx, hold, href, ctxStoreTooOld]
    · simp [expireCtx, hold, href]
  · simp only [expireCtx, if_neg hold, reduceCtorEq, ctxStoreTooOld, decide_eq_true_eq, false_iff]
    exact fun h => hold ⟨h.1, h.2.1⟩

/-- What the clean-up leaves of a context is blanked, or was neither closed nor old. -/
theorem expireCtx_some {apicount : Nat} {now : Int} {c c' : ClientCtx}
    (h : expireCtx apicount now c = some c') :
    (c'.uuid = [] ∧ (c.uuid = [] ∨ (ctxStoreTooOld c now = true ∧ c.refcount ≠ 0))) ∨
      (c' = c ∧ c.uuid ≠ [] ∧ ctxStoreTooOld c now = false) := by
  unfold expireCtx at h
  split at h
  · rename_i hold
    split at h
    · cases h
    · rename_i href
      cases h
      exact Or.inl ⟨closedCtx_uuid _ _, Or.inr ⟨by simpa [ctxStoreTooOld] using hold.2, href⟩⟩
  · rename_i hold
    cases h
    by_cases hu : c.uuid = []
    · exact Or.inl ⟨hu, Or.inl hu⟩
    · refine Or.inr ⟨rfl, hu, ?_⟩
      have hnew : ¬ c.expiration < now := fun he => hold ⟨hu, he⟩
      simpa [ctxStoreTooOld] using hnew

theorem expireCtx_live (apicount : Nat) {now : Int} {c : ClientCtx}
    (hold : ctxStoreTooOld c now = false) : expireCtx apicount now c = some c := by
  have : ¬ c.expiration < now := by simpa [ctxStoreTooOld] using hold
  simp [expireCtx, this]

theorem none_mem_cleanUp {s : Store} (hs : Wf s) (now : Int) :
    none ∈ (ctxStoreCleanUp now s).slots ↔ Room now s := by
  obtain ⟨hwf, hconf, -, hmem⟩ := ctxStoreCleanUp_spec now hs
  have hlen := hconf.length
  constructor
  · intro h
    obtain ⟨i, hi⟩ := List.getElem?_of_mem h
    have hlt := (List.getElem?_eq_some_iff.mp hi).1
    obtain ⟨slot, hslot⟩ : ∃ slot, s.slots[i]? = some slot :=
      ⟨_, List.getElem?_eq_getElem (by omega)⟩
    cases slot with
    | none => exact Or.inl (List.mem_of_getElem? hslot)
    | some a =>
        -- the context of that slot was freed: otherwise it would still be there
        obtain ⟨c, hc⟩ := Option.isSome_iff_exists.mp (slot_allocated hs hslot)
        refine Or.inr ⟨a, c, hc, ?_⟩
        apply (@expireCtx_none s.apicount now c).mp
        cases hexp : expireCtx s.apicount now c with
        | none => rfl
        | some c' =>
            have hc' : (ctxStoreCleanUp now s).mem a = some c' := by
              rw [hmem a, hc, Option.bind_some, hexp]
            obtain ⟨j, hj⟩ := List.getElem?_of_mem (mem_slots_of_mem hwf hc')
            have hij := slot_unique hs hslot (ctxStoreCleanUp_slot hj)
            rw [← hij, hi] at hj
            cases hj
  · have hempty : ∀ i, i < s.slots.length →
        (∀ a, s.slots[i]? = some (some a) → (ctxStoreCleanUp now s).mem a = none) →
        none ∈ (ctxStoreCleanUp now s).slots := by
      intro i hi hfreed
      obtain ⟨slot, hslot⟩ : ∃ slot, (ctxStoreCleanUp now s).slots[i]? = some slot :=
        ⟨_, List.getElem?_eq_getElem (by omega)⟩
      cases slot with
      | none => exact List.mem_of_getElem? hslot
      | some a =>
          have hnone := hfreed a (ctxStoreCleanUp_slot hslot)
          exact absurd (List.mem_of_getElem? hslot) (not_mem_slots hwf hnone)
    rintro (hnone | ⟨a, c, hc, hfreed⟩)
    · obtain ⟨i, hi⟩ := List.getElem?_of_mem hnone
      refine hempty i (List.getElem?_eq_some_iff.mp hi).1 (fun a ha => ?_)
      rw [hi] at ha
      cases ha
    · obtain ⟨i, hi⟩ := List.getElem?_of_mem (mem_slots_of_mem hs hc)
      refine hempty i (List.getElem?_eq_some_iff.mp hi).1 (fun b hb => ?_)
      rw [hi] at hb
      cases hb
      rw [hmem a, hc, Option.bind_some, expireCtx_none.mpr hfreed]

/-! ## What the lookup gives -/

theorem newContext_iff (allocated : Bool) (generated : Bytes) (uuid : Option Bytes)
    (timeout now : Int) (s : Store) :
    (∃ e, newContext allocated generated uuid timeout now s = (.error e, s)) ↔
      ¬ (allocated = true ∧ uuidTooLong uuid = false ∧ none ∈ s.slots) := by
  rw [← Slots.fill_isSome s.next]
  by_cases ha : allocated = true
  · by_cases hl : uuidTooLong uuid = true
    · simp [newContext, ha, hl]
    · cases hf : Slots.fill s.next s.slots with
      | none => simp [newContext, ha, hl, ctxStoreAdd, hf]
      | some slots => simp [newContext, ha, hl, ctxStoreAdd, hf]
  · simp [newContext, ha]

theorem toSigned_neg_one {bits : Nat} (hpos : 0 < bits) : toSigned bits (-1) = -1 := by
  have htwo : 2 ≤ 2 ^ bits := by
    calc 2 = 2 ^ 1 := by rfl
      _ ≤ 2 ^ bits := Nat.pow_le_pow_right (by decide) hpos
  apply Int.bmod_eq_of_le <;> omega

/-- On a `time_t` of 64 bits the timeout zero gives the last date; on a narrower one the
date is `-1`, the half of the all ones of 64 bits being cut to ones again. -/
theorem newExpiration_forever {timeBits : Nat} (hpos : 0 < timeBits) (hle : timeBits ≤ 64)
    (now : Int) :
    newExpiration timeBits 0 now = if timeBits = 64 then 2 ^ 63 - 1 else -1 := by
  have hones : newExpiration timeBits 0 now = toSigned timeBits (2 ^ 63 - 1) := by
    simp [newExpiration, toSigned_neg_one hpos]
  rw [hones]
  split
  · rename_i h
    subst h
    decide
  · have hsplit : (2 : Int) ^ 63 = ((2 ^ timeBits : Nat) : Int) * 2 ^ (63 - timeBits) := by
      have hsum : 63 = timeBits + (63 - timeBits) := by omega
      rw [Int.natCast_pow]
      show (2 : Int) ^ 63 = 2 ^ timeBits * 2 ^ (63 - timeBits)
      rw [← pow_add, ← hsum]
    have hshift : (2 : Int) ^ 63 - 1 = -1 + ((2 ^ timeBits : Nat) : Int) * 2 ^ (63 - timeBits) := by
      rw [← hsplit]
      omega
    rw [toSigned, hshift, Int.add_mul_bmod_self_left]
    exact toSigned_neg_one hpos

theorem toSigned_time {timeBits : Nat} {time : Int} (htime : IsTime timeBits time) :
    toSigned timeBits time = time := by
  obtain ⟨hpos, -, hlow, hhigh⟩ := htime
  obtain ⟨bits, rfl⟩ : ∃ bits, timeBits = bits + 1 := ⟨timeBits - 1, by omega⟩
  rw [Nat.add_sub_cancel] at hlow hhigh
  have hhalf : ((2 ^ (bits + 1) : Nat) : Int) = 2 * 2 ^ bits := by
    rw [Int.natCast_pow, pow_succ]
    exact Int.mul_comm _ _
  apply Int.bmod_eq_of_le <;> omega

/-- A sum that is too large for a time wraps to a date before the times that were added. -/
theorem toSigned_sum {timeBits : Nat} {timeout now : Int} (hpos : 0 < timeout)
    (hint : timeout < 2 ^ (timeBits - 1)) (hnow : IsTime timeBits now) :
    now ≤ toSigned timeBits (now + timeout) ↔ now + timeout < 2 ^ (timeBits - 1) := by
  have hlimits := hnow
  obtain ⟨hbits, hle, hlow, hhigh⟩ := hlimits
  by_cases hsum : now + timeout < 2 ^ (timeBits - 1)
  · rw [toSigned_time ⟨hbits, hle, by omega, hsum⟩]
    omega
  · have hwidth : ((2 ^ timeBits : Nat) : Int) = 2 * 2 ^ (timeBits - 1) := by
      obtain ⟨bits, rfl⟩ : ∃ bits, timeBits = bits + 1 := ⟨timeBits - 1, by omega⟩
      rw [Nat.add_sub_cancel, Int.natCast_pow, pow_succ]
      exact Int.mul_comm _ _
    have hwrap : toSigned timeBits (now + timeout) = now + timeout - ((2 ^ timeBits : Nat) : Int) := by
      rw [toSigned, ← Int.sub_bmod_right]
      apply Int.bmod_eq_of_le <;> omega
    rw [hwrap]
    omega

theorem newExpiration_new {timeBits : Nat} {timeout now : Int} (htimeout : 0 ≤ timeout)
    (hint : timeout < 2 ^ (timeBits - 1)) (hnow : IsTime timeBits now) :
    now ≤ newExpiration timeBits timeout now ↔
      timeout ≠ 0 ∧ now + timeout < 2 ^ (timeBits - 1) ∨
        timeout = 0 ∧ (timeBits = 64 ∨ now < 0) := by
  by_cases hzero : timeout = 0
  · obtain ⟨hpos, hle, -, hlt⟩ := hnow
    subst hzero
    rw [newExpiration_forever hpos hle]
    by_cases hwide : timeBits = 64
    · subst hwide
      simp
      omega
    · simp [hwide]
      omega
  · rw [newExpiration, if_pos hzero, toSigned_sum (by omega) hint hnow]
    simp [hzero]

/-- The inputs and the states from which a lookup can only give a live session. -/
def LooksUpLive (allocated : Bool) (uuid : Bytes) (now : Int) (s : Store) : Prop :=
  if uuid = [] then ¬ Blank now s ∧ ¬ (allocated = true ∧ Room now s)
  else
    Live uuid now s ∨ ¬ (allocated = true ∧ uuid.length < uuidSize ∧ Room now s) ∨
      s.timeout ≠ 0 ∧ now + s.timeout < 2 ^ (s.timeBits - 1) ∨
        s.timeout = 0 ∧ (s.timeBits = 64 ∨ now < 0)

theorem ctxStoreSearch_cleanUp {s : Store} (hs : Wf s) (now : Int) (uuid : Bytes) :
    (∃ client, ctxStoreSearch uuid (ctxStoreCleanUp now s) = some client) ↔
      if uuid = [] then Blank now s else Live uuid now s := by
  obtain ⟨hwf, -, -, hmem⟩ := ctxStoreCleanUp_spec now hs
  have hfound : (∃ client, ctxStoreSearch uuid (ctxStoreCleanUp now s) = some client) ↔
      ∃ a c, (ctxStoreCleanUp now s).mem a = some c ∧ c.uuid = uuid := by
    constructor
    · rintro ⟨client, h⟩
      exact ⟨client, ctxStoreSearch_some h⟩
    · rintro ⟨a, c, hc, hu⟩
      cases hsearch : ctxStoreSearch uuid (ctxStoreCleanUp now s) with
      | none => exact absurd hu (ctxStoreSearch_none hwf hsearch hc)
      | some client => exact ⟨client, rfl⟩
  rw [hfound]
  constructor
  · rintro ⟨a, c', hc', rfl⟩
    rw [hmem a] at hc'
    obtain ⟨c, hc, hexp⟩ := Option.bind_eq_some_iff.mp hc'
    rcases expireCtx_some hexp with ⟨hu, hblank⟩ | ⟨rfl, hu, hnew⟩
    · rw [if_pos hu]
      exact ⟨a, c, hc, hblank⟩
    · rw [if_neg hu]
      exact ⟨a, c', hc, rfl, hnew⟩
  · split
    · rename_i hu
      subst hu
      rintro ⟨a, c, hc, hblank⟩
      -- a blanked context stays: the clean-up frees only open ones without reference
      cases hexp : expireCtx s.apicount now c with
      | none =>
          obtain ⟨hopen, -, href⟩ := expireCtx_none.mp hexp
          rcases hblank with hu | ⟨-, hne⟩
          · exact absurd hu hopen
          · exact absurd href hne
      | some c' =>
          refine ⟨a, c', by rw [hmem a, hc, Option.bind_some, hexp], ?_⟩
          rcases expireCtx_some hexp with ⟨hu, -⟩ | ⟨rfl, hu, hnew⟩
          · exact hu
          · rcases hblank with hu' | ⟨hold, -⟩
            · exact hu'
            · rw [hnew] at hold
              cases hold
    · rintro ⟨a, c, hc, hu, hnew⟩
      exact ⟨a, c, by rw [hmem a, hc, Option.bind_some, expireCtx_live _ hnew], hu⟩

theorem returnsLive_found {s : Store} (hs : Wf s) {allocated : Bool} {generated uuid : Bytes}
    {now : Int} {client : Nat}
    (hsearch : ctxStoreSearch uuid (ctxStoreCleanUp now s) = some client) :
    ReturnsLive allocated generated uuid now s ↔ uuid ≠ [] := by
  have hmem := (ctxStoreCleanUp_spec now hs).2.2.2 client
  obtain ⟨c, hc, hu⟩ := ctxStoreSearch_some hsearch
  have hget : ctxClientGetSession allocated generated (some uuid) now s =
      (.ok client, false, (ctxStoreCleanUp now s).put client
        { c with access := now, refcount := c.refcount + 1 }) := by
    simp [ctxClientGetSession, hsearch, hc]
  constructor
  · intro h hnil
    obtain ⟨c', hc', hopen, -, hu'⟩ := h _ _ _ hget
    exact hopen (hu'.trans hnil)
  · intro hne client' created s' h
    rw [hget] at h
    cases h
    refine ⟨_, Function.update_self .., ?_, ?_, hu⟩
    · exact fun hnil => hne (hu.symm.trans hnil)
    · rw [hc] at hmem
      obtain ⟨c₀, -, hexp⟩ := Option.bind_eq_some_iff.mp hmem.symm
      rcases expireCtx_some hexp with ⟨hnil, -⟩ | ⟨rfl, -, hnew⟩
      · exact absurd (hu.symm.trans hnil) hne
      · exact hnew

/-- A context made for the lookup is live when its text is not empty and its first
expiration is not in the past. -/
theorem returnsLive_made {s : Store} (hs : Wf s) {allocated : Bool} {generated uuid : Bytes}
    {now : Int} (hsearch : ctxStoreSearch uuid (ctxStoreCleanUp now s) = none) :
    ReturnsLive allocated generated uuid now s ↔
      (allocated = true ∧ uuid.length < uuidSize ∧ Room now s →
        uuid ≠ [] ∧ now ≤ newExpiration s.timeBits s.timeout now) := by
  obtain ⟨-, hconf, -, -⟩ := ctxStoreCleanUp_spec now hs
  have hget : ctxClientGetSession allocated generated (some uuid) now s =
      ((newContext allocated generated (some uuid) s.timeout now (ctxStoreCleanUp now s)).1, true,
        (newContext allocated generated (some uuid) s.timeout now (ctxStoreCleanUp now s)).2) := by
    simp [ctxClientGetSession, hsearch, hconf.timeout]
  have hmade := newContext_iff allocated generated (some uuid) s.timeout now (ctxStoreCleanUp now s)
  have hlong : uuidTooLong (some uuid) = false ↔ uuid.length < uuidSize := by
    simp [uuidTooLong]
  rw [none_mem_cleanUp hs, hlong] at hmade
  rcases newContext_cases allocated generated (some uuid) s.timeout now (ctxStoreCleanUp now s) with
    ⟨e, he⟩ | ⟨slots, hfill, -, hok⟩
  · -- nothing is given
    have hno := hmade.mp ⟨e, he⟩
    constructor
    · exact fun _ h => absurd h hno
    · intro _ client created s' h
      rw [hget, he] at h
      cases h
  · have hyes : allocated = true ∧ uuid.length < uuidSize ∧ Room now s := by
      by_contra hno
      obtain ⟨e, he⟩ := hmade.mpr hno
      rw [he] at hok
      cases hok
    rw [hok] at hget
    constructor
    · intro h _
      obtain ⟨c, hc, hopen, hnew, hu⟩ := h _ _ _ hget
      simp only [put_mem, Function.update_self, Option.some.injEq] at hc
      subst hc
      refine ⟨hopen, ?_⟩
      simpa [ctxStoreTooOld, freshCtx, hconf.timeBits] using hnew
    · intro h client created s' h'
      rw [hget] at h'
      cases h'
      obtain ⟨hne, hnew⟩ := h hyes
      refine ⟨_, Function.update_self .., hne, ?_, rfl⟩
      simpa [ctxStoreTooOld, freshCtx, hconf.timeBits] using hnew

theorem returnsLive_iff {s : Store} (hs : Wf s) (htimeout : 0 ≤ s.timeout)
    (hint : s.timeout < 2 ^ (s.timeBits - 1)) (allocated : Bool) (generated uuid : Bytes)
    {now : Int} (hnow : IsTime s.timeBits now) :
    ReturnsLive allocated generated uuid now s ↔ LooksUpLive allocated uuid now s := by
  have hfound := ctxStoreSearch_cleanUp hs now uuid
  have hsize : List.length ([] : Bytes) < uuidSize := by decide
  have hexp := newExpiration_new htimeout hint hnow
  unfold LooksUpLive
  cases hsearch : ctxStoreSearch uuid (ctxStoreCleanUp now s) with
  | some client =>
      rw [returnsLive_found hs hsearch]
      have hstored := hfound.mp ⟨client, hsearch⟩
      by_cases hu : uuid = []
      · rw [if_pos hu] at hstored ⊢
        simp [hu, hstored]
      · rw [if_neg hu] at hstored ⊢
        simp [hu, hstored]
  | none =>
      rw [returnsLive_made hs hsearch, hexp]
      have hstored := (not_congr hfound).mp (by simp [hsearch])
      by_cases hu : uuid = []
      · subst hu
        rw [if_pos rfl] at hstored ⊢
        simp only [hstored, hsize, ne_eq, not_true_eq_false, not_false_eq_true, true_and,
          false_and]
      · rw [if_neg hu] at hstored ⊢
        simp only [hstored, hu, ne_eq, not_false_eq_true, true_and, false_or]
        exact imp_iff_not_or

/-- Over every store that the users can reach, with an `int` of 32 bits as timeout and a
`time_t` at least as wide, every clock value and every text: a lookup gives only the live
session asked for exactly when the text is not empty and the session, if it has to be made,
does not expire at once, or when it can give none. -/
theorem session_lookup_live_iff (maxSessionCount : Nat) (timeout : Int) (initok : Bytes)
    (contextCount timeBits : Nat) (start : Int) {w : World} {ts : List (Transition World Action)}
    (hrun : Runs Step (World.init maxSessionCount timeout initok contextCount timeBits start) w ts)
    (htimeout : 0 ≤ timeout) (hint : timeout < 2 ^ 31) (hwidth : 32 ≤ timeBits) (allocated : Bool)
    (generated uuid : Bytes) {now : Int} (hnow : IsTime timeBits now) :
    ReturnsLive allocated generated uuid now w.store ↔
      LooksUpLive allocated uuid now w.store := by
  have hw := runs_inv hrun (inv_init ..)
  have hbits : w.store.timeBits = timeBits := hw.2.timeBits
  have hdefault : w.store.timeout = timeout := hw.2.timeout
  have hfits : timeout < 2 ^ (timeBits - 1) := by
    have hpow : (2 : Int) ^ 31 ≤ 2 ^ (timeBits - 1) := by
      exact_mod_cast Nat.pow_le_pow_right (by decide) (show 31 ≤ timeBits - 1 by omega)
    omega
  exact returnsLive_iff hw.1.wf (by rw [hdefault]; exact htimeout)
    (by rw [hdefault, hbits]; exact hfits) allocated generated uuid (by rw [hbits]; exact hnow)

theorem session_lookup_live_stored :
    ∃ (w : World) (ts : List (Transition World Action)),
      Runs Step (World.init 1 3600 [] 0 64 0) w ts ∧ IsTime 64 10 ∧
        Live [97] 10 w.store ∧ ReturnsLive true [98] [97] 10 w.store := by
  have hgen : Generates [98] (World.init 1 3600 [] 0 64 0).store :=
    ⟨by decide, by decide, by intro a c hc; cases hc⟩
  have hrun := Runs.single (step_exec (.create true [98] (some [97]) 3600) hgen)
  have hnow : IsTime 64 10 := by unfold IsTime; decide
  have hlive : Live [97] 10
      (exec (World.init 1 3600 [] 0 64 0) (.create true [98] (some [97]) 3600)).store :=
    ⟨0, _, rfl, rfl, rfl⟩
  exact ⟨_, _, hrun, hnow, hlive,
    (session_lookup_live_iff 1 3600 [] 0 64 0 hrun (by decide) (by decide) (by decide) true [98] [97]
      hnow).mpr
      (Or.inl hlive)⟩

/-- A session that was closed while referenced is given to whoever asks for the empty
text. -/
theorem session_lookup_blanked :
    ∃ (w : World) (ts : List (Transition World Action)),
      Runs Step (World.init 1 3600 [] 0 64 0) w ts ∧ IsTime 64 0 ∧
        (ctxClientGetSession true [98] (some []) 0 w.store).1 = .ok 0 ∧
        (w.store.mem 0).map ClientCtx.uuid = some [] ∧
        ¬ ReturnsLive true [98] [] 0 w.store := by
  have hgen : Generates [97] (World.init 1 3600 [] 0 64 0).store :=
    ⟨by decide, by decide, by intro a c hc; cases hc⟩
  have hrun := (Runs.single (step_exec (.create true [97] none 3600) hgen)).snoc
    (step_exec (.close 0) rfl)
  refine ⟨_, _, hrun, by unfold IsTime; decide, rfl, rfl, ?_⟩
  intro h
  obtain ⟨c, -, hopen, -, hu⟩ := h 0 false _ rfl
  exact hopen hu

end AfbBinder.Session
