import AfbBinder.Session.Store

/-!
# What the operations of the store do

`Wf` is the invariant of the store itself.  Each operation has one equation for
the memory of contexts it leaves and one lemma that says it keeps `Wf`; the later
modules use these and never unfold an operation.
-/

namespace AfbBinder.Session

open Lib

structure Wf (s : Store) : Prop where
  count : s.count = Slots.occupied s.slots
  unallocated : ∀ a, s.next ≤ a → s.mem a = none
  stored : ∀ a, s.slots.count (some a) = if (s.mem a).isSome then 1 else 0
  uuids : ∀ a b c c', s.mem a = some c → s.mem b = some c' → c.uuid = c'.uuid → c.uuid ≠ [] →
    a = b

/-- The parts of the store that no operation changes. -/
structure SameConfig (s s' : Store) : Prop where
  length : s'.slots.length = s.slots.length
  timeout : s'.timeout = s.timeout
  apicount : s'.apicount = s.apicount
  initok : s'.initok = s.initok
  timeBits : s'.timeBits = s.timeBits

theorem SameConfig.refl (s : Store) : SameConfig s s := ⟨rfl, rfl, rfl, rfl, rfl⟩

theorem SameConfig.trans {s s' s'' : Store} (h : SameConfig s s') (h' : SameConfig s' s'') :
    SameConfig s s'' :=
  ⟨h'.length.trans h.length, h'.timeout.trans h.timeout, h'.apicount.trans h.apicount,
    h'.initok.trans h.initok, h'.timeBits.trans h.timeBits⟩

theorem wf_ctxStoreInit (maxSessionCount : Nat) (timeout : Int) (initok : Bytes)
    (contextCount timeBits : Nat) :
    Wf (ctxStoreInit maxSessionCount timeout initok contextCount timeBits) where
  count := by simp [ctxStoreInit, Slots.occupied, List.countP_replicate]
  unallocated := fun _ _ => rfl
  stored := by simp [ctxStoreInit, List.count_replicate]
  uuids := by simp [ctxStoreInit]

/-! ## Writing and deleting a context -/

section Put

variable {s : Store} {client : Nat} {c : ClientCtx}

theorem lt_next_of_mem (hs : Wf s) (hc : s.mem client = some c) : client < s.next := by
  by_contra hlt
  rw [hs.unallocated client (by omega)] at hc
  cases hc

theorem mem_slots_of_mem (hs : Wf s) (hc : s.mem client = some c) : some client ∈ s.slots := by
  have h := hs.stored client
  rw [hc] at h
  exact List.count_pos_iff.mp (by simp [h])

@[simp] theorem put_mem (s : Store) (client : Nat) (c : ClientCtx) :
    (s.put client c).mem = Function.update s.mem client (some c) := rfl

theorem ctxClientAddRef_mem {s : Store} {client : Nat} {c : ClientCtx} (hc : s.mem client = some c) :
    (ctxClientAddRef client s).mem client = some { c with refcount := c.refcount + 1 } := by
  simp [ctxClientAddRef, hc]

theorem wf_put (hs : Wf s) (hc : s.mem client = some c) {c' : ClientCtx}
    (huuid : c'.uuid = c.uuid ∨ c'.uuid = []) : Wf (s.put client c') where
  count := hs.count
  unallocated := by
    intro a ha
    have hne : a ≠ client := by
      have := lt_next_of_mem hs hc
      have : s.next ≤ a := ha
      omega
    rw [put_mem, Function.update_of_ne hne]
    exact hs.unallocated a ha
  stored := by
    intro a
    by_cases ha : a = client
    · subst ha
      have h := hs.stored a
      rw [hc] at h
      rw [put_mem, Function.update_self]
      exact h
    · rw [put_mem, Function.update_of_ne ha]
      exact hs.stored a
  uuids := by
    -- the new text is an old one or is empty, so no equality of texts is new
    intro a b x y hx hy hxy hne
    rw [put_mem, Function.update_apply] at hx hy
    split at hx <;> split at hy
    · simp_all
    · rename_i ha hb
      cases hx
      rcases huuid with hu | hu
      · rw [ha]
        exact hs.uuids client b c y hc hy (hu ▸ hxy) (hu ▸ hne)
      · exact absurd hu hne
    · rename_i ha hb
      cases hy
      rcases huuid with hu | hu
      · rw [hb]
        exact hs.uuids a client x c hx hc (hxy.trans hu) hne
      · exact absurd (hxy.trans hu) hne
    · exact hs.uuids a b x y hx hy hxy hne

theorem ctxDelete_mem (s : Store) (client : Nat) :
    (ctxDelete client s).mem = Function.update s.mem client none := by
  unfold ctxDelete ctxStoreDel
  split <;> rfl

theorem ctxDelete_next (s : Store) (client : Nat) : (ctxDelete client s).next = s.next := by
  unfold ctxDelete ctxStoreDel
  split <;> rfl

theorem sameConfig_ctxDelete (s : Store) (client : Nat) : SameConfig s (ctxDelete client s) := by
  unfold ctxDelete ctxStoreDel
  split
  · rename_i slots hslots
    exact ⟨Slots.length_clear hslots, rfl, rfl, rfl, rfl⟩
  · exact ⟨rfl, rfl, rfl, rfl, rfl⟩

theorem ctxDelete_slots (hs : Wf s) (hc : s.mem client = some c) :
    Slots.clear client s.slots = some (ctxDelete client s).slots ∧
      (ctxDelete client s).count = s.count - 1 := by
  obtain ⟨slots, hslots⟩ := Slots.clear_of_mem (mem_slots_of_mem hs hc)
  simp [ctxDelete, ctxStoreDel, hslots]

theorem wf_ctxDelete (hs : Wf s) (hc : s.mem client = some c) : Wf (ctxDelete client s) := by
  obtain ⟨hslots, hcount⟩ := ctxDelete_slots hs hc
  refine ⟨?_, ?_, ?_, ?_⟩
  · have hocc := Slots.occupied_clear hslots
    have := hs.count
    rw [hcount]
    omega
  · intro a ha
    rw [ctxDelete_next] at ha
    rw [ctxDelete_mem, Function.update_apply]
    split
    · rfl
    · exact hs.unallocated a ha
  · intro a
    have hold := hs.stored a
    have hclear := Slots.count_clear hslots a
    rw [ctxDelete_mem, Function.update_apply]
    by_cases ha : a = client
    · subst ha
      simp only [hc, Option.isSome_some, if_true] at hold hclear
      simp only [if_true, Option.isSome_none, Bool.false_eq_true, if_false]
      omega
    · simp only [ha, Ne.symm ha, if_false, Nat.add_zero] at hclear ⊢
      rw [← hclear]
      exact hold
  · intro a b x y hx hy
    rw [ctxDelete_mem, Function.update_apply] at hx hy
    split at hx
    · cases hx
    · split at hy
      · cases hy
      · exact hs.uuids a b x y hx hy

end Put

/-! ## Closing -/

theorem clearValues_frame (indices : List Nat) (c : ClientCtx) :
    ∃ values, (clearValues indices c).1 = { c with values := values } := by
  induction indices generalizing c with
  | nil => exact ⟨c.values, rfl⟩
  | cons index rest ih =>
      have hset : ∃ values, (ctxClientValueSet index none none c).1 = { c with values := values } := by
        unfold ctxClientValueSet
        split
        · exact ⟨_, rfl⟩
        · exact ⟨c.values, rfl⟩
      obtain ⟨values, hv⟩ := hset
      obtain ⟨values', hv'⟩ := ih (ctxClientValueSet index none none c).1
      refine ⟨values', ?_⟩
      simp only [clearValues]
      rw [hv', hv]

/-- The context as `ctxClientClose` leaves it when it stays allocated. -/
def closedCtx (apicount : Nat) (c : ClientCtx) : ClientCtx :=
  (ctxUuidFreeCB apicount { c with uuid := [] }).1

theorem closedCtx_frame (apicount : Nat) (c : ClientCtx) :
    ∃ values, closedCtx apicount c = { c with uuid := [], values := values, cookies := [] } := by
  obtain ⟨values, hv⟩ := clearValues_frame (List.range apicount) { c with uuid := [] }
  refine ⟨values, ?_⟩
  simp only [closedCtx, ctxUuidFreeCB]
  rw [hv]

@[simp] theorem closedCtx_uuid (apicount : Nat) (c : ClientCtx) :
    (closedCtx apicount c).uuid = [] := by
  obtain ⟨values, hv⟩ := closedCtx_frame apicount c
  rw [hv]

@[simp] theorem closedCtx_refcount (apicount : Nat) (c : ClientCtx) :
    (closedCtx apicount c).refcount = c.refcount := by
  obtain ⟨values, hv⟩ := closedCtx_frame apicount c
  rw [hv]

theorem ctxClientUnref_last {s : Store} {client : Nat} {c : ClientCtx}
    (hc : s.mem client = some c) (hlast : c.refcount - 1 = 0 ∧ c.uuid = []) :
    ctxClientUnref client s =
      ctxDelete client (s.put client { c with refcount := c.refcount - 1 }) := by
  simp [ctxClientUnref, hc, hlast]

theorem ctxClientUnref_last_mem {s : Store} {client : Nat} {c : ClientCtx}
    (hc : s.mem client = some c) (hlast : c.refcount - 1 = 0 ∧ c.uuid = []) :
    (ctxClientUnref client s).mem = Function.update s.mem client none := by
  rw [ctxClientUnref_last hc hlast, ctxDelete_mem, put_mem, Function.update_idem]

theorem ctxClientUnref_kept {s : Store} {client : Nat} {c : ClientCtx}
    (hc : s.mem client = some c) (hlast : ¬ (c.refcount - 1 = 0 ∧ c.uuid = [])) :
    ctxClientUnref client s = s.put client { c with refcount := c.refcount - 1 } := by
  simp [ctxClientUnref, hc, hlast]

theorem ctxClientClose_closed {s : Store} {client : Nat} {c : ClientCtx}
    (hc : s.mem client = some c) (hu : c.uuid = []) : ctxClientClose client s = s := by
  simp [ctxClientClose, hc, hu]

/-- Closing an open context keeps it exactly when it is referenced. -/
theorem ctxClientClose_mem {s : Store} {client : Nat} {c : ClientCtx}
    (hc : s.mem client = some c) (hu : c.uuid ≠ []) :
    (ctxClientClose client s).mem =
      Function.update s.mem client
        (if c.refcount = 0 then none else some (closedCtx s.apicount c)) := by
  by_cases hr : c.refcount = 0
  · simp only [ctxClientClose, hc, hu, hr, if_false, if_true, ctxDelete_mem, put_mem,
      Function.update_idem]
  · simp [ctxClientClose, hc, hu, hr, closedCtx]

theorem wf_ctxClientClose {s : Store} (hs : Wf s) (client : Nat) :
    Wf (ctxClientClose client s) := by
  cases hc : s.mem client with
  | none => simpa [ctxClientClose, hc] using hs
  | some c =>
      by_cases hu : c.uuid = []
      · rw [ctxClientClose_closed hc hu]
        exact hs
      · have hput : Wf (s.put client (closedCtx s.apicount c)) :=
          wf_put hs hc (Or.inr (closedCtx_uuid _ _))
        have hlog : Wf { s.put client (closedCtx s.apicount c) with
            released := s.released ++ (ctxUuidFreeCB s.apicount { c with uuid := [] }).2 } :=
          ⟨hput.count, hput.unallocated, hput.stored, hput.uuids⟩
        simp only [ctxClientClose, hc, hu, if_false]
        split
        · exact wf_ctxDelete hlog (Function.update_self ..)
        · exact hlog

theorem sameConfig_ctxClientClose (s : Store) (client : Nat) :
    SameConfig s (ctxClientClose client s) := by
  unfold ctxClientClose
  split
  · exact SameConfig.refl s
  · split
    · exact SameConfig.refl s
    · dsimp only
      split
      · obtain ⟨h₁, h₂, h₃, h₄, h₅⟩ := sameConfig_ctxDelete
          { s.put client _ with released := s.released ++ _ } client
        exact ⟨h₁, h₂, h₃, h₄, h₅⟩
      · exact ⟨rfl, rfl, rfl, rfl, rfl⟩

theorem ctxClientClose_next (s : Store) (client : Nat) :
    (ctxClientClose client s).next = s.next := by
  unfold ctxClientClose
  split
  · rfl
  · split
    · rfl
    · dsimp only
      split
      · rw [ctxDelete_next]; rfl
      · rfl

theorem ctxClientClose_slots {s : Store} (hs : Wf s) {client a : Nat} (hne : client ≠ a)
    (i : Nat) :
    (ctxClientClose client s).slots[i]? = some (some a) ↔ s.slots[i]? = some (some a) := by
  cases hc : s.mem client with
  | none => simp [ctxClientClose, hc]
  | some c =>
      by_cases hu : c.uuid = []
      · rw [ctxClientClose_closed hc hu]
      · by_cases hr : c.refcount = 0
        · obtain ⟨slots, hslots⟩ := Slots.clear_of_mem (mem_slots_of_mem hs hc)
          have heq : (ctxClientClose client s).slots = slots := by
            simp [ctxClientClose, hc, hu, hr, ctxDelete, ctxStoreDel, Store.put, hslots]
          rw [heq]
          exact Slots.getElem?_clear hslots hne i
        · simp [ctxClientClose, hc, hu, hr, Store.put]

/-! ## The expiry clean-up -/

/-- What the clean-up at time `now` makes of a context. -/
def expireCtx (apicount : Nat) (now : Int) (c : ClientCtx) : Option ClientCtx :=
  if c.uuid ≠ [] ∧ c.expiration < now then
    if c.refcount = 0 then none else some (closedCtx apicount c)
  else some c

theorem expireCtx_idem (apicount : Nat) (now : Int) (m : Option ClientCtx) :
    (m.bind (expireCtx apicount now)).bind (expireCtx apicount now) =
      m.bind (expireCtx apicount now) := by
  cases m with
  | none => rfl
  | some c =>
      simp only [Option.bind_some]
      unfold expireCtx
      split
      · split
        · rfl
        · simp [closedCtx_uuid]
      · rename_i h
        simp [h]

theorem cleanUpSlot_mem {s : Store} (now : Int) (idx a : Nat) :
    (cleanUpSlot now s idx).mem a =
      if s.slots[idx]? = some (some a) then (s.mem a).bind (expireCtx s.apicount now)
      else s.mem a := by
  unfold cleanUpSlot
  split
  · rename_i client hidx
    simp only [hidx, Option.some.injEq]
    cases hc : s.mem client with
    | none =>
        dsimp only
        split
        · rename_i he
          simp [← he, hc]
        · rfl
    | some c =>
        dsimp only
        by_cases hold : ctxStoreTooOld c now = true
        · have hexp : c.expiration < now := by simpa [ctxStoreTooOld] using hold
          rw [if_pos hold]
          by_cases hu : c.uuid = []
          · rw [ctxClientClose_closed hc hu]
            split
            · rename_i he
              simp [← he, hc, expireCtx, hu]
            · rfl
          · rw [ctxClientClose_mem hc hu, Function.update_apply]
            by_cases he : a = client
            · subst he
              simp [hc, expireCtx, hu, hexp]
            · simp [he, Ne.symm he]
        · have hexp : ¬ c.expiration < now := by simpa [ctxStoreTooOld] using hold
          rw [if_neg hold]
          split
          · rename_i he
            simp [← he, hc, expireCtx, hexp]
          · rfl
  · rename_i hidx
    split
    · rename_i he
      exact absurd he (hidx a)
    · rfl

theorem wf_cleanUpSlot {s : Store} (hs : Wf s) (now : Int) (idx : Nat) :
    Wf (cleanUpSlot now s idx) := by
  unfold cleanUpSlot
  split
  · split
    · split
      · exact wf_ctxClientClose hs _
      · exact hs
    · exact hs
  · exact hs

theorem sameConfig_cleanUpSlot (s : Store) (now : Int) (idx : Nat) :
    SameConfig s (cleanUpSlot now s idx) ∧ (cleanUpSlot now s idx).next = s.next := by
  unfold cleanUpSlot
  split
  · split
    · split
      · exact ⟨sameConfig_ctxClientClose s _, ctxClientClose_next s _⟩
      · exact ⟨SameConfig.refl s, rfl⟩
    · exact ⟨SameConfig.refl s, rfl⟩
  · exact ⟨SameConfig.refl s, rfl⟩

theorem cleanUpSlot_slots {s : Store} (hs : Wf s) (now : Int) {idx a : Nat}
    (hne : s.slots[idx]? ≠ some (some a)) (i : Nat) :
    (cleanUpSlot now s idx).slots[i]? = some (some a) ↔ s.slots[i]? = some (some a) := by
  unfold cleanUpSlot
  split
  · rename_i client hidx
    have hne' : client ≠ a := by
      rintro rfl
      exact hne hidx
    split
    · split
      · exact ctxClientClose_slots hs hne' i
      · rfl
    · rfl
  · rfl

/-- The loop of the clean-up over any list of indices: the contexts met are expired,
the other ones are untouched. -/
theorem cleanUp_indices (now : Int) (indices : List Nat) {s : Store} (hs : Wf s) :
    Wf (indices.foldl (cleanUpSlot now) s) ∧
      SameConfig s (indices.foldl (cleanUpSlot now) s) ∧
      (indices.foldl (cleanUpSlot now) s).next = s.next ∧
      ∀ a, ((∃ idx ∈ indices, s.slots[idx]? = some (some a)) →
          (indices.foldl (cleanUpSlot now) s).mem a =
            (s.mem a).bind (expireCtx s.apicount now)) ∧
        ((∀ idx ∈ indices, s.slots[idx]? ≠ some (some a)) →
          (indices.foldl (cleanUpSlot now) s).mem a = s.mem a) := by
  induction indices generalizing s with
  | nil => exact ⟨hs, SameConfig.refl s, rfl, fun a => ⟨by simp, fun _ => rfl⟩⟩
  | cons idx rest ih =>
      obtain ⟨hconf, hnext⟩ := sameConfig_cleanUpSlot s now idx
      obtain ⟨hwf, hconf', hnext', hmem⟩ := ih (wf_cleanUpSlot hs now idx)
      refine ⟨hwf, hconf.trans hconf', hnext'.trans hnext, fun a => ?_⟩
      obtain ⟨hmet, hunmet⟩ := hmem a
      rw [hconf.apicount] at hmet
      have hhead := cleanUpSlot_mem (s := s) now idx a
      by_cases hidx : s.slots[idx]? = some (some a)
      · -- met by this turn; a second meeting would change nothing
        rw [if_pos hidx] at hhead
        have hdone : (rest.foldl (cleanUpSlot now) (cleanUpSlot now s idx)).mem a =
            (s.mem a).bind (expireCtx s.apicount now) := by
          by_cases hagain : ∃ i ∈ rest, (cleanUpSlot now s idx).slots[i]? = some (some a)
          · rw [hmet hagain, hhead, expireCtx_idem]
          · rw [hunmet (fun i hi he => hagain ⟨i, hi, he⟩), hhead]
        exact ⟨fun _ => hdone, fun h => absurd hidx (h idx (by simp))⟩
      · rw [if_neg hidx] at hhead
        have hslots := cleanUpSlot_slots hs now hidx
        constructor
        · rintro ⟨i, hi, he⟩
          have hrest : i ∈ rest := by
            rcases List.mem_cons.mp hi with rfl | hi
            · exact absurd he hidx
            · exact hi
          rw [List.foldl_cons, hmet ⟨i, hrest, (hslots i).mpr he⟩, hhead]
        · intro h
          rw [List.foldl_cons, hunmet (fun i hi he =>
            h i (by simp [hi]) ((hslots i).mp he)), hhead]

/-- The clean-up expires every allocated context and keeps the store well formed. -/
theorem ctxStoreCleanUp_spec (now : Int) {s : Store} (hs : Wf s) :
    Wf (ctxStoreCleanUp now s) ∧ SameConfig s (ctxStoreCleanUp now s) ∧
      (ctxStoreCleanUp now s).next = s.next ∧
      ∀ a, (ctxStoreCleanUp now s).mem a = (s.mem a).bind (expireCtx s.apicount now) := by
  obtain ⟨hwf, hconf, hnext, hmem⟩ := cleanUp_indices now (List.range s.slots.length) hs
  refine ⟨hwf, hconf, hnext, fun a => ?_⟩
  cases hc : s.mem a with
  | some c =>
      obtain ⟨idx, hidx⟩ := List.getElem?_of_mem (mem_slots_of_mem hs hc)
      have hlt := (List.getElem?_eq_some_iff.mp hidx).1
      have h := (hmem a).1 ⟨idx, by simpa using hlt, hidx⟩
      rwa [hc] at h
  | none =>
      by_cases hmet : ∃ idx ∈ List.range s.slots.length, s.slots[idx]? = some (some a)
      · have h := (hmem a).1 hmet
        rwa [hc] at h
      · have h := (hmem a).2 (fun idx hi he => hmet ⟨idx, hi, he⟩)
        rwa [hc] at h

/-! ## Searching and creating -/

theorem ctxStoreSearch_some {s : Store} {uuid : Bytes} {client : Nat}
    (h : ctxStoreSearch uuid s = some client) :
    ∃ c, s.mem client = some c ∧ c.uuid = uuid := by
  obtain ⟨slot, -, hslot⟩ := List.exists_of_findSome?_eq_some h
  unfold slotMatches at hslot
  split at hslot
  · cases hslot
  · rename_i found
    split at hslot
    · cases hslot
    · rename_i c hc
      split at hslot
      · rename_i hu
        cases hslot
        exact ⟨c, hc, hu⟩
      · cases hslot

theorem ctxStoreSearch_none {s : Store} (hs : Wf s) {uuid : Bytes}
    (h : ctxStoreSearch uuid s = none) {client : Nat} {c : ClientCtx}
    (hc : s.mem client = some c) : c.uuid ≠ uuid := by
  intro hu
  have hnone := List.findSome?_eq_none_iff.mp h (some client) (mem_slots_of_mem hs hc)
  simp [slotMatches, hc, hu] at hnone

theorem newContext_cases (allocated : Bool) (generated : Bytes) (uuid : Option Bytes)
    (timeout now : Int) (s : Store) :
    (∃ e, newContext allocated generated uuid timeout now s = (.error e, s)) ∨
      ∃ slots, Slots.fill s.next s.slots = some slots ∧ uuidTooLong uuid = false ∧
        newContext allocated generated uuid timeout now s =
          (.ok s.next,
            { s.put s.next (freshCtx generated uuid timeout now s) with
              next := s.next + 1, slots := slots, count := s.count + 1 }) := by
  by_cases ha : allocated = true
  · by_cases hl : uuidTooLong uuid = true
    · exact Or.inl ⟨.EINVAL, by simp [newContext, ha, hl]⟩
    · cases hf : Slots.fill s.next s.slots with
      | none => exact Or.inl ⟨.ENOMEM, by simp [newContext, ha, hl, ctxStoreAdd, hf]⟩
      | some slots =>
          exact Or.inr ⟨slots, rfl, by simpa using hl,
            by simp [newContext, ha, hl, ctxStoreAdd, hf, Store.put]⟩
  · exact Or.inl ⟨.ENOMEM, by simp [newContext, ha]⟩

/-- The new context takes an empty slot; its text must be unused. -/
theorem wf_newContext {s : Store} (hs : Wf s) {slots : List (Option Nat)}
    (hfill : Slots.fill s.next s.slots = some slots) {c : ClientCtx}
    (hfresh : ∀ a c', s.mem a = some c' → c'.uuid = c.uuid → c.uuid = []) :
    Wf { s.put s.next c with next := s.next + 1, slots := slots, count := s.count + 1 } where
  count := by
    have := hs.count
    have := Slots.occupied_fill hfill
    simp only
    omega
  unallocated := by
    intro a ha
    have ha' : s.next + 1 ≤ a := ha
    have hne : a ≠ s.next := by omega
    rw [put_mem, Function.update_of_ne hne]
    exact hs.unallocated a (by omega)
  stored := by
    intro a
    have hold := hs.stored a
    have hcount := Slots.count_fill hfill a
    simp only [put_mem, Function.update_apply]
    by_cases ha : a = s.next
    · subst ha
      rw [hs.unallocated s.next (Nat.le_refl _)] at hold
      simp only [Option.isSome_none, Bool.false_eq_true, if_false, if_true] at hold hcount
      simp only [if_true, Option.isSome_some]
      omega
    · simp only [Ne.symm ha, if_false, Nat.add_zero] at hcount
      rw [if_neg ha, hcount]
      exact hold
  uuids := by
    intro a b x y hx hy hxy hne
    rw [put_mem, Function.update_apply] at hx hy
    split at hx <;> split at hy
    · simp_all
    · cases hx
      exact absurd (hfresh b y hy hxy.symm) hne
    · cases hy
      exact absurd (hxy ▸ hfresh a x hx hxy) hne
    · exact hs.uuids a b x y hx hy hxy hne

/-- The session takes an empty slot of the store, and nothing else moves. -/
def TakesSlot (s : Store) (client : Nat) (s' : Store) : Prop :=
  ∃ front back, s.slots = front ++ none :: back ∧ s'.slots = front ++ some client :: back ∧
    s.mem client = none ∧ (s'.mem client).isSome = true

theorem newContext_takesSlot {allocated : Bool} {generated : Bytes} {uuid : Option Bytes}
    {timeout now : Int} {s s' : Store} {client : Nat} (hs : Wf s)
    (h : newContext allocated generated uuid timeout now s = (.ok client, s')) :
    TakesSlot s client s' := by
  rcases newContext_cases allocated generated uuid timeout now s with
    ⟨e, he⟩ | ⟨slots, hfill, -, hok⟩
  · rw [he] at h
    cases (Prod.mk.inj h).1
  · rw [hok] at h
    cases h
    obtain ⟨front, back, hslots, rfl⟩ := Slots.fill_some hfill
    refine ⟨front, back, hslots, rfl, hs.unallocated _ (Nat.le_refl _), ?_⟩
    rw [put_mem, Function.update_self]
    rfl

theorem ctxClientCreate_takesSlot {allocated : Bool} {generated : Bytes} {uuid : Option Bytes}
    {timeout now : Int} {s s' : Store} {client : Nat} (hs : Wf (ctxStoreCleanUp now s))
    (h : ctxClientCreate allocated generated uuid timeout now s = (.ok client, s')) :
    TakesSlot (ctxStoreCleanUp now s) client s' := by
  unfold ctxClientCreate at h
  dsimp only at h
  split at h
  · cases (Prod.mk.inj h).1
  · exact newContext_takesSlot hs h

theorem ctxClientGetSession_takesSlot {allocated : Bool} {generated : Bytes}
    {uuid : Option Bytes} {now : Int} {s s' : Store} {client : Nat}
    (hs : Wf (ctxStoreCleanUp now s))
    (h : ctxClientGetSession allocated generated uuid now s = (.ok client, true, s')) :
    TakesSlot (ctxStoreCleanUp now s) client s' := by
  unfold ctxClientGetSession at h
  dsimp only at h
  split at h
  · split at h <;> cases (Prod.mk.inj (Prod.mk.inj h).2).1
  · simp only [Prod.mk.injEq, true_and] at h
    exact newContext_takesSlot hs (Prod.ext h.1 h.2)

/-- A failed creation leaves the store as the clean-up left it. -/
theorem ctxClientCreate_error {allocated : Bool} {generated : Bytes} {uuid : Option Bytes}
    {timeout now : Int} {s s' : Store} {e : Errno}
    (h : ctxClientCreate allocated generated uuid timeout now s = (.error e, s')) :
    s' = ctxStoreCleanUp now s := by
  unfold ctxClientCreate at h
  dsimp only at h
  split at h
  · exact (Prod.mk.inj h).2.symm
  · rcases newContext_cases allocated generated uuid timeout now (ctxStoreCleanUp now s) with
      ⟨e', he⟩ | ⟨slots, -, -, hok⟩
    · rw [he] at h
      exact (Prod.mk.inj h).2.symm
    · rw [hok] at h
      cases (Prod.mk.inj h).1

theorem ctxClientGetSession_error {allocated : Bool} {generated : Bytes} {uuid : Option Bytes}
    {now : Int} {s s' : Store} {e : Errno} {created : Bool}
    (h : ctxClientGetSession allocated generated uuid now s = (.error e, created, s')) :
    s' = ctxStoreCleanUp now s := by
  unfold ctxClientGetSession at h
  dsimp only at h
  split at h
  · split at h <;> cases (Prod.mk.inj h).1
  · simp only [Prod.mk.injEq] at h
    rcases newContext_cases allocated generated uuid (ctxStoreCleanUp now s).timeout now
      (ctxStoreCleanUp now s) with ⟨e', he⟩ | ⟨slots, -, -, hok⟩
    · rw [he] at h
      exact h.2.2.symm
    · rw [hok] at h
      cases h.1

end AfbBinder.Session
