import AfbBinder.Session.Contents
import AfbBinder.Session.Lifetime
import Mathlib.Data.List.Nodup

/-!
# The release of the stored values

A value that is stored with a free function is owned by its session until the function
is called on it.  `calls` lists the calls of one action, each with the store as it is when
the call is made; their releases are those that the store logs.
-/

namespace AfbBinder.Session

open Lib

/-! ## The calls of the free functions -/

/-- A call of a free function and what its caller has made of `σ` by then. -/
abbrev Call (σ : Type) := Release × σ

/-- The calls of the loop of `ctxUuidFreeCB` over the value slots. -/
def clearCalls : List Nat → ClientCtx → List (Call ClientCtx)
  | [], _ => []
  | index :: rest, c =>
      let set := ctxClientValueSet index none none c
      set.2.map (fun r => (r, set.1)) ++ clearCalls rest set.1

/-- The calls of its loop over the cookies, each unlinked before the call. -/
def cookieCalls (c : ClientCtx) : List Cookie → List (Call ClientCtx)
  | [] => []
  | cookie :: rest =>
      cookie.release.map (fun r => (r, { c with cookies := rest })) ++ cookieCalls c rest

def ctxClientCloseCalls (client : Nat) (s : Store) : List (Call Store) :=
  match s.mem client with
  | none => []
  | some c =>
      if c.uuid = [] then []
      else
        let blank := { c with uuid := [] }
        let cleared := (clearValues (List.range s.apicount) blank).1
        (clearCalls (List.range s.apicount) blank ++ cookieCalls cleared cleared.cookies).map
          fun call => (call.1, s.put client call.2)

def cleanUpSlotCalls (now : Int) (s : Store) (idx : Nat) : List (Call Store) :=
  match s.slots[idx]? with
  | some (some client) =>
      match s.mem client with
      | some c => if ctxStoreTooOld c now then ctxClientCloseCalls client s else []
      | none => []
  | _ => []

def cleanUpCalls (now : Int) : List Nat → Store → List (Call Store)
  | [], _ => []
  | idx :: rest, s => cleanUpSlotCalls now s idx ++ cleanUpCalls now rest (cleanUpSlot now s idx)

/-- The slot of a value is overwritten before the call, the cookie after it. -/
def calls (w : World) : Action → List (Call Store)
  | .create _ _ _ _ => cleanUpCalls w.now (List.range w.store.slots.length) w.store
  | .getSession _ _ _ => cleanUpCalls w.now (List.range w.store.slots.length) w.store
  | .close client => ctxClientCloseCalls client w.store
  | .valueSet client index value freeValue =>
      match w.store.mem client with
      | none => []
      | some c =>
          (ctxClientValueSet index value freeValue c).2.map fun r =>
            (r, w.store.put client (ctxClientValueSet index value freeValue c).1)
  | .cookieSet client allocated key value freeValue =>
      match w.store.mem client with
      | none => []
      | some c =>
          (ctxClientCookieSet allocated key value freeValue c).2.map fun r => (r, w.store)
  | _ => []

theorem clearCalls_releases (indices : List Nat) (c : ClientCtx) :
    (clearCalls indices c).map Prod.fst = (clearValues indices c).2 := by
  induction indices generalizing c with
  | nil => rfl
  | cons index rest ih => simp [clearCalls, clearValues, ih, Function.comp_def]

theorem cookieCalls_releases (c : ClientCtx) (cookies : List Cookie) :
    (cookieCalls c cookies).map Prod.fst = cookies.flatMap Cookie.release := by
  induction cookies with
  | nil => rfl
  | cons cookie rest ih => simp [cookieCalls, ih, Function.comp_def]

theorem ctxDelete_released (client : Nat) (s : Store) :
    (ctxDelete client s).released = s.released := by
  unfold ctxDelete ctxStoreDel
  split <;> rfl

theorem ctxClientCloseCalls_open {client : Nat} {s : Store} {c : ClientCtx}
    (hc : s.mem client = some c) (hu : c.uuid ≠ []) :
    (ctxClientCloseCalls client s).map Prod.fst =
      (ctxUuidFreeCB s.apicount { c with uuid := [] }).2 := by
  simp only [ctxClientCloseCalls, hc, hu, if_false, List.map_map]
  show List.map Prod.fst (_ ++ _) = _
  rw [List.map_append, clearCalls_releases, cookieCalls_releases]
  rfl

theorem ctxClientClose_released (client : Nat) (s : Store) :
    (ctxClientClose client s).released =
      s.released ++ (ctxClientCloseCalls client s).map Prod.fst := by
  cases hc : s.mem client with
  | none => simp [ctxClientClose, ctxClientCloseCalls, hc]
  | some c =>
      by_cases hu : c.uuid = []
      · simp [ctxClientClose, ctxClientCloseCalls, hc, hu]
      · rw [ctxClientCloseCalls_open hc hu]
        simp only [ctxClientClose, hc, hu, if_false]
        split
        · rw [ctxDelete_released]
        · rfl

theorem cleanUpSlot_released (now : Int) (s : Store) (idx : Nat) :
    (cleanUpSlot now s idx).released = s.released ++ (cleanUpSlotCalls now s idx).map Prod.fst := by
  cases hslot : s.slots[idx]? with
  | none => simp [cleanUpSlot, cleanUpSlotCalls, hslot]
  | some slot =>
      cases slot with
      | none => simp [cleanUpSlot, cleanUpSlotCalls, hslot]
      | some client =>
          cases hc : s.mem client with
          | none => simp [cleanUpSlot, cleanUpSlotCalls, hslot, hc]
          | some c =>
              simp only [cleanUpSlot, cleanUpSlotCalls, hslot, hc]
              split
              · exact ctxClientClose_released client s
              · simp

theorem cleanUp_released (now : Int) (indices : List Nat) (s : Store) :
    (indices.foldl (cleanUpSlot now) s).released =
      s.released ++ (cleanUpCalls now indices s).map Prod.fst := by
  induction indices generalizing s with
  | nil => simp [cleanUpCalls]
  | cons idx rest ih =>
      rw [List.foldl_cons, ih, cleanUpSlot_released, cleanUpCalls, List.map_append,
        List.append_assoc]

theorem newContext_released (allocated : Bool) (generated : Bytes) (uuid : Option Bytes)
    (timeout now : Int) (s : Store) :
    (newContext allocated generated uuid timeout now s).2.released = s.released := by
  rcases newContext_cases allocated generated uuid timeout now s with ⟨e, he⟩ |
    ⟨slots, -, -, hok⟩
  · rw [he]
  · rw [hok]
    rfl

theorem exec_released (w : World) (act : Action) :
    (exec w act).store.released = w.store.released ++ (calls w act).map Prod.fst := by
  have hclean : (ctxStoreCleanUp w.now w.store).released = w.store.released ++
      (cleanUpCalls w.now (List.range w.store.slots.length) w.store).map Prod.fst :=
    cleanUp_released w.now _ w.store
  cases act with
  | create allocated generated uuid timeout =>
      simp only [exec, ctxClientCreate, calls]
      split
      · exact hclean
      · rw [newContext_released, hclean]
  | getSession allocated generated uuid =>
      simp only [exec, ctxClientGetSession, calls]
      split
      · split
        · exact hclean
        · exact hclean
      · rw [newContext_released, hclean]
  | addRef client =>
      simp only [exec, ctxClientAddRef, calls]
      split <;> simp [Store.put]
  | unref client =>
      simp only [exec, ctxClientUnref, calls]
      split
      · simp
      · split
        · simp [ctxDelete_released, Store.put]
        · simp [Store.put]
  | close client => exact ctxClientClose_released client w.store
  | tokenNew client generated =>
      simp only [exec, Store.modify, calls]
      split <;> simp
  | setLOA client loa =>
      simp only [exec, Store.modify, calls]
      split <;> simp
  | valueSet client index value freeValue =>
      cases hc : w.store.mem client with
      | none => simp [exec, Store.modify, calls, hc]
      | some c => simp [exec, Store.modify, calls, hc, Function.comp_def]
  | cookieSet client allocated key value freeValue =>
      cases hc : w.store.mem client with
      | none => simp [exec, Store.modify, calls, hc]
      | some c => simp [exec, Store.modify, calls, hc, Function.comp_def]
  | advance delay => simp [exec, calls]

/-! ## Closing and cleaning up -/

/-- A value that the context owns at its place is still there, or was released. -/
def Accounted (s : Store) (client : Nat) (place : Place) (f v : Nat) : Prop :=
  (∃ c, s.mem client = some c ∧ c.entry place = some ⟨some v, some f⟩) ∨
    (⟨f, v⟩ : Release) ∈ s.released

/-- No open session holds the value when its free function is called. -/
def NotStored (call : Call Store) : Prop :=
  ∀ a c, call.2.mem a = some c → c.uuid ≠ [] → call.1.value ∉ c.contents

theorem closedCtx_contents {apicount : Nat} {c : ClientCtx} (hlen : c.values.length = apicount) :
    (closedCtx apicount c).contents = [] ∧ (closedCtx apicount c).owned = [] ∧
      (closedCtx apicount c).values.length = apicount := by
  have hclosed : closedCtx apicount c =
      { c with uuid := [], values := List.replicate apicount ⟨none, none⟩, cookies := [] } := by
    rw [closedCtx, ctxUuidFreeCB_spec hlen]
  rw [hclosed]
  refine ⟨?_, ?_, by simp⟩
  · simp [ClientCtx.contents, ClientCtx.entries]
  · simp [ClientCtx.owned, ClientCtx.entries, List.flatMap_replicate, ClientValue.release]

theorem ctxClientClose_releases {s : Store} (hs : ValuesInv s) {client : Nat} {c : ClientCtx}
    (hc : s.mem client = some c) (hu : c.uuid ≠ []) :
    (ctxClientClose client s).released = s.released ++ c.owned := by
  rw [ctxClientClose_released, ctxClientCloseCalls_open hc hu,
    ctxUuidFreeCB_spec (hs.length client c hc)]

theorem valuesInv_ctxClientClose {s : Store} (hs : ValuesInv s) (client : Nat) :
    ValuesInv (ctxClientClose client s) := by
  cases hc : s.mem client with
  | none => simpa [ctxClientClose, hc] using hs
  | some c =>
      by_cases hu : c.uuid = []
      · rw [ctxClientClose_closed hc hu]
        exact hs
      · obtain ⟨hempty, hnothing, hlength⟩ := closedCtx_contents (hs.length client c hc)
        have hreleased := ctxClientClose_releases hs hc hu
        have hclosed : ValuesInv { s.put client (closedCtx s.apicount c) with
            released := s.released ++ c.owned } := by
          refine hs.put hc rfl rfl rfl (hlength.trans (hs.length client c hc).symm) ?_ ?_
            (fun _ => hnothing)
          · rw [hempty]
            exact (hs.nodup client c hc).sublist (owned_sublist c)
          · rw [hempty]
            exact fun v hv => Or.inl ((owned_sublist c).subset hv)
        refine hclosed.keep ?_ hreleased (sameConfig_ctxClientClose s client).apicount
        -- what is left allocated is the closed context and the others
        intro a x hx
        refine Or.inl ⟨x, ?_, rfl, rfl, rfl⟩
        rw [ctxClientClose_mem hc hu, Function.update_apply] at hx
        show Function.update s.mem client _ a = some x
        rw [Function.update_apply]
        split at hx
        · rename_i ha
          split at hx
          · cases hx
          · rw [if_pos ha]
            exact hx
        · rename_i ha
          rw [if_neg ha]
          exact hx

theorem ctxClientClose_accounted {s : Store} (hs : ValuesInv s) (client : Nat) {a : Nat}
    {place : Place} {f v : Nat} (h : Accounted s a place f v) :
    Accounted (ctxClientClose client s) a place f v := by
  cases hc : s.mem client with
  | none => simpa [ctxClientClose, hc] using h
  | some c =>
      by_cases hu : c.uuid = []
      · rw [ctxClientClose_closed hc hu]
        exact h
      · have hreleased := ctxClientClose_releases hs hc hu
        rcases h with ⟨x, hx, he⟩ | hr
        · by_cases ha : a = client
          · subst ha
            rw [hc] at hx
            cases hx
            exact Or.inr (by rw [hreleased]; exact List.mem_append_right _ (mem_owned he))
          · refine Or.inl ⟨x, ?_, he⟩
            rw [ctxClientClose_mem hc hu, Function.update_of_ne ha, hx]
        · exact Or.inr (by rw [hreleased]; exact List.mem_append_left _ hr)

theorem clearCalls_uuid {indices : List Nat} {c : ClientCtx} {call : Call ClientCtx}
    (h : call ∈ clearCalls indices c) : call.2.uuid = c.uuid := by
  induction indices generalizing c with
  | nil => simp [clearCalls] at h
  | cons index rest ih =>
      have hset := (ctxClientValueSet_frame index none none c).1
      rcases List.mem_append.mp h with h | h
      · obtain ⟨r, -, rfl⟩ := List.mem_map.mp h
        exact hset
      · exact (ih h).trans hset

theorem cookieCalls_uuid {c : ClientCtx} {cookies : List Cookie} {call : Call ClientCtx}
    (h : call ∈ cookieCalls c cookies) : call.2.uuid = c.uuid := by
  induction cookies with
  | nil => simp [cookieCalls] at h
  | cons cookie rest ih =>
      rcases List.mem_append.mp h with h | h
      · obtain ⟨r, -, rfl⟩ := List.mem_map.mp h
        rfl
      · exact ih h

theorem ctxClientCloseCalls_notStored {s : Store} (hs : ValuesInv s) {client : Nat}
    {call : Call Store} (h : call ∈ ctxClientCloseCalls client s) : NotStored call := by
  cases hc : s.mem client with
  | none => simp [ctxClientCloseCalls, hc] at h
  | some c =>
      by_cases hu : c.uuid = []
      · simp [ctxClientCloseCalls, hc, hu] at h
      · have hvalue : call.1.value ∈ c.contents := by
          have hmem := List.mem_map_of_mem (f := Prod.fst) h
          rw [ctxClientCloseCalls_open hc hu, ctxUuidFreeCB_spec (hs.length client c hc)] at hmem
          exact mem_contents_of_owned hmem
        simp only [ctxClientCloseCalls, hc, hu, if_false] at h
        obtain ⟨inner, hinner, rfl⟩ := List.mem_map.mp h
        have hblank : inner.2.uuid = [] := by
          rcases List.mem_append.mp hinner with hinner | hinner
          · exact clearCalls_uuid hinner
          · obtain ⟨values, hvalues⟩ := clearValues_frame (List.range s.apicount) { c with uuid := [] }
            rw [cookieCalls_uuid hinner, hvalues]
        intro a x hx hopen
        rw [put_mem, Function.update_apply] at hx
        split at hx
        · cases hx
          exact absurd hblank hopen
        · rename_i ha
          exact fun hin => ha (hs.apart a client x c _ hx hc hin hvalue)

/-- One turn of the clean-up, by what it keeps. -/
theorem cleanUpSlot_values {s : Store} (hs : ValuesInv s) (now : Int) (idx : Nat) :
    ValuesInv (cleanUpSlot now s idx) ∧
      (∀ a place f v, Accounted s a place f v → Accounted (cleanUpSlot now s idx) a place f v) ∧
      ∀ call ∈ cleanUpSlotCalls now s idx, NotStored call := by
  have hkept : ValuesInv s ∧ (∀ a place f v, Accounted s a place f v → Accounted s a place f v) ∧
      ∀ call ∈ ([] : List (Call Store)), NotStored call :=
    ⟨hs, fun _ _ _ _ h => h, by simp⟩
  cases hslot : s.slots[idx]? with
  | none => simpa only [cleanUpSlot, cleanUpSlotCalls, hslot] using hkept
  | some slot =>
      cases slot with
      | none => simpa only [cleanUpSlot, cleanUpSlotCalls, hslot] using hkept
      | some client =>
          cases hc : s.mem client with
          | none => simpa only [cleanUpSlot, cleanUpSlotCalls, hslot, hc] using hkept
          | some c =>
              simp only [cleanUpSlot, cleanUpSlotCalls, hslot, hc]
              split
              · exact ⟨valuesInv_ctxClientClose hs client,
                  fun _ _ _ _ h => ctxClientClose_accounted hs client h,
                  fun _ h => ctxClientCloseCalls_notStored hs h⟩
              · exact hkept

theorem cleanUp_values {s : Store} (hs : ValuesInv s) (now : Int) (indices : List Nat) :
    ValuesInv (indices.foldl (cleanUpSlot now) s) ∧
      (∀ a place f v, Accounted s a place f v →
        Accounted (indices.foldl (cleanUpSlot now) s) a place f v) ∧
      ∀ call ∈ cleanUpCalls now indices s, NotStored call := by
  induction indices generalizing s with
  | nil => exact ⟨hs, fun _ _ _ _ h => h, by simp [cleanUpCalls]⟩
  | cons idx rest ih =>
      obtain ⟨hinv, haccounted, hcalls⟩ := cleanUpSlot_values hs now idx
      obtain ⟨hinv', haccounted', hcalls'⟩ := ih hinv
      refine ⟨hinv', fun a place f v h => haccounted' a place f v (haccounted a place f v h), ?_⟩
      intro call h
      rcases List.mem_append.mp h with h | h
      · exact hcalls call h
      · exact hcalls' call h

/-! ## The actions that store -/

/-- What an action stores, where, and with which free function. -/
structure Storing where
  client : Nat
  allocated : Bool
  place : Place
  value : Option Nat
  freeValue : Option Nat

def Action.storing : Action → Option Storing
  | .valueSet client index value freeValue => some ⟨client, true, .value index, value, freeValue⟩
  | .cookieSet client allocated key value freeValue =>
      some ⟨client, allocated, .cookie key, value, freeValue⟩
  | _ => none

/-- A stored value is the one of that place already, or is used nowhere. -/
def Distinct (w : World) (act : Action) : Prop :=
  ∀ st v, act.storing = some st → st.value = some v →
    (∃ c, w.store.mem st.client = some c ∧ (c.previous st.place).value = some v) ∨
      Unused w.store v

/-- A value that has a free function is stored in an open session. -/
def StoresOpen (w : World) (act : Action) : Prop :=
  ∀ st, act.storing = some st → st.value ≠ none → st.freeValue ≠ none →
    ∃ c, w.store.mem st.client = some c ∧ c.uuid ≠ []

/-- A cookie of an open session is overwritten and its value has to be released. -/
def ReplacesCookie (w : World) : Action → Prop
  | .cookieSet client _ key value _ =>
      ∃ c v f, w.store.mem client = some c ∧ c.uuid ≠ [] ∧
        c.entry (.cookie key) = some ⟨some v, some f⟩ ∧ value ≠ some v
  | _ => False

/-- The action stores the value with the free function. -/
def StoresAt (w : World) (act : Action) (client : Nat) (place : Place) (v f : Nat) : Prop :=
  ∃ st c, act.storing = some st ∧ st.client = client ∧ st.place = place ∧ st.value = some v ∧
    st.freeValue = some f ∧ w.store.mem client = some c ∧ Accepts st.allocated place c

/-- The action puts the same value at the same place with another free function. -/
def Takes (act : Action) (client : Nat) (place : Place) (v f : Nat) : Prop :=
  ∃ st, act.storing = some st ∧ st.client = client ∧ st.place = place ∧ st.value = some v ∧
    st.freeValue ≠ some f

theorem exec_storing (w : World) {act : Action} {st : Storing} (h : act.storing = some st) :
    exec w act = { w with
      store := w.store.modify st.client
        (storeAt st.allocated st.place st.value st.freeValue) } := by
  cases act <;> simp only [Action.storing, reduceCtorEq, Option.some.injEq] at h
  · subst h
    rfl
  · subst h
    rfl

section StoreStep

variable {w : World} {act : Action} {st : Storing} {c : ClientCtx}

theorem exec_storing_mem (h : act.storing = some st) (hc : w.store.mem st.client = some c) :
    (exec w act).store.mem = Function.update w.store.mem st.client
        (some (storeAt st.allocated st.place st.value st.freeValue c).1) ∧
      (exec w act).store.released = w.store.released ++
        (storeAt st.allocated st.place st.value st.freeValue c).2 ∧
      (exec w act).store.apicount = w.store.apicount := by
  have hmodify : w.store.modify st.client (storeAt st.allocated st.place st.value st.freeValue) =
      { w.store.put st.client (storeAt st.allocated st.place st.value st.freeValue c).1 with
        released := w.store.released ++
          (storeAt st.allocated st.place st.value st.freeValue c).2 } := by
    simp [Store.modify, hc]
  rw [exec_storing w h, hmodify]
  exact ⟨rfl, rfl, rfl⟩

theorem newAt_of_distinct (hdistinct : Distinct w act) (h : act.storing = some st)
    (hc : w.store.mem st.client = some c) : NewAt c st.place st.value := by
  intro v hv
  rcases hdistinct st v h hv with ⟨c', hc', hprev⟩ | hunused
  · rw [hc] at hc'
    cases hc'
    exact Or.inl hprev
  · exact Or.inr (hunused.1 st.client c hc)

theorem valuesInv_storing (hs : ValuesInv w.store) (hdistinct : Distinct w act)
    (hopen : StoresOpen w act) (h : act.storing = some st)
    (hc : w.store.mem st.client = some c) : ValuesInv (exec w act).store := by
  obtain ⟨hmem, hreleased, hapicount⟩ := exec_storing_mem h hc
  by_cases haccept : Accepts st.allocated st.place c
  · have hstores := storeAt_stores st.value st.freeValue haccept
    refine hs.put hc hmem hreleased hapicount hstores.frame.2
      (hstores.nodup (newAt_of_distinct hdistinct h hc) (hs.nodup _ c hc)) ?_ ?_
    · intro v hv
      rcases hstores.mem hv with hold | hvalue
      · exact Or.inl hold
      · rcases hdistinct st v h hvalue with ⟨c', hc', hprev⟩ | hunused
        · left
          rw [hc] at hc'
          cases hc'
          obtain ⟨rest, hbefore, -⟩ := hstores.perm
          exact hbefore.mem_iff.mpr (List.mem_append_left _ (by simp [hprev]))
        · exact Or.inr hunused
    · intro hu
      rw [hstores.frame.1] at hu
      refine hstores.owned_nil ?_ (hs.closed _ c hc hu)
      by_contra hboth
      rw [not_or] at hboth
      obtain ⟨c', hc', hu'⟩ := hopen st h hboth.1 hboth.2
      rw [hc] at hc'
      cases hc'
      exact hu' hu
  · rw [storeAt_refused _ _ haccept] at hmem hreleased
    rw [List.append_nil] at hreleased
    refine hs.keep ?_ hreleased hapicount
    intro a x hx
    rw [hmem, ← hc, Function.update_eq_self] at hx
    exact Or.inl ⟨x, hx, rfl, rfl, rfl⟩

theorem storing_accounted (h : act.storing = some st) (hc : w.store.mem st.client = some c)
    {a : Nat} {place : Place} {f v : Nat} (htakes : ¬ Takes act a place v f)
    (haccounted : Accounted w.store a place f v) :
    Accounted (exec w act).store a place f v := by
  obtain ⟨hmem, hreleased, -⟩ := exec_storing_mem h hc
  rcases haccounted with ⟨x, hx, he⟩ | hr
  · by_cases ha : a = st.client
    · subst ha
      rw [hc] at hx
      cases hx
      by_cases haccept : Accepts st.allocated st.place c
      · have hstores := storeAt_stores st.value st.freeValue haccept
        have hsame : place = st.place → st.value = some v → st.freeValue = some f := by
          intro hp hv
          by_contra hne
          exact htakes ⟨st, h, rfl, hp.symm, hv, hne⟩
        rcases hstores.owner he hsame with hkept | hr
        · exact Or.inl ⟨_, by rw [hmem, Function.update_self], hkept⟩
        · exact Or.inr (by rw [hreleased]; exact List.mem_append_right _ hr)
      · rw [storeAt_refused _ _ haccept] at hmem
        exact Or.inl ⟨c, by rw [hmem, Function.update_self], he⟩
    · exact Or.inl ⟨x, by rw [hmem, Function.update_of_ne ha, hx], he⟩
  · exact Or.inr (by rw [hreleased]; exact List.mem_append_left _ hr)

theorem storesAt_accounted {client : Nat} {place : Place} {v f : Nat}
    (h : StoresAt w act client place v f) : Accounted (exec w act).store client place f v := by
  obtain ⟨st, c, hst, rfl, rfl, hv, hf, hc, haccept⟩ := h
  obtain ⟨hmem, -, -⟩ := exec_storing_mem hst hc
  have hstores := storeAt_stores st.value st.freeValue haccept
  refine Or.inl ⟨_, by rw [hmem, Function.update_self], ?_⟩
  rw [hstores.entry, hv, hf]

end StoreStep

/-! ## One step -/

theorem Accounted.keep {s s' : Store} (hreleased : ∀ r ∈ s.released, r ∈ s'.released)
    (hmem : ∀ a x, s.mem a = some x →
      x.owned = [] ∨ ∃ x', s'.mem a = some x' ∧ SameValues x x')
    {a : Nat} {place : Place} {f v : Nat} (h : Accounted s a place f v) :
    Accounted s' a place f v := by
  rcases h with ⟨x, hx, he⟩ | hr
  · rcases hmem a x hx with hnone | ⟨x', hx', hsame⟩
    · have howned := mem_owned he
      rw [hnone] at howned
      cases howned
    · exact Or.inl ⟨x', hx', (hsame.entry place).trans he⟩
  · exact Or.inr (hreleased _ hr)

/-- What every step keeps, under the conditions on what it stores. -/
structure ValuesLaw (w : World) (act : Action) (w' : World) : Prop where
  inv : ValuesInv w'.store
  accounted : ∀ a place f v, ¬ Takes act a place v f → Accounted w.store a place f v →
    Accounted w'.store a place f v
  notStored : ¬ ReplacesCookie w act → ∀ call ∈ calls w act, NotStored call

/-- The law of the steps that change no value and free only what owns nothing. -/
theorem law_keep {w : World} (hs : ValuesInv w.store) {act : Action} {w' : World}
    (hcalls : calls w act = [])
    (hback : ∀ a x', w'.store.mem a = some x' → ∃ x, w.store.mem a = some x ∧ SameValues x x')
    (hforth : ∀ a x, w.store.mem a = some x →
      x.owned = [] ∨ ∃ x', w'.store.mem a = some x' ∧ SameValues x x')
    (hreleased : w'.store.released = w.store.released)
    (hapicount : w'.store.apicount = w.store.apicount) : ValuesLaw w act w' where
  inv := hs.keep (fun a x' hx => Or.inl (hback a x' hx)) hreleased hapicount
  accounted := fun _ _ _ _ _ h => h.keep (fun r hr => hreleased ▸ hr) hforth
  notStored := by simp [hcalls]

/-- The law of the steps that rewrite one context and not its values. -/
theorem law_rewrite {w : World} (hs : ValuesInv w.store) {act : Action} {w' : World}
    {client : Nat} {c : ClientCtx} (c' : ClientCtx) (hcalls : calls w act = [])
    (hc : w.store.mem client = some c) (hsame : SameValues c c')
    (hmem : w'.store.mem = Function.update w.store.mem client (some c'))
    (hreleased : w'.store.released = w.store.released)
    (hapicount : w'.store.apicount = w.store.apicount) : ValuesLaw w act w' := by
  refine law_keep hs hcalls ?_ ?_ hreleased hapicount
  · intro a x' hx
    rw [hmem, Function.update_apply] at hx
    split at hx
    · rename_i ha
      cases hx
      exact ⟨c, ha ▸ hc, hsame⟩
    · exact ⟨x', hx, rfl, rfl, rfl⟩
  · intro a x hx
    right
    rw [hmem]
    by_cases ha : a = client
    · subst ha
      rw [hc] at hx
      cases hx
      exact ⟨c', Function.update_self .., hsame⟩
    · exact ⟨x, by rw [Function.update_of_ne ha, hx], rfl, rfl, rfl⟩

/-- The law of the steps that clean up first: what they do next is on the contexts left. -/
theorem law_cleanUp {w w' : World} {act : Action} (hs : ValuesInv w.store)
    (hcalls : calls w act = cleanUpCalls w.now (List.range w.store.slots.length) w.store)
    (hinv : ValuesInv (ctxStoreCleanUp w.now w.store) → ValuesInv w'.store)
    (haccounted : ∀ a place f v, Accounted (ctxStoreCleanUp w.now w.store) a place f v →
      Accounted w'.store a place f v) : ValuesLaw w act w' := by
  obtain ⟨hclean, hkept, hnot⟩ := cleanUp_values hs w.now (List.range w.store.slots.length)
  refine ⟨hinv hclean, ?_, fun _ => hcalls ▸ hnot⟩
  intro a place f v _ h
  exact haccounted a place f v (hkept a place f v h)

theorem freshCtx_empty (generated : Bytes) (uuid : Option Bytes) (timeout now : Int) (s : Store) :
    (freshCtx generated uuid timeout now s).Empty s.apicount := by
  refine ⟨?_, ?_, by simp [freshCtx]⟩
  · simp [ClientCtx.contents, ClientCtx.entries, freshCtx]
  · simp [ClientCtx.owned, ClientCtx.entries, freshCtx, List.flatMap_replicate,
      ClientValue.release]

theorem newContext_values {s : Store} (hwf : Wf s) (allocated : Bool) (generated : Bytes)
    (uuid : Option Bytes) (timeout now : Int) :
    (ValuesInv s → ValuesInv (newContext allocated generated uuid timeout now s).2) ∧
      ∀ a place f v, Accounted s a place f v →
        Accounted (newContext allocated generated uuid timeout now s).2 a place f v := by
  rcases newContext_cases allocated generated uuid timeout now s with ⟨e, he⟩ |
    ⟨slots, -, -, hok⟩
  · rw [he]
    exact ⟨fun h => h, fun _ _ _ _ h => h⟩
  · rw [hok]
    constructor
    · intro hs
      refine hs.keep ?_ rfl rfl
      intro a x hx
      rw [put_mem, Function.update_apply] at hx
      split at hx
      · cases hx
        exact Or.inr (freshCtx_empty generated uuid timeout now s)
      · exact Or.inl ⟨x, hx, rfl, rfl, rfl⟩
    · intro a place f v h
      apply h.keep
      · exact fun r hr => hr
      · intro b x hx
        have hne : b ≠ s.next := Nat.ne_of_lt (lt_next_of_mem hwf hx)
        exact Or.inr ⟨x, by rw [put_mem, Function.update_of_ne hne, hx], rfl, rfl, rfl⟩

theorem law_create {w : World} (hw : Inv w) (hs : ValuesInv w.store) (allocated : Bool)
    (generated : Bytes) (uuid : Option Bytes) (timeout : Int) :
    ValuesLaw w (.create allocated generated uuid timeout)
      (exec w (.create allocated generated uuid timeout)) := by
  obtain ⟨hinv, haccounted⟩ := newContext_values (inv_cleanUp hw).wf allocated generated uuid
    timeout w.now
  refine law_cleanUp hs rfl ?_ ?_
  · intro hclean
    simp only [exec, ctxClientCreate]
    split
    · exact hclean
    · exact hinv hclean
  · intro a place f v h
    simp only [exec, ctxClientCreate]
    split
    · exact h
    · exact haccounted a place f v h

theorem law_getSession {w : World} (hw : Inv w) (hs : ValuesInv w.store) (allocated : Bool)
    (generated : Bytes) (uuid : Option Bytes) :
    ValuesLaw w (.getSession allocated generated uuid)
      (exec w (.getSession allocated generated uuid)) := by
  obtain ⟨hinv, haccounted⟩ := newContext_values (inv_cleanUp hw).wf allocated generated uuid
    (ctxStoreCleanUp w.now w.store).timeout w.now
  cases hsearch : uuid.bind (fun u => ctxStoreSearch u (ctxStoreCleanUp w.now w.store)) with
  | none =>
      have hstore : (exec w (.getSession allocated generated uuid)).store =
          (newContext allocated generated uuid (ctxStoreCleanUp w.now w.store).timeout w.now
            (ctxStoreCleanUp w.now w.store)).2 := by
        simp only [exec, ctxClientGetSession, hsearch]
      exact law_cleanUp hs rfl (hstore ▸ hinv) (hstore ▸ haccounted)
  | some client =>
      obtain ⟨u, -, hu⟩ := Option.bind_eq_some_iff.mp hsearch
      obtain ⟨c, hc, -⟩ := ctxStoreSearch_some hu
      have hstore : (exec w (.getSession allocated generated uuid)).store =
          (ctxStoreCleanUp w.now w.store).put client
            { c with access := w.now, refcount := c.refcount + 1 } := by
        simp only [exec, ctxClientGetSession, hsearch, hc]
      refine law_cleanUp hs rfl ?_ ?_
      · intro hclean
        rw [hstore]
        refine hclean.keep ?_ rfl rfl
        intro a x hx
        rw [put_mem, Function.update_apply] at hx
        split at hx
        · rename_i ha
          cases hx
          exact Or.inl ⟨c, ha ▸ hc, rfl, rfl, rfl⟩
        · exact Or.inl ⟨x, hx, rfl, rfl, rfl⟩
      · intro a place f v h
        rw [hstore]
        apply h.keep
        · exact fun r hr => hr
        · intro b x hx
          right
          rw [put_mem, Function.update_apply]
          split
          · rename_i hb
            rw [hb, hc] at hx
            cases hx
            exact ⟨_, rfl, rfl, rfl, rfl⟩
          · exact ⟨x, hx, rfl, rfl, rfl⟩

theorem law_unref {w : World} (hs : ValuesInv w.store) (client : Nat) :
    ValuesLaw w (.unref client) (exec w (.unref client)) := by
  cases hc : w.store.mem client with
  | none =>
      have hstore : (exec w (.unref client)).store = w.store := by
        simp [exec, ctxClientUnref, hc]
      refine law_keep hs rfl ?_ ?_ (by rw [hstore]) (by rw [hstore])
      · exact fun a x hx => ⟨x, hstore ▸ hx, rfl, rfl, rfl⟩
      · exact fun a x hx => Or.inr ⟨x, by rw [hstore, hx], rfl, rfl, rfl⟩
  | some c =>
      by_cases hlast : c.refcount - 1 = 0 ∧ c.uuid = []
      · -- a closed context is freed: it owns nothing
        have hstore : (exec w (.unref client)).store =
            ctxDelete client (w.store.put client { c with refcount := c.refcount - 1 }) :=
          ctxClientUnref_last hc hlast
        have hmem : (exec w (.unref client)).store.mem =
            Function.update w.store.mem client none := ctxClientUnref_last_mem hc hlast
        refine law_keep hs rfl ?_ ?_ ?_ ?_
        · intro a x hx
          rw [hmem, Function.update_apply] at hx
          split at hx
          · cases hx
          · exact ⟨x, hx, rfl, rfl, rfl⟩
        · intro a x hx
          by_cases ha : a = client
          · subst ha
            rw [hc] at hx
            cases hx
            exact Or.inl (hs.closed a c hc hlast.2)
          · exact Or.inr ⟨x, by rw [hmem, Function.update_of_ne ha, hx], rfl, rfl, rfl⟩
        · rw [hstore, ctxDelete_released]
          rfl
        · rw [hstore]
          exact (sameConfig_ctxDelete _ client).apicount
      · have hstore : (exec w (.unref client)).store =
            w.store.put client { c with refcount := c.refcount - 1 } :=
          ctxClientUnref_kept hc hlast
        exact law_rewrite hs { c with refcount := c.refcount - 1 } rfl hc ⟨rfl, rfl, rfl⟩
          (by rw [hstore, put_mem]) (by rw [hstore]; rfl) (by rw [hstore]; rfl)

theorem law_close {w : World} (hs : ValuesInv w.store) (client : Nat) :
    ValuesLaw w (.close client) (exec w (.close client)) where
  inv := valuesInv_ctxClientClose hs client
  accounted := fun _ _ _ _ _ h => ctxClientClose_accounted hs client h
  notStored := fun _ _ h => ctxClientCloseCalls_notStored hs h

/-- What a store releases, and what it has to meet for that. -/
theorem storeAt_mem {allocated : Bool} {place : Place} {value freeValue : Option Nat}
    {c : ClientCtx} {r : Release} (hr : r ∈ (storeAt allocated place value freeValue c).2) :
    Accepts allocated place c ∧ c.entry place = some ⟨some r.value, some r.freeValue⟩ ∧
      value ≠ some r.value := by
  have haccept : Accepts allocated place c := by
    by_contra hno
    rw [storeAt_refused value freeValue hno] at hr
    cases hr
  exact ⟨haccept, (storeAt_stores value freeValue haccept).mem_released hr⟩

/-- A value slot is overwritten before the free function is called. -/
theorem valueSet_notStored {w : World} (hs : ValuesInv w.store) {client index : Nat}
    {value freeValue : Option Nat}
    (hdistinct : Distinct w (.valueSet client index value freeValue)) {call : Call Store}
    (hcall : call ∈ calls w (.valueSet client index value freeValue)) : NotStored call := by
  cases hc : w.store.mem client with
  | none => simp [calls, hc] at hcall
  | some c =>
      simp only [calls, hc] at hcall
      obtain ⟨r, hr, rfl⟩ := List.mem_map.mp hcall
      have hr' : r ∈ (storeAt true (.value index) value freeValue c).2 := hr
      obtain ⟨haccept, hentry, -⟩ := storeAt_mem hr'
      have hstores := storeAt_stores value freeValue haccept
      have hnodup := hstores.nodup (newAt_of_distinct hdistinct rfl hc) (hs.nodup client c hc)
      intro a x hx _ hin
      rw [put_mem, Function.update_apply] at hx
      split at hx
      · cases hx
        exact (List.nodup_append.mp hnodup).2.2 _ hin _ (List.mem_map_of_mem hr) rfl
      · rename_i ha
        exact ha (hs.apart a client x c _ hx hc hin (mem_contents_of_owned (mem_owned hentry)))

theorem cookieSet_notStored {w : World} (hs : ValuesInv w.store) {client key : Nat}
    {allocated : Bool} {value freeValue : Option Nat}
    (hcookie : ¬ ReplacesCookie w (.cookieSet client allocated key value freeValue))
    {call : Call Store} (hcall : call ∈ calls w (.cookieSet client allocated key value freeValue)) :
    NotStored call := by
  cases hc : w.store.mem client with
  | none => simp [calls, hc] at hcall
  | some c =>
      simp only [calls, hc] at hcall
      obtain ⟨r, hr, rfl⟩ := List.mem_map.mp hcall
      have hr' : r ∈ (storeAt allocated (.cookie key) value freeValue c).2 := hr
      obtain ⟨-, hentry, hne⟩ := storeAt_mem hr'
      -- a closed session owns nothing, so it has nothing to release
      by_cases hu : c.uuid = []
      · have howned := mem_owned hentry
        rw [hs.closed client c hc hu] at howned
        cases howned
      · exact absurd ⟨c, _, _, hc, hu, hentry, hne⟩ hcookie

/-- Every step that stores distinct values, with a free function only in open sessions. -/
theorem law_step {w w' : World} {act : Action} (hw : Inv w) (hs : ValuesInv w.store)
    (h : Step w act w') (hdistinct : Distinct w act) (hopen : StoresOpen w act) :
    ValuesLaw w act w' := by
  obtain ⟨hallowed, rfl⟩ := h
  cases act with
  | create allocated generated uuid timeout => exact law_create hw hs allocated generated uuid timeout
  | getSession allocated generated uuid => exact law_getSession hw hs allocated generated uuid
  | addRef client =>
      obtain ⟨c, hc⟩ := Option.isSome_iff_exists.mp hallowed
      have hstore : (exec w (.addRef client)).store =
          w.store.put client { c with refcount := c.refcount + 1 } := by
        simp [exec, ctxClientAddRef, hc]
      exact law_rewrite hs { c with refcount := c.refcount + 1 } rfl hc ⟨rfl, rfl, rfl⟩
        (by rw [hstore, put_mem]) (by rw [hstore]; rfl) (by rw [hstore]; rfl)
  | unref client => exact law_unref hs client
  | close client => exact law_close hs client
  | tokenNew client generated =>
      obtain ⟨c, hc⟩ := Option.isSome_iff_exists.mp hallowed
      exact law_rewrite hs (ctxTokenNew w.store.timeBits generated w.now c) rfl hc ⟨rfl, rfl, rfl⟩
        (by simp [exec, Store.modify, hc]) (by simp [exec, Store.modify, hc])
        (by simp [exec, Store.modify, hc, Store.put])
  | setLOA client loa =>
      obtain ⟨c, hc⟩ := Option.isSome_iff_exists.mp hallowed
      exact law_rewrite hs (ctxClientSetLOA loa c) rfl hc ⟨rfl, rfl, rfl⟩
        (by simp [exec, Store.modify, hc]) (by simp [exec, Store.modify, hc])
        (by simp [exec, Store.modify, hc, Store.put])
  | valueSet client index value freeValue =>
      obtain ⟨c, hc⟩ := Option.isSome_iff_exists.mp hallowed
      exact ⟨valuesInv_storing hs hdistinct hopen rfl hc,
        fun _ _ _ _ htakes haccounted => storing_accounted rfl hc htakes haccounted,
        fun _ _ hcall => valueSet_notStored hs hdistinct hcall⟩
  | cookieSet client allocated key value freeValue =>
      obtain ⟨c, hc⟩ := Option.isSome_iff_exists.mp hallowed
      exact ⟨valuesInv_storing hs hdistinct hopen rfl hc,
        fun _ _ _ _ htakes haccounted => storing_accounted rfl hc htakes haccounted,
        fun hcookie _ hcall => cookieSet_notStored hs hcookie hcall⟩
  | advance delay =>
      exact law_keep hs rfl (fun a x hx => ⟨x, hx, rfl, rfl, rfl⟩)
        (fun a x hx => Or.inr ⟨x, hx, rfl, rfl, rfl⟩) rfl rfl

/-! ## All runs -/

/-- Every value that the run stored with a free function, and did not store again at its
place with another one, is accounted for. -/
def AllAccounted (w : World) (ts : List (Transition World Action)) : Prop :=
  ∀ front t back client place v f, ts = front ++ t :: back →
    StoresAt t.before t.action client place v f →
    (∀ u ∈ back, ¬ Takes u.action client place v f) → Accounted w.store client place f v

theorem allAccounted_step {w w' : World} {act : Action} {ts : List (Transition World Action)}
    (hlaw : ValuesLaw w act w') (hw' : w' = exec w act) (h : AllAccounted w ts) :
    AllAccounted w' (ts ++ [⟨w, act, w'⟩]) := by
  intro front t back client place v f hts hstores htakes
  rcases snoc_split hts with ⟨rfl, rfl, rfl⟩ | ⟨back', rfl, rfl⟩
  · rw [hw']
    exact storesAt_accounted hstores
  · have hold := h front t back' client place v f rfl hstores
      (fun u hu => htakes u (List.mem_append_left _ hu))
    exact hlaw.accounted client place f v (htakes ⟨w, act, w'⟩ (by simp)) hold

/-- The free function of a cookie is called while the cookie still holds the value. -/
theorem stillStored_of_replaces {w : World} {act : Action} (h : ReplacesCookie w act) :
    ∃ call ∈ calls w act, ¬ NotStored call := by
  cases act
  case cookieSet client allocated key value freeValue =>
    obtain ⟨c, v, f, hc, hu, hentry, hne⟩ := h
    have haccept : Accepts allocated (.cookie key) c := Or.inl (by rw [hentry]; rfl)
    have hstores := storeAt_stores value freeValue haccept
    have hprev : c.previous (.cookie key) = ⟨some v, some f⟩ := by simp [ClientCtx.previous, hentry]
    have hreleased : (ctxClientCookieSet allocated key value freeValue c).2 = [⟨f, v⟩] := by
      have h := hstores.released
      rw [hprev] at h
      simpa [storeAt, supersede, Ne.symm hne] using h
    refine ⟨(⟨f, v⟩, w.store), by simp [calls, hc, hreleased], ?_⟩
    intro hnot
    exact hnot client c hc hu (mem_contents_of_owned (mem_owned hentry))
  all_goals exact h.elim

/-- Over every run that stores distinct values, and with a free function in open sessions
only: no value is released twice, none is released that a context still holds, the values
released are those of the calls of free functions, none of which is made while an open
session holds the value unless a cookie is overwritten, and every value stored with a free
function has been released once when its session is deallocated. -/
theorem session_values_released_once (maxSessionCount : Nat) (timeout : Int) (initok : Bytes)
    (contextCount timeBits : Nat) (now : Int) {w : World} {ts : List (Transition World Action)}
    (hrun : Runs Step (World.init maxSessionCount timeout initok contextCount timeBits now) w ts)
    (hdistinct : ∀ t ∈ ts, Distinct t.before t.action)
    (hopen : ∀ t ∈ ts, StoresOpen t.before t.action) :
    (w.store.released.map Release.value).Nodup ∧
      (∀ r ∈ w.store.released, ∀ a c, w.store.mem a = some c → r.value ∉ c.contents) ∧
      (∀ t ∈ ts, t.after.store.released =
        t.before.store.released ++ (calls t.before t.action).map Prod.fst) ∧
      (∀ t ∈ ts, (∀ call ∈ calls t.before t.action, NotStored call) ↔
        ¬ ReplacesCookie t.before t.action) ∧
      ∀ front t back client place v f, ts = front ++ t :: back →
        StoresAt t.before t.action client place v f →
        (∀ u ∈ back, ¬ Takes u.action client place v f) → w.store.mem client = none →
        w.store.released.count ⟨f, v⟩ = 1 := by
  have hinv : Inv w ∧ ValuesInv w.store ∧ AllAccounted w ts ∧
      ∀ t ∈ ts, ¬ ReplacesCookie t.before t.action →
        ∀ call ∈ calls t.before t.action, NotStored call := by
    apply hrun.history_of (fun w ts => Inv w ∧ ValuesInv w.store ∧ AllAccounted w ts ∧
        ∀ t ∈ ts, ¬ ReplacesCookie t.before t.action →
          ∀ call ∈ calls t.before t.action, NotStored call)
      (fun t => Distinct t.before t.action ∧ StoresOpen t.before t.action)
    · intro w act w' ts hw hcond hstep
      obtain ⟨hinv, hs, haccounted, hcalls⟩ := hw
      have hlaw := law_step hinv hs hstep hcond.1 hcond.2
      refine ⟨(inv_step hinv hstep).1, hlaw.inv, allAccounted_step hlaw hstep.2 haccounted, ?_⟩
      intro t ht
      rcases List.mem_append.mp ht with ht | ht
      · exact hcalls t ht
      · rw [List.mem_singleton] at ht
        subst ht
        exact hlaw.notStored
    · refine ⟨inv_init .., valuesInv_ctxStoreInit .., ?_, by simp⟩
      intro front t back _ _ _ _ h
      simp at h
    · exact fun t ht => ⟨hdistinct t ht, hopen t ht⟩
  obtain ⟨-, hs, haccounted, hcalls⟩ := hinv
  refine ⟨hs.once, ?_, ?_, ?_, ?_⟩
  · intro r hr a c hc hin
    exact hs.kept a c r.value hc hin (List.mem_map_of_mem hr)
  · intro t ht
    rw [(hrun.mem_spec ht).1.2]
    exact exec_released t.before t.action
  · intro t ht
    refine ⟨fun hnot hreplaces => ?_, hcalls t ht⟩
    obtain ⟨call, hcall, hstored⟩ := stillStored_of_replaces hreplaces
    exact hstored (hnot call hcall)
  · intro front t back client place v f hts hstores htakes hnone
    rcases haccounted front t back client place v f hts hstores htakes with ⟨c, hc, -⟩ | hr
    · rw [hnone] at hc
      cases hc
    · exact List.count_eq_one_of_mem (List.Nodup.of_map _ hs.once) hr

theorem distinct_of_none (w : World) {act : Action} (h : act.storing = none) : Distinct w act := by
  intro st v hst
  rw [h] at hst
  cases hst

theorem storesOpen_of_none (w : World) {act : Action} (h : act.storing = none) :
    StoresOpen w act := by
  intro st hst
  rw [h] at hst
  cases hst

/-- One session of one slot, just created, and what becomes of it. -/
def firstSession : World := exec (World.init 1 3600 [] 1 64 0) (.create true [97] none 3600)

theorem firstSession_step :
    Step (World.init 1 3600 [] 1 64 0) (.create true [97] none 3600) firstSession :=
  step_exec _ ⟨by decide, by decide, by intro a c hc; cases hc⟩

theorem firstSession_unused (v : Nat) : Unused firstSession.store v := by
  refine ⟨?_, by simp [show firstSession.store.released = [] from rfl]⟩
  intro a c hc
  have hmem : firstSession.store.mem = Function.update (fun _ => none) 0
      (some (freshCtx [97] none 3600 0 (ctxStoreInit 1 3600 [] 1 64))) := rfl
  rw [hmem, Function.update_apply] at hc
  split at hc
  · cases hc
    rw [(freshCtx_empty ..).1]
    exact List.not_mem_nil
  · cases hc

/-- A value stored in an open session is released once by the closing. -/
theorem session_values_released_once_closed :
    ∃ (w : World) (ts : List (Transition World Action)),
      Runs Step (World.init 1 3600 [] 1 64 0) w ts ∧ w.store.mem 0 = none ∧
        w.store.released.count ⟨5, 7⟩ = 1 := by
  have hrun := (((Runs.single firstSession_step).snoc
    (step_exec (.valueSet 0 0 (some 7) (some 5)) rfl)).snoc (step_exec (.close 0) rfl)).snoc
    (step_exec (.unref 0) (by show 0 < _; decide))
  have hdistinct : Distinct firstSession (.valueSet 0 0 (some 7) (some 5)) :=
    fun _ _ _ _ => Or.inr (firstSession_unused _)
  have hopen : StoresOpen firstSession (.valueSet 0 0 (some 7) (some 5)) := by
    rintro st ⟨⟩ - -
    exact ⟨_, rfl, by decide⟩
  refine ⟨_, _, hrun, rfl, (session_values_released_once 1 3600 [] 1 64 0 hrun ?_ ?_).2.2.2.2
    [_] _ [_, _] 0 (.value 0) 7 5 rfl ?_ ?_ rfl⟩
  · simp only [List.forall_mem_append, List.forall_mem_singleton]
    exact ⟨⟨⟨distinct_of_none _ rfl, hdistinct⟩, distinct_of_none _ rfl⟩, distinct_of_none _ rfl⟩
  · simp only [List.forall_mem_append, List.forall_mem_singleton]
    exact ⟨⟨⟨storesOpen_of_none _ rfl, hopen⟩, storesOpen_of_none _ rfl⟩,
      storesOpen_of_none _ rfl⟩
  · exact ⟨_, _, rfl, rfl, rfl, rfl, rfl, rfl, Or.inl rfl⟩
  · simp [Takes, Action.storing]

/-- A value stored in a session that was closed while referenced is never released. -/
theorem session_values_leaked :
    ∃ (w : World) (ts front back : List (Transition World Action))
      (t : Transition World Action),
      Runs Step (World.init 1 3600 [] 1 64 0) w ts ∧
        (∀ t ∈ ts, Distinct t.before t.action) ∧ ts = front ++ t :: back ∧
        StoresAt t.before t.action 0 (.value 0) 7 5 ∧
        (∀ u ∈ back, ¬ Takes u.action 0 (.value 0) 7 5) ∧ w.store.mem 0 = none ∧
        w.store.released.count ⟨5, 7⟩ = 0 := by
  have hrun := (((Runs.single firstSession_step).snoc (step_exec (.close 0) rfl)).snoc
    (step_exec (.valueSet 0 0 (some 7) (some 5)) rfl)).snoc
    (step_exec (.unref 0) (by show 0 < _; decide))
  have hdistinct : Distinct (exec firstSession (.close 0)) (.valueSet 0 0 (some 7) (some 5)) := by
    rintro st v ⟨⟩ ⟨⟩
    refine Or.inr ⟨?_, by decide⟩
    intro a c hc
    have hmem : (exec firstSession (.close 0)).store.mem = Function.update firstSession.store.mem 0
        (some (closedCtx 1 (freshCtx [97] none 3600 0 (ctxStoreInit 1 3600 [] 1 64)))) := rfl
    rw [hmem, Function.update_apply] at hc
    split at hc
    · cases hc
      decide
    · exact (firstSession_unused 7).1 a c hc
  refine ⟨_, _, [_, _], [_], _, hrun, ?_, rfl, ?_, ?_, rfl, by decide⟩
  · simp only [List.forall_mem_append, List.forall_mem_singleton]
    exact ⟨⟨⟨distinct_of_none _ rfl, distinct_of_none _ rfl⟩, hdistinct⟩, distinct_of_none _ rfl⟩
  · exact ⟨_, _, rfl, rfl, rfl, rfl, rfl, rfl, Or.inl rfl⟩
  · simp [Takes, Action.storing]

end AfbBinder.Session
