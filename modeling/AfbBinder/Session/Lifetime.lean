import AfbBinder.Lib.Run
import AfbBinder.Session.Effects

/-!
# Lifetime of the sessions

A world is the store, the clock and, for each context, how many references its
users obtained and have yet to release.  The users act in any order: a reference
is released at most once, and an operation on a context is called on an allocated
one.
-/

namespace AfbBinder.Session

open Lib

structure World where
  store : Store
  held : Nat → Nat
  now : Int

inductive Action where
  | create (allocated : Bool) (generated : Bytes) (uuid : Option Bytes) (timeout : Int)
  | getSession (allocated : Bool) (generated : Bytes) (uuid : Option Bytes)
  | addRef (client : Nat)
  | unref (client : Nat)
  | close (client : Nat)
  | tokenNew (client : Nat) (generated : Bytes)
  | setLOA (client : Nat) (loa : Nat)
  | valueSet (client index : Nat) (value freeValue : Option Nat)
  | cookieSet (client : Nat) (allocated : Bool) (key : Nat) (value freeValue : Option Nat)
  | advance (delay : Nat)

/-- The reference that a successful creation or search gives to its caller. -/
def grant (held : Nat → Nat) : Except Errno Nat → Nat → Nat
  | .ok client => Function.update held client (held client + 1)
  | .error _ => held

def exec (w : World) : Action → World
  | .create allocated generated uuid timeout =>
      let r := ctxClientCreate allocated generated uuid timeout w.now w.store
      { w with store := r.2, held := grant w.held r.1 }
  | .getSession allocated generated uuid =>
      let r := ctxClientGetSession allocated generated uuid w.now w.store
      { w with store := r.2.2, held := grant w.held r.1 }
  | .addRef client =>
      { w with store := ctxClientAddRef client w.store, held := grant w.held (.ok client) }
  | .unref client =>
      { w with
        store := ctxClientUnref client w.store
        held := Function.update w.held client (w.held client - 1) }
  | .close client => { w with store := ctxClientClose client w.store }
  | .tokenNew client generated =>
      { w with store := w.store.modify client fun c =>
          (ctxTokenNew w.store.timeBits generated w.now c, []) }
  | .setLOA client loa =>
      { w with store := w.store.modify client fun c => (ctxClientSetLOA loa c, []) }
  | .valueSet client index value freeValue =>
      { w with store := w.store.modify client (ctxClientValueSet index value freeValue) }
  | .cookieSet client allocated key value freeValue =>
      { w with store := w.store.modify client (ctxClientCookieSet allocated key value freeValue) }
  | .advance delay => { w with now := w.now + delay }

/-- `uuid_generate` gives a text that no allocated context has. -/
def Generates (generated : Bytes) (s : Store) : Prop :=
  generated ≠ [] ∧ generated.length < uuidSize ∧ ∀ a c, s.mem a = some c → c.uuid ≠ generated

def Allowed (w : World) : Action → Prop
  | .create _ generated _ _ => Generates generated w.store
  | .getSession _ generated _ => Generates generated w.store
  | .unref client => 0 < w.held client
  | .addRef client => (w.store.mem client).isSome
  | .close client => (w.store.mem client).isSome
  | .tokenNew client _ => (w.store.mem client).isSome
  | .setLOA client _ => (w.store.mem client).isSome
  | .valueSet client _ _ _ => (w.store.mem client).isSome
  | .cookieSet client _ _ _ _ => (w.store.mem client).isSome
  | .advance _ => True

def Step (w : World) (act : Action) (w' : World) : Prop := Allowed w act ∧ w' = exec w act

theorem step_exec {w : World} (act : Action) (h : Allowed w act) : Step w act (exec w act) :=
  ⟨h, rfl⟩

def World.init (maxSessionCount : Nat) (timeout : Int) (initok : Bytes)
    (contextCount timeBits : Nat) (now : Int) : World :=
  { store := ctxStoreInit maxSessionCount timeout initok contextCount timeBits
    held := fun _ => 0
    now := now }

/-! ## The invariant and the law of one step -/

structure Inv (w : World) : Prop where
  wf : Wf w.store
  referenced : ∀ a c, w.store.mem a = some c → c.refcount = w.held a
  unheld : ∀ a, w.store.mem a = none → w.held a = 0
  alive : ∀ a c, w.store.mem a = some c → c.uuid = [] → w.held a ≠ 0

def Action.cleans : Action → Bool
  | .create _ _ _ _ => true
  | .getSession _ _ _ => true
  | _ => false

/-- After the action the context is closed. -/
def Closes (w : World) (act : Action) (a : Nat) (c : ClientCtx) : Prop :=
  c.uuid = [] ∨ act = .close a ∨ (act.cleans = true ∧ ctxStoreTooOld c w.now = true)

/-- A context is deallocated by a step exactly when the step leaves it closed and
unreferenced, and its slot is emptied by the same step. -/
def LifetimeLaw (w : World) (act : Action) (w' : World) : Prop :=
  ∀ a c, w.store.mem a = some c →
    (w'.store.mem a = none ↔ Closes w act a c ∧ w'.held a = 0) ∧
    (w'.store.mem a = none → some a ∉ w'.store.slots) ∧
    ∀ c', w'.store.mem a = some c' → (c'.uuid = [] ↔ Closes w act a c)

theorem inv_init (maxSessionCount : Nat) (timeout : Int) (initok : Bytes)
    (contextCount timeBits : Nat) (now : Int) :
    Inv (World.init maxSessionCount timeout initok contextCount timeBits now) where
  wf := wf_ctxStoreInit ..
  referenced := by simp [World.init, ctxStoreInit]
  unheld := fun _ _ => rfl
  alive := by simp [World.init, ctxStoreInit]

theorem not_mem_slots {s : Store} (hs : Wf s) {a : Nat} (ha : s.mem a = none) :
    some a ∉ s.slots := by
  have h := hs.stored a
  rw [ha] at h
  exact List.count_eq_zero.mp (by simpa using h)

theorem law_kept {w w' : World} {act : Action} {a : Nat} {c : ClientCtx} (c' : ClientCtx)
    (hc' : w'.store.mem a = some c') (hclosed : c'.uuid = [] ↔ Closes w act a c)
    (hinv : Inv w') :
    (w'.store.mem a = none ↔ Closes w act a c ∧ w'.held a = 0) ∧
    (w'.store.mem a = none → some a ∉ w'.store.slots) ∧
    ∀ x, w'.store.mem a = some x → (x.uuid = [] ↔ Closes w act a c) := by
  refine ⟨⟨by simp [hc'], ?_⟩, by simp [hc'], ?_⟩
  · rintro ⟨hcl, hheld⟩
    exact absurd hheld (hinv.alive a c' hc' (hclosed.mpr hcl))
  · intro x hx
    rw [hc'] at hx
    cases hx
    exact hclosed

theorem law_freed {w w' : World} {act : Action} {a : Nat} {c : ClientCtx}
    (hnone : w'.store.mem a = none) (hclosed : Closes w act a c) (hinv : Inv w') :
    (w'.store.mem a = none ↔ Closes w act a c ∧ w'.held a = 0) ∧
    (w'.store.mem a = none → some a ∉ w'.store.slots) ∧
    ∀ x, w'.store.mem a = some x → (x.uuid = [] ↔ Closes w act a c) := by
  refine ⟨⟨fun _ => ⟨hclosed, hinv.unheld a hnone⟩, fun _ => hnone⟩,
    fun h => not_mem_slots hinv.wf h, by simp [hnone]⟩

/-! ## Operations on one context -/

/-- Writing one context, the number of its references becoming `n`. -/
theorem inv_put {w : World} (hw : Inv w) {client : Nat} {c' : ClientCtx} {n : Nat}
    (hcount : c'.refcount = n) (halive : c'.uuid = [] → n ≠ 0) {s' : Store}
    (hwf : Wf s') (hmem : s'.mem = Function.update w.store.mem client (some c')) :
    Inv { w with store := s', held := Function.update w.held client n } := by
  refine ⟨hwf, ?_, ?_, ?_⟩
  · intro a x hx
    rw [hmem, Function.update_apply] at hx
    simp only [Function.update_apply]
    split at hx
    · rename_i ha
      cases hx
      rw [if_pos ha, hcount]
    · rename_i ha
      rw [if_neg ha]
      exact hw.referenced a x hx
  · intro a ha
    rw [hmem, Function.update_apply] at ha
    simp only [Function.update_apply]
    split at ha
    · cases ha
    · rename_i hne
      rw [if_neg hne]
      exact hw.unheld a ha
  · intro a x hx hu
    rw [hmem, Function.update_apply] at hx
    simp only [Function.update_apply]
    split at hx
    · rename_i ha
      cases hx
      rw [if_pos ha]
      exact halive hu
    · rename_i ha
      rw [if_neg ha]
      exact hw.alive a x hx hu

theorem inv_free {w : World} (hw : Inv w) {client : Nat} {s' : Store} (hwf : Wf s')
    (hmem : s'.mem = Function.update w.store.mem client none) :
    Inv { w with store := s', held := Function.update w.held client 0 } := by
  refine ⟨hwf, ?_, ?_, ?_⟩
  · intro a x hx
    rw [hmem, Function.update_apply] at hx
    simp only [Function.update_apply]
    split at hx
    · cases hx
    · rename_i ha
      rw [if_neg ha]
      exact hw.referenced a x hx
  · intro a ha
    rw [hmem, Function.update_apply] at ha
    simp only [Function.update_apply]
    split
    · rfl
    · rename_i hne
      rw [if_neg hne] at ha
      exact hw.unheld a ha
  · intro a x hx hu
    rw [hmem, Function.update_apply] at hx
    simp only [Function.update_apply]
    split at hx
    · cases hx
    · rename_i ha
      rw [if_neg ha]
      exact hw.alive a x hx hu

/-- An action that neither closes the context nor cleans up. -/
theorem closes_iff {w : World} {act : Action} {a : Nat} {c : ClientCtx}
    (hclose : act ≠ .close a) (hclean : act.cleans = false) :
    Closes w act a c ↔ c.uuid = [] := by
  simp [Closes, hclose, hclean]

theorem law_put {w w' : World} {act : Action} {client : Nat} {c : ClientCtx} (c' : ClientCtx)
    (hinv : Inv w') (hc : w.store.mem client = some c) (huuid : c'.uuid = c.uuid)
    (hmem : w'.store.mem = Function.update w.store.mem client (some c'))
    (hclose : ∀ a, act ≠ .close a) (hclean : act.cleans = false) : LifetimeLaw w act w' := by
  intro a x hx
  by_cases ha : a = client
  · subst ha
    rw [hc] at hx
    cases hx
    refine law_kept c' (by rw [hmem, Function.update_self]) ?_ hinv
    rw [closes_iff (hclose a) hclean, huuid]
  · refine law_kept x (by rw [hmem, Function.update_of_ne ha, hx]) ?_ hinv
    rw [closes_iff (hclose a) hclean]

theorem modify_spec {s : Store} (hs : Wf s) {client : Nat} {c : ClientCtx}
    (hc : s.mem client = some c) (f : ClientCtx → ClientCtx × List Release)
    (huuid : (f c).1.uuid = c.uuid) :
    Wf (s.modify client f) ∧
      (s.modify client f).mem = Function.update s.mem client (some (f c).1) := by
  have hput : Wf (s.put client (f c).1) := wf_put hs hc (Or.inl huuid)
  simp only [Store.modify, hc]
  exact ⟨⟨hput.count, hput.unallocated, hput.stored, hput.uuids⟩, rfl⟩

/-- All the operations that change neither the text nor the references of a context. -/
theorem step_modify {w : World} (hw : Inv w) {act : Action} {client : Nat}
    (f : ClientCtx → ClientCtx × List Release)
    (hf : ∀ c, (f c).1.uuid = c.uuid ∧ (f c).1.refcount = c.refcount)
    (hlive : (w.store.mem client).isSome)
    (hclose : ∀ a, act ≠ .close a) (hclean : act.cleans = false) :
    Inv { w with store := w.store.modify client f } ∧
      LifetimeLaw w act { w with store := w.store.modify client f } := by
  obtain ⟨c, hc⟩ := Option.isSome_iff_exists.mp hlive
  obtain ⟨hwf, hmem⟩ := modify_spec hw.wf hc f (hf c).1
  have hinv : Inv { w with
      store := w.store.modify client f
      held := Function.update w.held client (w.held client) } :=
    inv_put hw ((hf c).2.trans (hw.referenced client c hc))
      (fun hu => hw.alive client c hc ((hf c).1 ▸ hu)) hwf hmem
  rw [Function.update_eq_self] at hinv
  exact ⟨hinv, law_put _ hinv hc (hf c).1 hmem hclose hclean⟩

theorem ctxClientValueSet_frame (index : Nat) (value freeValue : Option Nat) (c : ClientCtx) :
    (ctxClientValueSet index value freeValue c).1.uuid = c.uuid ∧
      (ctxClientValueSet index value freeValue c).1.refcount = c.refcount := by
  unfold ctxClientValueSet
  split <;> exact ⟨rfl, rfl⟩

theorem ctxClientCookieSet_frame (allocated : Bool) (key : Nat) (value freeValue : Option Nat)
    (c : ClientCtx) :
    (ctxClientCookieSet allocated key value freeValue c).1.uuid = c.uuid ∧
      (ctxClientCookieSet allocated key value freeValue c).1.refcount = c.refcount := by
  unfold ctxClientCookieSet
  split
  · exact ⟨rfl, rfl⟩
  · split <;> exact ⟨rfl, rfl⟩

theorem step_addRef {w : World} (hw : Inv w) {client : Nat}
    (hlive : (w.store.mem client).isSome) :
    Inv (exec w (.addRef client)) ∧ LifetimeLaw w (.addRef client) (exec w (.addRef client)) := by
  obtain ⟨c, hc⟩ := Option.isSome_iff_exists.mp hlive
  have hstore : ctxClientAddRef client w.store =
      w.store.put client { c with refcount := c.refcount + 1 } := by
    simp [ctxClientAddRef, hc]
  have hinv : Inv (exec w (.addRef client)) := by
    simp only [exec, grant, hstore]
    exact inv_put hw (by rw [hw.referenced client c hc]) (fun _ => by omega)
      (wf_put hw.wf hc (Or.inl rfl)) rfl
  refine ⟨hinv, law_put { c with refcount := c.refcount + 1 } hinv hc rfl ?_
    (by simp) rfl⟩
  simp only [exec, hstore, put_mem]

theorem step_unref {w : World} (hw : Inv w) {client : Nat} (hheld : 0 < w.held client) :
    Inv (exec w (.unref client)) ∧ LifetimeLaw w (.unref client) (exec w (.unref client)) := by
  cases hc : w.store.mem client with
  | none =>
      have := hw.unheld client hc
      omega
  | some c =>
      have href := hw.referenced client c hc
      by_cases hlast : c.refcount - 1 = 0 ∧ c.uuid = []
      · -- the last reference of a closed context
        have hstore : (exec w (.unref client)).store =
            ctxDelete client (w.store.put client { c with refcount := c.refcount - 1 }) :=
          ctxClientUnref_last hc hlast
        have hmem : (exec w (.unref client)).store.mem =
            Function.update w.store.mem client none := ctxClientUnref_last_mem hc hlast
        have hwf : Wf (exec w (.unref client)).store := by
          rw [hstore]
          exact wf_ctxDelete (wf_put hw.wf hc (Or.inl rfl)) (Function.update_self ..)
        have hinv : Inv (exec w (.unref client)) := by
          have h := inv_free hw hwf hmem
          have hz : w.held client - 1 = 0 := by omega
          simpa only [exec, hz] using h
        refine ⟨hinv, fun a x hx => ?_⟩
        by_cases ha : a = client
        · subst ha
          rw [hc] at hx
          cases hx
          exact law_freed (by rw [hmem, Function.update_self]) (Or.inl hlast.2) hinv
        · refine law_kept x (by rw [hmem, Function.update_of_ne ha, hx]) ?_ hinv
          rw [closes_iff (by simp) rfl]
      · have hstore : (exec w (.unref client)).store =
            w.store.put client { c with refcount := c.refcount - 1 } :=
          ctxClientUnref_kept hc hlast
        have hmem : (exec w (.unref client)).store.mem =
            Function.update w.store.mem client (some { c with refcount := c.refcount - 1 }) := by
          rw [hstore, put_mem]
        have hwf : Wf (exec w (.unref client)).store := by
          rw [hstore]
          exact wf_put hw.wf hc (Or.inl rfl)
        have hinv : Inv (exec w (.unref client)) := by
          refine inv_put hw (n := w.held client - 1) (by simp only; omega) ?_ hwf hmem
          intro hu hz
          exact hlast ⟨by omega, hu⟩
        exact ⟨hinv, law_put { c with refcount := c.refcount - 1 } hinv hc rfl hmem
          (by simp) rfl⟩

theorem step_close {w : World} (hw : Inv w) {client : Nat}
    (hlive : (w.store.mem client).isSome) :
    Inv (exec w (.close client)) ∧ LifetimeLaw w (.close client) (exec w (.close client)) := by
  obtain ⟨c, hc⟩ := Option.isSome_iff_exists.mp hlive
  by_cases hu : c.uuid = []
  · have heq : exec w (.close client) = w := by
      simp only [exec, ctxClientClose_closed hc hu]
    rw [heq]
    refine ⟨hw, fun a x hx => law_kept _ hx ?_ hw⟩
    by_cases ha : a = client
    · subst ha
      rw [hc] at hx
      cases hx
      simp [Closes, hu]
    · simp [Closes, Ne.symm ha, Action.cleans]
  · have hmem := ctxClientClose_mem hc hu
    have hwf := wf_ctxClientClose hw.wf client
    have href := hw.referenced client c hc
    have hinv : Inv (exec w (.close client)) := by
      by_cases hr : c.refcount = 0
      · rw [if_pos hr] at hmem
        have h := inv_free hw hwf hmem
        have hz : Function.update w.held client 0 = w.held := by
          rw [← hr, href, Function.update_eq_self]
        rwa [hz] at h
      · rw [if_neg hr] at hmem
        have h := inv_put hw (n := w.held client) (by rw [closedCtx_refcount, href])
          (fun _ => by omega) hwf hmem
        rwa [Function.update_eq_self] at h
    refine ⟨hinv, fun a x hx => ?_⟩
    by_cases ha : a = client
    · subst ha
      rw [hc] at hx
      cases hx
      by_cases hr : c.refcount = 0
      · refine law_freed ?_ (Or.inr (Or.inl rfl)) hinv
        simp only [exec, hmem, if_pos hr, Function.update_self]
      · refine law_kept (closedCtx w.store.apicount c) ?_ (by simp [Closes]) hinv
        simp only [exec, hmem, if_neg hr, Function.update_self]
    · refine law_kept x ?_ (by simp [Closes, Ne.symm ha, Action.cleans]) hinv
      simp only [exec, hmem, Function.update_of_ne ha, hx]

/-! ## Creations and searches -/

theorem inv_cleanUp {w : World} (hw : Inv w) :
    Inv { w with store := ctxStoreCleanUp w.now w.store } := by
  obtain ⟨hwf, -, -, hmem⟩ := ctxStoreCleanUp_spec w.now hw.wf
  refine ⟨hwf, ?_, ?_, ?_⟩
  · intro a x hx
    rw [hmem a] at hx
    cases hc : w.store.mem a with
    | none => simp [hc] at hx
    | some c =>
        rw [hc, Option.bind_some, expireCtx] at hx
        rw [← hw.referenced a c hc]
        split at hx
        · split at hx
          · cases hx
          · cases hx
            exact closedCtx_refcount _ _
        · cases hx
          rfl
  · intro a ha
    rw [hmem a] at ha
    cases hc : w.store.mem a with
    | none => exact hw.unheld a hc
    | some c =>
        rw [hc, Option.bind_some, expireCtx] at ha
        show w.held a = 0
        rw [← hw.referenced a c hc]
        split at ha
        · split at ha
          · assumption
          · cases ha
        · cases ha
  · intro a x hx hu
    rw [hmem a] at hx
    cases hc : w.store.mem a with
    | none => simp [hc] at hx
    | some c =>
        rw [hc, Option.bind_some, expireCtx] at hx
        show w.held a ≠ 0
        split at hx
        · rw [← hw.referenced a c hc]
          split at hx
          · cases hx
          · assumption
        · cases hx
          exact hw.alive a x hc hu

/-- The law of a step that cleans up and then keeps the text of what is left. -/
theorem law_cleaned {w w' : World} {act : Action} (hw : Inv w) (hclean : act.cleans = true)
    (hinv : Inv w')
    (hkept : ∀ a, a < w.store.next →
      w'.store.mem a = (ctxStoreCleanUp w.now w.store).mem a ∨
      ∃ c c', (ctxStoreCleanUp w.now w.store).mem a = some c ∧ w'.store.mem a = some c' ∧
        c'.uuid = c.uuid) :
    LifetimeLaw w act w' := by
  intro a c hc
  obtain ⟨-, -, -, hmem⟩ := ctxStoreCleanUp_spec w.now hw.wf
  have ha := hmem a
  rw [hc, Option.bind_some] at ha
  have hnotClose : act ≠ .close a := by
    rintro rfl
    cases hclean
  cases hexp : expireCtx w.store.apicount w.now c with
  | none =>
      rw [hexp] at ha
      have hold : c.expiration < w.now := by
        unfold expireCtx at hexp
        split at hexp
        · rename_i h
          exact h.2
        · cases hexp
      have hnone : w'.store.mem a = none := by
        rcases hkept a (lt_next_of_mem hw.wf hc) with h | ⟨x, y, hx, -, -⟩
        · rw [h, ha]
        · rw [ha] at hx
          cases hx
      exact law_freed hnone (Or.inr (Or.inr ⟨hclean, by simpa [ctxStoreTooOld] using hold⟩)) hinv
  | some x =>
      rw [hexp] at ha
      have hx : x.uuid = [] ↔ Closes w act a c := by
        unfold expireCtx at hexp
        split at hexp
        · rename_i h
          split at hexp
          · cases hexp
          · cases hexp
            simp [Closes, hclean, ctxStoreTooOld, h.2]
        · rename_i h
          cases hexp
          simp only [Closes, hnotClose, hclean, ctxStoreTooOld, decide_eq_true_eq, true_and,
            false_or]
          constructor
          · exact Or.inl
          · rintro (hu | hold)
            · exact hu
            · by_contra hu
              exact h ⟨hu, hold⟩
      rcases hkept a (lt_next_of_mem hw.wf hc) with h | ⟨y, z, hy, hz, huz⟩
      · exact law_kept x (h.trans ha) hx hinv
      · rw [ha] at hy
        cases hy
        exact law_kept _ hz (by rw [huz, hx]) hinv

theorem generates_cleanUp {w : World} (hw : Inv w) {generated : Bytes}
    (hgen : Generates generated w.store) :
    Generates generated (ctxStoreCleanUp w.now w.store) := by
  obtain ⟨-, -, -, hmem⟩ := ctxStoreCleanUp_spec w.now hw.wf
  refine ⟨hgen.1, hgen.2.1, ?_⟩
  intro a x hx
  rw [hmem a] at hx
  cases hc : w.store.mem a with
  | none => simp [hc] at hx
  | some c =>
      rw [hc, Option.bind_some, expireCtx] at hx
      split at hx
      · split at hx
        · cases hx
        · cases hx
          rw [closedCtx_uuid]
          exact Ne.symm hgen.1
      · cases hx
        exact hgen.2.2 a x hc

theorem inv_newContext {w : World} (hw : Inv w) {slots : List (Option Nat)}
    (hfill : Slots.fill w.store.next w.store.slots = some slots) {c : ClientCtx}
    (hone : c.refcount = 1)
    (hfresh : ∀ a c', w.store.mem a = some c' → c'.uuid = c.uuid → c.uuid = []) :
    Inv { w with
      store := { w.store.put w.store.next c with
        next := w.store.next + 1, slots := slots, count := w.store.count + 1 }
      held := grant w.held (.ok w.store.next) } := by
  have hheld := hw.unheld _ (hw.wf.unallocated _ (Nat.le_refl _))
  exact inv_put hw (by rw [hone, hheld]) (fun _ => by omega) (wf_newContext hw.wf hfill hfresh) rfl

/-- `new_context` on a store where the given text is unused. -/
theorem step_newContext {w : World} (hw : Inv w) (allocated : Bool) {generated : Bytes}
    {uuid : Option Bytes} (timeout : Int) (hgen : Generates generated w.store)
    (hunused : ∀ u, uuid = some u → ∀ a c, w.store.mem a = some c → c.uuid ≠ u) :
    let r := newContext allocated generated uuid timeout w.now w.store
    Inv { w with store := r.2, held := grant w.held r.1 } ∧
      ∀ a, a < w.store.next → r.2.mem a = w.store.mem a := by
  dsimp only
  rcases newContext_cases allocated generated uuid timeout w.now w.store with ⟨e, he⟩ |
    ⟨slots, hfill, -, hok⟩
  · rw [he]
    exact ⟨hw, fun _ _ => rfl⟩
  · rw [hok]
    refine ⟨inv_newContext hw hfill rfl ?_, fun a ha => ?_⟩
    · intro a c hc hu
      cases uuid with
      | none => exact absurd hu (hgen.2.2 a c hc)
      | some u => exact absurd hu (hunused u rfl a c hc)
    · exact Function.update_of_ne (Nat.ne_of_lt ha) _ _

theorem unused_of_search {s : Store} (hs : Wf s) {uuid : Option Bytes}
    (h : uuid.bind (fun u => ctxStoreSearch u s) = none) :
    ∀ u, uuid = some u → ∀ a c, s.mem a = some c → c.uuid ≠ u := by
  rintro u rfl a c hc
  exact ctxStoreSearch_none hs h hc

theorem step_create {w : World} (hw : Inv w) (allocated : Bool) {generated : Bytes}
    (uuid : Option Bytes) (timeout : Int) (hgen : Generates generated w.store) :
    Inv (exec w (.create allocated generated uuid timeout)) ∧
      LifetimeLaw w (.create allocated generated uuid timeout)
        (exec w (.create allocated generated uuid timeout)) := by
  have hclean := inv_cleanUp hw
  have hnext := (ctxStoreCleanUp_spec w.now hw.wf).2.2.1
  have hboth : Inv (exec w (.create allocated generated uuid timeout)) ∧
      ∀ a, a < w.store.next → (exec w (.create allocated generated uuid timeout)).store.mem a =
        (ctxStoreCleanUp w.now w.store).mem a := by
    simp only [exec, ctxClientCreate]
    cases hsearch : uuid.bind (fun u => ctxStoreSearch u (ctxStoreCleanUp w.now w.store)) with
    | some client => exact ⟨hclean, fun _ _ => rfl⟩
    | none =>
        have h := step_newContext hclean allocated timeout (generates_cleanUp hw hgen)
          (unused_of_search hclean.wf hsearch)
        exact ⟨h.1, fun a ha => h.2 a (by rw [hnext]; exact ha)⟩
  exact ⟨hboth.1, law_cleaned hw rfl hboth.1 (fun a ha => Or.inl (hboth.2 a ha))⟩

theorem step_getSession {w : World} (hw : Inv w) (allocated : Bool) {generated : Bytes}
    (uuid : Option Bytes) (hgen : Generates generated w.store) :
    Inv (exec w (.getSession allocated generated uuid)) ∧
      LifetimeLaw w (.getSession allocated generated uuid)
        (exec w (.getSession allocated generated uuid)) := by
  have hclean := inv_cleanUp hw
  have hnext := (ctxStoreCleanUp_spec w.now hw.wf).2.2.1
  cases hsearch : uuid.bind (fun u => ctxStoreSearch u (ctxStoreCleanUp w.now w.store)) with
  | none =>
      have h := step_newContext hclean allocated (ctxStoreCleanUp w.now w.store).timeout
        (generates_cleanUp hw hgen) (unused_of_search hclean.wf hsearch)
      have heq : exec w (.getSession allocated generated uuid) =
          { w with
            store := (newContext allocated generated uuid (ctxStoreCleanUp w.now w.store).timeout
              w.now (ctxStoreCleanUp w.now w.store)).2
            held := grant w.held (newContext allocated generated uuid
              (ctxStoreCleanUp w.now w.store).timeout w.now (ctxStoreCleanUp w.now w.store)).1 } := by
        simp only [exec, ctxClientGetSession, hsearch]
      rw [heq]
      exact ⟨h.1, law_cleaned hw rfl h.1 (fun a ha =>
        Or.inl (h.2 a (by rw [hnext]; exact ha)))⟩
  | some client =>
      obtain ⟨u, -, hu⟩ := Option.bind_eq_some_iff.mp hsearch
      obtain ⟨c, hc, -⟩ := ctxStoreSearch_some hu
      have heq : exec w (.getSession allocated generated uuid) =
          { w with
            store := (ctxStoreCleanUp w.now w.store).put client
              { c with access := w.now, refcount := c.refcount + 1 }
            held := grant w.held (.ok client) } := by
        simp only [exec, ctxClientGetSession, hsearch, hc]
      have hinv : Inv (exec w (.getSession allocated generated uuid)) := by
        rw [heq]
        exact inv_put hclean (by rw [← hclean.referenced client c hc]) (fun _ => by omega)
          (wf_put hclean.wf hc (Or.inl rfl)) rfl
      refine ⟨hinv, law_cleaned hw rfl hinv (fun a _ => ?_)⟩
      rw [heq]
      simp only [put_mem, Function.update_apply]
      split
      · rename_i ha
        subst ha
        exact Or.inr ⟨c, _, hc, rfl, rfl⟩
      · exact Or.inl rfl

/-! ## All steps and all runs -/

theorem inv_step {w w' : World} {act : Action} (hw : Inv w) (h : Step w act w') :
    Inv w' ∧ LifetimeLaw w act w' := by
  obtain ⟨hallowed, rfl⟩ := h
  cases act with
  | create allocated generated uuid timeout => exact step_create hw allocated uuid timeout hallowed
  | getSession allocated generated uuid => exact step_getSession hw allocated uuid hallowed
  | addRef client => exact step_addRef hw hallowed
  | unref client => exact step_unref hw hallowed
  | close client => exact step_close hw hallowed
  | tokenNew client generated =>
      exact step_modify hw _ (fun _ => ⟨rfl, rfl⟩) hallowed (by simp) rfl
  | setLOA client loa => exact step_modify hw _ (fun _ => ⟨rfl, rfl⟩) hallowed (by simp) rfl
  | valueSet client index value freeValue =>
      exact step_modify hw _ (ctxClientValueSet_frame index value freeValue) hallowed (by simp) rfl
  | cookieSet client allocated key value freeValue =>
      exact step_modify hw _ (ctxClientCookieSet_frame allocated key value freeValue) hallowed
        (by simp) rfl
  | advance delay =>
      have hinv : Inv (exec w (.advance delay)) :=
        ⟨hw.wf, hw.referenced, hw.unheld, hw.alive⟩
      refine ⟨hinv, fun a c hc => law_kept _ hc ?_ hinv⟩
      rw [closes_iff (by simp) rfl]

theorem sameConfig_newContext (allocated : Bool) (generated : Bytes) (uuid : Option Bytes)
    (timeout now : Int) (s : Store) :
    SameConfig s (newContext allocated generated uuid timeout now s).2 := by
  rcases newContext_cases allocated generated uuid timeout now s with ⟨e, he⟩ |
    ⟨slots, hfill, -, hok⟩
  · rw [he]
    exact SameConfig.refl s
  · rw [hok]
    exact ⟨Slots.length_fill hfill, rfl, rfl, rfl, rfl⟩

theorem sameConfig_modify (s : Store) (client : Nat) (f : ClientCtx → ClientCtx × List Release) :
    SameConfig s (s.modify client f) := by
  unfold Store.modify
  split <;> exact ⟨rfl, rfl, rfl, rfl, rfl⟩

/-- The parameters of the store are those it was created with. -/
theorem sameConfig_step {w w' : World} {act : Action} (hw : Inv w) (h : Step w act w') :
    SameConfig w.store w'.store := by
  obtain ⟨-, rfl⟩ := h
  have hclean := (ctxStoreCleanUp_spec w.now hw.wf).2.1
  cases act with
  | create allocated generated uuid timeout =>
      simp only [exec, ctxClientCreate]
      split
      · exact hclean
      · exact hclean.trans (sameConfig_newContext ..)
  | getSession allocated generated uuid =>
      simp only [exec, ctxClientGetSession]
      split
      · split
        · exact hclean.trans ⟨rfl, rfl, rfl, rfl, rfl⟩
        · exact hclean
      · exact hclean.trans (sameConfig_newContext ..)
  | addRef client =>
      simp only [exec, ctxClientAddRef]
      split <;> exact ⟨rfl, rfl, rfl, rfl, rfl⟩
  | unref client =>
      simp only [exec, ctxClientUnref]
      split
      · exact SameConfig.refl _
      · split
        · rename_i c hc hlast
          have hput : SameConfig w.store (w.store.put client { c with refcount := c.refcount - 1 }) :=
            ⟨rfl, rfl, rfl, rfl, rfl⟩
          exact hput.trans (sameConfig_ctxDelete _ client)
        · exact ⟨rfl, rfl, rfl, rfl, rfl⟩
  | close client => exact sameConfig_ctxClientClose w.store client
  | tokenNew client generated => exact sameConfig_modify ..
  | setLOA client loa => exact sameConfig_modify ..
  | valueSet client index value freeValue => exact sameConfig_modify ..
  | cookieSet client allocated key value freeValue => exact sameConfig_modify ..
  | advance delay => exact SameConfig.refl _

/-- Every state that the users can reach meets the invariant, with the parameters
of the store unchanged. -/
theorem runs_inv {w₀ w : World} {ts : List (Transition World Action)}
    (hrun : Runs Step w₀ w ts) (hinit : Inv w₀) : Inv w ∧ SameConfig w₀.store w.store := by
  apply hrun.invariant (fun w => Inv w ∧ SameConfig w₀.store w.store)
  · intro w₁ act w₂ h hstep
    exact ⟨(inv_step h.1 hstep).1, h.2.trans (sameConfig_step h.1 hstep)⟩
  · exact ⟨hinit, SameConfig.refl _⟩

/-- The state of the store between two operations. -/
structure StoreConsistent (maxSessionCount : Nat) (w : World) : Prop where
  count : w.store.count = Slots.occupied w.store.slots
  bounded : w.store.count ≤ maxSessionCount
  slotOnce : ∀ (i j a : Nat), w.store.slots[i]? = some (some a) →
    w.store.slots[j]? = some (some a) → i = j
  uuidOnce : ∀ (i j a b : Nat) (c c' : ClientCtx), w.store.slots[i]? = some (some a) →
    w.store.slots[j]? = some (some b) → w.store.mem a = some c → w.store.mem b = some c' →
    c.uuid = c'.uuid → c.uuid ≠ [] → i = j
  stored : ∀ (a : Nat) (c : ClientCtx), w.store.mem a = some c →
    ∃ i : Nat, w.store.slots[i]? = some (some a)
  allocated : ∀ (i a : Nat), w.store.slots[i]? = some (some a) → (w.store.mem a).isSome
  alive : ∀ (a : Nat) (c : ClientCtx), w.store.mem a = some c → ¬ (c.uuid = [] ∧ w.held a = 0)
  referenced : ∀ a : Nat, 0 < w.held a → (w.store.mem a).isSome

theorem slot_unique {s : Store} (hs : Wf s) {i j a : Nat} (hi : s.slots[i]? = some (some a))
    (hj : s.slots[j]? = some (some a)) : i = j := by
  apply Slots.index_unique _ hi hj
  rw [hs.stored a]
  split <;> omega

theorem slot_allocated {s : Store} (hs : Wf s) {i a : Nat} (hi : s.slots[i]? = some (some a)) :
    (s.mem a).isSome := by
  by_contra hnone
  exact not_mem_slots hs (by simpa using hnone) (List.mem_of_getElem? hi)

theorem consistent_of_inv {w : World} (hw : Inv w) : StoreConsistent w.store.slots.length w where
  count := hw.wf.count
  bounded := by
    rw [hw.wf.count]
    exact_mod_cast Slots.occupied_le_length w.store.slots
  slotOnce := fun _ _ _ hi hj => slot_unique hw.wf hi hj
  uuidOnce := by
    intro i j a b c c' hi hj hc hc' hu hne
    have hab : a = b := hw.wf.uuids a b c c' hc hc' hu hne
    subst hab
    exact slot_unique hw.wf hi hj
  stored := fun a c hc => List.getElem?_of_mem (mem_slots_of_mem hw.wf hc)
  allocated := fun _ _ hi => slot_allocated hw.wf hi
  alive := fun a c hc h => hw.alive a c hc h.1 h.2
  referenced := by
    intro a hheld
    by_contra hnone
    have hzero := hw.unheld a (by simpa using hnone)
    omega

/-- Over every run: the store is consistent in every state, a context lives exactly
until the first step that leaves it closed and unreferenced, and from what the expiry
clean-up left a creation takes one empty slot, or changes nothing when it fails. -/
theorem session_store_lifetime (maxSessionCount : Nat) (timeout : Int) (initok : Bytes)
    (contextCount timeBits : Nat) (now : Int) {w : World} {ts : List (Transition World Action)}
    (hrun : Runs Step (World.init maxSessionCount timeout initok contextCount timeBits now) w ts) :
    StoreConsistent maxSessionCount w ∧
      (∀ t ∈ ts, LifetimeLaw t.before t.action t.after) ∧
      (∀ allocated generated uuid timeout' client s',
        ctxClientCreate allocated generated uuid timeout' w.now w.store = (.ok client, s') →
          TakesSlot (ctxStoreCleanUp w.now w.store) client s') ∧
      (∀ allocated generated uuid client s',
        ctxClientGetSession allocated generated uuid w.now w.store = (.ok client, true, s') →
          TakesSlot (ctxStoreCleanUp w.now w.store) client s') ∧
      (∀ allocated generated uuid timeout' e s',
        ctxClientCreate allocated generated uuid timeout' w.now w.store = (.error e, s') →
          s' = ctxStoreCleanUp w.now w.store) ∧
      (∀ allocated generated uuid created e s',
        ctxClientGetSession allocated generated uuid w.now w.store = (.error e, created, s') →
          s' = ctxStoreCleanUp w.now w.store) := by
  have hinit := inv_init maxSessionCount timeout initok contextCount timeBits now
  have hw := runs_inv hrun hinit
  have hlength : w.store.slots.length = maxSessionCount := by
    rw [hw.2.length]
    simp [World.init, ctxStoreInit]
  have hcleaned := (ctxStoreCleanUp_spec w.now hw.1.wf).1
  refine ⟨hlength ▸ consistent_of_inv hw.1, ?_,
    fun _ _ _ _ _ _ h => ctxClientCreate_takesSlot hcleaned h,
    fun _ _ _ _ _ h => ctxClientGetSession_takesSlot hcleaned h,
    fun _ _ _ _ _ _ h => ctxClientCreate_error h,
    fun _ _ _ _ _ _ h => ctxClientGetSession_error h⟩
  intro t ht
  obtain ⟨hstep, us, -, hbefore⟩ := hrun.mem_spec ht
  exact (inv_step (runs_inv hbefore hinit).1 hstep).2

/-- A session is created, closed, and freed by the release of its only reference. -/
theorem session_store_lifetime_closed :
    ∃ (w : World) (ts : List (Transition World Action)),
      Runs Step (World.init 1 3600 [] 0 64 0) w ts ∧ ts.length = 3 ∧
        w.store.mem 0 = none ∧ w.store.slots = [none] ∧ StoreConsistent 1 w := by
  have hgen : Generates [97] (World.init 1 3600 [] 0 64 0).store :=
    ⟨by decide, by decide, by intro a c hc; cases hc⟩
  have hrun := ((Runs.refl : Runs Step (World.init 1 3600 [] 0 64 0) _ []).snoc
    (step_exec (.create true [97] none 3600) hgen)).snoc (step_exec (.close 0) rfl) |>.snoc
    (step_exec (.unref 0) (by show 0 < _; decide))
  exact ⟨_, _, hrun, rfl, rfl, rfl, (session_store_lifetime 1 3600 [] 0 64 0 hrun).1⟩

end AfbBinder.Session
