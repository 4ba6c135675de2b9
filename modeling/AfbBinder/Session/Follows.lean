import AfbBinder.Session.Lifetime

/-!
# The sessions before and after an action

An action rewrites, closes or frees the sessions of the store and makes at most one new.
A relation between a session and what becomes of it therefore holds along an action as soon
as it holds of the few changes that the operations make.
-/

namespace AfbBinder.Session

open Lib

/-- Each session of `s'` is one of `s`, and is related to what it was. -/
def Follows (related : ClientCtx → ClientCtx → Prop) (s s' : Store) : Prop :=
  ∀ a x', s'.mem a = some x' → ∃ x, s.mem a = some x ∧ related x x'

/-- Each session of `s'` is one of `s`, or a new one. -/
def Grows (related : ClientCtx → ClientCtx → Prop) (fresh : ClientCtx → Prop)
    (s s' : Store) : Prop :=
  ∀ a x', s'.mem a = some x' →
    (∃ x, s.mem a = some x ∧ related x x') ∨ (s.mem a = none ∧ fresh x')

/-- A relation that allows the changes made to any session of the store. -/
structure Tolerant (s : Store) (related : ClientCtx → ClientCtx → Prop) : Prop where
  refl : ∀ x, related x x
  trans : ∀ x y z, related x y → related y z → related x z
  counted : ∀ x refcount access,
    related x { x with refcount := refcount, access := access }
  closed : ∀ a x, s.mem a = some x → x.uuid ≠ [] → related x (closedCtx s.apicount x)

/-- The function that an action applies to one session. -/
def Action.edit (timeBits : Nat) (now : Int) : Action → Option (Nat × (ClientCtx → ClientCtx × List Release))
  | .tokenNew client generated => some (client, fun c => (ctxTokenNew timeBits generated now c, []))
  | .setLOA client loa => some (client, fun c => (ctxClientSetLOA loa c, []))
  | .valueSet client index value freeValue =>
      some (client, ctxClientValueSet index value freeValue)
  | .cookieSet client allocated key value freeValue =>
      some (client, ctxClientCookieSet allocated key value freeValue)
  | _ => none

variable {s s' s'' : Store} {client : Nat} {c : ClientCtx}
variable {related : ClientCtx → ClientCtx → Prop} {fresh : ClientCtx → Prop}

theorem Follows.refl (hrefl : ∀ x, related x x) (s : Store) : Follows related s s := by
  intro a x hx
  exact ⟨x, hx, hrefl x⟩

theorem Follows.trans (htrans : ∀ x y z, related x y → related y z → related x z)
    (h : Follows related s s') (h' : Follows related s' s'') : Follows related s s'' := by
  intro a x'' hx''
  obtain ⟨x', hx', hnext⟩ := h' a x'' hx''
  obtain ⟨x, hx, hfirst⟩ := h a x' hx'
  exact ⟨x, hx, htrans _ _ _ hfirst hnext⟩

theorem Follows.grows (h : Follows related s s') : Grows related fresh s s' := by
  intro a x' hx'
  exact .inl (h a x' hx')

/-! ## The operations -/

theorem follows_update (hrefl : ∀ x, related x x) {m : Option ClientCtx}
    (hmem : s'.mem = Function.update s.mem client m)
    (h : ∀ x', m = some x' → ∃ x, s.mem client = some x ∧ related x x') :
    Follows related s s' := by
  intro a x' hx'
  rw [hmem, Function.update_apply] at hx'
  split at hx'
  case isTrue ha =>
    rw [ha]
    exact h x' hx'
  case isFalse => exact ⟨x', hx', hrefl x'⟩

theorem follows_rewrite (hrefl : ∀ x, related x x) {c' : ClientCtx}
    (hmem : s'.mem = Function.update s.mem client (some c')) (hc : s.mem client = some c)
    (hrelated : related c c') : Follows related s s' := by
  apply follows_update hrefl hmem
  rintro x' ⟨⟩
  exact ⟨c, hc, hrelated⟩

theorem follows_modify (hrefl : ∀ x, related x x)
    {f : ClientCtx → ClientCtx × List Release}
    (hf : ∀ c, s.mem client = some c → related c (f c).1) :
    Follows related s (s.modify client f) := by
  cases hc : s.mem client with
  | none =>
      rw [Store.modify, hc]
      exact Follows.refl hrefl s
  | some c =>
      rw [Store.modify, hc]
      exact follows_rewrite hrefl (put_mem s client (f c).1) hc (hf c hc)

theorem follows_addRef (h : Tolerant s related) (client : Nat) :
    Follows related s (ctxClientAddRef client s) := by
  cases hc : s.mem client with
  | none =>
      rw [ctxClientAddRef, hc]
      exact Follows.refl h.refl s
  | some c =>
      rw [ctxClientAddRef, hc]
      exact follows_rewrite h.refl (put_mem ..) hc (h.counted c _ _)

theorem follows_unref (h : Tolerant s related) (client : Nat) :
    Follows related s (ctxClientUnref client s) := by
  cases hc : s.mem client with
  | none =>
      rw [ctxClientUnref, hc]
      exact Follows.refl h.refl s
  | some c =>
      by_cases hlast : c.refcount - 1 = 0 ∧ c.uuid = []
      · exact follows_update h.refl (ctxClientUnref_last_mem hc hlast)
          (fun x' hx' => absurd hx'.symm (Option.some_ne_none x'))
      · have hmem : (ctxClientUnref client s).mem =
            Function.update s.mem client (some { c with refcount := c.refcount - 1 }) := by
          rw [ctxClientUnref_kept hc hlast, put_mem]
        exact follows_rewrite h.refl hmem hc (h.counted c _ _)

theorem follows_close (h : Tolerant s related) (client : Nat) :
    Follows related s (ctxClientClose client s) := by
  cases hc : s.mem client with
  | none =>
      rw [ctxClientClose, hc]
      exact Follows.refl h.refl s
  | some c =>
      by_cases hu : c.uuid = []
      · rw [ctxClientClose_closed hc hu]
        exact Follows.refl h.refl s
      · apply follows_update h.refl (ctxClientClose_mem hc hu)
        intro x' hx'
        split at hx'
        · cases hx'
        · cases hx'
          exact ⟨c, hc, h.closed client c hc hu⟩

theorem follows_cleanUp (hwf : Wf s) (h : Tolerant s related) (now : Int) :
    Follows related s (ctxStoreCleanUp now s) := by
  obtain ⟨-, -, -, hmem⟩ := ctxStoreCleanUp_spec now hwf
  intro a x' hx'
  rw [hmem a] at hx'
  obtain ⟨x, hx, hexpire⟩ := Option.bind_eq_some_iff.mp hx'
  refine ⟨x, hx, ?_⟩
  rw [expireCtx] at hexpire
  split at hexpire
  case isTrue hold =>
    split at hexpire
    · cases hexpire
    · cases hexpire
      exact h.closed a x hx hold.1
  case isFalse =>
    cases hexpire
    exact h.refl _

theorem grows_cleanUp_newContext (hwf : Wf s) (h : Tolerant s related) (allocated : Bool)
    (generated : Bytes) (uuid : Option Bytes) (timeout now : Int)
    (hfresh : fresh (freshCtx generated uuid timeout now (ctxStoreCleanUp now s))) :
    Grows related fresh s
      (newContext allocated generated uuid timeout now (ctxStoreCleanUp now s)).2 := by
  have hclean := follows_cleanUp hwf h now
  have hnext := (ctxStoreCleanUp_spec now hwf).2.2.1
  rcases newContext_cases allocated generated uuid timeout now (ctxStoreCleanUp now s) with
    ⟨e, he⟩ | ⟨slots, -, -, hok⟩
  · rw [he]
    exact hclean.grows
  · rw [hok]
    intro a x' hx'
    rw [put_mem, Function.update_apply] at hx'
    split at hx'
    case isTrue ha =>
      cases hx'
      rw [ha, hnext]
      exact .inr ⟨hwf.unallocated s.next (Nat.le_refl _), hfresh⟩
    case isFalse => exact .inl (hclean a x' hx')

/-- All the actions, given what the one at hand does to the session that it edits. -/
theorem grows_exec {w : World} (hw : Inv w) (h : Tolerant w.store related) {act : Action}
    (hedit : ∀ client f, act.edit w.store.timeBits w.now = some (client, f) →
      ∀ c, w.store.mem client = some c → related c (f c).1)
    (hfresh : ∀ generated uuid timeout,
      fresh (freshCtx generated uuid timeout w.now (ctxStoreCleanUp w.now w.store))) :
    Grows related fresh w.store (exec w act).store := by
  have hclean := follows_cleanUp hw.wf h w.now
  cases act with
  | create allocated generated uuid timeout =>
      simp only [exec, ctxClientCreate]
      split
      · exact hclean.grows
      · exact grows_cleanUp_newContext hw.wf h _ _ _ _ _ (hfresh ..)
  | getSession allocated generated uuid =>
      simp only [exec, ctxClientGetSession]
      split
      · split
        case h_1 c hc =>
          apply Follows.grows
          apply hclean.trans h.trans
          exact follows_rewrite h.refl (put_mem ..) hc (h.counted c _ _)
        case h_2 => exact hclean.grows
      · exact grows_cleanUp_newContext hw.wf h _ _ _ _ _ (hfresh ..)
  | addRef client => exact (follows_addRef h client).grows
  | unref client => exact (follows_unref h client).grows
  | close client => exact (follows_close h client).grows
  | tokenNew client generated => exact (follows_modify h.refl (hedit _ _ rfl)).grows
  | setLOA client loa => exact (follows_modify h.refl (hedit _ _ rfl)).grows
  | valueSet client index value freeValue =>
      exact (follows_modify h.refl (hedit _ _ rfl)).grows
  | cookieSet client allocated key value freeValue =>
      exact (follows_modify h.refl (hedit _ _ rfl)).grows
  | advance delay => exact (Follows.refl h.refl w.store).grows

end AfbBinder.Session
