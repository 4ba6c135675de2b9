import AfbBinder.Session.Contents
import AfbBinder.Session.Follows

/-!
# What a session keeps

The operations of the store that are not made for a value leave the values of a session as
they are, except those that create it or close it: then the slots of all the APIs are empty.
-/

namespace AfbBinder.Session

open Lib

/-- The slots of a session for which nothing is stored. -/
def ClientCtx.Blank (apicount : Nat) (x : ClientCtx) : Prop :=
  x.values = List.replicate apicount ⟨none, none⟩

/-- The same values in a session that is open as the other is. -/
def Kept (x x' : ClientCtx) : Prop := x'.values = x.values ∧ (x'.uuid = [] ↔ x.uuid = [])

/-- A session keeps its values or is closed. -/
def Continues (apicount : Nat) (x x' : ClientCtx) : Prop :=
  Kept x x' ∨ (x.uuid ≠ [] ∧ x'.uuid = [] ∧ x'.Blank apicount)

/-- Each session of `s'` is one of `s` that goes on. -/
def Lasts (s s' : Store) : Prop :=
  ∀ a x', s'.mem a = some x' → ∃ x, s.mem a = some x ∧ Continues s.apicount x x'

/-- Each session of `s'` is one of `s` that goes on, or a new one. -/
def Carries (s s' : Store) : Prop :=
  ∀ a x', s'.mem a = some x' →
    (∃ x, s.mem a = some x ∧ Continues s.apicount x x') ∨ (s.mem a = none ∧ x'.Blank s.apicount)

/-- Every session has one slot for each API. -/
def Sized (s : Store) : Prop := ∀ a x, s.mem a = some x → x.values.length = s.apicount

variable {s s' s'' : Store} {client : Nat} {c : ClientCtx}

theorem Kept.refl (x : ClientCtx) : Kept x x := ⟨rfl, Iff.rfl⟩

theorem Continues.trans {apicount : Nat} {x x' x'' : ClientCtx} (h : Continues apicount x x')
    (h' : Continues apicount x' x'') : Continues apicount x x'' := by
  rcases h with hkept | ⟨hopen, hclosed, hblank⟩
  · rcases h' with hkept' | ⟨hopen', hclosed', hblank'⟩
    · exact .inl ⟨hkept'.1.trans hkept.1, hkept'.2.trans hkept.2⟩
    · exact .inr ⟨fun hu => hopen' (hkept.2.mpr hu), hclosed', hblank'⟩
  · rcases h' with hkept' | ⟨hopen', -, -⟩
    · exact .inr ⟨hopen, hkept'.2.mpr hclosed, hkept'.1.trans hblank⟩
    · exact absurd hclosed hopen'

theorem Lasts.refl (s : Store) : Lasts s s := by
  intro a x hx
  exact ⟨x, hx, .inl (Kept.refl x)⟩

theorem Lasts.trans (h : Lasts s s') (h' : Lasts s' s'') (hapicount : s'.apicount = s.apicount) :
    Lasts s s'' := by
  intro a x'' hx''
  obtain ⟨x', hx', hnext⟩ := h' a x'' hx''
  obtain ⟨x, hx, hfirst⟩ := h a x' hx'
  exact ⟨x, hx, hfirst.trans (hapicount ▸ hnext)⟩

theorem Lasts.carries (h : Lasts s s') : Carries s s' := by
  intro a x' hx'
  exact .inl (h a x' hx')

theorem Carries.sized (h : Carries s s') (hs : Sized s) (hapicount : s'.apicount = s.apicount) :
    Sized s' := by
  have hblank : ∀ {x : ClientCtx}, x.Blank s.apicount → x.values.length = s.apicount := by
    intro x hx
    rw [hx, List.length_replicate]
  intro a x' hx'
  rw [hapicount]
  rcases h a x' hx' with ⟨x, hx, hkept | ⟨-, -, hempty⟩⟩ | ⟨-, hempty⟩
  · rw [hkept.1, hs a x hx]
  · exact hblank hempty
  · exact hblank hempty

/-! ## The operations -/

theorem blank_closedCtx (hs : Sized s) (hc : s.mem client = some c) :
    (closedCtx s.apicount c).Blank s.apicount := by
  rw [closedCtx, ctxUuidFreeCB_spec (hs client c hc)]
  rfl

theorem tolerant_continues (hs : Sized s) : Tolerant s (Continues s.apicount) where
  refl := fun x => .inl (Kept.refl x)
  trans := fun _ _ _ => Continues.trans
  counted := fun _ _ _ => .inl ⟨rfl, Iff.rfl⟩
  closed := fun _ _ hx hopen => .inr ⟨hopen, closedCtx_uuid _ _, blank_closedCtx hs hx⟩

theorem lasts_modify (s : Store) (client : Nat) {f : ClientCtx → ClientCtx × List Release}
    (hf : ∀ c, Kept c (f c).1) : Lasts s (s.modify client f) :=
  follows_modify (fun x => .inl (Kept.refl x)) (fun c _ => .inl (hf c))

theorem lasts_unref (hs : Sized s) (client : Nat) : Lasts s (ctxClientUnref client s) :=
  follows_unref (tolerant_continues hs) client

theorem lasts_close (hs : Sized s) (client : Nat) : Lasts s (ctxClientClose client s) :=
  follows_close (tolerant_continues hs) client

theorem kept_ctxClientCookieSet (allocated : Bool) (key : Nat) (value freeValue : Option Nat)
    (c : ClientCtx) : Kept c (ctxClientCookieSet allocated key value freeValue c).1 := by
  rw [ctxClientCookieSet]
  split
  · exact ⟨rfl, Iff.rfl⟩
  · split
    · exact ⟨rfl, Iff.rfl⟩
    · exact ⟨rfl, Iff.rfl⟩

/-- All the operations that store no value. -/
theorem carries_exec {w : World} (hw : Inv w) (hs : Sized w.store) {act : Action}
    (hact : ∀ a index value freeValue, act ≠ .valueSet a index value freeValue) :
    Carries w.store (exec w act).store := by
  apply grows_exec hw (tolerant_continues hs)
  · intro client f hedit c _
    cases act with
    | tokenNew client generated =>
        cases hedit
        exact .inl ⟨rfl, Iff.rfl⟩
    | setLOA client loa =>
        cases hedit
        exact .inl ⟨rfl, Iff.rfl⟩
    | valueSet client index value freeValue =>
        exact absurd rfl (hact client index value freeValue)
    | cookieSet client allocated key value freeValue =>
        cases hedit
        exact .inl (kept_ctxClientCookieSet allocated key value freeValue c)
    | _ => cases hedit
  · intro generated uuid timeout
    have hapicount := (ctxStoreCleanUp_spec w.now hw.wf).2.1.apicount
    show List.replicate (ctxStoreCleanUp w.now w.store).apicount _ = _
    rw [hapicount]

end AfbBinder.Session
