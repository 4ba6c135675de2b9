import AfbBinder.Hook.Req

/-!
# What hooks change

The references of the verb and of its subcalls are counted on the wrapper, which holds one
reference to the request until its count is zero.  The reference that the wrapper is made
with stands for the reply to come; `req_hook_send` does not drop it.
-/

namespace AfbBinder.Hook

open Lib

variable {J : Type}

/-! ## Who owns what -/

/-- The references of the others and of the verb, the results that its subcalls wait for,
with and without a record of the hooks, and whether the reply was made by `send`. -/
structure Ledger where
  others : Nat
  held : Nat
  traced : Nat
  plain : Nat
  replied : Option Bool
deriving DecidableEq

namespace Ledger

/-- The verb is called with references of the others only. -/
def start (refs : Nat) : Ledger := ⟨refs, 0, 0, 0, none⟩

/-- A use by its owner: nobody drops what it does not have, nor replies twice. -/
def use (l : Ledger) : Use J → Option Ledger
  | .addref => some { l with held := l.held + 1 }
  | .unref => if l.held = 0 then none else some { l with held := l.held - 1 }
  | .reply r =>
      if l.replied.isSome then none
      else
        match r with
        | .send _ => some { l with replied := some true }
        | _ => some { l with replied := some false }
  | .subcall true => some { l with traced := l.traced + 1 }
  | .subcall false => some { l with plain := l.plain + 1 }
  | .other => some l
  | .result true => if l.traced = 0 then none else some { l with traced := l.traced - 1 }
  | .result false => if l.plain = 0 then none else some { l with plain := l.plain - 1 }
  | .hold => some { l with others := l.others + 1 }
  | .drop => if l.others = 0 then none else some { l with others := l.others - 1 }

def run (l : Ledger) : List (Use J) → Option Ledger
  | [] => some l
  | u :: uses => (l.use u).bind fun l => l.run uses

/-- The references to a wrapper. -/
def wraps (l : Ledger) : Nat := (if l.replied = some false then 0 else 1) + l.held + l.traced

end Ledger

/-- A life of a request: the verb drops the references it adds and replies once, its
subcalls get their results, and without hooks nothing uses the request once released. -/
structure Proper (refs : Nat) (uses : List (Use J)) : Prop where
  owned : ∃ others sent, (Ledger.start refs).run uses = some ⟨others, 0, 0, 0, some sent⟩
  safe : ((Req.mk refs []).run uses).isSome

/-- The uses of the request by the verb. -/
def Use.onRequest : Use J → Bool
  | .addref | .unref | .reply _ | .subcall _ | .other => true
  | .result _ | .hold | .drop => false

/-- After its reply, the verb uses the request only while it holds a reference or waits for
the result of a recorded subcall. -/
def Careful : Ledger → List (Use J) → Prop
  | _, [] => True
  | l, u :: uses =>
      (u.onRequest = true → l.replied.isSome = true → 0 < l.held + l.traced) ∧
        ∀ l', l.use u = some l' → Careful l' uses

/-- The request gets the same reply, ends with the same count of references, and is released
at the same use. -/
def Transparent (target : Target) (hooks : List (AfbHook × Bool)) (refs : Nat)
    (uses : List (Use J)) : Prop :=
  runHooked target hooks ⟨refs, []⟩ uses = (Req.mk refs []).run uses ∧
    ∀ front, front <+: uses →
      (runHooked target hooks ⟨refs, []⟩ front).map (fun req => decide (req.refcount = 0)) =
        ((Req.mk refs []).run front).map fun req => decide (req.refcount = 0)

/-! ## One use -/

variable {l l' : Ledger} {req req' : Req J} {u : Use J}

theorem alive_of_use (h : req.use u = some req') : req.refcount ≠ 0 := by
  intro hzero
  simp [Req.use, hzero] at h

theorem use_freed {hooked : Hooked J} (hfreed : hooked.tr = none) (hon : u.onRequest = true) :
    hooked.use u = none := by
  cases u with
  | reply r =>
      cases r with
      | success obj info => simp [Hooked.use, hfreed]
      | fail status info => simp [Hooked.use, hfreed]
      | send buffer => simp [Hooked.use, hfreed]
  | addref => simp [Hooked.use, hfreed]
  | unref => simp [Hooked.use, hfreed]
  | subcall allocated => simp [Hooked.use, hfreed]
  | other => simp [Hooked.use, hfreed]
  | result traced => cases hon
  | hold => cases hon
  | drop => cases hon

theorem hookReqUnref_eq {tr others : Nat} (replies : List (Reply J)) :
    hookReqUnref tr ⟨others + 1, replies⟩ =
      some ⟨if tr - 1 = 0 then none else some (tr - 1),
        ⟨others + (if tr - 1 = 0 then 0 else 1), replies⟩⟩ := by
  rw [hookReqUnref]
  by_cases hlast : tr - 1 = 0
  · simp [hlast, Req.use]
  · simp [hlast]

/-- The wrapper and the request that a ledger tells of. -/
def Ledger.hooked (l : Ledger) (replies : List (Reply J)) : Hooked J :=
  ⟨if l.wraps = 0 then none else some l.wraps,
    ⟨l.others + (if l.wraps = 0 then 0 else 1), replies⟩⟩

theorem Ledger.hooked_live (h : l.wraps ≠ 0) (replies : List (Reply J)) :
    l.hooked replies = ⟨some l.wraps, ⟨l.others + 1, replies⟩⟩ := by
  rw [Ledger.hooked, if_neg h, if_neg h]

theorem unref_hooked (l l' : Ledger) (replies : List (Reply J)) (hwraps : l'.wraps = l.wraps - 1)
    (hothers : l'.others = l.others) :
    hookReqUnref l.wraps ⟨l.others + 1, replies⟩ = some (l'.hooked replies) := by
  rw [hookReqUnref_eq, Ledger.hooked, hwraps, hothers]

theorem hooked_alive (halive : l.others + l.held ≠ 0) :
    l.others + (if l.wraps = 0 then 0 else 1) ≠ 0 := by
  by_cases hzero : l.wraps = 0
  · have hheld : l.held = 0 := by
      rw [Ledger.wraps] at hzero
      omega
    rw [if_pos hzero]
    omega
  · rw [if_neg hzero]
    omega

theorem use_hooked_reply {r : Reply J} (replies : List (Reply J)) (hl : l.use (.reply r) = some l')
    (hlive : l.wraps ≠ 0) :
    (l.hooked replies).use (.reply r) = some (l'.hooked (replies ++ [r])) ∧
      l'.others + l'.held = l.others + l.held := by
  simp only [Ledger.use] at hl
  split at hl
  · cases hl
  · rename_i hfirst
    have hnone : l.replied = none := by simpa using hfirst
    have hlast : Ledger.wraps { l with replied := some false } = l.wraps - 1 := by
      simp only [Ledger.wraps, hnone]
      simp
      omega
    rw [Ledger.hooked_live hlive]
    cases r with
    | send buffer =>
        cases hl
        refine ⟨?_, rfl⟩
        rw [Ledger.hooked_live (by simp [Ledger.wraps])]
        simp [Hooked.use, reqHookSend, Req.use, Ledger.wraps, hnone]
    | success obj info =>
        cases hl
        refine ⟨?_, rfl⟩
        rw [← unref_hooked l _ _ hlast rfl]
        simp [Hooked.use, reqHookSuccess, replyAndUnref, Req.use]
    | fail status info =>
        cases hl
        refine ⟨?_, rfl⟩
        rw [← unref_hooked l _ _ hlast rfl]
        simp [Hooked.use, reqHookFail, replyAndUnref, Req.use]

theorem use_hooked_subcall (replies : List (Reply J)) {allocated : Bool}
    (hl : l.use (J := J) (.subcall allocated) = some l') (hlive : l.wraps ≠ 0) :
    (l.hooked replies).use (.subcall allocated) = some (l'.hooked replies) ∧
      l'.others + l'.held = l.others + l.held := by
  rw [Ledger.hooked_live hlive]
  cases allocated with
  | true =>
      cases hl
      refine ⟨?_, rfl⟩
      rw [Ledger.hooked_live (by simp [Ledger.wraps])]
      simp [Hooked.use, reqHookSubcall, hookReqAddref, Req.use, Ledger.wraps]
      omega
  | false =>
      cases hl
      refine ⟨?_, rfl⟩
      rw [Ledger.hooked_live (by exact hlive)]
      simp [Hooked.use, reqHookSubcall, Req.use, Ledger.wraps]

theorem use_hooked_result (replies : List (Reply J)) {traced : Bool}
    (hl : l.use (J := J) (.result traced) = some l') (halive : l.others + l.held ≠ 0) :
    (l.hooked replies).use (.result traced) = some (l'.hooked replies) ∧
      l'.others + l'.held = l.others + l.held := by
  have halive' := hooked_alive halive
  cases traced with
  | true =>
      simp only [Ledger.use] at hl
      split at hl
      · cases hl
      · cases hl
        refine ⟨?_, rfl⟩
        have hwraps : l.wraps ≠ 0 := by
          rw [Ledger.wraps]
          omega
        have hlast : Ledger.wraps { l with traced := l.traced - 1 } = l.wraps - 1 := by
          simp only [Ledger.wraps]
          omega
        rw [Ledger.hooked_live hwraps, ← unref_hooked l _ _ hlast rfl]
        simp [Hooked.use, reqHookSubcallResult, Req.use]
  | false =>
      simp only [Ledger.use] at hl
      split at hl
      · cases hl
      · cases hl
        refine ⟨?_, rfl⟩
        have huse : (l.hooked replies).req.use (.result false) = some (l.hooked replies).req :=
          if_neg halive'
        show ((l.hooked replies).req.use (.result false)).map _ = some (l.hooked replies)
        rw [huse, Option.map_some]

/-- A use that the request takes without hooks and that does not meet a freed wrapper is
made with hooks as well. -/
theorem use_hooked {replies : List (Reply J)} (hl : l.use u = some l')
    (hreq : Req.use ⟨l.others + l.held, replies⟩ u = some req')
    (hlive : u.onRequest = true → l.wraps ≠ 0) :
    (l.hooked replies).use u = some (l'.hooked req'.replies) ∧
      req'.refcount = l'.others + l'.held := by
  have halive : l.others + l.held ≠ 0 := alive_of_use hreq
  have halive' := hooked_alive halive
  simp only [Req.use, if_neg halive] at hreq
  cases u with
  | addref =>
      cases hl
      cases hreq
      refine ⟨?_, by simp only; omega⟩
      rw [Ledger.hooked_live (hlive rfl), Ledger.hooked_live (by simp [Ledger.wraps])]
      simp [Hooked.use, hookReqAddref, Ledger.wraps]
      omega
  | unref =>
      simp only [Ledger.use] at hl
      split at hl
      · cases hl
      · cases hl
        cases hreq
        refine ⟨?_, by simp only; omega⟩
        rw [Ledger.hooked_live (hlive rfl)]
        apply unref_hooked
        · simp only [Ledger.wraps]
          omega
        · rfl
  | reply r =>
      cases hreq
      obtain ⟨hhooked, hcount⟩ := use_hooked_reply replies hl (hlive rfl)
      exact ⟨hhooked, hcount.symm⟩
  | subcall allocated =>
      cases hreq
      obtain ⟨hhooked, hcount⟩ := use_hooked_subcall replies hl (hlive rfl)
      exact ⟨hhooked, hcount.symm⟩
  | other =>
      cases hl
      cases hreq
      refine ⟨?_, rfl⟩
      rw [Ledger.hooked_live (hlive rfl)]
      simp [Hooked.use, reqHookOther, Req.use]
  | result traced =>
      cases hreq
      obtain ⟨hhooked, hcount⟩ := use_hooked_result replies hl halive
      exact ⟨hhooked, hcount.symm⟩
  | hold =>
      cases hl
      cases hreq
      refine ⟨?_, by simp only; omega⟩
      have huse : (l.hooked replies).req.use .hold =
          some ⟨l.others + (if l.wraps = 0 then 0 else 1) + 1, replies⟩ := if_neg halive'
      show ((l.hooked replies).req.use .hold).map _ = _
      rw [huse, Option.map_some, Nat.add_right_comm]
      rfl
  | drop =>
      simp only [Ledger.use] at hl
      split at hl
      · cases hl
      · cases hl
        cases hreq
        refine ⟨?_, by simp only; omega⟩
        have huse : (l.hooked replies).req.use .drop =
            some ⟨l.others + (if l.wraps = 0 then 0 else 1) - 1, replies⟩ := if_neg halive'
        show ((l.hooked replies).req.use .drop).map _ = _
        rw [huse, Option.map_some, Nat.sub_add_comm (by omega)]
        rfl

/-! ## Lives of a request -/

theorem Ledger.run_append (l : Ledger) (front back : List (Use J)) :
    l.run (front ++ back) = (l.run front).bind fun l => l.run back := by
  induction front generalizing l with
  | nil => rfl
  | cons u front ih =>
      rw [List.cons_append, Ledger.run, Ledger.run, Option.bind_assoc]
      congr 1
      exact funext ih

theorem Req.run_append (req : Req J) (front back : List (Use J)) :
    req.run (front ++ back) = (req.run front).bind fun req => req.run back := by
  induction front generalizing req with
  | nil => rfl
  | cons u front ih =>
      rw [List.cons_append, Req.run, Req.run, Option.bind_assoc]
      congr 1
      exact funext ih

/-- No use meets a freed wrapper. -/
def Safe : Ledger → List (Use J) → Prop
  | _, [] => True
  | l, u :: uses => (u.onRequest = true → l.wraps ≠ 0) ∧ ∀ l', l.use u = some l' → Safe l' uses

theorem Safe.front {front back : List (Use J)} (h : Safe l (front ++ back)) : Safe l front := by
  induction front generalizing l with
  | nil => trivial
  | cons u front ih => exact ⟨h.1, fun l' hl => ih (h.2 l' hl)⟩

/-- With hooks the request follows the ledger as long as no use meets a freed wrapper. -/
theorem run_hooked {uses : List (Use J)} {replies : List (Reply J)} (hl : l.run uses = some l')
    (hreq : Req.run ⟨l.others + l.held, replies⟩ uses = some req') (hsafe : Safe l uses) :
    (l.hooked replies).run uses = some (l'.hooked req'.replies) ∧
      req'.refcount = l'.others + l'.held := by
  induction uses generalizing l replies with
  | nil =>
      cases hl
      cases hreq
      exact ⟨rfl, rfl⟩
  | cons u uses ih =>
      obtain ⟨l₁, hl₁, hl'⟩ := Option.bind_eq_some_iff.mp hl
      obtain ⟨req₁, hreq₁, hreq'⟩ := Option.bind_eq_some_iff.mp hreq
      obtain ⟨huse, hcount⟩ := use_hooked hl₁ hreq₁ hsafe.1
      have hsame : req₁ = ⟨l₁.others + l₁.held, req₁.replies⟩ := by rw [← hcount]
      rw [hsame] at hreq'
      rw [Hooked.run, huse, Option.bind_some]
      exact ih hl' hreq' (hsafe.2 l₁ hl₁)

theorem run_not_safe {uses : List (Use J)} {replies : List (Reply J)} (hl : l.run uses = some l')
    (hreq : Req.run ⟨l.others + l.held, replies⟩ uses = some req') (hnot : ¬ Safe l uses) :
    (l.hooked replies).run uses = none := by
  induction uses generalizing l replies with
  | nil => exact absurd trivial hnot
  | cons u uses ih =>
      obtain ⟨l₁, hl₁, hl'⟩ := Option.bind_eq_some_iff.mp hl
      obtain ⟨req₁, hreq₁, hreq'⟩ := Option.bind_eq_some_iff.mp hreq
      rw [Hooked.run]
      by_cases hfirst : u.onRequest = true → l.wraps ≠ 0
      · obtain ⟨huse, hcount⟩ := use_hooked hl₁ hreq₁ hfirst
        have hsame : req₁ = ⟨l₁.others + l₁.held, req₁.replies⟩ := by rw [← hcount]
        rw [hsame] at hreq'
        rw [huse, Option.bind_some]
        apply ih hl' hreq'
        intro hsafe
        apply hnot
        refine ⟨hfirst, ?_⟩
        intro l₂ hl₂
        rw [hl₁] at hl₂
        cases hl₂
        exact hsafe
      · have hmeets : u.onRequest = true ∧ l.wraps = 0 := by simpa using hfirst
        have hfreed : (l.hooked replies).tr = none := by rw [Ledger.hooked, if_pos hmeets.2]
        rw [use_freed hfreed hmeets.1, Option.bind_none]

/-! ## The reply by `send` -/

theorem use_replied (hl : l.use u = some l') :
    l'.replied = some true ↔ l.replied = some true ∨ ∃ buffer, u = .reply (.send buffer) := by
  cases u with
  | reply r =>
      simp only [Ledger.use] at hl
      split at hl
      · cases hl
      · rename_i hfirst
        have hnone : l.replied = none := by simpa using hfirst
        cases r with
        | send buffer =>
            cases hl
            simp
        | success obj info =>
            cases hl
            simp [hnone]
        | fail status info =>
            cases hl
            simp [hnone]
  | addref =>
      cases hl
      simp
  | unref =>
      simp only [Ledger.use, Option.ite_none_left_eq_some, Option.some.injEq] at hl
      simp [← hl.2]
  | subcall allocated =>
      cases allocated with
      | true =>
          cases hl
          simp
      | false =>
          cases hl
          simp
  | other =>
      cases hl
      simp
  | result traced =>
      cases traced with
      | true =>
          simp only [Ledger.use, Option.ite_none_left_eq_some, Option.some.injEq] at hl
          simp [← hl.2]
      | false =>
          simp only [Ledger.use, Option.ite_none_left_eq_some, Option.some.injEq] at hl
          simp [← hl.2]
  | hold =>
      cases hl
      simp
  | drop =>
      simp only [Ledger.use, Option.ite_none_left_eq_some, Option.some.injEq] at hl
      simp [← hl.2]

theorem run_replied {uses : List (Use J)} (hl : l.run uses = some l') :
    l'.replied = some true ↔
      l.replied = some true ∨ ∃ buffer, Use.reply (.send buffer) ∈ uses := by
  induction uses generalizing l with
  | nil =>
      cases hl
      simp
  | cons u uses ih =>
      obtain ⟨l₁, hl₁, hl'⟩ := Option.bind_eq_some_iff.mp hl
      rw [ih hl', use_replied hl₁, or_assoc]
      simp only [List.mem_cons, exists_or, eq_comm]

theorem safe_iff_careful {uses : List (Use J)} (hreplied : l.replied ≠ some true)
    (hsend : ∀ buffer, Use.reply (.send buffer) ∉ uses) : Safe l uses ↔ Careful l uses := by
  induction uses generalizing l with
  | nil => exact Iff.rfl
  | cons u uses ih =>
      have hwraps : l.wraps ≠ 0 ↔ (l.replied.isSome = true → 0 < l.held + l.traced) := by
        rw [Ledger.wraps]
        rcases hcase : l.replied with _ | ⟨_ | _⟩
        · simp
        · simp
          omega
        · exact absurd hcase hreplied
      have hrest : ∀ l₁, l.use u = some l₁ → (Safe l₁ uses ↔ Careful l₁ uses) := by
        intro l₁ hl₁
        apply ih
        · rw [Ne, use_replied hl₁]
          rintro (h | ⟨buffer, rfl⟩)
          · exact hreplied h
          · exact hsend buffer (by simp)
        · exact fun buffer hmem => hsend buffer (List.mem_cons_of_mem u hmem)
      rw [Safe, Careful, hwraps]
      exact and_congr_right fun _ => forall_congr' fun l₁ =>
        ⟨fun h hl₁ => (hrest l₁ hl₁).mp (h hl₁), fun h hl₁ => (hrest l₁ hl₁).mpr (h hl₁)⟩

/-! ## Hooking a request -/

theorem afbHookReqCall_wrapped (target : Target) (hooks : List (AfbHook × Bool)) (tr : Nat)
    (req : Req J) : afbHookReqCall target hooks (some tr, req) = (some tr, req) := by
  induction hooks with
  | nil => rfl
  | cons entry hooks ih => simpa [afbHookReqCall] using ih

theorem afbHookReqCall_eq (target : Target) (hooks : List (AfbHook × Bool)) (req : Req J) :
    afbHookReqCall target hooks (none, req) =
      if ∀ entry ∈ hooks, entry.1.concerns target = true → entry.2 = false then (none, req)
      else hookReqCreate req := by
  induction hooks with
  | nil => simp [afbHookReqCall]
  | cons entry hooks ih =>
      obtain ⟨hook, allocated⟩ := entry
      rw [afbHookReqCall]
      cases hconcerns : hook.concerns target with
      | false => simp only [List.forall_mem_cons, hconcerns, ih, Bool.false_and, Bool.false_eq_true,
          false_imp_iff, true_and, if_false]
      | true =>
          cases allocated with
          | false => simp only [List.forall_mem_cons, ih, Bool.and_false, Bool.false_eq_true,
              imp_true_iff, true_and, if_false]
          | true =>
              have hmade : ¬ ∀ entry ∈ (hook, true) :: hooks,
                  entry.1.concerns target = true → entry.2 = false := by
                intro hall
                cases hall (hook, true) (by simp) hconcerns
              rw [if_neg hmade]
              exact afbHookReqCall_wrapped target hooks 1 _

theorem wrapped_transparent_iff {refs : Nat} {uses : List (Use J)} (hproper : Proper refs uses) :
    ((((Ledger.start refs).hooked []).run uses).map Hooked.req = (Req.mk refs []).run uses ∧
      ∀ front, front <+: uses →
        (((Ledger.start refs).hooked []).run front).map (fun h => decide (h.req.refcount = 0)) =
          ((Req.mk refs []).run front).map fun req => decide (req.refcount = 0)) ↔
    (∀ buffer, Use.reply (.send buffer) ∉ uses) ∧ Careful (Ledger.start refs) uses := by
  obtain ⟨others, sent, hledger⟩ := hproper.owned
  obtain ⟨final, hfinal⟩ := Option.isSome_iff_exists.mp hproper.safe
  have hsent : sent = true ↔ ∃ buffer, Use.reply (.send buffer) ∈ uses := by
    have hreplied := run_replied hledger
    simpa [Ledger.start] using hreplied
  constructor
  · rintro ⟨hend, -⟩
    have hsafe : Safe (Ledger.start refs) uses := by
      by_contra hnot
      rw [run_not_safe hledger hfinal hnot, hfinal] at hend
      cases hend
    obtain ⟨hrun, hcount⟩ := run_hooked hledger hfinal hsafe
    rw [hrun, hfinal, Option.map_some, Option.some.injEq] at hend
    have hnot : ∀ buffer, Use.reply (.send buffer) ∉ uses := by
      intro buffer hmem
      -- the wrapper stays and holds one reference more
      have hrefs := congrArg Req.refcount hend
      rw [hsent.mpr ⟨buffer, hmem⟩] at hrefs hcount
      rw [hcount] at hrefs
      simp [Ledger.hooked, Ledger.wraps] at hrefs
    exact ⟨hnot, (safe_iff_careful (by simp [Ledger.start]) hnot).mp hsafe⟩
  · rintro ⟨hnot, hcareful⟩
    have hsafe := (safe_iff_careful (by simp [Ledger.start]) hnot).mpr hcareful
    have hfalse : sent = false := by
      rw [Bool.eq_false_iff]
      intro htrue
      obtain ⟨buffer, hmem⟩ := hsent.mp htrue
      exact hnot buffer hmem
    rw [hfalse] at hledger
    obtain ⟨hrun, hcount⟩ := run_hooked hledger hfinal hsafe
    constructor
    · rw [hrun, hfinal, Option.map_some]
      congr 1
      rw [Ledger.hooked]
      simp only [Ledger.wraps, if_true, Nat.add_zero] at hcount ⊢
      rw [← hcount]
    · rintro front ⟨back, rfl⟩
      rw [Ledger.run_append] at hledger
      rw [Req.run_append] at hfinal
      obtain ⟨l, hl, hrest⟩ := Option.bind_eq_some_iff.mp hledger
      obtain ⟨req, hreq, hrest'⟩ := Option.bind_eq_some_iff.mp hfinal
      obtain ⟨hfront, hfrontCount⟩ := run_hooked hl hreq hsafe.front
      rw [hfront, hreq, Option.map_some, Option.map_some, hfrontCount]
      congr 1
      cases back with
      | nil =>
          cases hrest
          simp [Ledger.hooked, Ledger.wraps]
      | cons u back =>
          -- the request is used again, so it is not released
          obtain ⟨req₁, huse, -⟩ := Option.bind_eq_some_iff.mp hrest'
          have halive : l.others + l.held ≠ 0 := by
            rw [← hfrontCount]
            exact alive_of_use huse
          have halive' : (l.hooked req.replies).req.refcount ≠ 0 := hooked_alive halive
          rw [decide_eq_false halive, decide_eq_false halive']

/-- Hooks are transparent exactly when no wrapper is made, or when the reply is not made by
`send` and the verb does not use the request after it without a reference. -/
theorem hooks_transparent_iff (target : Target) (hooks : List (AfbHook × Bool)) {refs : Nat}
    {uses : List (Use J)} (hproper : Proper refs uses) :
    Transparent target hooks refs uses ↔
      (∀ entry ∈ hooks, entry.1.concerns target = true → entry.2 = false) ∨
      ((∀ buffer, Use.reply (.send buffer) ∉ uses) ∧ Careful (Ledger.start refs) uses) := by
  by_cases hunwrapped : ∀ entry ∈ hooks, entry.1.concerns target = true → entry.2 = false
  · have hsame : ∀ uses : List (Use J), runHooked target hooks ⟨refs, []⟩ uses =
        (Req.mk refs []).run uses := by
      intro uses
      rw [runHooked, afbHookReqCall_eq, if_pos hunwrapped]
    refine iff_of_true ⟨hsame uses, ?_⟩ (Or.inl hunwrapped)
    intro front _
    rw [hsame]
  · have hwrapped : ∀ uses : List (Use J), runHooked target hooks ⟨refs, []⟩ uses =
        (((Ledger.start refs).hooked []).run uses).map Hooked.req := by
      intro uses
      rw [runHooked, afbHookReqCall_eq, if_neg hunwrapped]
      rfl
    rw [or_iff_right hunwrapped, ← wrapped_transparent_iff hproper, Transparent]
    simp only [hwrapped, Option.map_map, Function.comp_def]

/-- A hook of every request, with memory for the wrapper. -/
def anyHook : List (AfbHook × Bool) := [(⟨afbHookFlagsReqAll, none, none, none⟩, true)]

/-- A verb that replies after its caller has returned. -/
theorem hooks_transparent_async :
    Transparent (J := Unit) ⟨0, [], []⟩ anyHook 1
      [.addref, .subcall true, .hold, .drop, .result true, .reply (.success none none), .unref,
        .drop] := by
  have hproper : Proper (J := Unit) 1 [.addref, .subcall true, .hold, .drop, .result true,
      .reply (.success none none), .unref, .drop] := ⟨⟨0, false, rfl⟩, rfl⟩
  refine (hooks_transparent_iff ⟨0, [], []⟩ anyHook hproper).mpr (Or.inr ⟨by simp, ?_⟩)
  simp [Careful, Ledger.start, Ledger.use, Use.onRequest]

/-- A request replied to by `send` keeps a reference when it is hooked, and is never
released. -/
theorem hooks_transparent_fails :
    ∃ uses : List (Use Unit), Proper 1 uses ∧ ¬ Transparent ⟨0, [], []⟩ anyHook 1 uses ∧
      (runHooked ⟨0, [], []⟩ anyHook ⟨1, []⟩ uses).map Req.refcount = some 1 ∧
      ((Req.mk 1 []).run uses).map Req.refcount = some 0 := by
  refine ⟨[.reply (.send [123, 125]), .drop], ⟨⟨0, true, rfl⟩, rfl⟩, ?_, rfl, rfl⟩
  rintro ⟨hend, -⟩
  cases congrArg (Option.map Req.refcount) hend

end AfbBinder.Hook
