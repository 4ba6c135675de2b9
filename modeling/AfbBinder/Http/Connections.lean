import AfbBinder.Http.Serving

/-!
# The connections of the server

What each callback and each act of a binding does of one connection: which references its
request has, whether it is answered or suspended, and what the library knows of it.
-/

namespace AfbBinder.Http.Serving

open Lib

variable {c : Connection}

/-- A request between its first call and its end. -/
structure Life.Active (hreq : Life) (c : Connection) : Prop where
  refcount : hreq.refcount = c.holders + 1
  held : 0 < c.holders → hreq.scanned = true
  served : hreq.scanned = true → hreq.replied = true ∨ hreq.suspended = true
  queued : c.lib.queued = hreq.replied
  suspended : hreq.suspended = true → hreq.replied = false ∧ c.lib.suspended = true
  websock : c.websock = true → hreq.upgrade = true
  upgrade : hreq.upgrade = true → hreq.replied = true

structure Connection.Kept (c : Connection) : Prop where
  unrecorded : c.record = false →
    c.hreq = none ∧ c.holders = 0 ∧ c.websock = false ∧ c.lib.ended = false
  active : c.record = true → c.lib.ended = false → ∃ hreq, c.hreq = some hreq ∧ hreq.Active c
  ended : c.lib.ended = true → (c.hreq.isSome = true ↔ 0 < c.holders) ∧
    ∀ hreq, c.hreq = some hreq → hreq.refcount = c.holders ∧ hreq.replied = true

/-- The library is used as it must be. -/
structure Connection.Proper (c : Connection) : Prop where
  used : c.lib.misused = false
  unrecorded : c.record = false → c.lib.suspended = false
  active : c.lib.ended = false → ∀ hreq, c.hreq = some hreq →
    c.lib.suspended = hreq.suspended ∧ c.websock = hreq.upgrade
  ended : c.lib.ended = true → c.lib.suspended = c.websock

/-- What a callback or a binding does of a connection. -/
inductive Legal : Connection → Action → Connection → Result → Prop
  | create {c : Connection} {index : Nat} {input : Access} (hrecord : c.record = false)
      (hqueued : c.lib.queued = false) (hsuspended : c.lib.suspended = false)
      (hended : c.lib.ended = false) :
      Legal c (.access index input) { c with record := (create input).hreq.isSome } (create input)
  | proceed {c : Connection} {index : Nat} {input : Access} {hreq : Life}
      (hrecord : c.record = true) (hqueued : c.lib.queued = false)
      (hsuspended : c.lib.suspended = false) (hended : c.lib.ended = false)
      (hfound : c.hreq = some hreq) : Legal c (.access index input) c (proceed input hreq)
  | complete {c : Connection} {index : Nat} {hreq : Life} (hrecord : c.record = true)
      (hsuspended : c.lib.suspended = false) (hended : c.lib.ended = false)
      (hfound : c.hreq = some hreq) :
      Legal c (.complete index) c ⟨afbHreqUnref hreq, 0, false,
        if hreq.upgrade then [.completed, .suspend] else [.completed]⟩
  | reply {c : Connection} {index status : Nat} {hreq : Life} (hheld : c.holders ≠ 0)
      (hfound : c.hreq = some hreq) : Legal c (.reply index status) c (replyError status hreq)
  | addref {c : Connection} {index : Nat} {hreq : Life} (hheld : c.holders ≠ 0)
      (hfound : c.hreq = some hreq) :
      Legal c (.addref index) c ⟨some { hreq with refcount := hreq.refcount + 1 }, 1, false, []⟩
  | unref {c : Connection} {index : Nat} {hreq : Life} (hheld : c.holders ≠ 0)
      (hfound : c.hreq = some hreq) :
      Legal c (.unref index) { c with holders := c.holders - 1 } ⟨afbHreqUnref hreq, 0, false, []⟩

/-! ### Calls of `access_handler` -/

/-- A request that was not answered, of which only the library has a reference. -/
structure Life.Unanswered (hreq : Life) : Prop where
  refcount : hreq.refcount = 1
  suspended : hreq.suspended = false
  replied : hreq.replied = false
  upgrade : hreq.upgrade = false

/-- What `access_handler` leaves of a request. -/
structure Result.Leaves (result : Result) (hreq : Life) : Prop where
  found : result.hreq = some hreq
  refcount : hreq.refcount = result.held + 1
  held : 0 < result.held → hreq.scanned = true
  served : hreq.scanned = true → hreq.replied = true ∨ hreq.suspended = true
  suspended : hreq.suspended = true → hreq.replied = false
  websock : result.websock = hreq.upgrade
  upgrade : hreq.upgrade = true → hreq.replied = true
  asked : ∀ misused, result.calls.foldl Library.note ⟨false, false, false, misused⟩ =
    ⟨hreq.replied, hreq.suspended, false, misused⟩

variable {hreq : Life} {input : Access}

theorem replyError_leaves (h : hreq.Unanswered) (status : Nat) :
    ∃ hreq', (replyError status hreq).Leaves hreq' := by
  have hreply : afbHreqReplyV status hreq = ({ hreq with replied := true }, [.queue status]) := by
    simp [afbHreqReplyV, h.replied, h.suspended]
  refine ⟨{ hreq with replied := true }, ?_⟩
  rw [replyError, hreply]
  constructor
  · rfl
  · exact h.refcount
  · exact fun hheld => absurd hheld (Nat.lt_irrefl 0)
  · exact fun _ => .inl rfl
  · intro hsuspended
    rw [h.suspended] at hsuspended
    cases hsuspended
  · exact h.upgrade.symm
  · exact fun _ => rfl
  · intro misused
    simp [Library.note, h.suspended]

/-- The handler replies once at most, in whatever order it acts. -/
theorem serve_spec (acts : List HandlerAct) (hopen : hreq.suspended = false) :
    ∃ replied, (serve acts hreq).1 =
        { hreq with refcount := hreq.refcount + (serve acts hreq).2.1, replied := replied } ∧
      ∀ misused, (serve acts hreq).2.2.foldl Library.note ⟨hreq.replied, false, false, misused⟩ =
        ⟨replied, false, false, misused⟩ := by
  induction acts generalizing hreq with
  | nil => exact ⟨hreq.replied, rfl, fun _ => rfl⟩
  | cons act acts ih =>
      cases act with
      | hold =>
          rcases @ih { hreq with refcount := hreq.refcount + 1 } hopen with ⟨replied, hmade, hasked⟩
          refine ⟨replied, ?_, hasked⟩
          simp only [serve, hmade]
          congr 1
          exact (Nat.add_assoc _ 1 _).trans (congrArg _ (Nat.add_comm 1 _))
      | reply status =>
          cases hreplied : hreq.replied with
          | true =>
              have hreply : afbHreqReplyV status hreq = (hreq, []) := by
                simp [afbHreqReplyV, hreplied]
              rcases ih hopen with ⟨replied, hmade, hasked⟩
              rw [hreplied] at hasked
              refine ⟨replied, ?_, ?_⟩
              · simp only [serve, hreply]
                exact hmade
              · simp only [serve, hreply]
                exact hasked
          | false =>
              have hreply : afbHreqReplyV status hreq =
                  ({ hreq with replied := true }, [.queue status]) := by
                simp [afbHreqReplyV, hreplied, hopen]
              rcases @ih { hreq with replied := true } hopen with ⟨replied, hmade, hasked⟩
              refine ⟨replied, ?_, ?_⟩
              · simp only [serve, hreply]
                exact hmade
              · intro misused
                simp only [serve, hreply, List.foldl_append, List.foldl_cons, List.foldl_nil,
                  Library.note, Bool.or_false]
                exact hasked misused

theorem handle_leaves (h : hreq.Unanswered) (hscanned : hreq.scanned = true)
    (handling : Option Handling) : ∃ hreq', (handle handling hreq).Leaves hreq' := by
  cases handling with
  | none => exact replyError_leaves h 404
  | some handling =>
      cases handling with
      | switches refused =>
          cases refused with
          | none =>
              refine ⟨{ hreq with replied := true, upgrade := true }, rfl, h.refcount,
                fun _ => hscanned, fun _ => .inl rfl, fun hsuspended => ?_, rfl, fun _ => rfl,
                fun misused => ?_⟩
              · rw [h.suspended] at hsuspended
                cases hsuspended
              · simp [handle, Library.note, h.suspended]
          | some status =>
              refine ⟨{ hreq with replied := true }, rfl, h.refcount, fun _ => hscanned,
                fun _ => .inl rfl, fun hsuspended => ?_, h.upgrade.symm, fun _ => rfl,
                fun misused => ?_⟩
              · rw [h.suspended] at hsuspended
                cases hsuspended
              · simp [handle, Library.note, h.suspended]
      | serves acts =>
          rcases serve_spec acts h.suspended with ⟨replied, hmade, hasked⟩
          rw [h.replied] at hasked
          cases replied with
          | true =>
              refine ⟨{ hreq with refcount := hreq.refcount + (serve acts hreq).2.1, replied := true },
                ?_, ?_, fun _ => hscanned, fun _ => .inl rfl, fun hsuspended => ?_, ?_,
                fun _ => rfl, fun misused => ?_⟩
              · simp [handle, hmade, suspendUnreplied]
              · simp only [handle, h.refcount]
                exact Nat.add_comm 1 _
              · rw [h.suspended] at hsuspended
                cases hsuspended
              · exact h.upgrade.symm
              · simp only [handle, hmade, suspendUnreplied, Bool.not_true, Bool.false_and,
                  Bool.false_eq_true, if_false, List.append_nil, hasked, h.suspended]
          | false =>
              refine ⟨{ hreq with
                  refcount := hreq.refcount + (serve acts hreq).2.1
                  replied := false
                  suspended := true },
                ?_, ?_, fun _ => hscanned, fun _ => .inr rfl, fun _ => rfl, ?_, fun hupgrade => ?_,
                fun misused => ?_⟩
              · simp [handle, hmade, suspendUnreplied, h.suspended]
              · simp only [handle, h.refcount]
                exact Nat.add_comm 1 _
              · exact h.upgrade.symm
              · rw [h.upgrade] at hupgrade
                cases hupgrade
              · simp only [handle, hmade, suspendUnreplied, h.suspended, Bool.not_false,
                  Bool.and_self, if_true, List.foldl_append, hasked]
                simp [Library.note]

theorem dispatch_leaves (h : hreq.Unanswered) (hscanned : hreq.scanned = false) :
    ∃ hreq', (dispatch input hreq).Leaves hreq' := by
  rw [dispatch, if_neg (by simp [hscanned])]
  exact @handle_leaves { hreq with scanned := true }
    ⟨h.refcount, h.suspended, h.replied, h.upgrade⟩ rfl input.handling

theorem leaves_unanswered (h : hreq.Unanswered) (hscanned : hreq.scanned = false) :
    Result.Leaves ⟨some hreq, 0, false, []⟩ hreq := by
  constructor
  · rfl
  · exact h.refcount
  · exact fun hheld => absurd hheld (Nat.lt_irrefl 0)
  · intro hscan
    rw [hscanned] at hscan
    cases hscan
  · exact fun _ => h.replied
  · exact h.upgrade.symm
  · intro hupgrade
    rw [h.upgrade] at hupgrade
    cases hupgrade
  · intro misused
    rw [h.replied, h.suspended]
    rfl

theorem proceed_leaves (h : hreq.Unanswered) (hscanned : hreq.scanned = false) :
    ∃ hreq', (proceed input hreq).Leaves hreq' := by
  have hflushed : Life.Unanswered { hreq with postform := false } :=
    ⟨h.refcount, h.suspended, h.replied, h.upgrade⟩
  unfold proceed
  split
  · split
    · exact ⟨hreq, leaves_unanswered h hscanned⟩
    · exact replyError_leaves h 500
  · split
    · split
      · exact dispatch_leaves hflushed hscanned
      · exact replyError_leaves hflushed 400
    · exact dispatch_leaves h hscanned

theorem begin_leaves (h : hreq.Unanswered) (hscanned : hreq.scanned = false) :
    ∃ hreq', (begin input hreq).Leaves hreq' := by
  unfold begin
  split
  · split
    · exact proceed_leaves ⟨h.refcount, h.suspended, h.replied, h.upgrade⟩ hscanned
    · split
      · split
        · exact ⟨_, leaves_unanswered ⟨h.refcount, h.suspended, h.replied, h.upgrade⟩ hscanned⟩
        · exact replyError_leaves h 500
      · split
        · exact ⟨hreq, leaves_unanswered h hscanned⟩
        · exact replyError_leaves h 415
  · exact proceed_leaves h hscanned

/-- The method is not served, or there is no memory. -/
def Access.Refused (input : Access) : Prop :=
  (getMethod input.method).served = none ∨ input.allocated = false

theorem create_cases (input : Access) :
    (input.Refused ∧ ∃ status, create input = ⟨none, 0, false, [.queue status]⟩) ∨
      (¬input.Refused ∧ ∃ hreq, (create input).Leaves hreq) := by
  unfold create Access.Refused
  cases hserved : (getMethod input.method).served with
  | none => exact .inl ⟨.inl rfl, 400, rfl⟩
  | some method =>
      cases halloc : input.allocated with
      | false => exact .inl ⟨.inr rfl, 500, by simp⟩
      | true =>
          right
          constructor
          · simp
          · simp only [if_true]
            exact begin_leaves ⟨rfl, rfl, rfl, rfl⟩ rfl

/-! ### Invariants of a connection -/

/-- A connection to which the library gives data. -/
structure Connection.Open (c : Connection) : Prop where
  holders : c.holders = 0
  websock : c.websock = false
  queued : c.lib.queued = false
  suspended : c.lib.suspended = false
  ended : c.lib.ended = false

theorem Connection.Open.lib_eq (h : c.Open) : c.lib = ⟨false, false, false, c.lib.misused⟩ := by
  cases hlib : c.lib with
  | mk queued suspended ended misused =>
      have hqueued := h.queued
      have hsuspended := h.suspended
      have hended := h.ended
      rw [hlib] at hqueued hsuspended hended
      cases hqueued
      cases hsuspended
      cases hended
      rfl

/-- The request that `access_handler` leaves is active. -/
theorem Result.Leaves.applied {result : Result} (h : result.Leaves hreq) (hopen : c.Open) :
    (c.apply result).hreq = some hreq ∧ hreq.Active (c.apply result) ∧
      (c.apply result).lib = ⟨hreq.replied, hreq.suspended, false, c.lib.misused⟩ ∧
      (c.apply result).websock = hreq.upgrade := by
  have hlib : (c.apply result).lib = ⟨hreq.replied, hreq.suspended, false, c.lib.misused⟩ := by
    rw [Connection.apply, hopen.lib_eq]
    exact h.asked c.lib.misused
  have hholders : (c.apply result).holders = result.held := by
    rw [Connection.apply, hopen.holders]
    exact Nat.zero_add _
  have hwebsock : (c.apply result).websock = hreq.upgrade := by
    rw [Connection.apply, hopen.websock]
    exact h.websock
  refine ⟨h.found, ?_, hlib, hwebsock⟩
  constructor
  · rw [hholders]
    exact h.refcount
  · rw [hholders]
    exact h.held
  · exact h.served
  · rw [hlib]
  · intro hsuspended
    rw [hlib]
    exact ⟨h.suspended hsuspended, hsuspended⟩
  · rw [hwebsock]
    exact id
  · exact h.upgrade

theorem Life.Active.opened (h : hreq.Active c) (hqueued : c.lib.queued = false)
    (hsuspended : c.lib.suspended = false) (hended : c.lib.ended = false) :
    hreq.Unanswered ∧ hreq.scanned = false ∧ c.Open := by
  have hreplied : hreq.replied = false := h.queued ▸ hqueued
  have hawake : hreq.suspended = false := by
    by_contra hpaused
    have hlib := (h.suspended (Bool.of_not_eq_false hpaused)).2
    rw [hsuspended] at hlib
    cases hlib
  have hplain : hreq.upgrade = false := by
    by_contra hupgrade
    have hdone := h.upgrade (Bool.of_not_eq_false hupgrade)
    rw [hreplied] at hdone
    cases hdone
  have hscanned : hreq.scanned = false := by
    by_contra hscan
    rcases h.served (Bool.of_not_eq_false hscan) with hdone | hpaused
    · rw [hreplied] at hdone
      cases hdone
    · rw [hawake] at hpaused
      cases hpaused
  have hholders : c.holders = 0 := by
    by_contra hheld
    have hscan := h.held (Nat.pos_of_ne_zero hheld)
    rw [hscanned] at hscan
    cases hscan
  have hwebsock : c.websock = false := by
    by_contra hlives
    have hupgrade := h.websock (Bool.of_not_eq_false hlives)
    rw [hplain] at hupgrade
    cases hupgrade
  have hrefcount := h.refcount
  rw [hholders] at hrefcount
  exact ⟨⟨hrefcount, hawake, hreplied, hplain⟩, hscanned, hholders, hwebsock, hqueued, hsuspended,
    hended⟩

/-- A connection with an active request keeps its invariant. -/
theorem Life.Active.kept (h : hreq.Active c) (hrecord : c.record = true)
    (hended : c.lib.ended = false) (hfound : c.hreq = some hreq) : c.Kept := by
  constructor
  · intro hnone
    rw [hrecord] at hnone
    cases hnone
  · exact fun _ _ => ⟨hreq, hfound, h⟩
  · intro hend
    rw [hended] at hend
    cases hend

theorem proper_of_live (hused : c.lib.misused = false) (hrecord : c.record = true)
    (hended : c.lib.ended = false) (hfound : c.hreq = some hreq)
    (hsuspended : c.lib.suspended = hreq.suspended) (hwebsock : c.websock = hreq.upgrade) :
    c.Proper := by
  refine ⟨hused, fun hnone => ?_, fun _ other hother => ?_, fun hend => ?_⟩
  · rw [hrecord] at hnone
    cases hnone
  · cases hfound.symm.trans hother
    exact ⟨hsuspended, hwebsock⟩
  · rw [hended] at hend
    cases hend

theorem fresh_kept : Connection.fresh.Kept := by
  constructor
  · exact fun _ => ⟨rfl, rfl, rfl, rfl⟩
  · intro hrecord
    cases hrecord
  · intro hended
    cases hended

theorem fresh_proper : Connection.fresh.Proper := by
  refine ⟨rfl, fun _ => rfl, fun _ other hother => ?_, fun hended => ?_⟩
  · cases hother
  · cases hended

theorem Connection.Kept.held (h : c.Kept) (hheld : c.holders ≠ 0) (hfound : c.hreq = some hreq) :
    c.record = true ∧
      (c.lib.ended = false ∧ hreq.Active c ∨
        c.lib.ended = true ∧ hreq.refcount = c.holders ∧ hreq.replied = true) := by
  have hrecord : c.record = true := by
    by_contra hnone
    exact hheld (h.unrecorded (Bool.of_not_eq_true hnone)).2.1
  refine ⟨hrecord, ?_⟩
  cases hended : c.lib.ended with
  | false =>
      rcases h.active hrecord hended with ⟨other, hother, hactive⟩
      cases hfound.symm.trans hother
      exact .inl ⟨rfl, hactive⟩
  | true => exact .inr ⟨rfl, (h.ended hended).2 hreq hfound⟩

/-- After the end, the references of the bindings are the only ones. -/
theorem kept_of_ended (hrecord : c.record = true) (hended : c.lib.ended = true)
    (hhreq : c.hreq.isSome = true ↔ 0 < c.holders)
    (hlife : ∀ hreq, c.hreq = some hreq → hreq.refcount = c.holders ∧ hreq.replied = true) :
    c.Kept := by
  refine ⟨fun hnone => ?_, fun _ hlive => ?_, fun _ => ⟨hhreq, hlife⟩⟩
  · rw [hrecord] at hnone
    cases hnone
  · rw [hended] at hlive
    cases hlive

theorem unref_cases (hreq : Life) :
    (hreq.refcount = 1 ∧ afbHreqUnref hreq = none) ∨
      (hreq.refcount ≠ 1 ∧
        afbHreqUnref hreq = some { hreq with refcount := hreq.refcount - 1 }) := by
  unfold afbHreqUnref
  split
  case isTrue hlast => exact .inl ⟨hlast, rfl⟩
  case isFalse hmore => exact .inr ⟨hmore, rfl⟩

/-! ### What each call keeps -/

/-- A connection after a call. -/
def Keeps (c c' : Connection) : Prop := c'.Kept ∧ (c.Proper → c'.Proper)

theorem keeps_access {result : Result} (hresult : ∃ hreq, result.Leaves hreq)
    (hopen : c.Open) : Keeps c ({ c with record := result.hreq.isSome }.apply result) := by
  rcases hresult with ⟨hreq, hleaves⟩
  have hopen' : Connection.Open { c with record := result.hreq.isSome } :=
    ⟨hopen.holders, hopen.websock, hopen.queued, hopen.suspended, hopen.ended⟩
  rcases hleaves.applied hopen' with ⟨hfound, hactive, hlib, hwebsock⟩
  have hrecord : ({ c with record := result.hreq.isSome }.apply result).record = true := by
    rw [Connection.apply, hleaves.found]
    rfl
  constructor
  · exact hactive.kept hrecord (by rw [hlib]) hfound
  · intro hproper
    refine proper_of_live ?_ hrecord (by rw [hlib]) hfound (by rw [hlib]) hwebsock
    rw [hlib]
    exact hproper.used

theorem keeps_refused (h : c.Kept) (hrecord : c.record = false) (hqueued : c.lib.queued = false)
    (status : Nat) :
    Keeps c ({ c with record := false }.apply ⟨none, 0, false, [.queue status]⟩) := by
  rcases h.unrecorded hrecord with ⟨-, hholders, hwebsock, hended⟩
  constructor
  · constructor
    · exact fun _ => ⟨rfl, hholders, by simp [Connection.apply, hwebsock], hended⟩
    · intro hrecorded
      cases hrecorded
    · intro hend
      have hlive : c.lib.ended = true := hend
      rw [hended] at hlive
      cases hlive
  · intro hproper
    refine ⟨?_, fun _ => hproper.unrecorded hrecord, fun _ other hother => ?_, fun hend => ?_⟩
    · simp [Connection.apply, Library.note, hproper.used, hqueued, hended]
    · cases hother
    · have hlive : c.lib.ended = true := hend
      rw [hended] at hlive
      cases hlive

theorem keeps_complete (h : c.Kept) (hrecord : c.record = true)
    (hsuspended : c.lib.suspended = false) (hended : c.lib.ended = false)
    (hfound : c.hreq = some hreq) :
    Keeps c (c.apply ⟨afbHreqUnref hreq, 0, false,
      if hreq.upgrade then [.completed, .suspend] else [.completed]⟩) := by
  rcases h.active hrecord hended with ⟨other, hother, hactive⟩
  cases hfound.symm.trans hother
  have hreplied : 0 < c.holders → hreq.replied = true := by
    intro hheld
    rcases hactive.served (hactive.held hheld) with hdone | hpaused
    · exact hdone
    · have hlib := (hactive.suspended hpaused).2
      rw [hsuspended] at hlib
      cases hlib
  have hend : (c.apply ⟨afbHreqUnref hreq, 0, false,
      if hreq.upgrade then [.completed, .suspend] else [.completed]⟩).lib.ended = true := by
    cases hreq.upgrade <;> rfl
  constructor
  · have hrefcount := hactive.refcount
    rcases unref_cases hreq with ⟨hlast, hfreed⟩ | ⟨hmore, hleft⟩
    · refine kept_of_ended (show c.record = true from hrecord) hend ?_ ?_
      · simp only [Connection.apply, hfreed, Option.isSome_none, Bool.false_eq_true, false_iff]
        omega
      · intro other hother
        simp [Connection.apply, hfreed] at hother
    · have hheld : 0 < c.holders := by omega
      refine kept_of_ended (show c.record = true from hrecord) hend ?_ ?_
      · simp [Connection.apply, hleft, hheld]
      · intro other hother
        simp only [Connection.apply, hleft, Option.some.injEq] at hother
        subst hother
        refine ⟨?_, hreplied hheld⟩
        simp only [Connection.apply]
        omega
  · intro hproper
    rcases hproper.active hended hreq hfound with ⟨-, hwebsock⟩
    refine ⟨?_, fun hnone => ?_, fun hlive => ?_, fun _ => ?_⟩
    · cases hupgrade : hreq.upgrade with
      | false => simp [Connection.apply, Library.note, hproper.used, hended, hsuspended]
      | true => simp [Connection.apply, Library.note, hproper.used, hended, hsuspended]
    · have hnone' : c.record = false := hnone
      rw [hrecord] at hnone'
      cases hnone'
    · rw [hend] at hlive
      cases hlive
    · cases hupgrade : hreq.upgrade with
      | false => simp [Connection.apply, Library.note, hsuspended, hwebsock, hupgrade]
      | true => simp [Connection.apply, Library.note, hwebsock, hupgrade]

theorem keeps_replied (h : c.Kept) (hfound : c.hreq = some hreq) (hreplied : hreq.replied = true)
    (status : Nat) : Keeps c (c.apply (replyError status hreq)) := by
  have hsame : c.apply (replyError status hreq) = c := by
    have hreply : afbHreqReplyV status hreq = (hreq, []) := by
      simp [afbHreqReplyV, hreplied]
    simp only [replyError, hreply, Connection.apply, ← hfound, Nat.add_zero, Bool.or_false,
      List.foldl_nil]
  rw [hsame]
  exact ⟨h, id⟩

theorem keeps_reply (h : c.Kept) (hheld : c.holders ≠ 0) (hfound : c.hreq = some hreq)
    (status : Nat) : Keeps c (c.apply (replyError status hreq)) := by
  rcases h.held hheld hfound with ⟨hrecord, ⟨hended, hactive⟩ | ⟨-, -, hreplied⟩⟩
  · rcases hactive.served (hactive.held (Nat.pos_of_ne_zero hheld)) with hreplied | hpaused
    · exact keeps_replied h hfound hreplied status
    · rcases hactive.suspended hpaused with ⟨hreplied, hlib⟩
      have hqueued : c.lib.queued = false := hactive.queued.trans hreplied
      have hreply : afbHreqReplyV status hreq =
          ({ hreq with replied := true, suspended := false }, [.queue status, .resume]) := by
        simp [afbHreqReplyV, hreplied, hpaused]
      rw [replyError, hreply]
      have hactive' : Life.Active { hreq with replied := true, suspended := false }
          (c.apply ⟨some { hreq with replied := true, suspended := false }, 0, false,
            [.queue status, .resume]⟩) :=
        ⟨hactive.refcount, hactive.held, fun _ => .inl rfl, rfl, fun hpaused => absurd hpaused Bool.false_ne_true,
          fun hlives => hactive.websock (by simpa [Connection.apply] using hlives), fun _ => rfl⟩
      constructor
      · exact hactive'.kept hrecord hended rfl
      · intro hproper
        refine proper_of_live ?_ hrecord hended rfl rfl ?_
        · simp [Connection.apply, Library.note, hproper.used, hqueued, hended, hlib]
        · simp [Connection.apply, (hproper.active hended hreq hfound).2]
  · exact keeps_replied h hfound hreplied status

theorem keeps_addref (h : c.Kept) (hheld : c.holders ≠ 0) (hfound : c.hreq = some hreq) :
    Keeps c (c.apply ⟨some { hreq with refcount := hreq.refcount + 1 }, 1, false, []⟩) := by
  rcases h.held hheld hfound with ⟨hrecord, ⟨hended, hactive⟩ | ⟨hended, hrefcount, hreplied⟩⟩
  · have hactive' : Life.Active { hreq with refcount := hreq.refcount + 1 }
        (c.apply ⟨some { hreq with refcount := hreq.refcount + 1 }, 1, false, []⟩) :=
      ⟨congrArg (· + 1) hactive.refcount, fun _ => hactive.held (Nat.pos_of_ne_zero hheld),
        hactive.served, hactive.queued, hactive.suspended,
        fun hlives => hactive.websock (by simpa [Connection.apply] using hlives), hactive.upgrade⟩
    constructor
    · exact hactive'.kept hrecord hended rfl
    · intro hproper
      rcases hproper.active hended hreq hfound with ⟨hsuspended, hwebsock⟩
      refine proper_of_live hproper.used hrecord hended rfl hsuspended ?_
      simp [Connection.apply, hwebsock]
  · constructor
    · refine kept_of_ended (show c.record = true from hrecord) hended ?_ ?_
      · simp [Connection.apply]
      · intro other hother
        cases hother
        exact ⟨congrArg (· + 1) hrefcount, hreplied⟩
    · intro hproper
      refine ⟨hproper.used, fun hnone => ?_, fun hlive => ?_, fun _ => ?_⟩
      · exact hproper.unrecorded hnone
      · have hlive' : c.lib.ended = false := hlive
        rw [hended] at hlive'
        cases hlive'
      · simp only [Connection.apply, Bool.or_false]
        exact hproper.ended hended

theorem keeps_unref (h : c.Kept) (hheld : c.holders ≠ 0) (hfound : c.hreq = some hreq) :
    Keeps c ({ c with holders := c.holders - 1 }.apply ⟨afbHreqUnref hreq, 0, false, []⟩) := by
  rcases h.held hheld hfound with ⟨hrecord, ⟨hended, hactive⟩ | ⟨hended, hrefcount, hreplied⟩⟩
  · have hcount := hactive.refcount
    rcases unref_cases hreq with ⟨hlast, -⟩ | ⟨hmore, hleft⟩
    · omega
    · rw [hleft]
      have hactive' : Life.Active { hreq with refcount := hreq.refcount - 1 }
          ({ c with holders := c.holders - 1 }.apply
            ⟨some { hreq with refcount := hreq.refcount - 1 }, 0, false, []⟩) := by
        refine ⟨?_, fun _ => hactive.held (Nat.pos_of_ne_zero hheld), hactive.served,
          hactive.queued, hactive.suspended, fun hlives => ?_, hactive.upgrade⟩
        · simp only [Connection.apply]
          omega
        · exact hactive.websock (by simpa [Connection.apply] using hlives)
      constructor
      · exact hactive'.kept hrecord hended rfl
      · intro hproper
        rcases hproper.active hended hreq hfound with ⟨hsuspended, hwebsock⟩
        refine proper_of_live hproper.used hrecord hended rfl hsuspended ?_
        simp [Connection.apply, hwebsock]
  · constructor
    · rcases unref_cases hreq with ⟨hlast, hfreed⟩ | ⟨hmore, hleft⟩
      · refine kept_of_ended (show c.record = true from hrecord) hended ?_ ?_
        · simp only [Connection.apply, hfreed, Option.isSome_none, Bool.false_eq_true, false_iff]
          omega
        · intro other hother
          simp [Connection.apply, hfreed] at hother
      · refine kept_of_ended (show c.record = true from hrecord) hended ?_ ?_
        · simp only [Connection.apply, hleft, Option.isSome_some, true_iff]
          omega
        · intro other hother
          simp only [Connection.apply, hleft, Option.some.injEq] at hother
          subst hother
          refine ⟨?_, hreplied⟩
          simp only [Connection.apply]
          omega
    · intro hproper
      refine ⟨hproper.used, fun hnone => ?_, fun hlive => ?_, fun _ => ?_⟩
      · exact hproper.unrecorded hnone
      · have hlive' : c.lib.ended = false := hlive
        rw [hended] at hlive'
        cases hlive'
      · simp only [Connection.apply, Bool.or_false]
        exact hproper.ended hended

theorem Legal.keeps {c₀ : Connection} {action : Action} {result : Result} (h : c.Kept)
    (hlegal : Legal c action c₀ result) : Keeps c (c₀.apply result) := by
  cases hlegal with
  | create hrecord hqueued hsuspended hended =>
      rename_i index input
      rcases create_cases input with ⟨-, status, hcreate⟩ | ⟨-, hleaves⟩
      · rw [hcreate]
        exact keeps_refused h hrecord hqueued status
      · rcases h.unrecorded hrecord with ⟨-, hholders, hwebsock, -⟩
        exact keeps_access hleaves ⟨hholders, hwebsock, hqueued, hsuspended, hended⟩
  | proceed hrecord hqueued hsuspended hended hfound =>
      rename_i index input hreq
      rcases h.active hrecord hended with ⟨other, hother, hactive⟩
      cases hfound.symm.trans hother
      rcases hactive.opened hqueued hsuspended hended with ⟨hunanswered, hscanned, hopen⟩
      have hleaves := @proceed_leaves _ input hunanswered hscanned
      have hkeeps := keeps_access hleaves hopen
      rcases hleaves with ⟨hreq', hleaves⟩
      rw [hleaves.found, Option.isSome_some, ← hrecord] at hkeeps
      exact hkeeps
  | complete hrecord hsuspended hended hfound =>
      exact keeps_complete h hrecord hsuspended hended hfound
  | reply hheld hfound => exact keeps_reply h hheld hfound _
  | addref hheld hfound => exact keeps_addref h hheld hfound
  | unref hheld hfound => exact keeps_unref h hheld hfound

end AfbBinder.Http.Serving
