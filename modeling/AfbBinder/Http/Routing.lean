import AfbBinder.Http.Hsrv
import Mathlib.Data.List.DropRight

/-!
# Routing

The handlers are in the order of their priorities, then of the lengths of their prefixes,
then of their registrations.  Each is tried on the whole URL, until one accepts.
-/

namespace AfbBinder.Http

open Lib

variable {σ : Type}

/-! ## The order of the handlers -/

def HsrvHandler.key (handler : HsrvHandler σ) : Int × Nat := (handler.priority, handler.length)

/-- A greater priority goes ahead, then a longer prefix. -/
def Ahead (key key' : Int × Nat) : Prop := key'.1 < key.1 ∨ key'.1 = key.1 ∧ key'.2 ≤ key.2

instance : IsLinearOrder (Int × Nat) Ahead where
  refl := fun _ => Or.inr ⟨rfl, Nat.le_refl _⟩
  trans := by
    intro a b c hab hbc
    unfold Ahead at *
    omega
  antisymm := by
    rintro ⟨p, n⟩ ⟨p', n'⟩ hab hba
    simp only [Ahead] at hab hba
    simp only [Prod.mk.injEq]
    omega
  total := by
    intro a b
    unfold Ahead
    omega

theorem follows_iff (link iter : HsrvHandler σ) :
    link.follows iter = true ↔ Ahead iter.key link.key := by
  simp [HsrvHandler.follows, Ahead, HsrvHandler.key]

/-- The handlers registered, in the order of their registrations. -/
def registered (regs : List (Registration σ)) : List (HsrvHandler σ) :=
  (regs.filter Registration.allocated).map Registration.link

theorem arranged_foldl (regs : List (Registration σ)) {given handlers : List (HsrvHandler σ)}
    (h : Arranged HsrvHandler.key Ahead given handlers) :
    Arranged HsrvHandler.key Ahead (given ++ registered regs)
      (regs.foldl (fun handlers reg => (afbHsrvAddHandler handlers reg).2) handlers) := by
  induction regs generalizing given handlers with
  | nil => simpa [registered] using h
  | cons reg regs ih =>
      rw [List.foldl_cons]
      cases hallocated : reg.allocated with
      | false =>
          have hsame : (afbHsrvAddHandler handlers reg).2 = handlers := by
            simp [afbHsrvAddHandler, newHandler, hallocated]
          rw [hsame]
          simpa [registered, hallocated] using ih h
      | true =>
          have hplaced : (afbHsrvAddHandler handlers reg).2 =
              place reg.link.follows reg.link handlers := by
            simp [afbHsrvAddHandler, newHandler, hallocated]
          rw [hplaced]
          simpa [registered, hallocated] using ih (h.place (follows_iff reg.link))

theorem handlers_arranged (regs : List (Registration σ)) :
    Arranged HsrvHandler.key Ahead (registered regs) (handlersOf regs) :=
  arranged_foldl regs Arranged.nil

/-! ## The prefix -/

/-- The tail of a text that starts with the prefix: what follows it, less the slashes
before the last of the first ones. -/
def Remains (pfx url tail : Bytes) : Prop :=
  ∃ front slashes, url = front ++ slashes ++ tail ∧
    front.map tolower = (pfx.rdropWhile (· == slash)).map tolower ∧
    (∀ c ∈ slashes, c = slash) ∧
    (tail = [] ∧ slashes = [] ∨ ∃ rest, tail = slash :: rest ∧ rest.head? ≠ some slash)

theorem withoutSlashes_append (front back : Bytes) {n : Nat} (hn : n ≤ front.length) :
    withoutSlashes (front ++ back) n = withoutSlashes front n := by
  induction n with
  | zero => rfl
  | succ n ih =>
      rw [withoutSlashes, withoutSlashes, List.getElem?_append_left hn, ih (by omega)]

theorem withoutSlashes_eq (pfx : Bytes) :
    withoutSlashes pfx pfx.length = (pfx.rdropWhile (· == slash)).length := by
  induction pfx using List.reverseRecOn with
  | nil => rfl
  | append_singleton front c ih =>
      rw [List.length_append, List.length_singleton, withoutSlashes, List.rdropWhile_concat,
        List.getElem?_concat_length]
      by_cases hc : c = slash
      · simp only [hc, beq_self_eq_true, if_true]
        rw [withoutSlashes_append front [slash] (Nat.le_refl _), ih]
      · simp [hc]

theorem take_withoutSlashes (pfx : Bytes) :
    pfx.take (withoutSlashes pfx pfx.length) = pfx.rdropWhile (· == slash) := by
  rw [withoutSlashes_eq]
  have hstart := List.rdropWhile_prefix (· == slash) pfx
  exact (List.prefix_iff_eq_take.mp hstart).symm

/-- The loop stops at the last of the slashes. -/
theorem skipSlashes_spec (front rest : Bytes) {turns : Nat} (hturns : rest.length ≤ turns) :
    ∃ slashes rest', rest'.head? ≠ some slash ∧ (∀ c ∈ slashes, c = slash) ∧
      front ++ slash :: rest = front ++ slashes ++ slash :: rest' ∧
      (front ++ slash :: rest).drop (skipSlashes (front ++ slash :: rest) turns front.length) =
        slash :: rest' := by
  induction rest generalizing front turns with
  | nil =>
      refine ⟨[], [], by simp, by simp, by simp, ?_⟩
      have hstop : skipSlashes (front ++ [slash]) turns front.length = front.length := by
        cases turns with
        | zero => rfl
        | succ turns => simp [skipSlashes]
      rw [hstop, List.drop_left]
  | cons c rest ih =>
      obtain ⟨turns, rfl⟩ : ∃ k, turns = k + 1 := ⟨turns - 1, by simp at hturns; omega⟩
      have hnext : (front ++ slash :: c :: rest)[front.length + 1]? = some c := by
        rw [List.getElem?_append_right (by omega)]
        simp
      have hin : front.length < (front ++ slash :: c :: rest).length := by simp
      by_cases hc : c = slash
      · subst hc
        have hturns' : rest.length ≤ turns := by simpa using hturns
        obtain ⟨slashes, rest', hhead, hall, hsplit, hdrop⟩ := ih (front ++ [slash]) hturns'
        refine ⟨slash :: slashes, rest', hhead, ?_, by simpa using hsplit, ?_⟩
        · intro d hd
          rcases List.mem_cons.mp hd with rfl | hd
          · rfl
          · exact hall d hd
        · rw [skipSlashes, if_pos ⟨hin, hnext⟩]
          simpa using hdrop
      · refine ⟨[], c :: rest, by simpa using hc, by simp, by simp, ?_⟩
        have hne : ¬ (front.length < (front ++ slash :: c :: rest).length ∧
            (front ++ slash :: c :: rest)[front.length + 1]? = some slash) := by
          rintro ⟨-, hslash⟩
          rw [hnext] at hslash
          exact hc (Option.some.inj hslash)
        rw [skipSlashes, if_neg hne, List.drop_left]

theorem unprefix_some {pfx tail tail' : Bytes} {length : Nat}
    (h : afbHreqUnprefix pfx length tail = some tail') :
    ∃ front slashes, tail = front ++ slashes ++ tail' ∧
      front.map tolower = (pfx.take length).map tolower ∧ (∀ c ∈ slashes, c = slash) ∧
      (tail' = [] ∧ slashes = [] ∨ ∃ rest, tail' = slash :: rest ∧ rest.head? ≠ some slash) := by
  unfold afbHreqUnprefix at h
  split at h
  · cases h
  · rename_i hpass
    simp only [not_or, not_and, Nat.not_lt, Bool.not_eq_false, Decidable.not_not] at hpass
    obtain ⟨hle, hends, hcase⟩ := hpass
    have hfront := ((strncaseeq_iff length pfx tail).mp hcase).symm
    have hsplit := List.take_append_drop length tail
    have hlength : (tail.take length).length = length := by
      rw [List.length_take]
      omega
    cases hback : tail.drop length with
    | nil =>
        have hwhole : tail.length ≤ length := List.drop_eq_nil_iff.mp hback
        have hend : length = tail.length := Nat.le_antisymm hle hwhole
        have hstop : skipSlashes tail tail.length length = length := by
          cases tail with
          | nil => rfl
          | cons c tail => simp [skipSlashes, hend]
        rw [hstop, hback] at h
        cases h
        rw [hback, List.append_nil] at hsplit
        exact ⟨tail.take length, [], by simp [hsplit], hfront, by simp, Or.inl ⟨rfl, rfl⟩⟩
    | cons c rest =>
        have hc : tail[length]? = some c := by
          rw [← List.head?_drop, hback]
          rfl
        have hslash : c = slash := by
          have hsome := hends (by simp [hc])
          rw [hc] at hsome
          exact Option.some.inj hsome
        rw [hback, hslash] at hsplit
        have hturns : rest.length ≤ tail.length := by
          have hlong := congrArg List.length hback
          rw [List.length_drop, List.length_cons] at hlong
          omega
        obtain ⟨slashes, rest', hhead, hall, hshape, hdrop⟩ :=
          skipSlashes_spec (tail.take length) rest hturns
        rw [hsplit] at hshape hdrop
        rw [hlength] at hdrop
        rw [hdrop] at h
        cases h
        exact ⟨tail.take length, slashes, hshape, hfront, hall, Or.inr ⟨rest', rfl, hhead⟩⟩

/-- What a handler is given of a URL, when it is called. -/
def HsrvHandler.share (handler : HsrvHandler σ) (url : Bytes) : Option Bytes :=
  afbHreqUnprefix handler.pfx.bytes handler.length url

theorem mem_handlersOf {regs : List (Registration σ)} {handler : HsrvHandler σ}
    (h : handler ∈ handlersOf regs) :
    handler.length = withoutSlashes handler.pfx.bytes handler.pfx.bytes.length := by
  obtain ⟨reg, -, rfl⟩ := List.mem_map.mp ((handlers_arranged regs).perm.mem_iff.mp h)
  rfl

theorem share_remains {regs : List (Registration σ)} {handler : HsrvHandler σ}
    (h : handler ∈ handlersOf regs) {url tail : Bytes} (hshare : handler.share url = some tail) :
    Remains handler.pfx.bytes url tail := by
  rw [HsrvHandler.share, mem_handlersOf h] at hshare
  have hspec := unprefix_some hshare
  rw [take_withoutSlashes] at hspec
  exact hspec

/-! ## The search -/

/-- The handlers tried are the first ones; those called are those that the URL matches,
each with its share of the whole URL; all decline but the last one, if the request is
accepted. -/
structure Searched (handlers : List (HsrvHandler σ)) (url : Bytes) (calls : List (HandlerCall σ))
    (accepted : Bool) (tried left : List (HsrvHandler σ)) : Prop where
  split : handlers = tried ++ left
  called : calls.map (fun call => (call.handler, call.tail)) =
    tried.filterMap fun handler => (handler.share url).map fun tail => (handler, tail)
  declined : accepted = false → left = [] ∧ ∀ call ∈ calls, call.accepted = false
  accepts : accepted = true → ∃ before last, calls = before ++ [last] ∧
    (∀ call ∈ before, call.accepted = false) ∧ last.accepted = true ∧
    tried.getLast? = some last.handler

section Searched

variable {iter : HsrvHandler σ} {next tried left : List (HsrvHandler σ)} {url tail : Bytes}
  {calls : List (HandlerCall σ)} {accepted : Bool}

/-- A handler that the URL does not match. -/
theorem Searched.skip (hs : Searched next url calls accepted tried left)
    (hshare : iter.share url = none) :
    Searched (iter :: next) url calls accepted (iter :: tried) left where
  split := by rw [hs.split, List.cons_append]
  called := by rw [hs.called, List.filterMap_cons, hshare, Option.map_none]
  declined := hs.declined
  accepts := by
    intro haccepted
    rcases hs.accepts haccepted with ⟨before, last, hcalls, hbefore, hlast, hend⟩
    refine ⟨before, last, hcalls, hbefore, hlast, ?_⟩
    rw [List.getLast?_cons, hend]
    rfl

theorem Searched.accept (hshare : iter.share url = some tail) :
    Searched (iter :: next) url [⟨iter, tail, true⟩] true [iter] next where
  split := rfl
  called := by simp [hshare]
  declined := fun h => by cases h
  accepts := fun _ => ⟨[], ⟨iter, tail, true⟩, rfl, by simp, rfl, rfl⟩

/-- A handler that is called and declines. -/
theorem Searched.decline (hs : Searched next url calls accepted tried left)
    (hshare : iter.share url = some tail) :
    Searched (iter :: next) url (⟨iter, tail, false⟩ :: calls) accepted (iter :: tried) left where
  split := by rw [hs.split, List.cons_append]
  called := by
    rw [List.map_cons, hs.called, List.filterMap_cons, hshare]
    rfl
  declined := by
    intro haccepted
    rcases hs.declined haccepted with ⟨hleft, hall⟩
    exact ⟨hleft, List.forall_mem_cons.mpr ⟨rfl, hall⟩⟩
  accepts := by
    intro haccepted
    rcases hs.accepts haccepted with ⟨before, last, hcalls, hbefore, hlast, hend⟩
    refine ⟨⟨iter, tail, false⟩ :: before, last, by rw [hcalls]; rfl,
      List.forall_mem_cons.mpr ⟨rfl, hbefore⟩, hlast, ?_⟩
    rw [List.getLast?_cons, hend]
    rfl

end Searched

/-- The search at a handler that is called. -/
theorem searchHandler_run {iter : HsrvHandler σ} {next : List (HsrvHandler σ)}
    {hreq hreq' : Hreq σ} {tail : Bytes} {answer : Bool}
    (hshare : iter.share hreq.tail = some tail)
    (hrun : iter.handler.run { hreq with tail := tail } = (answer, hreq')) :
    searchHandler (iter :: next) hreq =
      if answer then ([⟨iter, tail, true⟩], true, hreq')
      else
        (⟨iter, tail, false⟩ :: (searchHandler next { hreq' with tail := hreq'.url.bytes }).1,
          (searchHandler next { hreq' with tail := hreq'.url.bytes }).2) := by
  rw [HsrvHandler.share] at hshare
  rw [searchHandler, hshare]
  simp only [hrun]

theorem searchHandler_spec (handlers : List (HsrvHandler σ)) {hreq hreq' : Hreq σ}
    {calls : List (HandlerCall σ)} {accepted : Bool} (htail : hreq.tail = hreq.url.bytes)
    (hsearch : searchHandler handlers hreq = (calls, accepted, hreq')) :
    (∃ tried left, Searched handlers hreq.url.bytes calls accepted tried left) ∧
      (accepted = false → hreq'.reply = hreq.reply) := by
  induction handlers generalizing hreq calls with
  | nil =>
      cases hsearch
      exact ⟨⟨[], [], rfl, rfl, fun _ => ⟨rfl, by simp⟩, fun h => by cases h⟩, fun _ => rfl⟩
  | cons iter next ih =>
      cases hshare : iter.share hreq.url.bytes with
      | none =>
          have hskip : searchHandler (iter :: next) hreq = searchHandler next hreq := by
            rw [HsrvHandler.share, ← htail] at hshare
            rw [searchHandler, hshare]
          rw [hskip] at hsearch
          rcases ih htail hsearch with ⟨⟨tried, left, hs⟩, hreply⟩
          exact ⟨⟨iter :: tried, left, hs.skip hshare⟩, hreply⟩
      | some tail =>
          cases hrun : iter.handler.run { hreq with tail := tail } with
          | mk answer hreq₁ =>
              have hurl : hreq₁.url = hreq.url := by
                simpa [hrun] using iter.handler.url { hreq with tail := tail }
              have hdeclines : answer = false → hreq₁.reply = hreq.reply := by
                simpa [hrun] using iter.handler.declines { hreq with tail := tail }
              rw [searchHandler_run (by rw [htail, hshare]) hrun] at hsearch
              cases answer with
              | true =>
                  cases hsearch
                  exact ⟨⟨[iter], next, Searched.accept hshare⟩, fun h => by cases h⟩
              | false =>
                  cases hnext : searchHandler next { hreq₁ with tail := hreq₁.url.bytes } with
                  | mk calls' out =>
                      rw [hnext] at hsearch
                      cases hsearch
                      rcases ih rfl hnext with ⟨⟨tried, left, hs⟩, hreply⟩
                      simp only [hurl] at hs
                      exact ⟨⟨iter :: tried, left, hs.decline hshare⟩,
                        fun haccepted => (hreply haccepted).trans (hdeclines rfl)⟩

/-- What the search makes of a new request. -/
theorem accessHandler_spec (handlers : List (HsrvHandler σ)) (url : CString) (rest : σ) :
    ∃ accepted tried left,
      Searched handlers url.bytes (accessHandler handlers (newRequest url rest)).1 accepted tried
        left ∧
      (accepted = false → (accessHandler handlers (newRequest url rest)).2.reply = some 404) := by
  cases hsearch : searchHandler handlers { newRequest url rest with scanned := true } with
  | mk calls out =>
      rcases out with ⟨accepted, hreq'⟩
      rcases searchHandler_spec handlers rfl hsearch with ⟨⟨tried, left, hs⟩, hreply⟩
      have haccess : accessHandler handlers (newRequest url rest) =
          if accepted then (calls, suspend hreq') else (calls, afbHreqReplyError 404 hreq') := by
        rw [accessHandler, if_neg (by simp [newRequest]), hsearch]
      refine ⟨accepted, tried, left, ?_, ?_⟩
      · rw [haccess]
        cases accepted with
        | false => exact hs
        | true => exact hs
      · intro hdeclined
        have hnone : hreq'.reply = none := hreply hdeclined
        rw [haccess, hdeclined]
        simp [afbHreqReplyError, hnone]

end AfbBinder.Http
