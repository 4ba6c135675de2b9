import AfbBinder.Session.Forwarded
import AfbBinder.Session.Json1

/-!
# The level of assurance

The level of a session is raised by its requests: `afb_context_change_loa` records a level
in the context, which the end of the request gives to the session.  A verb can require a
level of the session.  Every level in force was asked for by a request of the same session
whose context was validated.
-/

namespace AfbBinder.Session.Json1

open Lib

variable {s s' s'' : Store} {client : Nat}

/-! ## Levels in the store -/

/-- Each level of `s'` is zero or was there in `s`. -/
def LevelsFrom (s s' : Store) : Prop :=
  ∀ a x', s'.mem a = some x' → x'.loa = 0 ∨ ∃ x, s.mem a = some x ∧ x'.loa = x.loa

theorem LevelsFrom.refl (s : Store) : LevelsFrom s s := by
  intro a x hx
  exact .inr ⟨x, hx, rfl⟩

theorem LevelsFrom.trans (h : LevelsFrom s s') (h' : LevelsFrom s' s'') : LevelsFrom s s'' := by
  intro a x'' hx''
  rcases h' a x'' hx'' with hzero | ⟨x', hx', hsame⟩
  · exact .inl hzero
  · rcases h a x' hx' with hzero | ⟨x, hx, hsame'⟩
    · exact .inl (hsame.trans hzero)
    · exact .inr ⟨x, hx, hsame.trans hsame'⟩

theorem LevelsFrom.put {c c' : ClientCtx} (hc : s.mem client = some c) (hloa : c'.loa = c.loa) :
    LevelsFrom s (s.put client c') := by
  intro a x' hx'
  rw [put_mem, Function.update_apply] at hx'
  split at hx'
  case isTrue ha =>
    cases hx'
    exact .inr ⟨c, ha ▸ hc, hloa⟩
  case isFalse => exact .inr ⟨x', hx', rfl⟩

theorem LevelsFrom.modify {f : ClientCtx → ClientCtx × List Release}
    (hf : ∀ c, (f c).1.loa = c.loa) (s : Store) (client : Nat) :
    LevelsFrom s (s.modify client f) := by
  rw [Store.modify]
  split
  · exact .refl s
  · rename_i c hc
    exact LevelsFrom.put hc (hf c)

theorem LevelsFrom.delete (s : Store) (client : Nat) : LevelsFrom s (ctxDelete client s) := by
  intro a x' hx'
  rw [ctxDelete_mem, Function.update_apply] at hx'
  split at hx'
  · cases hx'
  · exact .inr ⟨x', hx', rfl⟩

theorem LevelsFrom.addRef (s : Store) (client : Nat) : LevelsFrom s (ctxClientAddRef client s) := by
  rw [ctxClientAddRef]
  split
  · exact .refl s
  · rename_i c hc
    exact LevelsFrom.put hc rfl

theorem LevelsFrom.unref (s : Store) (client : Nat) : LevelsFrom s (ctxClientUnref client s) := by
  rw [ctxClientUnref]
  split
  · exact .refl s
  · rename_i c hc
    have hput : LevelsFrom s (s.put client { c with refcount := c.refcount - 1 }) :=
      LevelsFrom.put hc rfl
    dsimp only
    split
    · exact hput.trans (.delete _ client)
    · exact hput

theorem LevelsFrom.close (s : Store) (client : Nat) : LevelsFrom s (ctxClientClose client s) := by
  cases hc : s.mem client with
  | none =>
      rw [ctxClientClose, hc]
      exact .refl s
  | some c =>
      by_cases hu : c.uuid = []
      · rw [ctxClientClose_closed hc hu]
        exact .refl s
      · intro a x' hx'
        rw [ctxClientClose_mem hc hu, Function.update_apply] at hx'
        split at hx'
        case isTrue ha =>
          split at hx'
          · cases hx'
          · cases hx'
            rcases closedCtx_frame s.apicount c with ⟨values, hvalues⟩
            exact .inr ⟨c, ha ▸ hc, by rw [hvalues]⟩
        case isFalse => exact .inr ⟨x', hx', rfl⟩

theorem LevelsFrom.cleanUpSlot (now : Int) (s : Store) (idx : Nat) :
    LevelsFrom s (Session.cleanUpSlot now s idx) := by
  rw [Session.cleanUpSlot]
  split
  · split
    · split
      · exact .close s _
      · exact .refl s
    · exact .refl s
  · exact .refl s

theorem LevelsFrom.cleanUp (now : Int) (s : Store) : LevelsFrom s (ctxStoreCleanUp now s) := by
  rw [ctxStoreCleanUp]
  generalize List.range s.slots.length = indices
  induction indices generalizing s with
  | nil => exact .refl s
  | cons idx indices ih => exact (LevelsFrom.cleanUpSlot now s idx).trans (ih _)

theorem LevelsFrom.newContext (allocated : Bool) (generated : Bytes) (uuid : Option Bytes)
    (timeout now : Int) (s : Store) :
    LevelsFrom s (Session.newContext allocated generated uuid timeout now s).2 := by
  rcases newContext_cases allocated generated uuid timeout now s with ⟨e, he⟩ | ⟨slots, -, -, hok⟩
  · rw [he]
    exact .refl s
  · rw [hok]
    intro a x' hx'
    rw [put_mem, Function.update_apply] at hx'
    split at hx'
    · cases hx'
      exact .inl rfl
    · exact .inr ⟨x', hx', rfl⟩

theorem LevelsFrom.getSession (allocated : Bool) (generated : Bytes) (uuid : Option Bytes)
    (now : Int) (s : Store) :
    LevelsFrom s (ctxClientGetSession allocated generated uuid now s).2.2 := by
  have hclean := LevelsFrom.cleanUp now s
  rw [ctxClientGetSession]
  dsimp only
  split
  · split
    · rename_i c hc
      exact hclean.trans (.put hc rfl)
    · exact hclean
  · have hnew := LevelsFrom.newContext allocated generated uuid (ctxStoreCleanUp now s).timeout now
      (ctxStoreCleanUp now s)
    exact hclean.trans hnew

/-! ## Levels asked for -/

/-- A request of the session asked for the level, with a validated context. -/
def Granted (client level : Nat) (ts : List (Transition Daemon Action)) : Prop :=
  ∃ t ∈ ts, ∃ request r, t.action = .contextChangeLoa request level ∧
    t.before.livingRequest request = some r ∧ r.context.session = some client ∧
    r.context.validated = true ∧ level ≤ 7

variable {ts : List (Transition Daemon Action)} {d d' : Daemon}

theorem Granted.later {level : Nat} (h : Granted client level ts) (t : Transition Daemon Action) :
    Granted client level (ts ++ [t]) := by
  rcases h with ⟨u, hu, hgranted⟩
  exact ⟨u, List.mem_append_left _ hu, hgranted⟩

/-- The levels of the sessions were asked for. -/
def Grounded (ts : List (Transition Daemon Action)) (s : Store) : Prop :=
  ∀ client c, s.mem client = some c → c.loa ≠ 0 → Granted client c.loa ts

/-- The level that a request found, and the one that it asks for, were asked for. -/
structure Context.Grounded (ts : List (Transition Daemon Action)) (client : Nat)
    (context : Context) : Prop where
  found : context.loaIn ≠ 0 → Granted client context.loaIn ts
  asked : context.loaChanging = true → context.loaOut ≠ 0 → Granted client context.loaOut ts

structure Sound (d : Daemon) (ts : List (Transition Daemon Action)) : Prop where
  store : Grounded ts d.store
  contexts : ∀ r ∈ d.requests, ∀ client, r.context.session = some client →
    Context.Grounded ts client r.context

theorem Grounded.from (h : Grounded ts s) (hlevels : LevelsFrom s s') : Grounded ts s' := by
  intro client c' hc' hne
  rcases hlevels client c' hc' with hzero | ⟨c, hc, hsame⟩
  · exact absurd hzero hne
  · rw [hsame] at hne ⊢
    exact h client c hc hne

theorem Grounded.later (h : Grounded ts s) (t : Transition Daemon Action) :
    Grounded (ts ++ [t]) s :=
  fun client c hc hne => (h client c hc hne).later t

theorem Context.Grounded.later {context : Context} (h : Context.Grounded ts client context)
    (t : Transition Daemon Action) : Context.Grounded (ts ++ [t]) client context :=
  ⟨fun hne => (h.found hne).later t, fun hchanging hne => (h.asked hchanging hne).later t⟩

theorem Sound.later (h : Sound d ts) (t : Transition Daemon Action) : Sound d (ts ++ [t]) :=
  ⟨h.store.later t, fun r hr client hclient => (h.contexts r hr client hclient).later t⟩

theorem Grounded.setLOA (h : Grounded ts s) {level : Nat}
    (hlevel : level ≠ 0 → Granted client level ts) :
    Grounded ts (s.modify client fun c => (ctxClientSetLOA level c, [])) := by
  rw [Store.modify]
  split
  · exact h
  · intro a x hx hne
    rw [put_mem, Function.update_apply] at hx
    split at hx
    case isTrue ha =>
      cases hx
      exact ha ▸ hlevel hne
    case isFalse => exact h a x hx hne

/-! ## The actions -/

theorem living_spec {request : Nat} {r : Request} (h : d.livingRequest request = some r) :
    r ∈ d.requests ∧ ∃ client, r.context.session = some client := by
  rcases Option.filter_eq_some_iff.mp h with ⟨hget, hsome⟩
  exact ⟨List.mem_of_getElem? hget, Option.isSome_iff_exists.mp hsome⟩

theorem Sound.setContext (h : Sound d ts) {request : Nat} {r : Request} {context : Context}
    (hcontext : ∀ client, context.session = some client → Context.Grounded ts client context) :
    Sound (d.setContext request r context) ts := by
  refine ⟨h.store, fun other hother => ?_⟩
  rcases List.mem_or_eq_of_mem_set hother with hold | rfl
  · exact h.contexts other hold
  · exact hcontext

/-- A new context finds the level of its session. -/
theorem grounded_initContext (h : Grounded ts s) {c : ClientCtx} (hc : s.mem client = some c)
    (token : Option Bytes) (now : Int) :
    Context.Grounded ts client (initContext client c token now) := by
  have hreset : Context.Grounded ts client (resetContext client c.loa) := by
    refine ⟨fun hne => ?_, fun hchanging => absurd hchanging Bool.false_ne_true⟩
    have hloa : c.loa ≠ 0 := by
      intro hzero
      exact hne (by rw [resetContext, hzero])
    have hgranted := h client c hc hloa
    have hsmall : c.loa ≤ 7 := by
      rcases hgranted with ⟨_, _, _, _, _, _, _, _, hle⟩
      exact hle
    have hsame : (resetContext client c.loa).loaIn = c.loa := Nat.mod_eq_of_lt (by omega)
    rw [hsame]
    exact hgranted
  unfold initContext
  split
  · exact hreset
  · split
    · exact ⟨hreset.found, hreset.asked⟩
    · exact ⟨hreset.found, hreset.asked⟩

theorem Context.Grounded.of_eq {context context' : Context}
    (h : Context.Grounded ts client context) (hin : context'.loaIn = context.loaIn)
    (hout : context'.loaOut = context.loaOut)
    (hchanging : context'.loaChanging = context.loaChanging) :
    Context.Grounded ts client context' :=
  ⟨by rw [hin]; exact h.found, by rw [hchanging, hout]; exact h.asked⟩

theorem Sound.http (h : Sound d ts) {allocated : Bool} {generated : Bytes}
    {uuid token : Option Bytes} (hexec : exec d (.http allocated generated uuid token) = some d') :
    Sound d' ts := by
  have hlevels := LevelsFrom.getSession allocated generated uuid d.now d.store
  have hstore := h.store.from hlevels
  simp only [exec, afbContextConnect] at hexec
  cases hget : ctxClientGetSession allocated generated uuid d.now d.store with
  | mk result rest =>
      rcases rest with ⟨created, store⟩
      rw [hget] at hexec hstore
      cases result with
      | error e =>
          cases hexec
          exact ⟨hstore, h.contexts⟩
      | ok client =>
          cases hc : store.mem client with
          | none =>
              simp only [hc] at hexec
              cases hexec
              exact ⟨hstore, h.contexts⟩
          | some c =>
              simp only [hc] at hexec
              cases hexec
              refine ⟨hstore, fun r hr other hother => ?_⟩
              rcases List.mem_append.mp hr with hr | hr
              · exact h.contexts r hr other hother
              · cases List.mem_singleton.mp hr
                have hsession := initContext_session client c token d.now
                cases hsession.symm.trans hother
                exact (grounded_initContext hstore hc token d.now).of_eq rfl rfl rfl

theorem Sound.wsCall (h : Sound d ts) {link : Nat} {token : Option Bytes}
    (hexec : awsOnCall link token d = some d') : Sound d' ts := by
  rcases awsOnCall_cases hexec with ⟨l, c, hlink, hc, -, hc', hrequests⟩
  have hstore : Grounded ts d'.store := by
    have hlevels := LevelsFrom.addRef d.store l.session
    have hsame : d'.store = ctxClientAddRef l.session d.store := by
      simp only [awsOnCall, hlink, afbContextInit, ctxClientAddRef_mem hc] at hexec
      cases hexec
      rfl
    rw [hsame]
    exact h.store.from hlevels
  refine ⟨hstore, fun r hr other hother => ?_⟩
  rw [hrequests] at hr
  rcases List.mem_append.mp hr with hr | hr
  · exact h.contexts r hr other hother
  · cases List.mem_singleton.mp hr
    rw [callContext_session, initContext_session] at hother
    cases hother
    apply (grounded_initContext hstore hc' token d.now).of_eq
    · unfold callContext
      split <;> split <;> rfl
    · unfold callContext
      split <;> split <;> rfl
    · unfold callContext
      split <;> split <;> rfl

/-- The request that asks for a level records it, when its context is validated. -/
theorem Sound.changeLoa (h : Sound d ts) {request level : Nat} {r : Request}
    (hliving : d.livingRequest request = some r) (after : Daemon) :
    Sound (d.setContext request r (afbContextChangeLoa level r.context).1)
      (ts ++ [⟨d, .contextChangeLoa request level, after⟩]) := by
  rcases living_spec hliving with ⟨hmem, client, hclient⟩
  apply (h.later _).setContext
  intro other hother
  have hcontext := (h.contexts r hmem client hclient).later
    ⟨d, .contextChangeLoa request level, after⟩
  rw [afbContextChangeLoa] at hother ⊢
  split at hother
  case isTrue hrefused =>
    cases hclient.symm.trans hother
    rw [if_pos hrefused]
    exact hcontext
  case isFalse hallowed =>
    rw [if_neg hallowed]
    simp only [Bool.or_eq_true, Bool.not_eq_true', decide_eq_true_eq, not_or, Nat.not_lt,
      Bool.not_eq_false] at hallowed
    split at hother
    case isTrue hsame =>
      cases hclient.symm.trans hother
      rw [if_pos hsame]
      exact ⟨hcontext.found, fun hchanging => absurd hchanging Bool.false_ne_true⟩
    case isFalse hnew =>
      cases hclient.symm.trans hother
      rw [if_neg hnew]
      refine ⟨hcontext.found, fun _ _ => ?_⟩
      have hlevel : level % 8 = level := Nat.mod_eq_of_lt (by omega)
      refine ⟨_, List.mem_append_right _ (List.mem_singleton_self _), request, r, ?_, hliving,
        hclient, hallowed.1, ?_⟩
      · simp only [hlevel]
      · have hsmall : level % 8 ≤ 7 := by omega
        exact hsmall

theorem LevelsFrom.awsUnref (link : Nat) (d : Daemon) :
    LevelsFrom d.store (Json1.awsUnref link d).store := by
  rw [Json1.awsUnref]
  split
  · exact .refl d.store
  · dsimp only
    split
    · exact .unref d.store _
    · exact .refl d.store

theorem Sound.awsUnref (h : Sound d ts) (link : Nat) : Sound (Json1.awsUnref link d) ts :=
  ⟨h.store.from (.awsUnref link d), by rw [awsUnref_requests]; exact h.contexts⟩

/-- The end of a request gives the level that it asked for to its session. -/
theorem Grounded.disconnect (h : Grounded ts s) {context : Context}
    (hcontext : ∀ client, context.session = some client → Context.Grounded ts client context)
    (generated : Bytes) (now : Int) :
    Grounded ts (afbContextDisconnect generated now context s).2 := by
  rw [afbContextDisconnect]
  cases hsession : context.session with
  | none => exact h
  | some client =>
      have hasked := (hcontext client hsession).asked
      dsimp only
      have hrefresh : Grounded ts (if context.refreshing && !context.refreshed then
          s.modify client fun c => (ctxTokenNew s.timeBits generated now c, []) else s) := by
        split
        · exact h.from (.modify (fun _ => rfl) s client)
        · exact h
      generalize (if context.refreshing && !context.refreshed then
          s.modify client fun c => (ctxTokenNew s.timeBits generated now c, []) else s) = s₁ at hrefresh ⊢
      have hchange : Grounded ts (if context.loaChanging && !context.loaChanged then
          s₁.modify client fun c => (ctxClientSetLOA context.loaOut c, []) else s₁) := by
        split
        · rename_i hchanging
          exact hrefresh.setLOA (hasked (Bool.and_eq_true_iff.mp hchanging).1)
        · exact hrefresh
      generalize (if context.loaChanging && !context.loaChanged then
          s₁.modify client fun c => (ctxClientSetLOA context.loaOut c, []) else s₁) = s₂ at hchange ⊢
      split
      · exact (hchange.from (.close s₂ client)).from (.unref _ client)
      · exact hchange.from (.unref s₂ client)

theorem Sound.finish (h : Sound d ts) {request : Nat} {r : Request}
    (hliving : d.livingRequest request = some r) (generated : Bytes) :
    Sound (finish request r generated d) ts := by
  rcases living_spec hliving with ⟨hmem, client, hclient⟩
  have hstore := h.store.disconnect (h.contexts r hmem) generated d.now
  have hended : Sound { d.setContext request r
      (afbContextDisconnect generated d.now r.context d.store).1 with
        store := (afbContextDisconnect generated d.now r.context d.store).2 } ts := by
    refine ⟨hstore, (@Sound.setContext _ _ h request r _ ?_).contexts⟩
    intro other hother
    rw [afbContextDisconnect, hclient] at hother
    cases hother
  rw [Json1.finish]
  dsimp only
  split
  · exact hended
  · exact hended.awsUnref _

/-- Sending a token changes no level. -/
theorem Sound.sentToken (h : Sound d ts) {request : Nat} {r : Request}
    (hliving : d.livingRequest request = some r) (generated : Bytes) :
    Sound { d.setContext request r
      (afbContextSentToken generated d.now r.context d.store).2.1 with
        store := (afbContextSentToken generated d.now r.context d.store).2.2 } ts := by
  rcases living_spec hliving with ⟨hmem, client, hclient⟩
  have hcontext := h.contexts r hmem client hclient
  have hstore : LevelsFrom d.store (afbContextSentToken generated d.now r.context d.store).2.2 := by
    rw [afbContextSentToken, hclient]
    dsimp only
    split
    · exact .refl d.store
    · dsimp only
      split
      · exact .refl d.store
      · exact .modify (fun _ => rfl) d.store client
  refine ⟨h.store.from hstore, (@Sound.setContext _ _ h request r _ ?_).contexts⟩
  intro other hother
  rw [afbContextSentToken_context] at hother ⊢
  cases hclient.symm.trans hother
  exact hcontext.of_eq rfl rfl rfl

theorem Sound.step (h : Sound d ts) {act : Action} (hstep : Step d act d') :
    Sound d' (ts ++ [⟨d, act, d'⟩]) := by
  unfold Step at hstep
  cases act with
  | http allocated generated uuid token => exact (h.http hstep).later _
  | wsOpen request =>
      simp only [exec] at hstep
      split at hstep
      · cases hstep
      · split at hstep
        · rename_i r _ _
          simp only [afbWsJson1Create] at hstep
          split at hstep
          · cases hstep
          · rename_i client _
            cases hstep
            have hopened : Sound { d with
                store := ctxClientAddRef client d.store
                links := d.links ++ [⟨true, 1, client, r.context.created⟩] } ts :=
              ⟨h.store.from (.addRef d.store client), h.contexts⟩
            exact hopened.later _
        · cases hstep
  | wsCall link token => exact (h.wsCall hstep).later _
  | contextClose request =>
      rcases Option.map_eq_some_iff.mp hstep with ⟨r, hliving, rfl⟩
      apply Sound.later
      apply h.setContext
      intro client hclient
      exact (h.contexts r (living_spec hliving).1 client hclient).of_eq rfl rfl rfl
  | contextRefresh request =>
      simp only [exec] at hstep
      split at hstep
      · cases hstep
      · rename_i r hliving
        rcases Option.map_eq_some_iff.mp hstep with ⟨context, hrefresh, rfl⟩
        rw [afbContextRefresh] at hrefresh
        split at hrefresh
        · cases hrefresh
          apply Sound.later
          apply h.setContext
          intro client hclient
          exact (h.contexts r (living_spec hliving).1 client hclient).of_eq rfl rfl rfl
        · cases hrefresh
  | contextChangeLoa request level =>
      rcases Option.map_eq_some_iff.mp hstep with ⟨r, hliving, rfl⟩
      exact h.changeLoa hliving _
  | sentToken request generated =>
      rcases Option.map_eq_some_iff.mp hstep with ⟨r, hliving, rfl⟩
      exact (h.sentToken hliving generated).later _
  | endRequest request generated =>
      rcases Option.map_eq_some_iff.mp hstep with ⟨r, hliving, rfl⟩
      exact (h.finish hliving generated).later _
  | hangup link =>
      simp only [exec, awsOnHangup] at hstep
      split at hstep
      · cases hstep
      · rename_i l _
        cases hstep
        have hcut : Sound { d with links := d.links.set link { l with connected := false } } ts :=
          ⟨h.store, h.contexts⟩
        exact (hcut.awsUnref link).later _
  | advance delay =>
      cases hstep
      have hlater : Sound { d with now := d.now + delay } ts := ⟨h.store, h.contexts⟩
      exact hlater.later _

theorem sound_init (maxSessionCount : Nat) (timeout : Int) (initok : Bytes)
    (contextCount timeBits : Nat) (now : Int) :
    Sound (Daemon.init (ctxStoreInit maxSessionCount timeout initok contextCount timeBits) now)
      [] := by
  constructor
  · intro client c hc
    cases hc
  · intro r hr
    cases hr

/-! ## The check of the verbs -/

end AfbBinder.Session.Json1
