import AfbBinder.Apis.Coherence

/-!
# Isolation of the values of the verbs

A verb that reads its value for a session gets the last one that a verb of the same API has
stored for the session since it was created or closed, whatever the other verbs do and
through which subcalls.
-/

namespace AfbBinder.Apis

open Lib Session

/-! ## The last value stored -/

/-- The session is created or closed. -/
def begins (s s' : Store) (client : Nat) : Bool :=
  match s.mem client, s'.mem client with
  | none, some _ => true
  | some c, some c' => c.uuid ≠ [] && c'.uuid = []
  | _, none => false

/-- What a verb of the API stores for the session. -/
def storedBy (client : Nat) (name : Bytes) (t : Transition Binder Action) :
    Option (Option Nat) :=
  match t.action with
  | .set r n value _ =>
      match t.before.verb r n with
      | some verb =>
          if verb.context.session = some client ∧ verb.api.map ApiDesc.name = some name then
            some value
          else none
      | none => none
  | _ => none

/-- The last value that the verbs of the API have stored for the session since it was created
or closed. -/
def lastStored (client : Nat) (name : Bytes) (ts : List (Transition Binder Action)) :
    Option Nat :=
  ts.foldl (fun stored t =>
    if begins t.before.world.store t.after.world.store client then none
    else (storedBy client name t).getD stored) none

theorem lastStored_snoc (client : Nat) (name : Bytes) (ts : List (Transition Binder Action))
    (t : Transition Binder Action) :
    lastStored client name (ts ++ [t]) =
      if begins t.before.world.store t.after.world.store client then none
      else (storedBy client name t).getD (lastStored client name ts) := by
  rw [lastStored, List.foldl_append]
  rfl

theorem begins_of_same {s s' : Store} {client : Nat} {c c' : ClientCtx}
    (hc : s.mem client = some c) (hc' : s'.mem client = some c')
    (h : c'.uuid = [] ↔ c.uuid = []) : begins s s' client = false := by
  simp [begins, hc, hc', h]

theorem begins_of_closed {s s' : Store} {client : Nat} {c c' : ClientCtx}
    (hc : s.mem client = some c) (hc' : s'.mem client = some c') (hopen : c.uuid ≠ [])
    (hclosed : c'.uuid = []) : begins s s' client = true := by
  simp [begins, hc, hc', hopen, hclosed]

theorem begins_of_created {s s' : Store} {client : Nat} {c' : ClientCtx}
    (hc : s.mem client = none) (hc' : s'.mem client = some c') : begins s s' client = true := by
  simp [begins, hc, hc']

/-- The values of the sessions are the last ones stored. -/
def Recorded (apis : Registry) (b : Binder) (ts : List (Transition Binder Action)) : Prop :=
  ∀ client c, b.world.store.mem client = some c →
    ∀ (i : Nat) (a : ApiDesc), apis.array[i]? = some a →
      ctxClientValueGet i c = lastStored client a.name ts

variable {apis : Registry} {b b' : Binder} {ts : List (Transition Binder Action)}

/-! ## The values -/

theorem ctxClientValueGet_blank {apicount : Nat} {c : ClientCtx} (h : c.Blank apicount)
    (i : Nat) : ctxClientValueGet i c = none := by
  rw [ctxClientValueGet, h]
  by_cases hi : i < apicount
  · rw [List.getElem?_replicate_of_lt hi]
  · rw [List.getElem?_eq_none (by simpa using hi)]

/-- The actions that store no value. -/
theorem recorded_moves (h : Moves apis b b') (hrecorded : Recorded apis b ts) {act : Action}
    (hact : ∀ client name, storedBy client name ⟨b, act, b'⟩ = none) :
    Recorded apis b' (ts ++ [⟨b, act, b'⟩]) := by
  intro client c' hc' i a hi
  rw [lastStored_snoc, hact]
  rcases h.carries client c' hc' with ⟨c, hc, hkept | ⟨hopen, hclosed, hblank⟩⟩ | ⟨hc, hblank⟩
  · rw [begins_of_same hc hc' hkept.2]
    show ctxClientValueGet i c' = lastStored client a.name ts
    rw [← hrecorded client c hc i a hi, ctxClientValueGet, ctxClientValueGet, hkept.1]
  · rw [begins_of_closed hc hc' hopen hclosed, ctxClientValueGet_blank hblank]
    rfl
  · rw [begins_of_created hc hc', ctxClientValueGet_blank hblank]
    rfl

theorem afbContextSet_some {context : Context} {value freeValue : Option Nat} {s s' : Store}
    (h : afbContextSet context value freeValue s = some s') :
    ∃ client c, context.session = some client ∧ s.mem client = some c ∧ InRange context s ∧
      s' = s.modify client (ctxClientValueSet context.apiIndex.toNat value freeValue) := by
  obtain ⟨client, hsession, h⟩ := Option.bind_eq_some_iff.mp h
  obtain ⟨c, hc, h⟩ := Option.bind_eq_some_iff.mp h
  split at h
  case isTrue hrange => exact ⟨client, c, hsession, hc, hrange, (Option.some.inj h).symm⟩
  case isFalse => cases h

theorem ctxClientValueGet_set {c : ClientCtx} {index : Nat} (hindex : index < c.values.length)
    (value freeValue : Option Nat) (i : Nat) :
    ctxClientValueGet i (ctxClientValueSet index value freeValue c).1 =
      if i = index then value else ctxClientValueGet i c := by
  rw [ctxClientValueSet, List.getElem?_eq_getElem hindex]
  show ctxClientValueGet i { c with values := c.values.set index ⟨value, freeValue⟩ } = _
  rw [ctxClientValueGet]
  by_cases hi : i = index
  · rw [hi, if_pos rfl, List.getElem?_set_self hindex]
  · rw [if_neg hi, List.getElem?_set_ne (Ne.symm hi)]
    rfl

theorem storedBy_set {r n : Nat} {verb : Verb} (hverb : b.verb r n = some verb) {client : Nat}
    (hsession : verb.context.session = some client) {a : ApiDesc} (hapi : verb.api = some a)
    {value freeValue : Option Nat} {client' : Nat} {name : Bytes} :
    storedBy client' name ⟨b, .set r n value freeValue, b'⟩ =
      if client = client' ∧ a.name = name then some value else none := by
  simp only [storedBy, hverb, hsession, hapi, Option.map_some, Option.some.injEq]

/-- A verb changes the value of its own API for its own session. -/
theorem recorded_set (hs : Safe apis b) (hrecorded : Recorded apis b ts) {r n : Nat} {verb : Verb}
    (hverb : b.verb r n = some verb) {value freeValue : Option Nat} {store : Store}
    (hset : afbContextSet verb.context value freeValue b.world.store = some store) :
    Recorded apis { b with world := { b.world with store := store } }
      (ts ++ [⟨b, .set r n value freeValue,
        { b with world := { b.world with store := store } }⟩]) := by
  obtain ⟨client, c, hsession, hc, hrange, rfl⟩ := afbContextSet_some hset
  obtain ⟨index, a, hapi, ha, hindex⟩ := api_of_inRange hs hverb hrange
  have hslot : verb.context.apiIndex.toNat = index := by rw [hindex, Int.toNat_natCast]
  rw [hslot]
  have hlength : index < c.values.length := by
    rw [hs.sized client c hc]
    have hless := hrange.2
    omega
  have hframe := ctxClientValueSet_frame index value freeValue c
  have hmem := (modify_spec hs.world.wf hc (ctxClientValueSet index value freeValue) hframe.1).2
  intro client' c' hc' i a' hi
  rw [lastStored_snoc, storedBy_set hverb hsession hapi]
  by_cases hsame : client' = client
  · subst hsame
    have hvalue : c' = (ctxClientValueSet index value freeValue c).1 := by
      have hself := hc'
      rw [hmem, Function.update_self] at hself
      exact (Option.some.inj hself).symm
    have hname : a.name = a'.name ↔ i = index := by
      constructor
      · intro heq
        exact index_unique hi ha (by rw [strcaseeq, heq, decide_eq_true_eq])
      · rintro rfl
        cases ha.symm.trans hi
        rfl
    rw [begins_of_same hc hc' (by rw [hvalue, hframe.1]), if_neg Bool.false_ne_true, hvalue,
      ctxClientValueGet_set hlength]
    by_cases hown : i = index
    · rw [if_pos hown, if_pos ⟨rfl, hname.mpr hown⟩]
      rfl
    · rw [if_neg hown, if_neg (fun h => hown (hname.mp h.2))]
      exact hrecorded client' c hc i a' hi
  · have hkept : b.world.store.mem client' = some c' := by
      have hother := hc'
      rw [hmem, Function.update_of_ne hsame] at hother
      exact hother
    rw [begins_of_same hkept hc' Iff.rfl, if_neg Bool.false_ne_true,
      if_neg (fun h => hsame h.1.symm)]
    exact hrecorded client' c' hkept i a' hi

/-! ## The slots -/

/-- The verb reads and writes the same slot. -/
structure SameSlot (verb verb' : Verb) : Prop where
  api : verb'.api = verb.api
  index : verb'.context.apiIndex = verb.context.apiIndex
  session : verb'.context.session = verb.context.session

theorem SameSlot.of_eq {verb verb' : Verb} (h : some verb = some verb') : SameSlot verb verb' := by
  cases h
  exact ⟨rfl, rfl, rfl⟩

/-- The verbs that are called keep their slots. -/
def KeepSlots (verbs verbs' : List Verb) : Prop :=
  ∀ (n : Nat) (verb verb' : Verb), verbs[n]? = some verb → verb.api ≠ none →
    verbs'[n]? = some verb' → SameSlot verb verb'

theorem KeepSlots.refl (verbs : List Verb) : KeepSlots verbs verbs := by
  intro n verb verb' hn _ hn'
  exact SameSlot.of_eq (hn.symm.trans hn')

theorem keepSlots_set {verbs : List Verb} {n : Nat} {verb verb' : Verb}
    (hn : verbs[n]? = some verb) (h : verb.api ≠ none → SameSlot verb verb') :
    KeepSlots verbs (verbs.set n verb') := by
  intro k old new hk hapi hk'
  by_cases heq : n = k
  · subst heq
    cases hn.symm.trans hk
    rw [List.getElem?_set_self (List.getElem?_eq_some_iff.mp hn).1] at hk'
    cases hk'
    exact h hapi
  · rw [List.getElem?_set_ne heq] at hk'
    exact SameSlot.of_eq (hk.symm.trans hk')

theorem keepSlots_append (verbs more : List Verb) : KeepSlots verbs (verbs ++ more) := by
  intro n verb verb' hn _ hn'
  rw [List.getElem?_append_left (List.getElem?_eq_some_iff.mp hn).1] at hn'
  exact SameSlot.of_eq (hn.symm.trans hn')

/-- The verbs of all requests that are called keep their slots. -/
def SlotsKept (b b' : Binder) : Prop :=
  ∀ (r n : Nat) (verb verb' : Verb), b.verb r n = some verb → verb.api ≠ none →
    b'.verb r n = some verb' → SameSlot verb verb'

theorem slotsKept_of_eq (h : b'.requests = b.requests) : SlotsKept b b' := by
  intro r n verb verb' hverb _ hverb'
  rw [Binder.verb, h] at hverb'
  exact SameSlot.of_eq (hverb.symm.trans hverb')

theorem slotsKept_append {more : List (List Verb)} (h : b'.requests = b.requests ++ more) :
    SlotsKept b b' := by
  intro r n verb verb' hverb _ hverb'
  obtain ⟨verbs, hr, hn⟩ := Option.bind_eq_some_iff.mp hverb
  rw [Binder.verb, h, List.getElem?_append_left (List.getElem?_eq_some_iff.mp hr).1, hr] at hverb'
  exact SameSlot.of_eq (hn.symm.trans hverb')

theorem slotsKept_set {r : Nat} {verbs verbs' : List Verb} (hr : b.requests[r]? = some verbs)
    (hkeep : KeepSlots verbs verbs') (h : b'.requests = b.requests.set r verbs') :
    SlotsKept b b' := by
  intro k n verb verb' hverb hapi hverb'
  rw [Binder.verb, h] at hverb'
  by_cases heq : r = k
  · subst heq
    rw [List.getElem?_set_self (List.getElem?_eq_some_iff.mp hr).1] at hverb'
    rw [Binder.verb, hr] at hverb
    exact hkeep n verb verb' hverb hapi hverb'
  · rw [List.getElem?_set_ne heq] at hverb'
    exact SameSlot.of_eq (hverb.symm.trans hverb')

theorem slotsKept_call {r : Nat} {api : Bytes} (h : call apis r api b = some b') :
    SlotsKept b b' := by
  obtain ⟨verbs, verb, verbs', hr, hn, hapi, rfl, hverbs'⟩ := call_cases h
  apply slotsKept_set hr _ rfl
  rcases hverbs' with rfl | ⟨a, context, -, rfl⟩
  · exact KeepSlots.refl _
  · exact keepSlots_set hn (fun hsome => absurd hapi hsome)

/-- A subcall works on a copy. -/
theorem slotsKept_subcall {r n : Nat} {api : Bytes} (h : subcall apis r n api b = some b') :
    SlotsKept b b' := by
  obtain ⟨verbs, verb, verbs', hr, -, rfl, hverbs'⟩ := subcall_cases h
  apply slotsKept_set hr _ rfl
  rcases hverbs' with rfl | ⟨a, context, -, rfl⟩
  · exact KeepSlots.refl _
  · exact keepSlots_append verbs _

/-- Whatever is done, a verb that is called keeps its slot until its request is over. -/
theorem step_slots {act : Action} (h : Step apis b act b') : SlotsKept b b' := by
  obtain ⟨-, hexec⟩ := h
  cases act with
  | session act =>
      cases hexec
      exact slotsKept_of_eq rfl
  | connect allocated generated uuid token =>
      cases hexec
      obtain ⟨requests, heq, rfl | ⟨client, context, -, -, -, rfl⟩⟩ :=
        connect_cases allocated generated uuid token b
      · exact slotsKept_of_eq (by rw [heq])
      · exact slotsKept_append (by rw [heq])
  | init client token =>
      obtain ⟨made, -, rfl⟩ := Option.map_eq_some_iff.mp hexec
      exact slotsKept_append rfl
  | flags r n flags =>
      obtain ⟨verbs, verb, verbs', hr, hn, hf, rfl⟩ := onVerb_some hexec
      apply slotsKept_set hr _ rfl
      rw [← Option.some.inj hf]
      exact keepSlots_set hn (fun _ => ⟨rfl, rfl, rfl⟩)
  | call r api => exact slotsKept_call hexec
  | subcall r n api => exact slotsKept_subcall hexec
  | set r n value freeValue =>
      obtain ⟨verb, -, hexec⟩ := Option.bind_eq_some_iff.mp hexec
      obtain ⟨store, -, hexec⟩ := Option.bind_eq_some_iff.mp hexec
      cases hexec
      exact slotsKept_of_eq rfl
  | finish r generated =>
      obtain ⟨verb, hverb, hexec⟩ := Option.bind_eq_some_iff.mp hexec
      obtain ⟨client, -, hexec⟩ := Option.bind_eq_some_iff.mp hexec
      obtain ⟨verbs, hr, -⟩ := Option.bind_eq_some_iff.mp hverb
      cases hexec
      apply slotsKept_set hr _ rfl
      intro n verb verb' _ _ hnone
      cases hnone

/-! ## All runs -/

theorem step_recorded {act : Action} (hs : Safe apis b) (hrecorded : Recorded apis b ts)
    (h : Step apis b act b') : Safe apis b' ∧ Recorded apis b' (ts ++ [⟨b, act, b'⟩]) := by
  obtain ⟨hallowed, hexec⟩ := h
  -- all actions but one store no value
  have hmoves : Moves apis b b' → (∀ client name, storedBy client name ⟨b, act, b'⟩ = none) →
      Safe apis b' ∧ Recorded apis b' (ts ++ [⟨b, act, b'⟩]) := by
    intro hmoves hact
    exact ⟨hmoves.safe, recorded_moves hmoves hrecorded hact⟩
  cases act with
  | session act =>
      cases hexec
      exact hmoves (moves_session hs hallowed) (fun _ _ => rfl)
  | connect allocated generated uuid token =>
      cases hexec
      exact hmoves (moves_connect hs allocated uuid token hallowed) (fun _ _ => rfl)
  | init client token => exact hmoves (moves_init hs hexec) (fun _ _ => rfl)
  | flags r n flags => exact hmoves (moves_flags hs hexec) (fun _ _ => rfl)
  | call r api => exact hmoves (moves_call hs hexec) (fun _ _ => rfl)
  | subcall r n api => exact hmoves (moves_subcall hs hexec) (fun _ _ => rfl)
  | set r n value freeValue =>
      obtain ⟨verb, hverb, hexec⟩ := Option.bind_eq_some_iff.mp hexec
      obtain ⟨store, hset, hexec⟩ := Option.bind_eq_some_iff.mp hexec
      cases hexec
      refine ⟨?_, recorded_set hs hrecorded hverb hset⟩
      obtain ⟨client, c, -, hc, -, rfl⟩ := afbContextSet_some hset
      exact safe_set hs (by rw [hc]; rfl)
  | finish r generated => exact hmoves (moves_finish hs hexec) (fun _ _ => rfl)

theorem get_of_recorded (hs : Safe apis b) (hrecorded : Recorded apis b ts) {r n : Nat}
    {verb : Verb} {a : ApiDesc} (hverb : b.verb r n = some verb) (hapi : verb.api = some a) :
    ∃ client, verb.context.session = some client ∧
      afbContextGet verb.context b.world.store = some (lastStored client a.name ts) := by
  obtain ⟨client, hsession, hlive⟩ := (indexed_of_verb hs hverb).1
  obtain ⟨c, hc⟩ := Option.isSome_iff_exists.mp hlive
  obtain ⟨i, hi, hindex, hlt⟩ := slot_of_verb hs hverb hapi
  have hrange : InRange verb.context b.world.store := by
    rw [InRange, hindex]
    omega
  refine ⟨client, hsession, ?_⟩
  rw [afbContextGet, hsession, Option.bind_eq_bind, Option.bind_some, hc, Option.bind_eq_bind,
    Option.bind_some, if_pos hrange, hindex, Int.toNat_natCast, hrecorded client c hc i a hi]

/-- What isolates the values of the APIs in a state reached by the transitions `ts`. -/
structure Isolates (apis : Registry) (b : Binder) (ts : List (Transition Binder Action)) :
    Prop where
  get : ∀ r n verb a, b.verb r n = some verb → verb.api = some a →
    ∃ client, verb.context.session = some client ∧
      afbContextGet verb.context b.world.store = some (lastStored client a.name ts)
  index : ∀ r n verb a, b.verb r n = some verb → verb.api = some a →
    ∃ i : Nat, apis.array[i]? = some a ∧ verb.context.apiIndex = i ∧
      ∀ client c, b.world.store.mem client = some c → i < c.values.length
  slots : ∀ t ∈ ts, SlotsKept t.before t.after

/-- In every run of the verbs of any requests on any sessions, directly or through subcalls, a
verb gets the last value that its API has stored for its session. -/
theorem context_isolation (apis : Registry) (maxSessionCount : Nat) (timeout : Int)
    (initok : Bytes) (timeBits : Nat) (now : Int)
    (hruns : Runs (Step apis)
      (Binder.init apis maxSessionCount timeout initok timeBits now) b ts) :
    Isolates apis b ts := by
  have hall : Safe apis b ∧ Recorded apis b ts := by
    apply hruns.history (fun b ts => Safe apis b ∧ Recorded apis b ts)
    · intro b act b' ts hinv hstep
      exact step_recorded hinv.1 hinv.2 hstep
    · refine ⟨safe_init apis maxSessionCount timeout initok timeBits now, ?_⟩
      intro client c hc
      cases hc
  obtain ⟨hsafe, hrecorded⟩ := hall
  constructor
  · intro r n verb a hverb hapi
    exact get_of_recorded hsafe hrecorded hverb hapi
  · intro r n verb a hverb hapi
    obtain ⟨i, hi, hindex, hlt⟩ := slot_of_verb hsafe hverb hapi
    refine ⟨i, hi, hindex, ?_⟩
    intro client c hc
    rwa [hsafe.sized client c hc]
  · intro t ht
    exact step_slots (hruns.mem_spec ht).1

/-- The APIs `a` and `b`. -/
def twoApis : Registry where
  array := [⟨0, [97], 1⟩, ⟨1, [98], 1⟩]
  valid := by decide
  named := by decide
  distinct := by decide

/-- A request on a new session. -/
def connected : Binder := connect true [49] none none (Binder.init twoApis 1 3600 [] 64 0)

/-- The state after an action that is possible. -/
def afterAct (b : Binder) (act : Action) : Binder := (exec twoApis b act).getD b

theorem runs_connected :
    Runs (Step twoApis) (Binder.init twoApis 1 3600 [] 64 0) connected
      [⟨Binder.init twoApis 1 3600 [] 64 0, .connect true [49] none none, connected⟩] := by
  apply Runs.single
  refine ⟨⟨by decide, by decide, ?_⟩, rfl⟩
  intro a c hc
  cases hc

theorem runs_afterAct {b₀ b : Binder} {ts : List (Transition Binder Action)} (act : Action)
    (h : Runs (Step twoApis) b₀ b ts) (hallowed : Allowed b act)
    (hsome : (exec twoApis b act).isSome) :
    Runs (Step twoApis) b₀ (afterAct b act) (ts ++ [⟨b, act, afterAct b act⟩]) := by
  apply h.snoc
  refine ⟨hallowed, ?_⟩
  rw [afterAct, Option.getD_of_ne_none (Option.isSome_iff_ne_none.mp hsome)]

/-- The value of a verb is not changed by the verb of another API that it calls. -/
theorem context_isolation_subcall :
    ∃ b ts, Runs (Step twoApis) (Binder.init twoApis 1 3600 [] 64 0) b ts ∧
      (∃ verb, b.verb 0 0 = some verb ∧ verb.api = some ⟨0, [97], 1⟩ ∧
        afbContextGet verb.context b.world.store = some (some 7)) ∧ Isolates twoApis b ts := by
  have h₁ := runs_afterAct (.call 0 [65]) runs_connected trivial rfl
  have h₂ := runs_afterAct (.set 0 0 (some 7) none) h₁ trivial rfl
  have h₃ := runs_afterAct (.subcall 0 0 [66]) h₂ trivial rfl
  have h₄ := runs_afterAct (.set 0 1 (some 9) none) h₃ trivial rfl
  exact ⟨_, _, h₄, ⟨_, rfl, rfl, rfl⟩, context_isolation twoApis 1 3600 [] 64 0 h₄⟩
end AfbBinder.Apis
