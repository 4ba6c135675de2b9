import AfbBinder.Session.Acts

/-!
# What the replies give back

A check refreshes the token on a copy of the context, and replies carry that from the copy to
the context that it was made of.  A run of subcalls leaves the changes pending that its acts
make if the checks change nothing that is lost on the way, and if what comes back does not
come after the reply of the original request that would have sent the token.
-/

namespace AfbBinder.Session

variable {view : Bool × Nat} {calls calls' : Calls} {n stag : Nat} {act : Act} {acts : List Act}

/-! ## The refreshing of the token -/

/-- The verb that makes the subcall with the number `n` of a run. -/
def callerIn (acts : List Act) (n : Nat) : Nat :=
  numbered 0 n (acts.filterMap Act.caller).reverse

/-- The number of the context that what stands in the context `n` reaches, each reply taking it
from the copy to the context that the copy was made of. -/
def climb (up : Nat → Nat) (acts : List Act) (n : Nat) : Nat :=
  acts.foldl (fun n act => if act = .reply n then up n else n) n

/-- A check refreshes the token and the replies take that to the original context; `count`
subcalls were made before. -/
def Returned (up : Nat → Nat) (view : Bool × Nat) (count : Nat) : List Act → Prop
  | [] => False
  | .subcall n stag :: acts =>
      (.refresh ∈ (checkChanges stag view.1 view.2).2 ∧
        climb up acts (if (checkChanges stag view.1 view.2).1.isNone then count + 1 else n) = 0) ∨
      Returned up view (count + 1) acts
  | .sessionClose _ :: acts => Returned up view count acts
  | .sessionSetLOA _ _ :: acts => Returned up view count acts
  | .reply _ :: acts => Returned up view count acts
  | .sentToken :: acts => Returned up view count acts

/-- A context in use has the refreshing of the token and the replies take it to the original. -/
def Reaches (up : Nat → Nat) (calls : Calls) (acts : List Act) : Prop :=
  ∃ n ≤ calls.count, (calls.context n).refreshing = true ∧ climb up acts n = 0

variable {up : Nat → Nat}

theorem climb_caller (hzero : up 0 = 0) (h : climb up acts n = 0) :
    climb up acts (up n) = 0 := by
  induction acts generalizing n with
  | nil =>
      have hn : n = 0 := h
      rw [hn, hzero]
      rfl
  | cons act acts ih =>
      rw [climb, List.foldl_cons] at h ⊢
      by_cases hself : act = .reply n
      · rw [if_pos hself] at h
        split
        · exact ih h
        · exact h
      · rw [if_neg hself] at h
        split
        · exact ih (ih h)
        · exact ih h

theorem climb_zero (hzero : up 0 = 0) (acts : List Act) : climb up acts 0 = 0 := by
  induction acts with
  | nil => rfl
  | cons act acts ih =>
      rw [climb, List.foldl_cons, hzero, ite_self]
      exact ih

theorem climb_of_ne_reply (hact : ∀ n, act ≠ .reply n) (n : Nat) :
    climb up (act :: acts) n = climb up acts n := by
  rw [climb, List.foldl_cons, if_neg (hact n)]
  rfl

theorem reaches_of_ne_reply (hact : ∀ n, act ≠ .reply n) :
    Reaches up calls (act :: acts) ↔ Reaches up calls acts := by
  simp only [Reaches, climb_of_ne_reply hact]

theorem reaches_congr (hcount : calls'.count = calls.count)
    (hflag : ∀ k ≤ calls.count,
      (calls'.context k).refreshing = (calls.context k).refreshing) :
    Reaches up calls' acts ↔ Reaches up calls acts := by
  rw [Reaches, Reaches, hcount]
  constructor
  · rintro ⟨k, hk, hset, hclimb⟩
    exact ⟨k, hk, (hflag k hk).symm.trans hset, hclimb⟩
  · rintro ⟨k, hk, hset, hclimb⟩
    exact ⟨k, hk, (hflag k hk).trans hset, hclimb⟩

theorem reaches_forward (n : Nat) (change : Change) (hchange : change ≠ .refresh) :
    Reaches up (calls.forward n change.apply) acts ↔ Reaches up calls acts := by
  have hkept : ∀ context : Context,
      (change.apply context).refreshing = context.refreshing := by
    intro context
    have hone := applyAll_refreshing [change] context
    simp only [applyAll, List.foldl_cons, List.foldl_nil, List.mem_singleton, hchange.symm,
      or_false] at hone
    exact Bool.eq_iff_iff.mpr hone
  apply reaches_congr (calls.forward_alike n change.apply).count
  intro k hk
  rw [Calls.context_forward hk]
  split
  · exact hkept _
  · rfl

theorem reaches_sentToken :
    Reaches up (calls.modify 0 Context.sentToken) acts ↔ Reaches up calls acts := by
  apply reaches_congr (calls.modify_alike 0 Context.sentToken).count
  intro k hk
  rw [Calls.context_modify (Nat.zero_le _) hk]
  split
  · rfl
  · rfl

/-- A reply does at once what the climb tells of it. -/
theorem reaches_subcallEmit (hzero : up 0 = 0) (hrooted : Rooted calls.callers)
    (hup : numbered 0 n calls.callers = up n) (hn : n ≤ calls.count) :
    Reaches up (subcallEmit n calls) acts ↔ Reaches up calls (.reply n :: acts) := by
  have hle : up n ≤ calls.count := by
    rw [← hup, ← calls.length_callers]
    exact hrooted.le n
  have hstep : ∀ k, climb up (.reply n :: acts) k = climb up acts (if k = n then up k else k) := by
    intro k
    rw [climb, List.foldl_cons, climb]
    simp only [Act.reply.injEq, eq_comm]
  rw [Reaches, Reaches, (subcallEmit_alike n calls).count]
  simp only [hstep]
  constructor
  · rintro ⟨k, hk, hset, hclimb⟩
    rw [context_subcallEmit hrooted hk, hup] at hset
    have hkept : climb up acts (if k = n then up k else k) = 0 := by
      split
      · exact climb_caller hzero hclimb
      · exact hclimb
    split at hset
    case isTrue hcaller =>
      rw [Context.mark, Bool.or_eq_true] at hset
      rcases hset with hset | hset
      · exact ⟨k, hk, hset, hkept⟩
      · refine ⟨n, hn, hset, ?_⟩
        rw [if_pos rfl, ← hcaller]
        exact hclimb
    case isFalse => exact ⟨k, hk, hset, hkept⟩
  · rintro ⟨k, hk, hset, hclimb⟩
    by_cases hself : k = n
    · rw [if_pos hself, hself] at hclimb
      refine ⟨up n, hle, ?_, hclimb⟩
      rw [context_subcallEmit hrooted hle, hup, if_pos rfl, Context.mark, ← hself, hset,
        Bool.or_true]
    · rw [if_neg hself] at hclimb
      refine ⟨k, hk, ?_, hclimb⟩
      rw [context_subcallEmit hrooted hk]
      split
      · rw [Context.mark, hset, Bool.true_or]
      · exact hset

theorem reaches_push (hzero : up 0 = 0) (hn : n ≤ calls.count) (hup : up (calls.count + 1) = n) :
    Reaches up (calls.push view n stag) acts ↔
      Reaches up calls acts ∨
        .refresh ∈ (checkChanges stag view.1 view.2).2 ∧ climb up acts (calls.count + 1) = 0 := by
  have hcopy : (calls.push view n stag).context (calls.count + 1) =
      applyAll (checkChanges stag view.1 view.2).2 (calls.context n) := if_pos rfl
  have hother : ∀ k ≤ calls.count, (calls.push view n stag).context k = calls.context k := by
    intro k hk
    exact if_neg (by omega)
  constructor
  · rintro ⟨k, hk, hset, hclimb⟩
    rcases Nat.le_succ_iff.mp hk with hk | rfl
    · rw [hother k hk] at hset
      exact .inl ⟨k, hk, hset, hclimb⟩
    · rw [hcopy, applyAll_refreshing] at hset
      rcases hset with hset | hset
      · -- what the copy has from its caller reaches the original context from the caller
        refine .inl ⟨n, hn, hset, ?_⟩
        rw [← hup]
        exact climb_caller hzero hclimb
      · exact .inr ⟨hset, hclimb⟩
  · rintro (⟨k, hk, hset, hclimb⟩ | ⟨hset, hclimb⟩)
    · exact ⟨k, Nat.le_succ_of_le hk, by rw [hother k hk]; exact hset, hclimb⟩
    · refine ⟨calls.count + 1, Nat.le_refl _, ?_, hclimb⟩
      rw [hcopy, applyAll_refreshing]
      exact .inr hset

/-- The callers known of `calls` are those that `up` tells. -/
def Agrees (up : Nat → Nat) (calls : Calls) : Prop :=
  ∀ n ≤ calls.count, numbered 0 n calls.callers = up n

theorem agrees_of_append {front : List Nat}
    (h : ∀ n, numbered 0 n (front ++ calls.callers) = up n) : Agrees up calls := by
  intro n hn
  rw [← h n, numbered_append (by rwa [calls.length_callers])]

theorem reaches_reply_of_lt (h : calls.count < n) :
    Reaches up calls (.reply n :: acts) ↔ Reaches up calls acts := by
  have hclimb : ∀ k ≤ calls.count, climb up (.reply n :: acts) k = climb up acts k := by
    intro k hk
    have hne : Act.reply n ≠ .reply k := by
      intro heq
      cases heq
      exact absurd hk (Nat.not_le.mpr h)
    rw [climb, List.foldl_cons, if_neg hne]
    rfl
  constructor
  · rintro ⟨k, hk, hset, hzero⟩
    exact ⟨k, hk, hset, (hclimb k hk).symm.trans hzero⟩
  · rintro ⟨k, hk, hset, hzero⟩
    exact ⟨k, hk, hset, (hclimb k hk).trans hzero⟩

/-- One subcall, whose check may reply. -/
theorem afbSubcall_reaches (hsound : calls.Sound view) (hn : n ≤ calls.count)
    (hzero : up 0 = 0) (hself : up (calls.count + 1) = n)
    (h : afbSubcall n stag calls = some calls') :
    Reaches up calls' acts ↔
      Reaches up calls acts ∨ .refresh ∈ (checkChanges stag view.1 view.2).2 ∧
        climb up acts
          (if (checkChanges stag view.1 view.2).1.isNone then calls.count + 1 else n) = 0 := by
  rw [afbSubcall_eq (hsound.view n hn), Option.some.injEq] at h
  subst h
  split
  · exact reaches_push hzero hn hself
  · have hpush : (calls.push view n stag).Sound view := push_sound hsound hn
    have hcaller : numbered 0 (calls.count + 1) (calls.push view n stag).callers =
        up (calls.count + 1) := by
      rw [Calls.push, Calls.callers, numbered, calls.length_callers, if_pos rfl, hself]
    have hclimb : climb up (.reply (calls.count + 1) :: acts) (calls.count + 1) =
        climb up acts n := by
      rw [climb, List.foldl_cons, if_pos rfl, hself]
      rfl
    rw [reaches_subcallEmit hzero hpush.rooted hcaller (Nat.le_refl _),
      reaches_push hzero hn hself, hclimb, reaches_reply_of_lt (Nat.lt_succ_self _)]

theorem perform_reaches (hsound : calls.Sound view)
    (hcalled : calledBy act.verb calls.verdicts = true) (hzero : up 0 = 0)
    (h : act.perform calls = some calls') (hup : Agrees up calls') :
    Reaches up calls' acts ∨ Returned up view calls'.count acts ↔
      Reaches up calls (act :: acts) ∨ Returned up view calls.count (act :: acts) := by
  have hn : act.verb ≤ calls.count := calls.length_verdicts ▸ le_of_calledBy hcalled
  cases act with
  | subcall n stag =>
      obtain ⟨next, hnext, heffect⟩ := afbSubcall_effect hsound hn
      cases h.symm.trans hnext
      have hlast : calls'.count = calls.count + 1 := by
        rw [← calls'.length_callers, heffect.callers, ← calls.length_callers]
        rfl
      have hself : up (calls.count + 1) = n := by
        rw [← hup _ (Nat.le_of_eq hlast.symm), heffect.callers, ← calls.length_callers]
        exact if_pos rfl
      have hreaches : Reaches up calls (.subcall n stag :: acts) ↔ Reaches up calls acts :=
        reaches_of_ne_reply (fun m => Act.noConfusion)
      rw [afbSubcall_reaches hsound hn hzero hself h, hreaches, hlast, Returned, or_assoc]
      rfl
  | sessionClose n =>
      cases h
      have hreaches : Reaches up calls (.sessionClose n :: acts) ↔ Reaches up calls acts :=
        reaches_of_ne_reply (fun m => Act.noConfusion)
      rw [hreaches, Returned, subcallSessionClose, (calls.forward_alike n afbContextClose).count]
      exact or_congr_left (reaches_forward n .close Change.noConfusion)
  | sessionSetLOA n loa =>
      cases h
      have hreaches : Reaches up calls (.sessionSetLOA n loa :: acts) ↔ Reaches up calls acts :=
        reaches_of_ne_reply (fun m => Act.noConfusion)
      rw [hreaches, Returned, subcallSessionSetLOA, (calls.forward_alike n _).count]
      exact or_congr_left (reaches_forward n (.loa loa) Change.noConfusion)
  | reply n =>
      cases h
      have halike := subcallEmit_alike n calls
      have hcaller : numbered 0 n calls.callers = up n := by
        rw [← halike.callers]
        exact hup n (halike.count ▸ hn)
      rw [Returned, halike.count, reaches_subcallEmit hzero hsound.rooted hcaller hn]
  | sentToken =>
      cases h
      have hreaches : Reaches up calls (.sentToken :: acts) ↔ Reaches up calls acts :=
        reaches_of_ne_reply (fun m => Act.noConfusion)
      rw [hreaches, Returned, (calls.modify_alike 0 Context.sentToken).count, reaches_sentToken]

/-- The token is refreshed by the original request if and only if replies bring that to it. -/
theorem runActs_refreshing (hsound : calls.Sound view) (h : runActs acts calls = some calls')
    (hup : ∀ n, numbered 0 n ((acts.filterMap Act.caller).reverse ++ calls.callers) = up n) :
    (calls'.context 0).refreshing = true ↔
      Reaches up calls acts ∨ Returned up view calls.count acts := by
  induction acts generalizing calls with
  | nil =>
      cases h
      rw [Returned, or_false]
      constructor
      · intro hset
        exact ⟨0, Nat.zero_le _, hset, rfl⟩
      · rintro ⟨n, hn, hset, hclimb⟩
        have hzero : n = 0 := hclimb
        rwa [hzero] at hset
  | cons act acts ih =>
      obtain ⟨next, hcalled, hnext, heffect, hrest⟩ := runActs_cons hsound h
      have hzero : up 0 = 0 := by rw [← hup, numbered_zero]
      have hup' : ∀ n,
          numbered 0 n ((acts.filterMap Act.caller).reverse ++ next.callers) = up n := by
        intro n
        rw [← hup n, heffect.callers]
        cases hcaller : act.caller with
        | none => simp [hcaller]
        | some m => simp [hcaller]
      rw [ih heffect.sound hrest hup',
        perform_reaches hsound hcalled hzero hnext (agrees_of_append hup')]

theorem original_sound (context : Context) : (Calls.original context).Sound context.view := by
  constructor
  · exact trivial
  · intro n _
    rfl

/-! ## The token left to refresh -/

/-- A check of the acts refreshes the token, or that was asked for before. -/
def Asked (context : Context) (acts : List Act) : Prop :=
  context.refreshing = true ∨ .refresh ∈ acts.flatMap (Act.changes context.view)

/-- Replies bring the refreshing by a check to the original context, or it was there before. -/
def Back (context : Context) (acts : List Act) : Prop :=
  context.refreshing = true ∨ Returned (callerIn acts) context.view 0 acts

/-- Among the changes of the acts one closes the session, or that was asked for before. -/
def Closing (context : Context) (changes : Act → List Change) (acts : List Act) : Prop :=
  context.closing = true ∨ .close ∈ acts.flatMap changes

/-- A reply of the original request has sent the token, that was to refresh, in a session that
was not to close. -/
def Sent (context : Context) (asked closing : List Act → Prop) (acts : List Act) : Prop :=
  context.session.isSome = true ∧
    ∃ front, front ++ [.sentToken] <+: acts ∧ asked front ∧ ¬ closing front

/-- The token is left to refresh after the acts. -/
def Left (context : Context) (asked closing : List Act → Prop) (acts : List Act) : Prop :=
  asked acts ∧ ¬ Sent context asked closing acts

section Sending

variable {context before after : Context} {asked closing : List Act → Prop}

theorem sent_append_singleton :
    Sent context asked closing (acts ++ [act]) ↔ Sent context asked closing acts ∨
      act = .sentToken ∧ context.session.isSome = true ∧ asked acts ∧ ¬ closing acts := by
  simp only [Sent, List.prefix_concat_iff, List.append_singleton_inj]
  constructor
  · rintro ⟨hsession, front, ⟨rfl, rfl⟩ | hfront, hasked, hopen⟩
    · exact .inr ⟨rfl, hsession, hasked, hopen⟩
    · exact .inl ⟨hsession, front, hfront, hasked, hopen⟩
  · rintro (⟨hsession, front, hfront, hasked, hopen⟩ | ⟨rfl, hsession, hasked, hopen⟩)
    · exact ⟨hsession, front, .inr hfront, hasked, hopen⟩
    · exact ⟨hsession, acts, .inl ⟨rfl, rfl⟩, hasked, hopen⟩

theorem sends_iff : act.sends context = true ↔ act = .sentToken ∧
    context.session.isSome = true ∧ context.refreshing = true ∧ ¬ context.closing = true := by
  cases act with
  | sentToken =>
      simp only [Act.sends, Bool.and_eq_true, Bool.not_eq_true', Bool.not_eq_true, true_and]
      tauto
  | subcall n stag => simp [Act.sends]
  | sessionClose n => simp [Act.sends]
  | sessionSetLOA n loa => simp [Act.sends]
  | reply n => simp [Act.sends]

/-- One more act, when what is asked for shows in the context. -/
theorem refreshed_append_singleton
    (hafter : after.refreshed = (before.refreshed || act.sends before))
    (hbefore : before.refreshed = true ↔
      context.refreshed = true ∨ Sent context asked closing acts)
    (hsession : before.session = context.session)
    (hasked : before.refreshing = true ↔ asked acts)
    (hclosing : before.closing = true ↔ closing acts) :
    after.refreshed = true ↔
      context.refreshed = true ∨ Sent context asked closing (acts ++ [act]) := by
  rw [hafter, Bool.or_eq_true, hbefore, sends_iff, hsession, hasked, hclosing,
    sent_append_singleton, or_assoc]

end Sending

/-- A run of steps that are each allowed and then made is cut anywhere. -/
theorem run_append {α σ : Type} {run : List α → σ → Option σ} {allowed : α → σ → Bool}
    {perform : α → σ → Option σ} (hnil : ∀ s, run [] s = some s)
    (hcons : ∀ a rest s,
      run (a :: rest) s = if allowed a s then (perform a s).bind (run rest) else none)
    (front back : List α) (s : σ) : run (front ++ back) s = (run front s).bind (run back) := by
  induction front generalizing s with
  | nil => rw [hnil, List.nil_append, Option.bind_some]
  | cons a front ih =>
      rw [List.cons_append, hcons, hcons]
      split
      · rw [Option.bind_assoc]
        exact congrArg _ (funext ih)
      · rfl

theorem runActs_append (acts acts' : List Act) (calls : Calls) :
    runActs (acts ++ acts') calls = (runActs acts calls).bind (runActs acts') :=
  run_append (fun _ => rfl) (fun _ _ _ => rfl) acts acts' calls

theorem runDirect_append (acts acts' : List Act) (direct : Direct) :
    runDirect (acts ++ acts') direct = (runDirect acts direct).bind (runDirect acts') :=
  run_append (fun _ => rfl) (fun _ _ _ => rfl) acts acts' direct

theorem runActs_sound (hsound : calls.Sound view) (h : runActs acts calls = some calls') :
    calls'.Sound view := by
  induction acts generalizing calls with
  | nil =>
      cases h
      exact hsound
  | cons act acts ih =>
      obtain ⟨next, -, -, heffect, hrest⟩ := runActs_cons hsound h
      exact ih heffect.sound hrest

section Original

variable {context : Context}

theorem original_refreshing (h : runActs acts (.original context) = some calls) :
    (calls.context 0).refreshing = true ↔ Back context acts := by
  have hup : ∀ n, numbered 0 n ((acts.filterMap Act.caller).reverse ++
      (Calls.original context).callers) = callerIn acts n := by
    intro n
    rw [Calls.callers, List.append_nil, callerIn]
  rw [runActs_refreshing (original_sound context) h hup]
  apply or_congr_left
  constructor
  · rintro ⟨n, _, hset, _⟩
    exact hset
  · intro hset
    exact ⟨0, Nat.le_refl 0, hset, climb_zero (numbered_zero _ _) acts⟩

theorem original_closing (h : runActs acts (.original context) = some calls) :
    (calls.context 0).closing = true ↔ Closing context Act.demands acts := by
  obtain ⟨r, d, hr⟩ := runActs_original (original_sound context) h
  rw [hr]
  exact applyAll_closing _ _

theorem original_session (h : runActs acts (.original context) = some calls) :
    (calls.context 0).session = context.session := by
  obtain ⟨r, d, hr⟩ := runActs_original (original_sound context) h
  rw [hr]
  exact (applyAll_done _ _).2.2

theorem original_refreshed (h : runActs acts (.original context) = some calls) :
    (calls.context 0).refreshed = true ↔ context.refreshed = true ∨
      Sent context (Back context) (Closing context Act.demands) acts := by
  induction acts using List.reverseRecOn generalizing calls with
  | nil =>
      cases h
      simp [Sent, Calls.context]
  | append_singleton acts act ih =>
      rw [runActs_append, Option.bind_eq_some_iff] at h
      obtain ⟨last, hlast, hact⟩ := h
      obtain ⟨next, -, -, heffect, hnil⟩ :=
        runActs_cons (runActs_sound (original_sound context) hlast) hact
      cases hnil
      obtain ⟨r, hr⟩ := heffect.original
      refine refreshed_append_singleton ?_ (ih hlast) (original_session hlast)
        (original_refreshing hlast) (original_closing hlast)
      rw [hr, Context.mark, (applyAll_done _ _).1]

theorem direct_run (h : runActs acts (.original context) = some calls) :
    ∃ d, runDirect acts ⟨context, []⟩ =
      some ⟨(applyAll (acts.flatMap (Act.changes context.view)) context).mark false d,
        calls.verdicts⟩ :=
  runDirect_eq (original_sound context) h rfl

theorem direct_refreshing (d : Bool) (acts : List Act) (context : Context) :
    ((applyAll (acts.flatMap (Act.changes context.view)) context).mark false d).refreshing = true ↔
      Asked context acts := by
  rw [Context.mark, Bool.or_false]
  exact applyAll_refreshing _ _

theorem direct_refreshed (h : runActs acts (.original context) = some calls) {direct : Direct}
    (hdirect : runDirect acts ⟨context, []⟩ = some direct) :
    direct.context.refreshed = true ↔ context.refreshed = true ∨
      Sent context (Asked context) (Closing context (Act.changes context.view)) acts := by
  induction acts using List.reverseRecOn generalizing calls direct with
  | nil =>
      cases hdirect
      simp [Sent]
  | append_singleton acts act ih =>
      rw [runActs_append, Option.bind_eq_some_iff] at h
      obtain ⟨last, hlast, -⟩ := h
      obtain ⟨d, hd⟩ := direct_run hlast
      have hprefix := ih hlast hd
      rw [runDirect_append, hd, Option.bind_some, runDirect] at hdirect
      split at hdirect
      case isTrue =>
        have hview : ((applyAll (acts.flatMap (Act.changes context.view)) context).mark false d).view =
            context.view := applyAll_view _ context
        rw [performDirect_eq hview] at hdirect
        cases hdirect
        refine refreshed_append_singleton ?_ hprefix (applyAll_done _ _).2.2
          (direct_refreshing _ _ _) (applyAll_closing _ _)
        rw [Context.mark, (applyAll_done _ _).1]
      case isFalse => cases hdirect

end Original

/-! ## The changes that reach the session -/

/-- The changes pending on the original context are those that the acts make: the token is left
to refresh by what comes back exactly when it is left by what the checks ask for; if a check
closes the session, then a verb demands it as well; and the level of assurance settles as if no
check had set it. -/
structure GivenBack (acts : List Act) (context : Context) : Prop where
  refresh : context.refreshed = true ∨
    (Left context (Back context) (Closing context Act.demands) acts ↔
      Left context (Asked context) (Closing context (Act.changes context.view)) acts)
  close : Closing context (Act.changes context.view) acts →
    context.closed = true ∨ Closing context Act.demands acts
  loa : context.settled (levels context.validated (acts.flatMap Act.demands)) =
    context.settled (levels context.validated (acts.flatMap (Act.changes context.view)))

theorem demands_subset_changes (act : Act) : act.demands ⊆ act.changes view := by
  cases act with
  | subcall n stag => exact List.nil_subset _
  | sessionClose n => exact List.Subset.refl _
  | sessionSetLOA n loa => exact List.Subset.refl _
  | reply n => exact List.Subset.refl _
  | sentToken => exact List.Subset.refl _

/-- The flags tell that the token is left to refresh. -/
theorem pending_refresh_eq {context other : Context} {asked closing : List Act → Prop}
    (hasked : other.refreshing = true ↔ asked acts)
    (hdone : other.refreshed = true ↔
      context.refreshed = true ∨ Sent context asked closing acts) :
    other.pending.refresh = true ↔
      context.refreshed = false ∧ Left context asked closing acts := by
  rw [Context.pending, Bool.and_eq_true, Bool.not_eq_true', ← Bool.not_eq_true, hasked, hdone,
    Left, ← Bool.not_eq_true]
  tauto

section Pending

variable {context : Context} {direct : Direct} (h : runActs acts (.original context) = some calls)
  (hdirect : runDirect acts ⟨context, []⟩ = some direct)
include h hdirect

theorem pending_refresh_iff :
    (calls.context 0).pending.refresh = direct.context.pending.refresh ↔
      context.refreshed = true ∨
        (Left context (Back context) (Closing context Act.demands) acts ↔
          Left context (Asked context) (Closing context (Act.changes context.view)) acts) := by
  have hasked : direct.context.refreshing = true ↔ Asked context acts := by
    obtain ⟨d, hd⟩ := direct_run h
    cases hdirect.symm.trans hd
    exact direct_refreshing _ _ _
  rw [Bool.eq_iff_iff, pending_refresh_eq (original_refreshing h) (original_refreshed h),
    pending_refresh_eq hasked (direct_refreshed h hdirect)]
  cases context.refreshed with
  | true => simp
  | false => simp

theorem pending_close_iff :
    (calls.context 0).pending.close = direct.context.pending.close ↔
      (Closing context (Act.changes context.view) acts →
        context.closed = true ∨ Closing context Act.demands acts) := by
  obtain ⟨r, d, hr⟩ := runActs_original (original_sound context) h
  obtain ⟨d', hd'⟩ := direct_run h
  cases hdirect.symm.trans hd'
  have hdone : (calls.context 0).closed = context.closed := by
    rw [hr]
    exact (applyAll_done _ _).2.1
  have hdone' := (applyAll_done (acts.flatMap (Act.changes context.view)) context).2.1
  have hmore : Closing context Act.demands acts →
      Closing context (Act.changes context.view) acts := by
    apply Or.imp_right
    simp only [List.mem_flatMap]
    rintro ⟨act, hact, hclose⟩
    exact ⟨act, hact, demands_subset_changes act hclose⟩
  have hclosing := applyAll_closing (acts.flatMap (Act.changes context.view)) context
  show ((calls.context 0).closing && !(calls.context 0).closed) =
    ((applyAll _ context).closing && !(applyAll _ context).closed) ↔ _
  rw [Bool.eq_iff_iff, Bool.and_eq_true, Bool.and_eq_true, original_closing h, hclosing, hdone,
    hdone', ← Closing]
  cases context.closed with
  | true => simp
  | false => simpa using Iff.intro (fun heq => heq.mpr) fun hback => ⟨hmore, hback⟩

theorem pending_loa_iff :
    (calls.context 0).pending.loa = direct.context.pending.loa ↔
      context.settled (levels context.validated (acts.flatMap Act.demands)) =
        context.settled (levels context.validated (acts.flatMap (Act.changes context.view))) := by
  obtain ⟨r, d, hr⟩ := runActs_original (original_sound context) h
  obtain ⟨d', hd'⟩ := direct_run h
  cases hdirect.symm.trans hd'
  have hpending : (calls.context 0).pending.loa =
      context.settled (levels context.validated (acts.flatMap Act.demands)) := by
    rw [hr]
    exact (applyAll_loa _ context).1
  have hpending' : ((applyAll (acts.flatMap (Act.changes context.view)) context).mark false
      d').pending.loa = _ := (applyAll_loa (acts.flatMap (Act.changes context.view)) context).1
  rw [hpending, hpending']

omit hdirect in
/-- In every run of a request and its subcalls, the changes pending on the original context are
those that the same acts leave when the checks and the verbs work on it, if and only if what
the checks change is given back; then the end of the request changes the sessions alike. -/
theorem subcall_session_effects :
    ∃ direct, runDirect acts ⟨context, []⟩ = some direct ∧
      ((calls.context 0).pending = direct.context.pending ↔ GivenBack acts context) ∧
      (GivenBack acts context → ∀ generated now s,
        (afbContextDisconnect generated now (calls.context 0) s).2 =
          (afbContextDisconnect generated now direct.context s).2) := by
  obtain ⟨d, hdirect⟩ := direct_run h
  refine ⟨_, hdirect, ?_⟩
  have hparts : ∀ p q : Pending,
      p = q ↔ p.refresh = q.refresh ∧ p.close = q.close ∧ p.loa = q.loa := by
    rintro ⟨⟩ ⟨⟩
    exact iff_of_eq (Pending.mk.injEq ..)
  have hiff := hparts (calls.context 0).pending
    ((applyAll (acts.flatMap (Act.changes context.view)) context).mark false d).pending
  rw [pending_refresh_iff h hdirect, pending_close_iff h hdirect, pending_loa_iff h hdirect]
    at hiff
  have hback := hiff.trans ⟨fun ⟨hrefresh, hclose, hloa⟩ => ⟨hrefresh, hclose, hloa⟩,
    fun hback : GivenBack acts context => ⟨hback.refresh, hback.close, hback.loa⟩⟩
  refine ⟨hback, fun hgiven generated now s => ?_⟩
  apply afbContextDisconnect_pending _ (hback.mpr hgiven)
  rw [original_session h]
  exact (applyAll_done _ _).2.2.symm

end Pending

/-- The context of a request that gives the token of its session, whose level is 1. -/
def tokenContext : Context := { resetContext 0 1 with validated := true }

/-- A verb that renews the token, called by the verb of a subcall; the original request then
sends the new token. -/
theorem subcall_session_effects_renewed :
    let acts : List Act :=
      [.subcall 0 afbSessionCheck, .subcall 1 afbSessionRenew, .reply 2, .reply 1, .sentToken]
    ∃ calls, runActs acts (.original tokenContext) = some calls ∧
      (calls.context 0).refreshed = true ∧
      ∃ direct, runDirect acts ⟨tokenContext, []⟩ = some direct ∧
        ((calls.context 0).pending = direct.context.pending ↔ GivenBack acts tokenContext) ∧
        (GivenBack acts tokenContext → ∀ generated now s,
          (afbContextDisconnect generated now (calls.context 0) s).2 =
            (afbContextDisconnect generated now direct.context s).2) :=
  ⟨_, rfl, rfl, subcall_session_effects rfl⟩

/-- The closing of the session and its level are lost when a verb that closes it is called
through a subcall. -/
theorem subcall_session_effects_fail :
    ¬ ∀ (stag : Nat) (context : Context) (calls : Calls) (direct : Direct),
      runActs [.subcall 0 stag, .reply 1] (.original context) = some calls →
      runDirect [.subcall 0 stag, .reply 1] ⟨context, []⟩ = some direct →
      (calls.context 0).pending = direct.context.pending := by
  intro h
  have heq := h afbSessionClose tokenContext _ _ rfl rfl
  exact absurd (congrArg Pending.close heq) (by decide)

end AfbBinder.Session
