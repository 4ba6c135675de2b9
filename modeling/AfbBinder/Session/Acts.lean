import AfbBinder.Session.Forwarded

/-!
# The acts of the verbs in progress

What one act does to the contexts, and a run of acts to the original one, the refreshing of
the token apart: the original context receives what the verbs demand, and the same acts on
it alone make the changes of the checks too.
-/

namespace AfbBinder.Session

/-! ## The contexts in use -/

namespace Calls

variable {calls : Calls} {f : Context → Context} {m n : Nat}

@[simp] theorem length_callers (calls : Calls) : calls.callers.length = calls.count := by
  induction calls with
  | original context => rfl
  | subcall copy caller called calls ih => simp [callers, count, ih]

@[simp] theorem length_verdicts (calls : Calls) : calls.verdicts.length = calls.count := by
  induction calls with
  | original context => rfl
  | subcall copy caller called calls ih => simp [verdicts, count, ih]

/-- The calls that have the same subcalls, with other contexts. -/
structure Alike (calls calls' : Calls) : Prop where
  count : calls'.count = calls.count
  callers : calls'.callers = calls.callers
  verdicts : calls'.verdicts = calls.verdicts

theorem modify_alike (n : Nat) (f : Context → Context) (calls : Calls) :
    Alike calls (calls.modify n f) := by
  induction calls with
  | original context => exact ⟨rfl, rfl, rfl⟩
  | subcall copy caller called calls ih =>
      rw [modify]
      split
      · exact ⟨rfl, rfl, rfl⟩
      · constructor
        · simp [Calls.count, ih.count]
        · simp [Calls.callers, ih.callers]
        · simp [Calls.verdicts, ih.verdicts]

theorem forward_alike (n : Nat) (f : Context → Context) (calls : Calls) :
    Alike calls (calls.forward n f) := by
  induction calls generalizing n with
  | original context => exact ⟨rfl, rfl, rfl⟩
  | subcall copy caller called calls ih =>
      have hrest := ih (if n = calls.count + 1 then caller else n)
      constructor
      · simp [forward, Calls.count, hrest.count]
      · simp [forward, Calls.callers, hrest.callers]
      · simp [forward, Calls.verdicts, hrest.verdicts]

theorem context_modify (hm : m ≤ calls.count) (hn : n ≤ calls.count) :
    (calls.modify m f).context n = if n = m then f (calls.context n) else calls.context n := by
  induction calls generalizing m n with
  | original context =>
      cases Nat.le_zero.mp hm
      cases Nat.le_zero.mp hn
      rfl
  | subcall copy caller called calls ih =>
      have hcount := (modify_alike m f calls).count
      rw [count] at hm hn
      rw [modify]
      by_cases hlast : m = calls.count + 1
      · rw [if_pos hlast, context, context, hlast]
        split
        · rfl
        · rfl
      · rw [if_neg hlast, context, context, hcount]
        by_cases hcopy : n = calls.count + 1
        · rw [if_pos hcopy, if_pos hcopy, if_neg (by omega)]
        · rw [if_neg hcopy, if_neg hcopy, ih (by omega) (by omega)]

theorem context_forward (hn : n ≤ calls.count) :
    (calls.forward m f).context n = if n = 0 then f (calls.context n) else calls.context n := by
  induction calls generalizing m n with
  | original context =>
      cases Nat.le_zero.mp hn
      rfl
  | subcall copy caller called calls ih =>
      have hcount := (forward_alike (if m = calls.count + 1 then caller else m) f calls).count
      rw [count] at hn
      rw [forward, context, context, hcount]
      by_cases hcopy : n = calls.count + 1
      · rw [if_pos hcopy, if_pos hcopy, if_neg (by omega)]
      · rw [if_neg hcopy, if_neg hcopy, ih (by omega)]

end Calls

/-- The context with what replies may give to it: the refreshing of the token, and that the
token was sent. -/
def Context.mark (r d : Bool) (context : Context) : Context :=
  { context with refreshing := context.refreshing || r, refreshed := context.refreshed || d }

theorem mark_false (context : Context) : context.mark false false = context := by
  rw [Context.mark, Bool.or_false, Bool.or_false]

theorem mark_mark (r d r' d' : Bool) (context : Context) :
    (context.mark r d).mark r' d' = context.mark (r || r') (d || d') := by
  rw [Context.mark, Context.mark, Context.mark, Bool.or_assoc, Bool.or_assoc]

theorem apply_mark (change : Change) (r d : Bool) (context : Context) :
    change.apply (context.mark r d) = (change.apply context).mark r d := by
  cases change with
  | refresh => rfl
  | close => rfl
  | loa level =>
      by_cases hset : context.validated = true ∧ level ≤ 7
      · have hmarked : (Change.loa level).apply (context.mark r d) = _ := apply_loa_of_set hset
        rw [hmarked, apply_loa_of_set hset, Context.mark, Context.mark]
        split
        · rfl
        · rfl
      · have hmarked : (Change.loa level).apply (context.mark r d) = _ :=
          apply_loa_of_not_set hset
        rw [hmarked, apply_loa_of_not_set hset]

theorem applyAll_mark (changes : List Change) (r d : Bool) (context : Context) :
    applyAll changes (context.mark r d) = (applyAll changes context).mark r d := by
  induction changes generalizing context with
  | nil => rfl
  | cons change changes ih =>
      rw [applyAll, List.foldl_cons, apply_mark]
      exact ih (change.apply context)

theorem mark_self (context : Context) : context.mark context.refreshing false = context := by
  rw [Context.mark, Bool.or_self, Bool.or_false]

/-! ## Numbers -/

theorem numbered_zero {α : Type} (a : α) (l : List α) : numbered a 0 l = a := by
  induction l with
  | nil => rfl
  | cons b l ih => rw [numbered, if_neg (Nat.succ_ne_zero _).symm, ih]

theorem numbered_append {α : Type} {a : α} {n : Nat} {l : List α} (h : n ≤ l.length)
    (front : List α) : numbered a n (front ++ l) = numbered a n l := by
  induction front with
  | nil => rfl
  | cons b front ih =>
      have hlength : n ≠ (front ++ l).length + 1 := by
        rw [List.length_append]
        omega
      rw [List.cons_append, numbered, if_neg hlength, ih]

/-- Each subcall is made by a verb with a smaller number. -/
def Rooted : List Nat → Prop
  | [] => True
  | caller :: callers => caller ≤ callers.length ∧ Rooted callers

theorem Rooted.le {callers : List Nat} (h : Rooted callers) (n : Nat) :
    numbered 0 n callers ≤ callers.length := by
  induction callers with
  | nil => exact Nat.le_refl 0
  | cons caller callers ih =>
      rw [numbered]
      split
      · exact Nat.le_succ_of_le h.1
      · exact Nat.le_succ_of_le (ih h.2)

theorem le_of_calledBy {n : Nat} {verdicts : List Bool} (h : calledBy n verdicts = true) :
    n ≤ verdicts.length := by
  rw [calledBy, Bool.and_eq_true, decide_eq_true_eq] at h
  exact h.1

/-! ## The acts -/

/-- The changes that a verb demands itself. -/
def Act.demands : Act → List Change
  | .sessionClose _ => [.close]
  | .sessionSetLOA _ loa => [.loa loa]
  | .subcall _ _ => []
  | .reply _ => []
  | .sentToken => []

/-- The act sends the token that the context is to refresh. -/
def Act.sends (context : Context) : Act → Bool
  | .subcall _ _ => false
  | .sessionClose _ => false
  | .sessionSetLOA _ _ => false
  | .reply _ => false
  | .sentToken => context.session.isSome && !context.closing && context.refreshing

/-- The changes of an act with those of the check that a subcall makes. -/
def Act.changes (view : Bool × Nat) : Act → List Change
  | .subcall _ stag => (checkChanges stag view.1 view.2).2
  | act => act.demands

def Act.caller : Act → Option Nat
  | .subcall n _ => some n
  | _ => none

/-- Whether the verb of a subcall is called. -/
def Act.verdict (view : Bool × Nat) : Act → Option Bool
  | .subcall _ stag => some (checkChanges stag view.1 view.2).1.isNone
  | _ => none

structure Calls.Sound (view : Bool × Nat) (calls : Calls) : Prop where
  rooted : Rooted calls.callers
  view : ∀ n ≤ calls.count, (calls.context n).view = view

/-- What an act does, the refreshing of the token apart. -/
structure Act.Effect (view : Bool × Nat) (act : Act) (calls calls' : Calls) : Prop where
  sound : calls'.Sound view
  callers : calls'.callers = act.caller.toList ++ calls.callers
  verdicts : calls'.verdicts = (act.verdict view).toList ++ calls.verdicts
  original : ∃ r, calls'.context 0 =
    (applyAll act.demands (calls.context 0)).mark r (act.sends (calls.context 0))

variable {view : Bool × Nat} {calls calls' : Calls} {n stag : Nat}

theorem subcallEmit_alike (n : Nat) (calls : Calls) : calls.Alike (subcallEmit n calls) := by
  rw [subcallEmit]
  split
  · exact Calls.modify_alike _ _ calls
  · exact ⟨rfl, rfl, rfl⟩

/-- A reply marks the context that the copy was made of. -/
theorem context_subcallEmit {n k : Nat} {calls : Calls} (hrooted : Rooted calls.callers)
    (hk : k ≤ calls.count) :
    (subcallEmit n calls).context k =
      if k = numbered 0 n calls.callers then
        (calls.context k).mark (calls.context n).refreshing false
      else calls.context k := by
  have hcaller : numbered 0 n calls.callers ≤ calls.count := by
    rw [← calls.length_callers]
    exact hrooted.le n
  rw [subcallEmit]
  by_cases hzero : n = 0
  · rw [if_neg (fun h => h.1 hzero), hzero, numbered_zero]
    split
    case isTrue hk => rw [hk, mark_self]
    case isFalse => rfl
  · cases hflag : (calls.context n).refreshing with
    | false =>
        rw [if_neg (fun h => Bool.false_ne_true h.2), mark_false, ite_self]
    | true =>
        rw [if_pos ⟨hzero, rfl⟩, Calls.context_modify hcaller hk]
        split
        · rw [Context.mark, Bool.or_true, Bool.or_false]
        · rfl

theorem subcallEmit_sound (h : calls.Sound view) (n : Nat) : (subcallEmit n calls).Sound view := by
  have halike := subcallEmit_alike n calls
  constructor
  · rw [halike.callers]
    exact h.rooted
  · intro k hk
    rw [halike.count] at hk
    rw [context_subcallEmit h.rooted hk]
    split
    · exact h.view k hk
    · exact h.view k hk

theorem context_zero_subcallEmit (h : calls.Sound view) (n : Nat) :
    ∃ r, (subcallEmit n calls).context 0 = (calls.context 0).mark r false := by
  rw [context_subcallEmit h.rooted (Nat.zero_le _)]
  split
  · exact ⟨_, rfl⟩
  · exact ⟨false, (mark_false _).symm⟩

theorem forward_effect (h : calls.Sound view) (n : Nat) {act : Act} (change : Change)
    (hdemands : act.demands = [change]) (hcaller : act.caller = none)
    (hverdict : act.verdict view = none) (hsends : ∀ context, act.sends context = false) :
    act.Effect view calls (calls.forward n change.apply) := by
  have halike := calls.forward_alike n change.apply
  constructor
  · constructor
    · rw [halike.callers]
      exact h.rooted
    · intro k hk
      rw [halike.count] at hk
      rw [Calls.context_forward hk]
      split
      · exact (apply_view change _).trans (h.view k hk)
      · exact h.view k hk
  · rw [halike.callers, hcaller]
    rfl
  · rw [halike.verdicts, hverdict]
    rfl
  · refine ⟨false, ?_⟩
    rw [Calls.context_forward (Nat.zero_le _), if_pos rfl, hdemands, hsends, mark_false]
    rfl

/-- The subcall that is made, before the reply of a check that refuses. -/
def Calls.push (view : Bool × Nat) (n stag : Nat) (calls : Calls) : Calls :=
  .subcall (applyAll (checkChanges stag view.1 view.2).2 (calls.context n)) n
    (checkChanges stag view.1 view.2).1.isNone calls

theorem afbSubcall_eq (h : (calls.context n).view = view) :
    afbSubcall n stag calls =
      some (if (checkChanges stag view.1 view.2).1.isNone then calls.push view n stag
        else subcallEmit (calls.count + 1) (calls.push view n stag)) := by
  subst h
  rw [afbSubcall, callCheck_eq]
  rfl

theorem push_sound (h : calls.Sound view) (hn : n ≤ calls.count) :
    (calls.push view n stag).Sound view := by
  constructor
  · exact ⟨calls.length_callers ▸ hn, h.rooted⟩
  · intro k hk
    rw [Calls.push, Calls.context]
    split
    · exact (applyAll_view _ _).trans (h.view n hn)
    · rw [Calls.push, Calls.count] at hk
      exact h.view k (by omega)

theorem context_zero_push (calls : Calls) :
    (calls.push view n stag).context 0 = calls.context 0 :=
  if_neg (Nat.succ_ne_zero _).symm

theorem afbSubcall_effect (h : calls.Sound view) (hn : n ≤ calls.count) :
    ∃ calls', afbSubcall n stag calls = some calls' ∧
      (Act.subcall n stag).Effect view calls calls' := by
  have hpush : (calls.push view n stag).Sound view := push_sound h hn
  refine ⟨_, afbSubcall_eq (h.view n hn), ?_⟩
  split
  · refine ⟨hpush, rfl, rfl, false, ?_⟩
    rw [context_zero_push, Act.sends, mark_false]
    rfl
  · have halike := subcallEmit_alike (calls.count + 1) (calls.push view n stag)
    constructor
    · exact subcallEmit_sound hpush _
    · exact halike.callers
    · exact halike.verdicts
    · obtain ⟨r, hr⟩ := context_zero_subcallEmit hpush (calls.count + 1)
      exact ⟨r, by rw [hr, context_zero_push]; rfl⟩

theorem sentToken_effect (h : calls.Sound view) :
    Act.sentToken.Effect view calls (calls.modify 0 Context.sentToken) := by
  have halike := calls.modify_alike 0 Context.sentToken
  constructor
  · constructor
    · rw [halike.callers]
      exact h.rooted
    · intro k hk
      rw [halike.count] at hk
      rw [Calls.context_modify (Nat.zero_le _) hk]
      split
      · exact h.view k hk
      · exact h.view k hk
  · exact halike.callers
  · exact halike.verdicts
  · refine ⟨false, ?_⟩
    rw [Calls.context_modify (Nat.zero_le _) (Nat.zero_le _), if_pos rfl, Context.mark,
      Bool.or_false]
    rfl

/-- No assertion fails, and an act of a verb does what is told of it. -/
theorem perform_effect (h : calls.Sound view) {act : Act}
    (hcalled : calledBy act.verb calls.verdicts = true) :
    ∃ calls', act.perform calls = some calls' ∧ act.Effect view calls calls' := by
  cases act with
  | subcall n stag =>
      have hn : n ≤ calls.count := calls.length_verdicts ▸ le_of_calledBy hcalled
      exact afbSubcall_effect h hn
  | sessionClose n => exact ⟨_, rfl, forward_effect h n .close rfl rfl rfl fun _ => rfl⟩
  | sessionSetLOA n loa => exact ⟨_, rfl, forward_effect h n (.loa loa) rfl rfl rfl fun _ => rfl⟩
  | reply n =>
      have halike := subcallEmit_alike n calls
      refine ⟨_, rfl, subcallEmit_sound h n, halike.callers, halike.verdicts, ?_⟩
      exact context_zero_subcallEmit h n
  | sentToken => exact ⟨_, rfl, sentToken_effect h⟩

/-! ## Runs -/

variable {act : Act} {acts : List Act}

theorem runActs_cons (hsound : calls.Sound view) (h : runActs (act :: acts) calls = some calls') :
    ∃ next, calledBy act.verb calls.verdicts = true ∧ act.perform calls = some next ∧
      act.Effect view calls next ∧ runActs acts next = some calls' := by
  rw [runActs] at h
  split at h
  case isTrue hcalled =>
    obtain ⟨next, hnext, hrest⟩ := Option.bind_eq_some_iff.mp h
    obtain ⟨next', hnext', heffect⟩ := perform_effect hsound hcalled
    cases hnext.symm.trans hnext'
    exact ⟨next, hcalled, hnext, heffect, hrest⟩
  case isFalse => cases h

theorem performDirect_eq {direct : Direct} (h : direct.context.view = view) (act : Act) :
    act.performDirect direct =
      some ⟨(applyAll (act.changes view) direct.context).mark false (act.sends direct.context),
        (act.verdict view).toList ++ direct.verdicts⟩ := by
  cases act with
  | subcall n stag =>
      subst h
      rw [Act.performDirect, callCheck_eq, Act.sends, mark_false]
      rfl
  | sessionClose n =>
      rw [Act.sends, mark_false]
      rfl
  | sessionSetLOA n loa =>
      rw [Act.sends, mark_false]
      rfl
  | reply n =>
      rw [Act.sends, mark_false]
      rfl
  | sentToken =>
      rw [Context.mark, Bool.or_false]
      rfl

theorem runActs_original (hsound : calls.Sound view) (h : runActs acts calls = some calls') :
    ∃ r d, calls'.context 0 =
      (applyAll (acts.flatMap Act.demands) (calls.context 0)).mark r d := by
  induction acts generalizing calls with
  | nil =>
      cases h
      exact ⟨false, false, (mark_false _).symm⟩
  | cons act acts ih =>
      obtain ⟨next, -, -, heffect, hrest⟩ := runActs_cons hsound h
      obtain ⟨r, hr⟩ := heffect.original
      obtain ⟨r', d', hr'⟩ := ih heffect.sound hrest
      refine ⟨r || r', act.sends (calls.context 0) || d', ?_⟩
      rw [hr', hr, applyAll_mark, mark_mark, List.flatMap_cons, applyAll_append]

/-- The context on which all verbs work gets the changes of the checks too. -/
theorem runDirect_eq (hsound : calls.Sound view) (h : runActs acts calls = some calls')
    {context : Context} (hview : context.view = view) :
    ∃ d, runDirect acts ⟨context, calls.verdicts⟩ =
      some ⟨(applyAll (acts.flatMap (Act.changes view)) context).mark false d,
        calls'.verdicts⟩ := by
  induction acts generalizing calls context with
  | nil =>
      cases h
      exact ⟨false, by rw [mark_false]; rfl⟩
  | cons act acts ih =>
      obtain ⟨next, hcalled, -, heffect, hrest⟩ := runActs_cons hsound h
      have hkept : ((applyAll (act.changes view) context).mark false (act.sends context)).view =
          view := (applyAll_view _ _).trans hview
      obtain ⟨d, hd⟩ := ih heffect.sound hrest hkept
      refine ⟨act.sends context || d, ?_⟩
      rw [runDirect, if_pos (by exact hcalled), performDirect_eq hview, Option.bind_some,
        ← heffect.verdicts, hd, applyAll_mark, mark_mark, List.flatMap_cons, applyAll_append]
      rfl

end AfbBinder.Session
