import AfbBinder.Session.Subcall
import Mathlib.Data.List.Induction

/-!
# What a subcall gives back

Neither a check nor a verb changes what the checks read, so that a verb makes the same
changes on the context of its request as on a copy of it.  Those that the verbs ask for
reach the original context, the refreshing of the token is given back by the replies, and
the other changes that the checks make are lost with the copies.
-/

namespace AfbBinder.Session

/-! ## Changes -/

inductive Change where
  | refresh
  | close
  | loa (level : Nat)
deriving DecidableEq

def Change.apply : Change → Context → Context
  | .refresh, context => { context with refreshing := true }
  | .close, context => afbContextClose context
  | .loa level, context => (afbContextChangeLoa level context).1

def applyAll (changes : List Change) (context : Context) : Context :=
  changes.foldl (fun context change => change.apply context) context

/-- What `call_check` replies and changes, for a context of which it reads two fields. -/
def checkChanges (stag : Nat) (validated : Bool) (loaIn : Nat) : Option String × List Change :=
  if stag &&& afbSessionChecked ≠ 0 ∧ validated = false then
    (some "invalid token's identity", [.close])
  else if stag &&& afbSessionCreate ≠ 0 ∧ 1 ≤ loaIn then (some "invalid creation state", [])
  else
    let loa := stag >>> afbSessionLoaShift &&& afbSessionLoaMask
    (if stag &&& afbSessionLoaGe ≠ 0 ∧ loaIn < loa then some "invalid LOA"
      else if stag &&& afbSessionLoaLe ≠ 0 ∧ loa + 1 ≤ loaIn then some "invalid LOA"
      else none,
      (if stag &&& afbSessionCreate ≠ 0 then [.loa 1, .refresh] else []) ++
      (if stag &&& (afbSessionCreate ||| afbSessionRenew) ≠ 0 then [.refresh] else []) ++
      if stag &&& afbSessionClose ≠ 0 then [.loa 0, .close] else [])

variable {context : Context}

theorem applyAll_append (changes changes' : List Change) (context : Context) :
    applyAll (changes ++ changes') context = applyAll changes' (applyAll changes context) :=
  List.foldl_append

/-- The fields that the checks read. -/
def Context.view (context : Context) : Bool × Nat := (context.validated, context.loaIn)

/-- A change of level changes the three fields that are about it. -/
theorem apply_loa_cases (level : Nat) (context : Context) :
    ∃ loaOut loaChanging loaChanged, (Change.loa level).apply context =
      { context with
        loaOut := loaOut, loaChanging := loaChanging, loaChanged := loaChanged } := by
  simp only [Change.apply, afbContextChangeLoa]
  split
  · exact ⟨_, _, _, rfl⟩
  · split
    · exact ⟨_, _, _, rfl⟩
    · exact ⟨_, _, _, rfl⟩

theorem apply_view (change : Change) (context : Context) :
    (change.apply context).view = context.view := by
  cases change with
  | refresh => rfl
  | close => rfl
  | loa level =>
      obtain ⟨_, _, _, h⟩ := apply_loa_cases level context
      rw [h]
      rfl

theorem applyAll_view (changes : List Change) (context : Context) :
    (applyAll changes context).view = context.view := by
  induction changes generalizing context with
  | nil => rfl
  | cons change changes ih => exact (ih (change.apply context)).trans (apply_view change context)

/-- A verb of the mask needs a valid token. -/
theorem checked_of_mask {stag mask : Nat} (hmask : afbSessionChecked &&& mask = mask)
    (h : stag &&& mask ≠ 0) : stag &&& afbSessionChecked ≠ 0 := by
  intro hzero
  apply h
  rw [← hmask, ← Nat.and_assoc, hzero, Nat.zero_and]

theorem afbContextRefresh_eq (h : context.validated = true) :
    afbContextRefresh context = some (Change.refresh.apply context) :=
  if_pos h

theorem createSession_eq {stag : Nat}
    (hvalid : stag &&& afbSessionCreate ≠ 0 → context.validated = true) :
    createSession stag context =
      some (applyAll (if stag &&& afbSessionCreate ≠ 0 then [.loa 1, .refresh] else [])
        context) := by
  rw [createSession]
  split
  case isTrue hon =>
    have hview := congrArg Prod.fst (apply_view (.loa 1) context)
    exact afbContextRefresh_eq (hview.trans (hvalid hon))
  case isFalse => rfl

theorem renewSession_eq {stag : Nat}
    (hvalid : stag &&& (afbSessionCreate ||| afbSessionRenew) ≠ 0 → context.validated = true) :
    renewSession stag context =
      some (applyAll (if stag &&& (afbSessionCreate ||| afbSessionRenew) ≠ 0 then [.refresh]
        else []) context) := by
  rw [renewSession]
  split
  case isTrue hon => exact afbContextRefresh_eq (hvalid hon)
  case isFalse => rfl

theorem closeSession_eq (stag : Nat) (context : Context) :
    closeSession stag context =
      applyAll (if stag &&& afbSessionClose ≠ 0 then [.loa 0, .close] else []) context := by
  rw [closeSession]
  split
  · rfl
  · rfl

theorem checkLOA_eq {context' : Context} (h : context'.view = context.view) (stag : Nat) :
    checkLOA stag context' =
      (let loa := stag >>> afbSessionLoaShift &&& afbSessionLoaMask
      if stag &&& afbSessionLoaGe ≠ 0 ∧ context.loaIn < loa then some "invalid LOA"
      else if stag &&& afbSessionLoaLe ≠ 0 ∧ loa + 1 ≤ context.loaIn then some "invalid LOA"
      else none) := by
  have hloa : context'.loaIn = context.loaIn := congrArg Prod.snd h
  simp only [checkLOA, afbContextCheckLoa, hloa, decide_eq_false_iff_not, decide_eq_true_eq,
    ge_iff_le, Nat.not_le]

theorem callCheck_eq (stag : Nat) (context : Context) :
    callCheck stag context =
      some ((checkChanges stag context.validated context.loaIn).1,
        applyAll (checkChanges stag context.validated context.loaIn).2 context) := by
  by_cases hinvalid : stag &&& afbSessionChecked ≠ 0 ∧ context.validated = false
  · rw [callCheck, checkChanges, if_pos hinvalid, if_pos (by exact hinvalid)]
    rfl
  · rw [callCheck, checkChanges, if_neg hinvalid, if_neg (by exact hinvalid)]
    by_cases hcreated : stag &&& afbSessionCreate ≠ 0 ∧ 1 ≤ context.loaIn
    · rw [if_pos hcreated, if_pos (by simpa [afbContextCheckLoa] using hcreated)]
      rfl
    · rw [if_neg hcreated, if_neg (by simpa [afbContextCheckLoa] using hcreated)]
      -- the assertions hold, since the token was checked
      have hvalid : ∀ mask, afbSessionChecked &&& mask = mask → stag &&& mask ≠ 0 →
          context.validated = true := by
        intro mask hmask hon
        cases hcase : context.validated with
        | true => rfl
        | false => exact absurd ⟨checked_of_mask hmask hon, hcase⟩ hinvalid
      have hview₁ := applyAll_view
        (if stag &&& afbSessionCreate ≠ 0 then [.loa 1, .refresh] else []) context
      have hvalid₁ := fun hon => (congrArg Prod.fst hview₁).trans
        (hvalid (afbSessionCreate ||| afbSessionRenew) rfl hon)
      rw [createSession_eq (hvalid afbSessionCreate rfl), Option.bind_eq_bind, Option.bind_some,
        renewSession_eq hvalid₁, Option.bind_some, closeSession_eq]
      simp only [← applyAll_append]
      rw [checkLOA_eq (applyAll_view _ context)]

/-! ## What the changes leave pending -/

/-- The levels of assurance that are set by the changes. -/
def levels (validated : Bool) (changes : List Change) : List Nat :=
  changes.filterMap fun
    | .loa level => if validated = true ∧ level ≤ 7 then some level else none
    | _ => none

/-- The level that is pending once the levels are set: none when the last one is that of the
session, unless it was set over a change already made. -/
def Context.settled (context : Context) (levels : List Nat) : Option Nat :=
  match levels.getLast? with
  | none => context.pending.loa
  | some level =>
      if level = context.loaIn ∧ (context.loaChanged = false ∨ 2 ≤ levels.length) then none
      else some level

theorem levels_append (validated : Bool) (changes changes' : List Change) :
    levels validated (changes ++ changes') =
      levels validated changes ++ levels validated changes' :=
  List.filterMap_append

theorem applyAll_refreshing (changes : List Change) (context : Context) :
    (applyAll changes context).refreshing = true ↔
      context.refreshing = true ∨ .refresh ∈ changes := by
  induction changes generalizing context with
  | nil => simp [applyAll]
  | cons change changes ih =>
      refine (ih (change.apply context)).trans ?_
      cases change with
      | refresh => simp [Change.apply]
      | close => simp [Change.apply, afbContextClose]
      | loa level =>
          have hkept : ((Change.loa level).apply context).refreshing = context.refreshing := by
            obtain ⟨_, _, _, h⟩ := apply_loa_cases level context
            rw [h]
          simp [hkept]

theorem applyAll_closing (changes : List Change) (context : Context) :
    (applyAll changes context).closing = true ↔ context.closing = true ∨ .close ∈ changes := by
  induction changes generalizing context with
  | nil => simp [applyAll]
  | cons change changes ih =>
      refine (ih (change.apply context)).trans ?_
      cases change with
      | refresh => simp [Change.apply]
      | close => simp [Change.apply, afbContextClose]
      | loa level =>
          have hkept : ((Change.loa level).apply context).closing = context.closing := by
            obtain ⟨_, _, _, h⟩ := apply_loa_cases level context
            rw [h]
          simp [hkept]

theorem applyAll_done (changes : List Change) (context : Context) :
    (applyAll changes context).refreshed = context.refreshed ∧
      (applyAll changes context).closed = context.closed ∧
        (applyAll changes context).session = context.session := by
  induction changes generalizing context with
  | nil => exact ⟨rfl, rfl, rfl⟩
  | cons change changes ih =>
      have hrest := ih (change.apply context)
      cases change with
      | refresh => exact hrest
      | close => exact hrest
      | loa level =>
          obtain ⟨_, _, _, h⟩ := apply_loa_cases level context
          rw [h] at hrest
          rw [applyAll, List.foldl_cons, h]
          exact hrest

theorem apply_loa_of_set {level : Nat} (h : context.validated = true ∧ level ≤ 7) :
    (Change.loa level).apply context =
      if level = context.loaIn ∧ context.loaChanged = false then
        { context with loaChanging := false }
      else { context with loaOut := level, loaChanging := true, loaChanged := false } := by
  have hguard : (!context.validated || decide (7 < level)) = false := by
    simp [h.1, Nat.not_lt.mpr h.2]
  have hmod : level % 8 = level := Nat.mod_eq_of_lt (Nat.lt_succ_of_le h.2)
  rw [Change.apply, afbContextChangeLoa, hguard, if_neg Bool.false_ne_true, hmod]
  split
  · rfl
  · rfl

theorem apply_loa_of_not_set {level : Nat} (h : ¬(context.validated = true ∧ level ≤ 7)) :
    (Change.loa level).apply context = context := by
  have hguard : (!context.validated || decide (7 < level)) = true := by
    cases hvalid : context.validated with
    | false => rfl
    | true => simpa [hvalid] using h
  rw [Change.apply, afbContextChangeLoa, hguard, if_pos rfl]

/-- What a change does to the level that is pending. -/
theorem apply_loa (change : Change) (context : Context) :
    (change.apply context).pending.loa = context.settled (levels context.validated [change]) ∧
      (change.apply context).loaChanged =
        (context.loaChanged && (levels context.validated [change]).isEmpty) := by
  cases change with
  | refresh => simp [Change.apply, levels, Context.settled, Context.pending]
  | close => simp [Change.apply, afbContextClose, levels, Context.settled, Context.pending]
  | loa level =>
      by_cases hset : context.validated = true ∧ level ≤ 7
      · have hlevels : levels context.validated [.loa level] = [level] := by simp [levels, hset]
        rw [apply_loa_of_set hset, hlevels]
        split
        case isTrue hsame => simp [Context.settled, Context.pending, hsame]
        case isFalse hsame => simp [Context.settled, Context.pending, hsame]
      · have hlevels : levels context.validated [.loa level] = [] := by simp [levels, hset]
        rw [apply_loa_of_not_set hset, hlevels]
        simp [Context.settled]

theorem levels_singleton (validated : Bool) (change : Change) :
    levels validated [change] = [] ∨ ∃ level, levels validated [change] = [level] := by
  rw [levels, List.filterMap_cons]
  split
  · exact .inl rfl
  · exact .inr ⟨_, rfl⟩

/-- Only the first change can be made over one that was already made. -/
theorem applyAll_loa (changes : List Change) (context : Context) :
    (applyAll changes context).pending.loa = context.settled (levels context.validated changes) ∧
      (applyAll changes context).loaChanged =
        (context.loaChanged && (levels context.validated changes).isEmpty) := by
  induction changes using List.reverseRecOn with
  | nil => simp [applyAll, levels, Context.settled]
  | append_singleton changes change ih =>
      have hview := applyAll_view changes context
      have hvalid : (applyAll changes context).validated = context.validated :=
        congrArg Prod.fst hview
      have hloa : (applyAll changes context).loaIn = context.loaIn := congrArg Prod.snd hview
      have hlast := apply_loa change (applyAll changes context)
      rw [hvalid, ih.2] at hlast
      rw [applyAll_append, levels_append]
      show (change.apply (applyAll changes context)).pending.loa = _ ∧
        (change.apply (applyAll changes context)).loaChanged = _
      rw [hlast.1, hlast.2]
      rcases levels_singleton context.validated change with hnone | ⟨level, hone⟩
      · rw [hnone, List.append_nil, ← ih.1]
        simp [Context.settled]
      · -- the level is set over a change already made when it is the first one
        have hfirst : (applyAll changes context).loaChanged = false ↔ context.loaChanged = false ∨
            2 ≤ (levels context.validated changes ++ [level]).length := by
          rw [ih.2]
          cases levels context.validated changes with
          | nil => simp
          | cons first rest => simp
        simp [hone, Context.settled, hloa, hfirst]

end AfbBinder.Session
