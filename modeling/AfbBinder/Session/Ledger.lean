import AfbBinder.Session.Contents
import AfbBinder.Session.Context
import AfbBinder.Session.Lifetime
import Mathlib.Data.List.Basic

/-!
# The cookies of one owner

Some part of the binder keeps objects as cookies of the sessions, all with the free function
`f`.  What the operations of the store do to these cookies, whoever calls them: a session
that is closed gives them all up, in calls of `f`, and else it keeps them.
-/

namespace AfbBinder.Session

open Lib

/-- `ctxClientCookieGet` -/
def ctxClientCookieGet (key : Nat) (c : ClientCtx) : Option Nat :=
  (c.cookies.find? fun cookie => cookie.key = key).bind Cookie.value

/-- The cookies that `f` frees. -/
def ClientCtx.marked (f : Nat) (c : ClientCtx) : List Cookie :=
  c.cookies.filter fun cookie => cookie.freeValue = some f

def Store.marked (f : Nat) (s : Store) (client : Nat) : List Cookie :=
  ((s.mem client).map (ClientCtx.marked f)).getD []

/-- The calls of `f`. -/
def freedBy (f : Nat) (rs : List Release) : List Release := rs.filter fun r => r.freeValue = f

/-- The cookies of a context have distinct keys, `f` frees cookies only, and it frees those
whose keys are reserved. -/
structure Reserved (f : Nat) (K : Nat → Prop) (s : Store) : Prop where
  unallocated : ∀ a, s.next ≤ a → s.mem a = none
  keys : ∀ a c, s.mem a = some c → (c.cookies.map Cookie.key).Nodup
  values : ∀ a c, s.mem a = some c → ∀ entry ∈ c.values, entry.freeValue ≠ some f
  own : ∀ a c, s.mem a = some c → ∀ cookie ∈ c.cookies, K cookie.key → cookie.freeValue = some f

/-- The sessions of the list are closed, the other ones keep their cookies. -/
structure Settles (f : Nat) (s s' : Store) (closed : List Nat) : Prop where
  next : s.next ≤ s'.next
  gone : ∀ a, a < s.next → s.mem a = none → s'.mem a = none
  nodup : closed.Nodup
  opened : ∀ a ∈ closed, ∃ c, s.mem a = some c ∧ c.uuid ≠ []
  released : ∃ rs, s'.released = s.released ++ rs ∧
    freedBy f rs = closed.flatMap fun a => (s.marked f a).flatMap Cookie.release
  closing : ∀ a ∈ closed, s'.marked f a = [] ∧ ∀ c', s'.mem a = some c' → c'.uuid = []
  staying : ∀ a c', a ∉ closed → s'.mem a = some c' →
    s'.marked f a = s.marked f a ∧ ∀ c, s.mem a = some c → c'.uuid = c.uuid
  leaving : ∀ a c, a ∉ closed → s.mem a = some c → s'.mem a = none → c.uuid = []

variable {f client : Nat} {K : Nat → Prop} {s s' s'' : Store} {c c' : ClientCtx} {closed closed' : List Nat}

theorem marked_of_mem (hc : s.mem client = some c) : s.marked f client = c.marked f := by
  rw [Store.marked, hc]
  rfl

theorem marked_of_none (hc : s.mem client = none) : s.marked f client = [] := by
  rw [Store.marked, hc]
  rfl

theorem freedBy_append (rs rs' : List Release) :
    freedBy f (rs ++ rs') = freedBy f rs ++ freedBy f rs' := List.filter_append ..

theorem freedBy_nil_of {rs : List Release} (h : ∀ r ∈ rs, r.freeValue ≠ f) : freedBy f rs = [] := by
  rw [freedBy, List.filter_eq_nil_iff]
  intro r hr
  simpa using h r hr

theorem Reserved.lt_next (h : Reserved f K s) (hc : s.mem client = some c) : client < s.next := by
  by_contra hle
  rw [h.unallocated client (by omega)] at hc
  cases hc

theorem Reserved.mono {K' : Nat → Prop} (h : Reserved f K s) (hle : ∀ key, K' key → K key) :
    Reserved f K' s :=
  ⟨h.unallocated, h.keys, h.values, fun a c hc cookie hcookie hkey =>
    h.own a c hc cookie hcookie (hle _ hkey)⟩

theorem mem_marked {cookie : Cookie} :
    cookie ∈ c.marked f ↔ cookie ∈ c.cookies ∧ cookie.freeValue = some f := by
  rw [ClientCtx.marked, List.mem_filter, decide_eq_true_eq]

theorem allocated_of_marked {cookie : Cookie} (h : cookie ∈ s.marked f client) :
    ∃ c, s.mem client = some c ∧ cookie ∈ c.cookies ∧ cookie.freeValue = some f := by
  cases hc : s.mem client with
  | none =>
      rw [marked_of_none hc] at h
      exact absurd h List.not_mem_nil
  | some c =>
      rw [marked_of_mem hc] at h
      exact ⟨c, rfl, mem_marked.mp h⟩

theorem freed_values (client : Nat) :
    ((s.marked f client).flatMap Cookie.release).map Release.value =
      (s.marked f client).filterMap Cookie.value := by
  have hmark : ∀ cookie ∈ s.marked f client, cookie.freeValue = some f := by
    intro cookie hcookie
    rcases allocated_of_marked hcookie with ⟨_, _, _, hfree⟩
    exact hfree
  revert hmark
  generalize s.marked f client = cookies
  intro hmark
  induction cookies with
  | nil => rfl
  | cons cookie rest ih =>
      rw [List.flatMap_cons, List.map_append, ih fun other hother =>
        hmark other (List.mem_cons_of_mem cookie hother), Cookie.release,
        hmark cookie List.mem_cons_self]
      cases hvalue : cookie.value with
      | none => rw [List.filterMap_cons_none hvalue]; rfl
      | some v => rw [List.filterMap_cons_some hvalue]; rfl

theorem Settles.refl (f : Nat) (s : Store) : Settles f s s [] := by
  constructor
  · exact Nat.le_refl _
  · exact fun a _ hnone => hnone
  · exact List.nodup_nil
  · exact fun a ha => absurd ha List.not_mem_nil
  · exact ⟨[], (List.append_nil _).symm, rfl⟩
  · exact fun a ha => absurd ha List.not_mem_nil
  · intro a c' _ hc'
    refine ⟨rfl, fun c hc => ?_⟩
    rw [hc'] at hc
    rw [Option.some.inj hc]
  · intro a c _ hc hnone
    rw [hc] at hnone
    cases hnone

/-- The sessions closed second were there from the start. -/
theorem Settles.trans (hs : Reserved f K s) (h : Settles f s s' closed) (h' : Settles f s' s'' closed')
    (hthere : ∀ a ∈ closed', (s.mem a).isSome) : Settles f s s'' (closed ++ closed') := by
  have hapart : ∀ a ∈ closed, a ∉ closed' := by
    intro a ha ha'
    rcases h'.opened a ha' with ⟨c, hc, hopen⟩
    exact hopen ((h.closing a ha).2 c hc)
  -- what is allocated at the end was so in between
  have hbetween : ∀ a c c'', s.mem a = some c → s''.mem a = some c'' → ∃ c', s'.mem a = some c' := by
    intro a c c'' hc hc''
    apply Option.ne_none_iff_exists'.mp
    intro hnone
    rw [h'.gone a (Nat.lt_of_lt_of_le (hs.lt_next hc) h.next) hnone] at hc''
    cases hc''
  constructor
  · exact Nat.le_trans h.next h'.next
  · exact fun a ha hnone => h'.gone a (Nat.lt_of_lt_of_le ha h.next) (h.gone a ha hnone)
  · rw [List.nodup_append]
    refine ⟨h.nodup, h'.nodup, ?_⟩
    rintro a ha _ hb rfl
    exact hapart a ha hb
  · intro a ha
    rcases List.mem_append.mp ha with ha | ha
    · exact h.opened a ha
    · rcases h'.opened a ha with ⟨c', hc', hopen⟩
      rcases Option.isSome_iff_exists.mp (hthere a ha) with ⟨c, hc⟩
      have hstays := (h.staying a c' (fun hin => hapart a hin ha) hc').2 c hc
      exact ⟨c, hc, hstays ▸ hopen⟩
  · rcases h.released with ⟨rs, hrs, hfreed⟩
    rcases h'.released with ⟨rs', hrs', hfreed'⟩
    refine ⟨rs ++ rs', ?_, ?_⟩
    · rw [hrs', hrs, List.append_assoc]
    · rw [freedBy_append, hfreed, hfreed', List.flatMap_append]
      congr 1
      apply List.flatMap_congr
      intro a ha
      rcases h'.opened a ha with ⟨c', hc', -⟩
      rw [(h.staying a c' (fun hin => hapart a hin ha) hc').1]
  · intro a ha
    rcases List.mem_append.mp ha with ha | ha
    · have hclosed := h.closing a ha
      rcases h.opened a ha with ⟨c, hc, -⟩
      cases hc'' : s''.mem a with
      | none => exact ⟨marked_of_none hc'', fun c' hc' => by cases hc'⟩
      | some c'' =>
          rcases hbetween a c c'' hc hc'' with ⟨c', hc'⟩
          have hstays := h'.staying a c'' (hapart a ha) hc''
          refine ⟨hstays.1.trans hclosed.1, ?_⟩
          rintro _ ⟨⟩
          rw [hstays.2 c' hc', hclosed.2 c' hc']
    · exact h'.closing a ha
  · intro a c'' ha hc''
    rw [List.mem_append, not_or] at ha
    have hstays' := h'.staying a c'' ha.2 hc''
    cases hc : s.mem a with
    | some c =>
        rcases hbetween a c c'' hc hc'' with ⟨c', hc'⟩
        have hstays := h.staying a c' ha.1 hc'
        refine ⟨hstays'.1.trans hstays.1, ?_⟩
        rintro _ ⟨⟩
        rw [hstays'.2 c' hc', hstays.2 c hc]
    | none =>
        refine ⟨?_, fun c hc => by cases hc⟩
        rw [hstays'.1]
        cases hc' : s'.mem a with
        | none => rw [marked_of_none hc', marked_of_none hc]
        | some c' => exact (h.staying a c' ha.1 hc').1
  · intro a c ha hc hnone
    rw [List.mem_append, not_or] at ha
    cases hc' : s'.mem a with
    | none => exact h.leaving a c ha.1 hc hc'
    | some c' =>
        rw [← (h.staying a c' ha.1 hc').2 c hc]
        exact h'.leaving a c' ha.2 hc' hnone

/-- Nothing was allocated between. -/
theorem Settles.there (h : Settles f s s' closed) (hs' : Reserved f K s') (hnext : s'.next = s.next)
    (h' : Settles f s' s'' closed') : ∀ a ∈ closed', (s.mem a).isSome := by
  intro a ha
  rcases h'.opened a ha with ⟨c', hc', -⟩
  have hlt := hs'.lt_next hc'
  cases hc : s.mem a with
  | some c => rfl
  | none =>
      rw [h.gone a (hnext ▸ hlt) hc] at hc'
      cases hc'

/-! ## Writing a context -/

theorem Settles.put (hc : s.mem client = some c) (huuid : c'.uuid = c.uuid)
    (hmarked : c'.marked f = c.marked f) (hmem : s'.mem = Function.update s.mem client (some c'))
    (hnext : s'.next = s.next) {rs : List Release} (hreleased : s'.released = s.released ++ rs)
    (hrs : ∀ r ∈ rs, r.freeValue ≠ f) : Settles f s s' [] := by
  constructor
  · exact Nat.le_of_eq hnext.symm
  · intro a _ hnone
    have hne : a ≠ client := by
      rintro rfl
      rw [hc] at hnone
      cases hnone
    rw [hmem, Function.update_of_ne hne, hnone]
  · exact List.nodup_nil
  · exact fun a ha => absurd ha List.not_mem_nil
  · exact ⟨rs, hreleased, freedBy_nil_of hrs⟩
  · exact fun a ha => absurd ha List.not_mem_nil
  · intro a c'' _ hc''
    by_cases hsame : a = client
    · subst hsame
      rw [hmem, Function.update_self] at hc''
      cases hc''
      have hmem' : s'.mem a = some c' := by rw [hmem, Function.update_self]
      rw [marked_of_mem hmem', marked_of_mem hc, hmarked]
      refine ⟨rfl, ?_⟩
      intro old hold
      rw [hc] at hold
      cases hold
      exact huuid
    · have hother : s'.mem a = s.mem a := by rw [hmem, Function.update_of_ne hsame]
      rw [Store.marked, Store.marked, hother]
      refine ⟨rfl, ?_⟩
      intro old hold
      rw [hother, hold] at hc''
      cases hc''
      rfl
  · intro a old _ hold hnone
    by_cases hsame : a = client
    · rw [hmem, hsame, Function.update_self] at hnone
      cases hnone
    · rw [hmem, Function.update_of_ne hsame, hold] at hnone
      cases hnone

theorem Reserved.put (h : Reserved f K s) (hc : s.mem client = some c)
    (hkeys : (c'.cookies.map Cookie.key).Nodup)
    (hvalues : ∀ entry ∈ c'.values, entry.freeValue ≠ some f)
    (hown : ∀ cookie ∈ c'.cookies, K cookie.key → cookie.freeValue = some f)
    (hmem : s'.mem = Function.update s.mem client (some c')) (hnext : s'.next = s.next) :
    Reserved f K s' := by
  constructor
  · intro a ha
    rw [hnext] at ha
    have hlt := h.lt_next hc
    rw [hmem, Function.update_of_ne (by omega)]
    exact h.unallocated a ha
  · intro a old hold
    by_cases hsame : a = client
    · rw [hmem, hsame, Function.update_self] at hold
      cases hold
      exact hkeys
    · rw [hmem, Function.update_of_ne hsame] at hold
      exact h.keys a old hold
  · intro a old hold
    by_cases hsame : a = client
    · rw [hmem, hsame, Function.update_self] at hold
      cases hold
      exact hvalues
    · rw [hmem, Function.update_of_ne hsame] at hold
      exact h.values a old hold
  · intro a old hold
    by_cases hsame : a = client
    · rw [hmem, hsame, Function.update_self] at hold
      cases hold
      exact hown
    · rw [hmem, Function.update_of_ne hsame] at hold
      exact h.own a old hold

theorem Reserved.free (h : Reserved f K s) (hmem : s'.mem = Function.update s.mem client none)
    (hnext : s'.next = s.next) : Reserved f K s' := by
  have hsub : ∀ a old, s'.mem a = some old → s.mem a = some old := by
    intro a old hold
    rw [hmem, Function.update_apply] at hold
    split at hold
    · cases hold
    · exact hold
  constructor
  · intro a ha
    rw [hnext] at ha
    rw [hmem, Function.update_apply]
    split
    · rfl
    · exact h.unallocated a ha
  · exact fun a old hold => h.keys a old (hsub a old hold)
  · exact fun a old hold => h.values a old (hsub a old hold)
  · exact fun a old hold => h.own a old (hsub a old hold)

/-! ## Closing -/

theorem clearValues_releases {indices : List Nat} {c : ClientCtx}
    (hvalues : ∀ entry ∈ c.values, entry.freeValue ≠ some f) :
    (∀ r ∈ (clearValues indices c).2, r.freeValue ≠ f) ∧
      ∀ entry ∈ (clearValues indices c).1.values, entry.freeValue ≠ some f := by
  induction indices generalizing c with
  | nil => exact ⟨fun r hr => absurd hr List.not_mem_nil, hvalues⟩
  | cons index rest ih =>
      have hset : (∀ r ∈ (ctxClientValueSet index none none c).2, r.freeValue ≠ f) ∧
          ∀ entry ∈ (ctxClientValueSet index none none c).1.values, entry.freeValue ≠ some f := by
        cases hprev : c.values[index]? with
        | none =>
            simp only [ctxClientValueSet, hprev]
            exact ⟨fun r hr => absurd hr List.not_mem_nil, hvalues⟩
        | some prev =>
            simp only [ctxClientValueSet, hprev]
            have hnot := hvalues prev (List.mem_of_getElem? hprev)
            constructor
            · intro r hr
              unfold supersede at hr
              split at hr
              · rename_i v g hv hg
                split at hr
                · rw [List.mem_singleton] at hr
                  subst hr
                  exact fun hsame => hnot (hsame ▸ hg)
                · exact absurd hr List.not_mem_nil
              · exact absurd hr List.not_mem_nil
            · intro entry hentry
              rcases List.mem_or_eq_of_mem_set hentry with hentry | rfl
              · exact hvalues entry hentry
              · exact fun h => by cases h
      have hrest := ih hset.2
      rw [clearValues]
      refine ⟨?_, hrest.2⟩
      intro r hr
      rcases List.mem_append.mp hr with hr | hr
      · exact hset.1 r hr
      · exact hrest.1 r hr

theorem freedBy_cookies (cookies : List Cookie) :
    freedBy f (cookies.flatMap Cookie.release) =
      (cookies.filter fun cookie => cookie.freeValue = some f).flatMap Cookie.release := by
  induction cookies with
  | nil => rfl
  | cons cookie rest ih =>
      rw [List.flatMap_cons, freedBy_append, ih]
      by_cases hmark : cookie.freeValue = some f
      · rw [List.filter_cons_of_pos (by simpa using hmark), List.flatMap_cons]
        congr 1
        rw [Cookie.release, hmark]
        cases cookie.value with
        | none => rfl
        | some v => simp [freedBy]
      · rw [List.filter_cons_of_neg (by simpa using hmark)]
        have hnone : freedBy f cookie.release = [] := by
          apply freedBy_nil_of
          intro r hr
          unfold Cookie.release at hr
          split at hr
          · rename_i v g hv hg
            rw [List.mem_singleton] at hr
            subst hr
            exact fun hsame => hmark (hsame ▸ hg)
          · exact absurd hr List.not_mem_nil
        rw [hnone, List.nil_append]

theorem closedCtx_plain (apicount : Nat) (hvalues : ∀ entry ∈ c.values, entry.freeValue ≠ some f) :
    (closedCtx apicount c).cookies = [] ∧
      ∀ entry ∈ (closedCtx apicount c).values, entry.freeValue ≠ some f := by
  rcases closedCtx_frame apicount c with ⟨values, hframe⟩
  constructor
  · rw [hframe]
  · have hclear := (@clearValues_releases f (List.range apicount) { c with uuid := [] } hvalues).2
    exact hclear

/-- What a closing releases of `f`. -/
theorem freedBy_free (apicount : Nat) (hvalues : ∀ entry ∈ c.values, entry.freeValue ≠ some f) :
    freedBy f (ctxUuidFreeCB apicount { c with uuid := [] }).2 =
      (c.marked f).flatMap Cookie.release := by
  rcases clearValues_frame (List.range apicount) { c with uuid := [] } with ⟨values, hframe⟩
  have hclear := (@clearValues_releases f (List.range apicount) { c with uuid := [] } hvalues).1
  simp only [ctxUuidFreeCB]
  rw [freedBy_append, freedBy_nil_of hclear, List.nil_append, hframe, freedBy_cookies]
  rfl

theorem settles_close (h : Reserved f K s) (client : Nat) :
    Reserved f K (ctxClientClose client s) ∧ ∃ closed, Settles f s (ctxClientClose client s) closed := by
  cases hc : s.mem client with
  | none =>
      have hsame : ctxClientClose client s = s := by simp [ctxClientClose, hc]
      rw [hsame]
      exact ⟨h, [], Settles.refl f s⟩
  | some c =>
      by_cases hopen : c.uuid = []
      · rw [ctxClientClose_closed hc hopen]
        exact ⟨h, [], Settles.refl f s⟩
      · have hplain := closedCtx_plain s.apicount (h.values client c hc)
        have hmem := ctxClientClose_mem hc hopen
        have hnext := ctxClientClose_next s client
        have hlog : (ctxClientClose client s).released =
            s.released ++ (ctxUuidFreeCB s.apicount { c with uuid := [] }).2 := by
          simp only [ctxClientClose, hc, hopen, if_false]
          split
          · unfold ctxDelete ctxStoreDel
            split <;> rfl
          · rfl
        constructor
        · by_cases hlast : c.refcount = 0
          · rw [if_pos hlast] at hmem
            exact h.free hmem hnext
          · rw [if_neg hlast] at hmem
            apply h.put hc _ hplain.2 _ hmem hnext
            · rw [hplain.1]
              exact List.nodup_nil
            · rw [hplain.1]
              exact fun cookie hcookie => absurd hcookie List.not_mem_nil
        · refine ⟨[client], ?_⟩
          have hother : ∀ a, a ≠ client → (ctxClientClose client s).mem a = s.mem a := by
            intro a hne
            rw [hmem, Function.update_of_ne hne]
          constructor
          · exact Nat.le_of_eq hnext.symm
          · intro a _ hnone
            have hne : a ≠ client := by
              rintro rfl
              rw [hc] at hnone
              cases hnone
            rw [hother a hne, hnone]
          · exact List.nodup_cons.mpr ⟨List.not_mem_nil, List.nodup_nil⟩
          · intro a ha
            rw [List.mem_singleton] at ha
            subst ha
            exact ⟨c, hc, hopen⟩
          · refine ⟨_, hlog, ?_⟩
            rw [freedBy_free s.apicount (h.values client c hc), List.flatMap_singleton,
              marked_of_mem hc]
          · intro a ha
            rw [List.mem_singleton] at ha
            subst ha
            cases hleft : (ctxClientClose a s).mem a with
            | none => exact ⟨marked_of_none hleft, fun c' hc' => by cases hc'⟩
            | some left =>
                rw [hmem, Function.update_self] at hleft
                split at hleft
                · cases hleft
                · have hsame := Option.some.inj hleft
                  constructor
                  · rw [Store.marked, hmem, Function.update_self, if_neg (by assumption)]
                    show (closedCtx s.apicount c).marked f = []
                    rw [ClientCtx.marked, hplain.1]
                    rfl
                  · rintro _ ⟨⟩
                    rw [← hsame, closedCtx_uuid]
          · intro a c' ha hc'
            rw [List.mem_singleton] at ha
            rw [hother a ha] at hc'
            rw [Store.marked, Store.marked, hother a ha]
            refine ⟨rfl, ?_⟩
            intro old hold
            rw [hc'] at hold
            rw [Option.some.inj hold]
          · intro a old ha hold hnone
            rw [List.mem_singleton] at ha
            rw [hother a ha, hold] at hnone
            cases hnone

/-- The clean-up closes sessions one after the other. -/
theorem settles_cleanUp (h : Reserved f K s) (now : Int) (indices : List Nat) :
    Reserved f K (indices.foldl (cleanUpSlot now) s) ∧
      ∃ closed, Settles f s (indices.foldl (cleanUpSlot now) s) closed := by
  induction indices generalizing s with
  | nil => exact ⟨h, [], Settles.refl f s⟩
  | cons idx rest ih =>
      have hslot : Reserved f K (cleanUpSlot now s idx) ∧
          ∃ closed, Settles f s (cleanUpSlot now s idx) closed := by
        unfold cleanUpSlot
        split
        · split
          · split
            · rename_i client _ _ _ _ _
              exact settles_close h client
            · exact ⟨h, [], Settles.refl f s⟩
          · exact ⟨h, [], Settles.refl f s⟩
        · exact ⟨h, [], Settles.refl f s⟩
      rcases hslot with ⟨hreserved, closed, hsettles⟩
      rcases ih hreserved with ⟨hreserved', closed', hsettles'⟩
      have hnext := (sameConfig_cleanUpSlot s now idx).2
      exact ⟨hreserved', closed ++ closed',
        hsettles.trans h hsettles' (hsettles.there hreserved hnext hsettles')⟩

/-! ## The operations -/

theorem freshCtx_plain (generated : Bytes) (uuid : Option Bytes) (timeout now : Int) (s : Store) :
    (freshCtx generated uuid timeout now s).cookies = [] ∧
      ∀ entry ∈ (freshCtx generated uuid timeout now s).values, entry.freeValue ≠ some f := by
  refine ⟨rfl, ?_⟩
  intro entry hentry
  rw [List.eq_of_mem_replicate hentry]
  exact fun h => by cases h

/-- A new session has no cookie. -/
theorem settles_newContext (h : Reserved f K s) (allocated : Bool) (generated : Bytes)
    (uuid : Option Bytes) (timeout now : Int) :
    Reserved f K (newContext allocated generated uuid timeout now s).2 ∧
      Settles f s (newContext allocated generated uuid timeout now s).2 [] := by
  rcases newContext_cases allocated generated uuid timeout now s with ⟨e, he⟩ | ⟨slots, -, -, hok⟩
  · rw [he]
    exact ⟨h, Settles.refl f s⟩
  · rw [hok]
    have hplain := freshCtx_plain (f := f) generated uuid timeout now s
    have hnew := h.unallocated s.next (Nat.le_refl _)
    have hold : ∀ a c', Function.update s.mem s.next
        (some (freshCtx generated uuid timeout now s)) a = some c' →
        s.mem a = some c' ∨ a = s.next ∧ c' = freshCtx generated uuid timeout now s := by
      intro a c' hc'
      rw [Function.update_apply] at hc'
      split at hc'
      · exact .inr ⟨by assumption, (Option.some.inj hc').symm⟩
      · exact .inl hc'
    constructor
    · constructor
      · intro a ha
        have hle : s.next + 1 ≤ a := ha
        rw [put_mem, Function.update_of_ne (by omega)]
        exact h.unallocated a (by omega)
      · intro a c' hc'
        rcases hold a c' hc' with hc' | ⟨-, rfl⟩
        · exact h.keys a c' hc'
        · rw [hplain.1]
          exact List.nodup_nil
      · intro a c' hc'
        rcases hold a c' hc' with hc' | ⟨-, rfl⟩
        · exact h.values a c' hc'
        · exact hplain.2
      · intro a c' hc'
        rcases hold a c' hc' with hc' | ⟨-, rfl⟩
        · exact h.own a c' hc'
        · rw [hplain.1]
          exact fun cookie hcookie => absurd hcookie List.not_mem_nil
    · constructor
      · exact Nat.le_succ _
      · intro a ha hnone
        rw [put_mem, Function.update_of_ne (by omega), hnone]
      · exact List.nodup_nil
      · exact fun a ha => absurd ha List.not_mem_nil
      · exact ⟨[], (List.append_nil _).symm, rfl⟩
      · exact fun a ha => absurd ha List.not_mem_nil
      · intro a c' _ hc'
        by_cases hsame : a = s.next
        · subst hsame
          have hempty : (freshCtx generated uuid timeout now s).marked f = [] := by
            rw [ClientCtx.marked, hplain.1]
            rfl
          constructor
          · rw [marked_of_none hnew, Store.marked, put_mem, Function.update_self]
            exact hempty
          · intro c hc
            rw [hnew] at hc
            cases hc
        · have hother : Function.update s.mem s.next
              (some (freshCtx generated uuid timeout now s)) a = s.mem a :=
            Function.update_of_ne hsame ..
          rw [put_mem, hother] at hc'
          rw [Store.marked, Store.marked, put_mem, hother]
          refine ⟨rfl, ?_⟩
          intro c hc
          rw [hc'] at hc
          rw [Option.some.inj hc]
      · intro a c _ hc hnone
        have hlt := h.lt_next hc
        rw [put_mem, Function.update_of_ne (by omega), hc] at hnone
        cases hnone

/-- A context is rewritten with its uuid, its values and its cookies. -/
theorem settles_rewrite (h : Reserved f K s) (hc : s.mem client = some c) (c' : ClientCtx) (huuid : c'.uuid = c.uuid)
    (hcookies : c'.cookies = c.cookies) (hvalues : c'.values = c.values) :
    Reserved f K (s.put client c') ∧ Settles f s (s.put client c') [] := by
  constructor
  · apply h.put hc _ _ _ (put_mem ..) rfl
    · rw [hcookies]
      exact h.keys client c hc
    · rw [hvalues]
      exact h.values client c hc
    · rw [hcookies]
      exact h.own client c hc
  · exact Settles.put hc huuid (by rw [ClientCtx.marked, ClientCtx.marked, hcookies]) (put_mem ..) rfl
      (List.append_nil _).symm fun r hr => absurd hr List.not_mem_nil

/-- The reference on a closed session that is the last one frees it. -/
theorem settles_unref (h : Reserved f K s) (client : Nat) :
    Reserved f K (ctxClientUnref client s) ∧ Settles f s (ctxClientUnref client s) [] := by
  cases hc : s.mem client with
  | none =>
      have hsame : ctxClientUnref client s = s := by simp [ctxClientUnref, hc]
      rw [hsame]
      exact ⟨h, Settles.refl f s⟩
  | some c =>
      have hput := settles_rewrite h hc { c with refcount := c.refcount - 1 } rfl rfl rfl
      by_cases hlast : c.refcount - 1 = 0 ∧ c.uuid = []
      · rw [ctxClientUnref_last hc hlast]
        have hmem := ctxDelete_mem (s.put client { c with refcount := c.refcount - 1 }) client
        have hnext := ctxDelete_next (s.put client { c with refcount := c.refcount - 1 }) client
        have hlog : (ctxDelete client (s.put client { c with refcount := c.refcount - 1 })).released =
            s.released := by
          unfold ctxDelete ctxStoreDel
          split <;> rfl
        rw [put_mem, Function.update_idem] at hmem
        refine ⟨h.free hmem hnext, ?_⟩
        have hother : ∀ a, a ≠ client →
            (ctxDelete client (s.put client { c with refcount := c.refcount - 1 })).mem a = s.mem a := by
          intro a hne
          rw [hmem, Function.update_of_ne hne]
        have hnone : (ctxDelete client (s.put client { c with refcount := c.refcount - 1 })).mem client =
            none := by
          rw [hmem, Function.update_self]
        constructor
        · exact Nat.le_of_eq hnext.symm
        · intro a _ hgone
          by_cases hsame : a = client
          · rw [hsame, hnone]
          · rw [hother a hsame, hgone]
        · exact List.nodup_nil
        · exact fun a ha => absurd ha List.not_mem_nil
        · exact ⟨[], by rw [hlog, List.append_nil], rfl⟩
        · exact fun a ha => absurd ha List.not_mem_nil
        · intro a c' _ hc'
          by_cases hsame : a = client
          · rw [hsame, hnone] at hc'
            cases hc'
          · rw [Store.marked, Store.marked, hother a hsame]
            refine ⟨rfl, ?_⟩
            intro old hold
            rw [hother a hsame, hold] at hc'
            rw [Option.some.inj hc']
        · intro a old _ hold hgone
          by_cases hsame : a = client
          · subst hsame
            rw [hc] at hold
            rw [← Option.some.inj hold]
            exact hlast.2
          · rw [hother a hsame, hold] at hgone
            cases hgone
      · rw [ctxClientUnref_kept hc hlast]
        exact hput

theorem modify_next (s : Store) (client : Nat) (g : ClientCtx → ClientCtx × List Release) :
    (s.modify client g).next = s.next := by
  unfold Store.modify
  split <;> rfl

theorem settles_modify (h : Reserved f K s) (client : Nat) {g : ClientCtx → ClientCtx × List Release}
    (huuid : ∀ c, s.mem client = some c → (g c).1.uuid = c.uuid)
    (hmarked : ∀ c, s.mem client = some c → (g c).1.marked f = c.marked f)
    (hkeys : ∀ c, s.mem client = some c → ((g c).1.cookies.map Cookie.key).Nodup)
    (hvalues : ∀ c, s.mem client = some c → ∀ entry ∈ (g c).1.values, entry.freeValue ≠ some f)
    (hown : ∀ c, s.mem client = some c →
      ∀ cookie ∈ (g c).1.cookies, K cookie.key → cookie.freeValue = some f)
    (hreleases : ∀ c, s.mem client = some c → ∀ r ∈ (g c).2, r.freeValue ≠ f) :
    Reserved f K (s.modify client g) ∧ Settles f s (s.modify client g) [] := by
  cases hc : s.mem client with
  | none =>
      have hsame : s.modify client g = s := by simp [Store.modify, hc]
      rw [hsame]
      exact ⟨h, Settles.refl f s⟩
  | some c =>
      have hwritten : s.modify client g =
          { s.put client (g c).1 with released := s.released ++ (g c).2 } := by
        simp [Store.modify, hc]
      rw [hwritten]
      constructor
      · exact h.put hc (hkeys c hc) (hvalues c hc) (hown c hc) (put_mem ..) rfl
      · exact Settles.put hc (huuid c hc) (hmarked c hc) (put_mem ..) rfl rfl (hreleases c hc)

/-- A change that is not about the values and the cookies. -/
theorem settles_tune (h : Reserved f K s) (client : Nat) {g : ClientCtx → ClientCtx}
    (hsame : ∀ c, (g c).uuid = c.uuid ∧ (g c).cookies = c.cookies ∧ (g c).values = c.values) :
    Reserved f K (s.modify client fun c => (g c, [])) ∧
      Settles f s (s.modify client fun c => (g c, [])) [] := by
  apply settles_modify h client
  · exact fun c _ => (hsame c).1
  · intro c _
    show ClientCtx.marked f (g c) = _
    rw [ClientCtx.marked, (hsame c).2.1]
    rfl
  · intro c hc
    show ((g c).cookies.map Cookie.key).Nodup
    rw [(hsame c).2.1]
    exact h.keys client c hc
  · intro c hc
    show ∀ entry ∈ (g c).values, _
    rw [(hsame c).2.2]
    exact h.values client c hc
  · intro c hc
    show ∀ cookie ∈ (g c).cookies, _
    rw [(hsame c).2.1]
    exact h.own client c hc
  · exact fun c _ r hr => absurd hr List.not_mem_nil

theorem supersede_plain {prev freeValue value : Option Nat} (h : freeValue ≠ some f) :
    ∀ r ∈ supersede prev freeValue value, r.freeValue ≠ f := by
  intro r hr
  unfold supersede at hr
  split at hr
  · rename_i v g
    split at hr
    · rw [List.mem_singleton] at hr
      subst hr
      exact fun hsame => h (congrArg some hsame)
    · exact absurd hr List.not_mem_nil
  · exact absurd hr List.not_mem_nil

/-- The cookies after `ctxClientCookieSet`, which replaces one or adds one. -/
theorem cookieSet_cases (allocated : Bool) (key : Nat) (value freeValue : Option Nat)
    (c : ClientCtx) :
    (∃ front cookie back, c.cookies = front ++ cookie :: back ∧ cookie.key = key ∧
      ctxClientCookieSet allocated key value freeValue c =
        ({ c with cookies := front ++ ⟨key, value, freeValue⟩ :: back },
          supersede cookie.value cookie.freeValue value)) ∨
    key ∉ c.cookies.map Cookie.key ∧
      ctxClientCookieSet allocated key value freeValue c =
        (if allocated then ({ c with cookies := ⟨key, value, freeValue⟩ :: c.cookies }, [])
          else (c, [])) := by
  cases hreplace : cookieReplace key value freeValue c.cookies with
  | some replaced =>
      have hreplace' : cookieReplace key value freeValue c.cookies = some (replaced.1, replaced.2) :=
        hreplace
      rcases cookieReplace_some hreplace' with
        ⟨front, cookie, back, hcookies, hfind, hreplaced, -, -, hreleased⟩
      refine .inl ⟨front, cookie, back, hcookies, ?_, ?_⟩
      · simpa using List.find?_some hfind
      · rw [ctxClientCookieSet, hreplace, ← hreplaced, ← hreleased]
  | none =>
      refine .inr ⟨?_, ?_⟩
      · intro hin
        rcases List.mem_map.mp hin with ⟨cookie, hcookie, hkey⟩
        have hnone := List.find?_eq_none.mp (cookieReplace_none.mp hreplace) cookie hcookie
        simp [hkey] at hnone
      · rw [ctxClientCookieSet, hreplace]

/-- The rest of the binder, which has its own free functions and its own keys. -/
def Foreign (f : Nat) (K : Nat → Prop) (s : Store) : Action → Prop
  | .valueSet _ _ _ freeValue => freeValue ≠ some f
  | .cookieSet client _ key _ freeValue =>
      freeValue ≠ some f ∧ ¬ K key ∧ ∀ cookie ∈ s.marked f client, cookie.key ≠ key
  | _ => True

/-- A cookie of another owner is set. -/
theorem settles_cookieSet (h : Reserved f K s) (client : Nat) (allocated : Bool) {key : Nat} {freeValue : Option Nat}
    (value : Option Nat) (hfree : freeValue ≠ some f) (hforeign : ¬ K key)
    (hkey : ∀ cookie ∈ s.marked f client, cookie.key ≠ key) :
    Reserved f K (s.modify client (ctxClientCookieSet allocated key value freeValue)) ∧
      Settles f s (s.modify client (ctxClientCookieSet allocated key value freeValue)) [] := by
  have hunmarked : ∀ c, s.mem client = some c → ∀ cookie ∈ c.cookies, cookie.key = key →
      cookie.freeValue ≠ some f := by
    intro c hc cookie hcookie hsame hmark
    apply hkey cookie _ hsame
    rw [marked_of_mem hc, ClientCtx.marked, List.mem_filter]
    exact ⟨hcookie, by simpa using hmark⟩
  apply settles_modify h client
  · intro c _
    exact (ctxClientCookieSet_frame allocated key value freeValue c).1
  · intro c hc
    rcases cookieSet_cases allocated key value freeValue c with
      ⟨front, cookie, back, hcookies, hsame, hset⟩ | ⟨-, hset⟩
    · have hmark := hunmarked c hc cookie (hcookies ▸ by simp) hsame
      rw [hset, ClientCtx.marked, ClientCtx.marked, hcookies, List.filter_append, List.filter_append,
        List.filter_cons_of_neg (by simpa using hfree), List.filter_cons_of_neg (by simpa using hmark)]
    · rw [hset]
      split
      · rw [ClientCtx.marked, List.filter_cons_of_neg (by simpa using hfree)]
        rfl
      · rfl
  · intro c hc
    have hold := h.keys client c hc
    rcases cookieSet_cases allocated key value freeValue c with
      ⟨front, cookie, back, hcookies, hsame, hset⟩ | ⟨hnew, hset⟩
    · rw [hcookies, List.map_append, List.map_cons, hsame] at hold
      rw [hset, List.map_append, List.map_cons]
      exact hold
    · rw [hset]
      split
      · exact List.nodup_cons.mpr ⟨hnew, hold⟩
      · exact hold
  · intro c hc
    have hsame : (ctxClientCookieSet allocated key value freeValue c).1.values = c.values := by
      rcases cookieSet_cases allocated key value freeValue c with ⟨_, _, _, _, _, hset⟩ | ⟨-, hset⟩
      · rw [hset]
      · rw [hset]
        split <;> rfl
    rw [hsame]
    exact h.values client c hc
  · intro c hc cookie hcookie hreserved
    rcases cookieSet_cases allocated key value freeValue c with
      ⟨front, old, back, hcookies, hsame, hset⟩ | ⟨hnew, hset⟩
    · have hown := h.own client c hc cookie
      rw [hset] at hcookie
      rcases List.mem_append.mp hcookie with hcookie | hcookie
      · exact hown (hcookies ▸ List.mem_append_left _ hcookie) hreserved
      · rcases List.mem_cons.mp hcookie with rfl | hcookie
        · exact absurd hreserved hforeign
        · exact hown (hcookies ▸ List.mem_append_right _ (List.mem_cons_of_mem _ hcookie)) hreserved
    · rw [hset] at hcookie
      split at hcookie
      · rcases List.mem_cons.mp hcookie with rfl | hcookie
        · exact absurd hreserved hforeign
        · exact h.own client c hc cookie hcookie hreserved
      · exact h.own client c hc cookie hcookie hreserved
  · intro c hc
    rcases cookieSet_cases allocated key value freeValue c with
      ⟨front, cookie, back, hcookies, hsame, hset⟩ | ⟨-, hset⟩
    · rw [hset]
      exact supersede_plain (hunmarked c hc cookie (hcookies ▸ by simp) hsame)
    · rw [hset]
      split
      · exact fun r hr => absurd hr List.not_mem_nil
      · exact fun r hr => absurd hr List.not_mem_nil

theorem modify_cookieNew (hc : s.mem client = some c) {key : Nat}
    (hnew : key ∉ c.cookies.map Cookie.key) (value freeValue : Option Nat) :
    s.modify client (ctxClientCookieSet true key value freeValue) =
      s.put client { c with cookies := ⟨key, value, freeValue⟩ :: c.cookies } := by
  rcases cookieSet_cases true key value freeValue c with ⟨front, cookie, back, hcookies, hsame, -⟩ | ⟨-, hset⟩
  · refine absurd ?_ hnew
    rw [hcookies, ← hsame]
    exact List.mem_map_of_mem (List.mem_append_right _ List.mem_cons_self)
  · have hput : s.modify client (ctxClientCookieSet true key value freeValue) =
        { s.put client { c with cookies := ⟨key, value, freeValue⟩ :: c.cookies } with
          released := s.released ++ [] } := by
      simp only [Store.modify, hc, hset, if_true]
    rw [hput, List.append_nil]
    rfl

/-- The key of a cookie that the owner adds may be reserved from then on. -/
theorem Reserved.cookieNew {K' : Nat → Prop} (h : Reserved f K s) (hc : s.mem client = some c)
    {key : Nat} (hnew : key ∉ c.cookies.map Cookie.key) (value : Option Nat)
    (hown : ∀ a c, s.mem a = some c → ∀ cookie ∈ c.cookies, K' cookie.key → cookie.freeValue = some f) :
    Reserved f K' (s.put client { c with cookies := ⟨key, value, some f⟩ :: c.cookies }) := by
  have hnarrow : Reserved f K' s := ⟨h.unallocated, h.keys, h.values, hown⟩
  apply hnarrow.put hc _ _ _ (put_mem ..) rfl
  · exact List.nodup_cons.mpr ⟨hnew, h.keys client c hc⟩
  · exact h.values client c hc
  · intro cookie hcookie hkey
    rcases List.mem_cons.mp hcookie with rfl | hcookie
    · rfl
    · exact hown client c hc cookie hcookie hkey

theorem marked_cookieNew (hc : s.mem client = some c) (key : Nat) (value : Option Nat) (a : Nat) :
    (s.put client { c with cookies := ⟨key, value, some f⟩ :: c.cookies }).marked f a =
      if a = client then ⟨key, value, some f⟩ :: s.marked f a else s.marked f a := by
  by_cases hsame : a = client
  · subst hsame
    rw [if_pos rfl, Store.marked, put_mem, Function.update_self, marked_of_mem hc]
    have hpos : decide ((⟨key, value, some f⟩ : Cookie).freeValue = some f) = true := by simp
    exact List.filter_cons_of_pos (p := fun cookie : Cookie => decide (cookie.freeValue = some f)) hpos
  · rw [if_neg hsame, Store.marked, put_mem, Function.update_of_ne hsame, Store.marked]

theorem settles_valueSet (h : Reserved f K s) (client index : Nat) {freeValue : Option Nat}
    (value : Option Nat) (hfree : freeValue ≠ some f) :
    Reserved f K (s.modify client (ctxClientValueSet index value freeValue)) ∧
      Settles f s (s.modify client (ctxClientValueSet index value freeValue)) [] := by
  apply settles_modify h client
  · exact fun c _ => (ctxClientValueSet_frame index value freeValue c).1
  · intro c _
    unfold ctxClientValueSet
    split <;> rfl
  · intro c hc
    unfold ctxClientValueSet
    split
    · exact h.keys client c hc
    · exact h.keys client c hc
  · intro c hc entry hentry
    unfold ctxClientValueSet at hentry
    split at hentry
    · rcases List.mem_or_eq_of_mem_set hentry with hentry | rfl
      · exact h.values client c hc entry hentry
      · exact hfree
    · exact h.values client c hc entry hentry
  · intro c hc
    unfold ctxClientValueSet
    split
    · exact h.own client c hc
    · exact h.own client c hc
  · intro c hc r hr
    unfold ctxClientValueSet at hr
    split at hr
    · rename_i prev hprev
      exact supersede_plain (h.values client c hc prev (List.mem_of_getElem? hprev)) r hr
    · exact absurd hr List.not_mem_nil

/-- A search, or a creation, after the clean-up. -/
theorem settles_getSession (h : Reserved f K s) (allocated : Bool) (generated : Bytes)
    (uuid : Option Bytes) (now : Int) :
    Reserved f K (ctxClientGetSession allocated generated uuid now s).2.2 ∧
      ∃ closed, Settles f s (ctxClientGetSession allocated generated uuid now s).2.2 closed := by
  rcases settles_cleanUp h now (List.range s.slots.length) with ⟨hclean, closed, hsettles⟩
  have hlast : ∀ s', Reserved f K s' ∧ Settles f (ctxStoreCleanUp now s) s' [] →
      Reserved f K s' ∧ ∃ closed, Settles f s s' closed := fun s' hs' =>
    ⟨hs'.1, closed ++ [], hsettles.trans h hs'.2 fun a ha => absurd ha List.not_mem_nil⟩
  unfold ctxClientGetSession
  dsimp only
  split
  · split
    · rename_i c hc
      exact hlast _ (settles_rewrite hclean hc _ rfl rfl rfl)
    · exact hlast _ ⟨hclean, Settles.refl ..⟩
  · exact hlast _ (settles_newContext hclean ..)

theorem settles_create (h : Reserved f K s) (allocated : Bool) (generated : Bytes)
    (uuid : Option Bytes) (timeout now : Int) :
    Reserved f K (ctxClientCreate allocated generated uuid timeout now s).2 ∧
      ∃ closed, Settles f s (ctxClientCreate allocated generated uuid timeout now s).2 closed := by
  rcases settles_cleanUp h now (List.range s.slots.length) with ⟨hclean, closed, hsettles⟩
  have hlast : ∀ s', Reserved f K s' ∧ Settles f (ctxStoreCleanUp now s) s' [] →
      Reserved f K s' ∧ ∃ closed, Settles f s s' closed := fun s' hs' =>
    ⟨hs'.1, closed ++ [], hsettles.trans h hs'.2 fun a ha => absurd ha List.not_mem_nil⟩
  unfold ctxClientCreate
  dsimp only
  split
  · exact hlast _ ⟨hclean, Settles.refl ..⟩
  · exact hlast _ (settles_newContext hclean ..)

/-- Whatever the rest of the binder does, it gives up cookies of `f` by closing sessions. -/
theorem settles_exec {w : World} {act : Action} (h : Reserved f K w.store)
    (hforeign : Foreign f K w.store act) :
    Reserved f K (exec w act).store ∧ ∃ closed, Settles f w.store (exec w act).store closed := by
  cases act with
  | create allocated generated uuid timeout => exact settles_create h ..
  | getSession allocated generated uuid => exact settles_getSession h ..
  | addRef client =>
      cases hc : w.store.mem client with
      | none =>
          have hsame : ctxClientAddRef client w.store = w.store := by simp [ctxClientAddRef, hc]
          show Reserved f K (ctxClientAddRef client w.store) ∧ ∃ closed, Settles f w.store
            (ctxClientAddRef client w.store) closed
          rw [hsame]
          exact ⟨h, [], Settles.refl ..⟩
      | some c =>
          have hsame : ctxClientAddRef client w.store =
              w.store.put client { c with refcount := c.refcount + 1 } := by
            simp [ctxClientAddRef, hc]
          show Reserved f K (ctxClientAddRef client w.store) ∧ ∃ closed, Settles f w.store
            (ctxClientAddRef client w.store) closed
          rw [hsame]
          have hput := settles_rewrite h hc { c with refcount := c.refcount + 1 } rfl rfl rfl
          exact ⟨hput.1, [], hput.2⟩
  | unref client =>
      have hunref := settles_unref h client
      exact ⟨hunref.1, [], hunref.2⟩
  | close client =>
      exact settles_close h client
  | tokenNew client generated =>
      have htune := settles_tune h client (g := ctxTokenNew w.store.timeBits generated w.now)
        fun c => ⟨rfl, rfl, rfl⟩
      exact ⟨htune.1, [], htune.2⟩
  | setLOA client loa =>
      have htune := settles_tune h client (g := ctxClientSetLOA loa)
        fun c => ⟨rfl, rfl, rfl⟩
      exact ⟨htune.1, [], htune.2⟩
  | valueSet client index value freeValue =>
      have hset := settles_valueSet h client index value hforeign
      exact ⟨hset.1, [], hset.2⟩
  | cookieSet client allocated key value freeValue =>
      have hset := settles_cookieSet h client allocated value hforeign.1 hforeign.2.1
        hforeign.2.2
      exact ⟨hset.1, [], hset.2⟩
  | advance delay => exact ⟨h, [], Settles.refl ..⟩

/-- The end of a request changes its session, and may close it. -/
theorem settles_disconnect (h : Reserved f K s) (generated : Bytes) (now : Int) (context : Context) :
    Reserved f K (afbContextDisconnect generated now context s).2 ∧
      ∃ closed, Settles f s (afbContextDisconnect generated now context s).2 closed := by
  cases hsession : context.session with
  | none =>
      simp only [afbContextDisconnect, hsession]
      exact ⟨h, [], Settles.refl f s⟩
  | some client =>
      simp only [afbContextDisconnect, hsession]
      -- one after the other: the token, the level, the closing and the reference
      have htoken : ∀ refresh : Bool, ∃ s₁, (if refresh then
          s.modify client fun c => (ctxTokenNew s.timeBits generated now c, []) else s) = s₁ ∧
          Reserved f K s₁ ∧ Settles f s s₁ [] ∧ s₁.next = s.next := by
        intro refresh
        cases refresh with
        | false => exact ⟨s, rfl, h, Settles.refl f s, rfl⟩
        | true =>
            have htune := settles_tune h client (g := ctxTokenNew s.timeBits generated now)
              fun c => ⟨rfl, rfl, rfl⟩
            exact ⟨_, rfl, htune.1, htune.2, modify_next ..⟩
      rcases htoken (context.refreshing && !context.refreshed) with ⟨s₁, he₁, h₁, hs₁, hn₁⟩
      rw [he₁]
      have hlevel : ∀ change : Bool, ∃ s₂, (if change then
          s₁.modify client fun c => (ctxClientSetLOA context.loaOut c, []) else s₁) = s₂ ∧
          Reserved f K s₂ ∧ Settles f s s₂ [] ∧ s₂.next = s.next := by
        intro change
        cases change with
        | false => exact ⟨s₁, rfl, h₁, hs₁, hn₁⟩
        | true =>
            have htune := settles_tune h₁ client (g := ctxClientSetLOA context.loaOut)
              fun c => ⟨rfl, rfl, rfl⟩
            exact ⟨_, rfl, htune.1, hs₁.trans h htune.2 fun a ha => absurd ha List.not_mem_nil,
              (modify_next ..).trans hn₁⟩
      rcases hlevel (context.loaChanging && !context.loaChanged) with ⟨s₂, he₂, h₂, hs₂, hn₂⟩
      rw [he₂]
      have hclose : ∀ close : Bool, ∃ s₃ closed, (if close then ctxClientClose client s₂ else s₂) = s₃ ∧
          Reserved f K s₃ ∧ Settles f s s₃ closed := by
        intro close
        cases close with
        | false => exact ⟨s₂, [], rfl, h₂, hs₂⟩
        | true =>
            rcases settles_close h₂ client with ⟨h₃, closed, hs₃⟩
            exact ⟨_, closed, rfl, h₃, hs₂.trans h hs₃ (hs₂.there h₂ hn₂ hs₃)⟩
      rcases hclose (context.closing && !context.closed) with ⟨s₃, closed, he₃, h₃, hs₃⟩
      rw [he₃]
      have hunref := settles_unref h₃ client
      exact ⟨hunref.1, _, hs₃.trans h hunref.2 fun a ha => absurd ha List.not_mem_nil⟩

/-- The start of a request finds its session, or makes it. -/
theorem settles_connect (h : Reserved f K s) (allocated : Bool) (generated : Bytes)
    (uuid token : Option Bytes) (now : Int) :
    Reserved f K (afbContextConnect allocated generated uuid token now s).2 ∧
      ∃ closed, Settles f s (afbContextConnect allocated generated uuid token now s).2 closed := by
  have hget := settles_getSession h allocated generated uuid now
  unfold afbContextConnect
  split
  · rename_i he
    rw [he] at hget
    exact hget
  · rename_i he
    rw [he] at hget
    split
    · exact hget
    · exact hget

/-- The session of a request has the uuid that was asked for. -/
theorem afbContextConnect_session {allocated : Bool} {generated uuid : Bytes} {token : Option Bytes}
    {now : Int} {context : Context}
    (hconnect : afbContextConnect allocated generated (some uuid) token now s = (some context, s')) :
    ∃ client c, context.session = some client ∧ s'.mem client = some c ∧ c.uuid = uuid := by
  have hfound : ∀ client, (ctxClientGetSession allocated generated (some uuid) now s).1 = .ok client →
      ∀ c, (ctxClientGetSession allocated generated (some uuid) now s).2.2.mem client = some c →
      c.uuid = uuid := by
    intro client hok c hc
    unfold ctxClientGetSession at hok hc
    dsimp only [Option.bind_some] at hok hc
    cases hsearch : ctxStoreSearch uuid (ctxStoreCleanUp now s) with
    | some found =>
        rcases ctxStoreSearch_some hsearch with ⟨old, hold, huuid⟩
        simp only [hsearch, hold] at hok hc
        cases hok
        rw [put_mem, Function.update_self] at hc
        cases hc
        exact huuid
    | none =>
        simp only [hsearch] at hok hc
        rcases newContext_cases allocated generated (some uuid) (ctxStoreCleanUp now s).timeout now
          (ctxStoreCleanUp now s) with ⟨e, he⟩ | ⟨slots, -, -, hmade⟩
        · rw [he] at hok
          cases hok
        · rw [hmade] at hok hc
          cases hok
          rw [put_mem, Function.update_self] at hc
          cases hc
          rfl
  rcases hget : ctxClientGetSession allocated generated (some uuid) now s with ⟨result, created, made⟩
  rw [hget] at hfound
  cases result with
  | error e =>
      simp only [afbContextConnect, hget] at hconnect
      cases hconnect
  | ok client =>
      simp only [afbContextConnect, hget] at hconnect
      cases hc : made.mem client with
      | none =>
          simp only [hc] at hconnect
          cases hconnect
      | some c =>
          simp only [hc] at hconnect
          cases hconnect
          exact ⟨client, c, initContext_session client c token now, hc, hfound client rfl c hc⟩

end AfbBinder.Session
