import AfbBinder.Session.Effects

/-!
# The values of a context

A context holds values in its slots and in its cookies.  `contents` lists them and
`owned` lists the calls that would release them.  One lemma says what storing at a place
does to both lists, one what closing does; the invariant of the store is about them.
-/

namespace AfbBinder.Session

open Lib

/-- Where a value is stored in a context. -/
inductive Place where
  | value (index : Nat)
  | cookie (key : Nat)
deriving DecidableEq, Repr

def ClientValue.release (entry : ClientValue) : List Release :=
  match entry.value, entry.freeValue with
  | some v, some f => [⟨f, v⟩]
  | _, _ => []

def Cookie.entry (cookie : Cookie) : ClientValue := ⟨cookie.value, cookie.freeValue⟩

namespace ClientCtx

def entry (c : ClientCtx) : Place → Option ClientValue
  | .value index => c.values[index]?
  | .cookie key => (c.cookies.find? fun cookie => cookie.key = key).map Cookie.entry

def entries (c : ClientCtx) : List ClientValue := c.values ++ c.cookies.map Cookie.entry

/-- The values other than NULL. -/
def contents (c : ClientCtx) : List Nat := c.entries.filterMap ClientValue.value

/-- The calls that release the values having a free function. -/
def owned (c : ClientCtx) : List Release := c.entries.flatMap ClientValue.release

end ClientCtx

theorem ClientValue.mem_release {entry : ClientValue} {r : Release} :
    r ∈ entry.release ↔ entry.value = some r.value ∧ entry.freeValue = some r.freeValue := by
  obtain ⟨value, freeValue⟩ := entry
  obtain ⟨f, v⟩ := r
  cases value with
  | none => simp [ClientValue.release]
  | some u =>
      cases freeValue with
      | none => simp [ClientValue.release]
      | some g =>
          simp only [ClientValue.release, List.mem_singleton, Release.mk.injEq, Option.some.injEq]
          constructor
          · rintro ⟨rfl, rfl⟩
            exact ⟨rfl, rfl⟩
          · rintro ⟨rfl, rfl⟩
            exact ⟨rfl, rfl⟩

theorem release_sublist (entries : List ClientValue) :
    List.Sublist ((entries.flatMap ClientValue.release).map Release.value)
      (entries.filterMap ClientValue.value) := by
  induction entries with
  | nil => exact List.Sublist.refl _
  | cons entry rest ih =>
      obtain ⟨value, freeValue⟩ := entry
      cases value with
      | none => simpa [ClientValue.release] using ih
      | some v =>
          cases freeValue with
          | none => simpa [ClientValue.release] using ih.cons v
          | some f => simpa [ClientValue.release] using ih.cons_cons v

theorem owned_sublist (c : ClientCtx) : List.Sublist (c.owned.map Release.value) c.contents :=
  release_sublist c.entries

theorem mem_entries {c : ClientCtx} {place : Place} {e : ClientValue}
    (h : c.entry place = some e) : e ∈ c.entries := by
  cases place with
  | value index => exact List.mem_append_left _ (List.mem_of_getElem? h)
  | cookie key =>
      obtain ⟨cookie, hfind, rfl⟩ := Option.map_eq_some_iff.mp h
      exact List.mem_append_right _ (List.mem_map_of_mem (List.mem_of_find?_eq_some hfind))

theorem mem_owned {c : ClientCtx} {place : Place} {f v : Nat}
    (h : c.entry place = some ⟨some v, some f⟩) : (⟨f, v⟩ : Release) ∈ c.owned :=
  List.mem_flatMap.mpr ⟨_, mem_entries h, ClientValue.mem_release.mpr ⟨rfl, rfl⟩⟩

theorem mem_contents_of_owned {c : ClientCtx} {r : Release} (h : r ∈ c.owned) :
    r.value ∈ c.contents :=
  (owned_sublist c).subset (List.mem_map_of_mem h)

/-! ## Storing at a place -/

/-- `ctxClientValueSet` or `ctxClientCookieSet`, by the place. -/
def storeAt (allocated : Bool) (place : Place) (value freeValue : Option Nat) (c : ClientCtx) :
    ClientCtx × List Release :=
  match place with
  | .value index => ctxClientValueSet index value freeValue c
  | .cookie key => ctxClientCookieSet allocated key value freeValue c

/-- The value is stored: the slot exists, or the cookie does, or it can be allocated. -/
def Accepts (allocated : Bool) (place : Place) (c : ClientCtx) : Prop :=
  (c.entry place).isSome ∨ ((∃ key, place = .cookie key) ∧ allocated = true)

/-- What was at the place before, the empty entry when there was nothing. -/
def ClientCtx.previous (c : ClientCtx) (place : Place) : ClientValue :=
  (c.entry place).getD ⟨none, none⟩

/-- An accepted store changes the entry of its place only, and releases what it replaces. -/
structure Stores (place : Place) (value freeValue : Option Nat) (c c' : ClientCtx)
    (released : List Release) : Prop where
  frame : c'.uuid = c.uuid ∧ c'.values.length = c.values.length
  entries : ∃ front back,
    c.contents = (front ++ c.previous place :: back).filterMap ClientValue.value ∧
    c.owned = (front ++ c.previous place :: back).flatMap ClientValue.release ∧
    c'.entries = front ++ ⟨value, freeValue⟩ :: back
  entry : c'.entry place = some ⟨value, freeValue⟩
  others : ∀ place', place' ≠ place → c'.entry place' = c.entry place'
  released : released = supersede (c.previous place).value (c.previous place).freeValue value

theorem ctxClientValueSet_stores {index : Nat} (value freeValue : Option Nat) {c : ClientCtx}
    {e : ClientValue} (he : c.values[index]? = some e) :
    Stores (.value index) value freeValue c (ctxClientValueSet index value freeValue c).1
      (ctxClientValueSet index value freeValue c).2 := by
  have hset : ctxClientValueSet index value freeValue c =
      ({ c with values := c.values.set index ⟨value, freeValue⟩ },
        supersede e.value e.freeValue value) := by
    simp [ctxClientValueSet, he]
  have hprev : c.previous (.value index) = e := by
    simp [ClientCtx.previous, ClientCtx.entry, he]
  rw [hset]
  refine ⟨⟨rfl, by simp⟩, ?_, ?_, ?_, by rw [hprev]⟩
  · obtain ⟨front, back, hvalues, hreplace⟩ := Slots.split_set he
    refine ⟨front, back ++ c.cookies.map Cookie.entry, ?_, ?_, ?_⟩
    · simp [ClientCtx.contents, ClientCtx.entries, hprev, hvalues]
    · simp [ClientCtx.owned, ClientCtx.entries, hprev, hvalues]
    · simp [ClientCtx.entries, hreplace]
  · have hlt := (List.getElem?_eq_some_iff.mp he).1
    simp [ClientCtx.entry, hlt]
  · intro place' hne
    cases place' with
    | value index' =>
        have hidx : index ≠ index' := fun h => hne (by rw [h])
        simp [ClientCtx.entry, hidx]
    | cookie key => rfl

theorem cookieReplace_none {key : Nat} {value freeValue : Option Nat} {cookies : List Cookie} :
    cookieReplace key value freeValue cookies = none ↔
      cookies.find? (fun cookie => cookie.key = key) = none := by
  induction cookies with
  | nil => simp [cookieReplace]
  | cons cookie rest ih =>
      by_cases hk : cookie.key = key
      · simp [cookieReplace, hk]
      · cases hr : cookieReplace key value freeValue rest with
        | none =>
            have h := ih.mp hr
            simp [cookieReplace, hk, hr, h]
        | some replaced =>
            have h : ¬ rest.find? (fun cookie => cookie.key = key) = none := by
              rw [← ih, hr]
              simp
            simp only [cookieReplace, hk, if_false, hr, List.find?_cons, decide_false]
            simpa using h

theorem cookieReplace_some {key : Nat} {value freeValue : Option Nat} {cookies cookies' : List Cookie}
    {released : List Release}
    (h : cookieReplace key value freeValue cookies = some (cookies', released)) :
    ∃ front cookie back, cookies = front ++ cookie :: back ∧
      cookies.find? (fun cookie => cookie.key = key) = some cookie ∧
      cookies' = front ++ ⟨key, value, freeValue⟩ :: back ∧
      (∀ key', key' ≠ key → cookies'.find? (fun cookie => cookie.key = key') =
        cookies.find? (fun cookie => cookie.key = key')) ∧
      cookies'.find? (fun cookie => cookie.key = key) = some ⟨key, value, freeValue⟩ ∧
      released = supersede cookie.value cookie.freeValue value := by
  induction cookies generalizing cookies' with
  | nil => simp [cookieReplace] at h
  | cons cookie rest ih =>
      by_cases hk : cookie.key = key
      · simp only [cookieReplace, hk, if_true, Option.some.injEq, Prod.mk.injEq] at h
        obtain ⟨rfl, rfl⟩ := h
        refine ⟨[], cookie, rest, rfl, by simp [hk], rfl, ?_, by simp, rfl⟩
        intro key' hne
        simp [hk, Ne.symm hne]
      · cases hr : cookieReplace key value freeValue rest with
        | none => simp [cookieReplace, hk, hr] at h
        | some replaced =>
            obtain ⟨rest', released'⟩ := replaced
            simp only [cookieReplace, hk, if_false, hr, Option.some.injEq, Prod.mk.injEq] at h
            obtain ⟨rfl, rfl⟩ := h
            obtain ⟨front, old, back, hrest, hfind, hrest', hothers, hnew, hrel⟩ := ih hr
            refine ⟨cookie :: front, old, back, by simp [hrest], by simp [hk, hfind],
              by simp [hrest'], ?_, by simp [hk, hnew], hrel⟩
            intro key' hne
            by_cases hk' : cookie.key = key'
            · simp [hk']
            · simp [hk', hothers key' hne]

theorem ctxClientCookieSet_stores {allocated : Bool} {key : Nat} (value freeValue : Option Nat)
    {c : ClientCtx} (haccept : Accepts allocated (.cookie key) c) :
    Stores (.cookie key) value freeValue c
      (ctxClientCookieSet allocated key value freeValue c).1
      (ctxClientCookieSet allocated key value freeValue c).2 := by
  cases hr : cookieReplace key value freeValue c.cookies with
  | some replaced =>
      obtain ⟨cookies', released⟩ := replaced
      obtain ⟨front, cookie, back, hcookies, hfind, hcookies', hothers, hnew, hrel⟩ :=
        cookieReplace_some hr
      have hset : ctxClientCookieSet allocated key value freeValue c =
          ({ c with cookies := cookies' }, released) := by
        simp [ctxClientCookieSet, hr]
      have hprev : c.previous (.cookie key) = cookie.entry := by
        simp [ClientCtx.previous, ClientCtx.entry, hfind]
      rw [hset]
      refine ⟨⟨rfl, rfl⟩, ?_, ?_, ?_, by rw [hprev]; exact hrel⟩
      · refine ⟨c.values ++ front.map Cookie.entry, back.map Cookie.entry, ?_, ?_, ?_⟩
        · simp [ClientCtx.contents, ClientCtx.entries, hprev, hcookies]
        · simp [ClientCtx.owned, ClientCtx.entries, hprev, hcookies]
        · simp [ClientCtx.entries, hcookies', Cookie.entry]
      · simp [ClientCtx.entry, hnew, Cookie.entry]
      · intro place' hne
        cases place' with
        | value index => rfl
        | cookie key' =>
            have hk : key' ≠ key := fun h => hne (by rw [h])
            simp [ClientCtx.entry, hothers key' hk]
  | none =>
      have hfind := cookieReplace_none.mp hr
      have hprev : c.previous (.cookie key) = ⟨none, none⟩ := by
        simp [ClientCtx.previous, ClientCtx.entry, hfind]
      have hallocated : allocated = true := by
        rcases haccept with h | h
        · simp [ClientCtx.entry, hfind] at h
        · exact h.2
      have hset : ctxClientCookieSet allocated key value freeValue c =
          ({ c with cookies := ⟨key, value, freeValue⟩ :: c.cookies }, []) := by
        simp [ctxClientCookieSet, hr, hallocated]
      rw [hset]
      refine ⟨⟨rfl, rfl⟩, ?_, ?_, ?_, by simp [hprev, supersede]⟩
      · -- the new cookie stands where an empty entry can be thought of
        refine ⟨c.values, c.cookies.map Cookie.entry, ?_, ?_, ?_⟩
        · simp [ClientCtx.contents, ClientCtx.entries, hprev]
        · simp [ClientCtx.owned, ClientCtx.entries, hprev, ClientValue.release]
        · simp [ClientCtx.entries, Cookie.entry]
      · simp [ClientCtx.entry, Cookie.entry]
      · intro place' hne
        cases place' with
        | value index => rfl
        | cookie key' =>
            have hk : key ≠ key' := fun h => hne (by rw [h])
            simp [ClientCtx.entry, hk]

theorem storeAt_stores {allocated : Bool} {place : Place} (value freeValue : Option Nat)
    {c : ClientCtx} (haccept : Accepts allocated place c) :
    Stores place value freeValue c (storeAt allocated place value freeValue c).1
      (storeAt allocated place value freeValue c).2 := by
  cases place with
  | value index =>
      have hsome : (c.values[index]?).isSome := by
        rcases haccept with h | ⟨⟨key, h⟩, -⟩
        · exact h
        · cases h
      obtain ⟨e, he⟩ := Option.isSome_iff_exists.mp hsome
      exact ctxClientValueSet_stores value freeValue he
  | cookie key => exact ctxClientCookieSet_stores value freeValue haccept

theorem storeAt_refused {allocated : Bool} {place : Place} (value freeValue : Option Nat)
    {c : ClientCtx} (hrefuse : ¬ Accepts allocated place c) :
    storeAt allocated place value freeValue c = (c, []) := by
  cases place with
  | value index =>
      have hnone : c.values[index]? = none := by
        by_contra hne
        exact hrefuse (Or.inl (Option.isSome_iff_ne_none.mpr hne))
      simp [storeAt, ctxClientValueSet, hnone]
  | cookie key =>
      have hnone : cookieReplace key value freeValue c.cookies = none := by
        rw [cookieReplace_none]
        by_contra hne
        refine hrefuse (Or.inl ?_)
        simpa [ClientCtx.entry, Option.isSome_iff_ne_none] using hne
      have hallocated : allocated = false := by
        by_contra hne
        exact hrefuse (Or.inr ⟨⟨key, rfl⟩, by simpa using hne⟩)
      simp [storeAt, ctxClientCookieSet, hnone, hallocated]

/-- The value to store is already at the place, or in no place of the context. -/
def NewAt (c : ClientCtx) (place : Place) (value : Option Nat) : Prop :=
  ∀ v, value = some v → (c.previous place).value = some v ∨ v ∉ c.contents

/-- A store releases nothing, or the value it replaces by another one. -/
theorem supersede_values (prev : ClientValue) (value : Option Nat) :
    List.Sublist ((supersede prev.value prev.freeValue value).map Release.value)
        prev.value.toList ∧
      (prev.value = value → supersede prev.value prev.freeValue value = []) := by
  obtain ⟨old, freeValue⟩ := prev
  cases old with
  | none => exact ⟨List.Sublist.refl _, fun _ => rfl⟩
  | some v =>
      cases freeValue with
      | none => exact ⟨List.nil_sublist _, fun _ => rfl⟩
      | some f =>
          by_cases hne : some v = value
          · simp [supersede, hne]
          · simp [supersede, hne]

section Stored

variable {place : Place} {value freeValue : Option Nat} {c c' : ClientCtx} {released : List Release}

theorem Stores.perm (h : Stores place value freeValue c c' released) :
    ∃ rest, c.contents.Perm ((c.previous place).value.toList ++ rest) ∧
      c'.contents.Perm (value.toList ++ rest) := by
  obtain ⟨front, back, hcontents, -, hentries⟩ := h.entries
  have hswap : ∀ entry : ClientValue,
      ((front ++ entry :: back).filterMap ClientValue.value).Perm
        (entry.value.toList ++ (front ++ back).filterMap ClientValue.value) := by
    intro entry
    cases hv : entry.value with
    | none => simp [hv]
    | some v => simp [hv]
  refine ⟨(front ++ back).filterMap ClientValue.value, ?_, ?_⟩
  · rw [hcontents]
    exact hswap _
  · rw [ClientCtx.contents, hentries]
    exact hswap _

theorem Stores.nodup (h : Stores place value freeValue c c' released) (hnew : NewAt c place value)
    (hc : c.contents.Nodup) : (c'.contents ++ released.map Release.value).Nodup := by
  obtain ⟨rest, hbefore, hafter⟩ := h.perm
  obtain ⟨hsub, hsame⟩ := supersede_values (c.previous place) value
  rw [← h.released] at hsub hsame
  have hkept : (released.map Release.value ++ rest).Nodup :=
    (hbefore.nodup_iff.mp hc).sublist (hsub.append_right rest)
  have hperm : (c'.contents ++ released.map Release.value).Perm
      (value.toList ++ (released.map Release.value ++ rest)) := by
    refine (hafter.append_right _).trans ?_
    rw [List.append_assoc]
    exact List.perm_append_comm.append_left _
  rw [hperm.nodup_iff]
  cases hvalue : value with
  | none => simpa using hkept
  | some v =>
      rcases hnew v hvalue with hprev | hv
      · rw [hsame (hprev.trans hvalue.symm)]
        rw [hprev] at hbefore
        exact hbefore.nodup_iff.mp hc
      · refine List.nodup_cons.mpr ⟨fun hin => hv ?_, hkept⟩
        exact hbefore.mem_iff.mpr ((hsub.append_right rest).subset hin)

theorem Stores.mem (h : Stores place value freeValue c c' released) {v : Nat}
    (hv : v ∈ c'.contents ++ released.map Release.value) : v ∈ c.contents ∨ value = some v := by
  obtain ⟨rest, hbefore, hafter⟩ := h.perm
  have hsub := (supersede_values (c.previous place) value).1
  rw [← h.released] at hsub
  rcases List.mem_append.mp hv with hv | hv
  · rcases List.mem_append.mp (hafter.mem_iff.mp hv) with hv | hv
    · exact Or.inr (Option.mem_toList.mp hv)
    · exact Or.inl (hbefore.mem_iff.mpr (List.mem_append_right _ hv))
  · exact Or.inl (hbefore.mem_iff.mpr (List.mem_append_left _ (hsub.subset hv)))

/-- A store releases the value that its place held, and puts another one there. -/
theorem Stores.mem_released (h : Stores place value freeValue c c' released) {r : Release}
    (hr : r ∈ released) :
    c.entry place = some ⟨some r.value, some r.freeValue⟩ ∧ value ≠ some r.value := by
  rw [h.released] at hr
  cases he : c.entry place with
  | none => simp [ClientCtx.previous, he, supersede] at hr
  | some prev =>
      obtain ⟨old, free⟩ := prev
      simp only [ClientCtx.previous, he, Option.getD_some] at hr
      cases old with
      | none => simp [supersede] at hr
      | some v =>
          cases free with
          | none => simp [supersede] at hr
          | some f =>
              by_cases hne : some v = value
              · simp [supersede, hne] at hr
              · simp only [supersede, ne_eq, hne, not_false_eq_true, if_true,
                  List.mem_singleton] at hr
                subst hr
                exact ⟨rfl, Ne.symm hne⟩

/-- A context that owned nothing owns nothing more, the new value having no free function. -/
theorem Stores.owned_nil (h : Stores place value freeValue c c' released)
    (hfree : value = none ∨ freeValue = none) (hc : c.owned = []) : c'.owned = [] := by
  obtain ⟨front, back, -, howned, hentries⟩ := h.entries
  rw [howned] at hc
  have hnone : ClientValue.release ⟨value, freeValue⟩ = [] := by
    rcases hfree with rfl | rfl
    · rfl
    · cases value <;> rfl
  simp only [List.flatMap_append, List.flatMap_cons, List.append_eq_nil_iff] at hc
  simp [ClientCtx.owned, hentries, hnone, hc]

/-- An owned value stays at its place, or is released, or the store keeps it under another
free function. -/
theorem Stores.owner (h : Stores place value freeValue c c' released) {place' : Place}
    {f v : Nat} (he : c.entry place' = some ⟨some v, some f⟩)
    (hsame : place' = place → value = some v → freeValue = some f) :
    c'.entry place' = some ⟨some v, some f⟩ ∨ (⟨f, v⟩ : Release) ∈ released := by
  by_cases hp : place' = place
  · subst hp
    have hprev : c.previous place' = ⟨some v, some f⟩ := by simp [ClientCtx.previous, he]
    by_cases hv : value = some v
    · left
      rw [h.entry, hv, hsame rfl hv]
    · right
      rw [h.released, hprev]
      simp [supersede, Ne.symm hv]
  · left
    rw [h.others place' hp, he]

end Stored

/-! ## Closing -/

theorem supersede_none (entry : ClientValue) :
    supersede entry.value entry.freeValue none = entry.release := by
  obtain ⟨value, freeValue⟩ := entry
  cases value with
  | none => rfl
  | some v => cases freeValue <;> simp [supersede, ClientValue.release]

/-- The loop over the slots empties those it has met and releases them in order. -/
theorem clearValues_range (front back : List ClientValue) (c : ClientCtx)
    (hvalues : c.values = front ++ back) :
    clearValues (List.range' front.length back.length) c =
      ({ c with values := front ++ List.replicate back.length ⟨none, none⟩ },
        back.flatMap ClientValue.release) := by
  induction back generalizing front c with
  | nil =>
      rw [List.append_nil] at hvalues
      simp [clearValues, ← hvalues]
  | cons entry back ih =>
      have hget : c.values[front.length]? = some entry := by simp [hvalues]
      have hset : ctxClientValueSet front.length none none c =
          ({ c with values := (front ++ [⟨none, none⟩]) ++ back }, entry.release) := by
        simp [ctxClientValueSet, hvalues, supersede_none]
      have hrest := ih (front ++ [⟨none, none⟩])
        { c with values := (front ++ [⟨none, none⟩]) ++ back } rfl
      rw [List.length_append, List.length_singleton] at hrest
      rw [List.length_cons, List.range'_succ, clearValues, hset]
      dsimp only
      rw [hrest]
      simp [List.replicate_succ]

theorem cookie_release (cookies : List Cookie) :
    cookies.flatMap Cookie.release = (cookies.map Cookie.entry).flatMap ClientValue.release := by
  rw [List.flatMap_map]
  rfl

/-- Closing empties the context and releases all that it owns, in order. -/
theorem ctxUuidFreeCB_spec {apicount : Nat} {c : ClientCtx} (hlen : c.values.length = apicount) :
    ctxUuidFreeCB apicount { c with uuid := [] } =
      ({ c with uuid := [], values := List.replicate apicount ⟨none, none⟩, cookies := [] },
        c.owned) := by
  have h := clearValues_range [] c.values { c with uuid := [] } rfl
  rw [List.length_nil, ← List.range_eq_range', hlen] at h
  simp only [ctxUuidFreeCB, h, cookie_release]
  simp [ClientCtx.owned, ClientCtx.entries]

/-! ## The invariant of the store -/

/-- No context holds the value and it was not released. -/
def Unused (s : Store) (v : Nat) : Prop :=
  (∀ a c, s.mem a = some c → v ∉ c.contents) ∧ v ∉ s.released.map Release.value

/-- The stored values are distinct, none of them was released, none was released twice, and a
closed context owns nothing. -/
structure ValuesInv (s : Store) : Prop where
  length : ∀ a c, s.mem a = some c → c.values.length = s.apicount
  nodup : ∀ a c, s.mem a = some c → c.contents.Nodup
  apart : ∀ a b c c' v, s.mem a = some c → s.mem b = some c' → v ∈ c.contents →
    v ∈ c'.contents → a = b
  kept : ∀ a c v, s.mem a = some c → v ∈ c.contents → v ∉ s.released.map Release.value
  once : (s.released.map Release.value).Nodup
  closed : ∀ a c, s.mem a = some c → c.uuid = [] → c.owned = []

theorem valuesInv_ctxStoreInit (maxSessionCount : Nat) (timeout : Int) (initok : Bytes)
    (contextCount timeBits : Nat) :
    ValuesInv (ctxStoreInit maxSessionCount timeout initok contextCount timeBits) := by
  constructor <;> simp [ctxStoreInit]

section Invariant

variable {s s' : Store} {client : Nat} {c : ClientCtx}

/-- Rewriting one context, with what this releases. -/
theorem ValuesInv.put (hs : ValuesInv s) (hc : s.mem client = some c) {c' : ClientCtx}
    {new : List Release} (hmem : s'.mem = Function.update s.mem client (some c'))
    (hreleased : s'.released = s.released ++ new) (hapicount : s'.apicount = s.apicount)
    (hlength : c'.values.length = c.values.length)
    (hnodup : (c'.contents ++ new.map Release.value).Nodup)
    (hfrom : ∀ v ∈ c'.contents ++ new.map Release.value, v ∈ c.contents ∨ Unused s v)
    (hclosed : c'.uuid = [] → c'.owned = []) : ValuesInv s' := by
  have hdisjoint := List.nodup_append.mp hnodup
  -- a value of the new context or a released one is in no other context
  have hother : ∀ a x v, a ≠ client → s.mem a = some x → v ∈ x.contents →
      v ∉ c'.contents ++ new.map Release.value := by
    intro a x v hne hx hv hin
    rcases hfrom v hin with hold | hunused
    · exact hne (hs.apart a client x c v hx hc hv hold)
    · exact hunused.1 a x hx hv
  have hfresh : ∀ v ∈ c'.contents ++ new.map Release.value, v ∉ s.released.map Release.value := by
    intro v hin
    rcases hfrom v hin with hold | hunused
    · exact hs.kept client c v hc hold
    · exact hunused.2
  have hcases : ∀ a x, s'.mem a = some x → (a = client ∧ x = c') ∨ (a ≠ client ∧ s.mem a = some x) := by
    intro a x hx
    rw [hmem, Function.update_apply] at hx
    split at hx
    · rename_i ha
      cases hx
      exact Or.inl ⟨ha, rfl⟩
    · rename_i ha
      exact Or.inr ⟨ha, hx⟩
  refine ⟨?_, ?_, ?_, ?_, ?_, ?_⟩
  · intro a x hx
    rw [hapicount]
    rcases hcases a x hx with ⟨rfl, rfl⟩ | ⟨-, hx⟩
    · rw [hlength, hs.length _ c hc]
    · exact hs.length a x hx
  · intro a x hx
    rcases hcases a x hx with ⟨rfl, rfl⟩ | ⟨-, hx⟩
    · exact hdisjoint.1
    · exact hs.nodup a x hx
  · intro a b x y v hx hy hvx hvy
    rcases hcases a x hx with ⟨rfl, rfl⟩ | ⟨ha, hx⟩
    · rcases hcases b y hy with ⟨rfl, rfl⟩ | ⟨hb, hy⟩
      · rfl
      · exact absurd (List.mem_append_left _ hvx) (hother b y v hb hy hvy)
    · rcases hcases b y hy with ⟨rfl, rfl⟩ | ⟨hb, hy⟩
      · exact absurd (List.mem_append_left _ hvy) (hother a x v ha hx hvx)
      · exact hs.apart a b x y v hx hy hvx hvy
  · intro a x v hx hv
    rw [hreleased, List.map_append, List.mem_append, not_or]
    rcases hcases a x hx with ⟨rfl, rfl⟩ | ⟨ha, hx⟩
    · exact ⟨hfresh v (List.mem_append_left _ hv), fun hin => hdisjoint.2.2 v hv v hin rfl⟩
    · exact ⟨hs.kept a x v hx hv, fun hin => hother a x v ha hx hv (List.mem_append_right _ hin)⟩
  · rw [hreleased, List.map_append, List.nodup_append]
    refine ⟨hs.once, hdisjoint.2.1, ?_⟩
    rintro v hv u hu rfl
    exact hfresh v (List.mem_append_right _ hu) hv
  · intro a x hx hu
    rcases hcases a x hx with ⟨rfl, rfl⟩ | ⟨-, hx⟩
    · exact hclosed hu
    · exact hs.closed a x hx hu

/-- The parts of a context that its values depend on. -/
def SameValues (c c' : ClientCtx) : Prop :=
  c'.values = c.values ∧ c'.cookies = c.cookies ∧ c'.uuid = c.uuid

theorem SameValues.contents {c c' : ClientCtx} (h : SameValues c c') :
    c'.contents = c.contents ∧ c'.owned = c.owned := by
  simp [ClientCtx.contents, ClientCtx.owned, ClientCtx.entries, h.1, h.2.1]

theorem SameValues.entry {c c' : ClientCtx} (h : SameValues c c') (place : Place) :
    c'.entry place = c.entry place := by
  cases place with
  | value index => simp [ClientCtx.entry, h.1]
  | cookie key => simp [ClientCtx.entry, h.2.1]

/-- A context that holds nothing. -/
def ClientCtx.Empty (apicount : Nat) (c : ClientCtx) : Prop :=
  c.contents = [] ∧ c.owned = [] ∧ c.values.length = apicount

/-- Freeing contexts, adding empty ones and changing no value. -/
theorem ValuesInv.keep (hs : ValuesInv s)
    (hmem : ∀ a x', s'.mem a = some x' →
      (∃ x, s.mem a = some x ∧ SameValues x x') ∨ x'.Empty s.apicount)
    (hreleased : s'.released = s.released) (hapicount : s'.apicount = s.apicount) :
    ValuesInv s' := by
  -- a context that holds a value was there with this value
  have hheld : ∀ a x' v, s'.mem a = some x' → v ∈ x'.contents →
      ∃ x, s.mem a = some x ∧ v ∈ x.contents := by
    intro a x' v hx hv
    rcases hmem a x' hx with ⟨x, hold, hsame⟩ | hempty
    · exact ⟨x, hold, hsame.contents.1 ▸ hv⟩
    · rw [hempty.1] at hv
      cases hv
  refine ⟨?_, ?_, ?_, ?_, hreleased ▸ hs.once, ?_⟩
  · intro a x' hx
    rw [hapicount]
    rcases hmem a x' hx with ⟨x, hold, hsame⟩ | hempty
    · rw [hsame.1, hs.length a x hold]
    · exact hempty.2.2
  · intro a x' hx
    rcases hmem a x' hx with ⟨x, hold, hsame⟩ | hempty
    · rw [hsame.contents.1]
      exact hs.nodup a x hold
    · rw [hempty.1]
      exact List.nodup_nil
  · intro a b x' y' v hx hy hvx hvy
    obtain ⟨x, hx, hvx⟩ := hheld a x' v hx hvx
    obtain ⟨y, hy, hvy⟩ := hheld b y' v hy hvy
    exact hs.apart a b x y v hx hy hvx hvy
  · intro a x' v hx hv
    rw [hreleased]
    obtain ⟨x, hx, hv⟩ := hheld a x' v hx hv
    exact hs.kept a x v hx hv
  · intro a x' hx hu
    rcases hmem a x' hx with ⟨x, hold, hsame⟩ | hempty
    · rw [hsame.contents.2]
      exact hs.closed a x hold (hsame.2.2 ▸ hu)
    · exact hempty.2.1

end Invariant

end AfbBinder.Session
