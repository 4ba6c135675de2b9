/-!
# Lists of records with distinct keys

A linked list of records that is searched by a key, when no two records have the same
key.
-/

namespace AfbBinder.Lib.Keyed

universe u v

variable {α : Type u} {κ : Type v} [DecidableEq κ] {key : α → κ} {l : List α} {a : α} {k : κ}

/-- The first record with the key. -/
def search (key : α → κ) (l : List α) (k : κ) : Option α := l.find? fun a => key a = k

theorem search_some (h : search key l k = some a) : a ∈ l ∧ key a = k :=
  ⟨List.mem_of_find?_eq_some h, by simpa using List.find?_some h⟩

theorem search_none : search key l k = none ↔ k ∉ l.map key := by
  simp [search, List.find?_eq_none]

theorem search_isSome : (search key l k).isSome = true ↔ k ∈ l.map key := by
  cases h : search key l k with
  | none => simpa using search_none.mp h
  | some a =>
      obtain ⟨hmem, rfl⟩ := search_some h
      simpa using ⟨a, hmem, rfl⟩

theorem search_mem (hdistinct : (l.map key).Nodup) (ha : a ∈ l) : search key l (key a) = some a := by
  induction l with
  | nil => cases ha
  | cons b l ih =>
      rw [List.map_cons, List.nodup_cons] at hdistinct
      rcases List.mem_cons.mp ha with rfl | ha
      · simp [search]
      · have hne : key b ≠ key a := by
          intro heq
          exact hdistinct.1 (heq ▸ List.mem_map_of_mem ha)
        rw [search, List.find?_cons_of_neg (by simpa using hne)]
        exact ih hdistinct.2 ha

theorem search_cons : search key (a :: l) k = if key a = k then some a else search key l k := by
  by_cases h : key a = k
  · simp [search, h]
  · simp [search, h]

theorem search_filter (keep : κ → Bool) :
    search key (l.filter fun a => keep (key a)) k = if keep k then search key l k else none := by
  induction l with
  | nil => simp [search]
  | cons a l ih =>
      rw [List.filter_cons, search_cons]
      by_cases hk : key a = k
      · subst hk
        cases hkeep : keep (key a) with
        | false => simp [ih, hkeep]
        | true => simp [search_cons]
      · cases hkeep : keep (key a) with
        | false => simp [ih, hk]
        | true => simp [search_cons, ih, hk]

theorem search_filter_ne (k' : κ) :
    search key (l.filter fun a => key a ≠ k') k = if k = k' then none else search key l k := by
  rw [search_filter (fun other => decide (other ≠ k'))]
  by_cases hk : k = k'
  · simp [hk]
  · simp [hk]

theorem key_inj {b : α} (hdistinct : (l.map key).Nodup) (ha : a ∈ l) (hb : b ∈ l)
    (h : key a = key b) : a = b := by
  have hfound := search_mem hdistinct ha
  rw [h, search_mem hdistinct hb] at hfound
  exact (Option.some.inj hfound).symm

/-- The search in a view of the records that shows their keys. -/
theorem search_map {β : Type u} {view : α → β} {key' : β → κ} (h : ∀ a, key' (view a) = key a) :
    search key' (l.map view) k = (search key l k).map view := by
  induction l with
  | nil => rfl
  | cons a l ih =>
      rw [List.map_cons, search_cons, search_cons, ih, h]
      split
      · rfl
      · rfl

/-- Of what is collected over the records, a test that holds for one key only leaves what
the record with this key gives. -/
theorem filter_flatMap {β : Type u} (collect : α → List β) (test : β → Bool)
    (hdistinct : (l.map key).Nodup)
    (hkey : ∀ a ∈ l, key a = k → (collect a).filter test = collect a)
    (hother : ∀ a ∈ l, key a ≠ k → (collect a).filter test = []) :
    (l.flatMap collect).filter test = ((search key l k).map collect).getD [] := by
  induction l with
  | nil => rfl
  | cons a l ih =>
      rw [List.map_cons, List.nodup_cons] at hdistinct
      have hrest := ih hdistinct.2 (fun b hb => hkey b (List.mem_cons_of_mem a hb))
        (fun b hb => hother b (List.mem_cons_of_mem a hb))
      rw [List.flatMap_cons, List.filter_append, hrest, search_cons]
      by_cases hk : key a = k
      · have hnone : search key l k = none := search_none.mpr (hk ▸ hdistinct.1)
        rw [hkey a List.mem_cons_self hk, hnone, if_pos hk]
        simp
      · rw [hother a List.mem_cons_self hk, if_neg hk, List.nil_append]

theorem erase_eq_filter [DecidableEq α] (hdistinct : (l.map key).Nodup) (ha : a ∈ l) :
    l.erase a = l.filter fun b => key b ≠ key a := by
  induction l with
  | nil => cases ha
  | cons b l ih =>
      rw [List.map_cons, List.nodup_cons] at hdistinct
      by_cases hba : b = a
      · subst hba
        have hothers : ∀ c ∈ l, key c ≠ key b := by
          intro c hc heq
          exact hdistinct.1 (heq ▸ List.mem_map_of_mem hc)
        have hself : (l.filter fun c => key c ≠ key b) = l :=
          List.filter_eq_self.mpr (by simpa using hothers)
        rw [List.erase_cons_head, List.filter_cons_of_neg (by simp), hself]
      · rcases List.mem_cons.mp ha with rfl | ha
        · exact absurd rfl hba
        · have hne : key b ≠ key a := by
            intro heq
            exact hdistinct.1 (heq ▸ List.mem_map_of_mem ha)
          rw [List.erase_cons_tail (by simpa using hba), ih hdistinct.2 ha]
          simp [hne]

theorem eraseP_eq_filter (hdistinct : (l.map key).Nodup) :
    (l.eraseP fun a => key a = k) = l.filter fun a => key a ≠ k := by
  induction l with
  | nil => rfl
  | cons b l ih =>
      rw [List.map_cons, List.nodup_cons] at hdistinct
      by_cases hb : key b = k
      · have hothers : ∀ c ∈ l, key c ≠ k := by
          intro c hc heq
          exact hdistinct.1 (hb ▸ heq ▸ List.mem_map_of_mem hc)
        have hself : (l.filter fun c => key c ≠ k) = l :=
          List.filter_eq_self.mpr (by simpa using hothers)
        rw [List.eraseP_cons_of_pos (by simpa using hb), List.filter_cons_of_neg (by simpa using hb),
          hself]
      · rw [List.eraseP_cons_of_neg (by simpa using hb), ih hdistinct.2,
          List.filter_cons_of_pos (by simpa using hb)]

/-- The keys of the records that satisfy a test, less the key of one of them. -/
theorem erase_map_filter [DecidableEq α] {p : α → Bool} (hdistinct : (l.map key).Nodup)
    (ha : a ∈ l) :
    ((l.filter p).map key).erase (key a) = ((l.erase a).filter p).map key := by
  have hsub : ((l.filter p).map key).Nodup := hdistinct.sublist (List.filter_sublist.map key)
  rw [hsub.erase_eq_filter, List.filter_map, erase_eq_filter hdistinct ha, List.filter_filter,
    List.filter_filter]
  congr 1
  apply List.filter_congr
  intro b _
  by_cases hk : key b = key a
  · simp [hk]
  · simp [hk]

theorem filter_erase_of_not [DecidableEq α] {p : α → Bool} (hp : p a = false) :
    (l.erase a).filter p = l.filter p := by
  rw [← List.erase_filter]
  exact List.erase_of_not_mem fun hmem => by simp [hp] at hmem

/-- The keys of the records left when those of one key are dropped. -/
theorem map_filter_ne (hdistinct : (l.map key).Nodup) (k : κ) :
    (l.filter fun a => key a ≠ k).map key = (l.map key).erase k := by
  rw [hdistinct.erase_eq_filter, List.filter_map]
  congr 1
  apply List.filter_congr
  intro a _
  by_cases hk : key a = k
  · simp [hk]
  · simp [hk]

/-! ## Changing records -/

/-- Changes the records with the key. -/
def modify (key : α → κ) (k : κ) (change : α → α) (l : List α) : List α :=
  l.map fun a => if key a = k then change a else a

theorem mem_modify {change : α → α} :
    a ∈ modify key k change l ↔
      (∃ b ∈ l, key b = k ∧ a = change b) ∨ (a ∈ l ∧ key a ≠ k) := by
  simp only [modify, List.mem_map]
  constructor
  · rintro ⟨b, hb, rfl⟩
    by_cases hk : key b = k
    · exact .inl ⟨b, hb, hk, by simp [hk]⟩
    · exact .inr (by simpa [hk] using hb)
  · rintro (⟨b, hb, hk, rfl⟩ | ⟨ha, hk⟩)
    · exact ⟨b, hb, by simp [hk]⟩
    · exact ⟨a, ha, by simp [hk]⟩

theorem map_modify {β : Type v} {view : α → β} {change : α → α}
    (h : ∀ a, view (change a) = view a) : (modify key k change l).map view = l.map view := by
  rw [modify, List.map_map]
  apply List.map_congr_left
  intro a _
  by_cases hk : key a = k
  · simp [hk, h]
  · simp [hk]

theorem map_filter_modify {β : Type v} {view : α → β} {change : α → α} {p : α → Bool}
    (hp : ∀ a, p (change a) = p a) (h : ∀ a, view (change a) = view a) :
    ((modify key k change l).filter p).map view = (l.filter p).map view := by
  have hfilter : (modify key k change l).filter p = modify key k change (l.filter p) := by
    rw [modify, modify, List.filter_map]
    congr 1
    apply List.filter_congr
    intro a _
    by_cases hk : key a = k
    · simp [hk, hp]
    · simp [hk]
  rw [hfilter, map_modify h]

theorem search_modify {change : α → α} {k' : κ} (hkey : ∀ a, key (change a) = key a) :
    search key (modify key k change l) k' =
      if k' = k then (search key l k).map change else search key l k' := by
  induction l with
  | nil => simp [modify, search]
  | cons a l ih =>
      rw [modify, List.map_cons]
      change search key (_ :: modify key k change l) k' = _
      rw [search_cons, search_cons, search_cons, ih]
      by_cases hk : key a = k
      · subst hk
        by_cases hk' : key a = k'
        · subst hk'
          simp [hkey]
        · simp [hkey, hk', Ne.symm hk']
      · by_cases hk' : key a = k'
        · subst hk'
          simp [hk]
        · simp [hk, hk']

/-- A record may be designated by either of two keys. -/
theorem modify_eq_modify {ι : Type v} [DecidableEq ι] {key' : α → ι} {change : α → α}
    (hdistinct : (l.map key).Nodup) (hdistinct' : (l.map key').Nodup) (ha : a ∈ l) :
    modify key (key a) change l = modify key' (key' a) change l := by
  apply List.map_congr_left
  intro b hb
  have hsame : key b = key a ↔ key' b = key' a :=
    ⟨fun h => key_inj hdistinct hb ha h ▸ rfl, fun h => key_inj hdistinct' hb ha h ▸ rfl⟩
  simp [hsame]

/-! ## Unlinking -/

/-- Takes the first occurrence out of a linked list; `none` when the end is passed. -/
def unlink [DecidableEq α] (a : α) : List α → Option (List α)
  | [] => none
  | b :: rest => if b = a then some rest else (unlink a rest).map (b :: ·)

theorem unlink_mem [DecidableEq α] (h : a ∈ l) : unlink a l = some (l.erase a) := by
  induction l with
  | nil => cases h
  | cons b rest ih =>
      by_cases hba : b = a
      · simp [unlink, hba]
      · rcases List.mem_cons.mp h with rfl | h
        · exact absurd rfl hba
        · rw [unlink, if_neg hba, ih h, List.erase_cons_tail (by simpa using hba)]
          rfl

end AfbBinder.Lib.Keyed
