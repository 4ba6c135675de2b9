import AfbBinder.Lib.Loop
import Mathlib.Logic.Function.Basic

/-!
# Singly linked lists in memory

A memory of links gives for each allocated node the pointer it holds, `none` standing for
NULL.  A chain is the list of the nodes that the links lead through.  The loops of C over
a chain are bounded by a number of turns and fail where they would read a node that is not
allocated, or NULL.
-/

namespace AfbBinder.Lib.Chain

/-- The links of the allocated nodes. -/
abbrev Links := Nat → Option (Option Nat)

/-- From `head`, the links lead through the nodes of the list to NULL. -/
def Leads (links : Links) : Option Nat → List Nat → Prop
  | head, [] => head = none
  | head, node :: rest => head = some node ∧ ∃ next, links node = some next ∧ Leads links next rest

/-- A place that holds a pointer of the chain. -/
inductive Cell where
  | head
  | node (address : Nat)
deriving DecidableEq, Repr

/-- `while (*prv != target) prv = &(*prv)->next`, with no test for the end of the list. -/
def seek (links : Links) (target : Nat) : Nat → Cell → Option Nat → Option Cell
  | 0, _, _ => none
  | _ + 1, _, none => none
  | turns + 1, prv, some node =>
      if node = target then some prv
      else
        match links node with
        | none => none
        | some next => seek links target turns (.node node) next

/-- The same loop with a test for the end: no cell when the target is not in the chain. -/
def seekOrEnd (links : Links) (target : Nat) : Nat → Cell → Option Nat → Option (Option Cell)
  | 0, _, _ => none
  | _ + 1, _, none => some none
  | turns + 1, prv, some node =>
      if node = target then some (some prv)
      else
        match links node with
        | none => none
        | some next => seekOrEnd links target turns (.node node) next

/-- The loop that stops at the first node that passes the test, or at the end. -/
def lookup (links : Links) (test : Nat → Option Bool) : Nat → Option Nat → Option (Option Nat)
  | 0, _ => none
  | _ + 1, none => some none
  | turns + 1, some node => do
      if ← test node then some (some node)
      else lookup links test turns (← links node)

/-- Nodes of type `W` in memory, chained by one of their fields. -/
structure Field (W : Type) where
  get : W → Option Nat
  set : Option Nat → W → W
  get_set : ∀ value w, get (set value w) = value

/-- The links that the field makes of a memory. -/
def Field.links {W : Type} (field : Field W) (mem : Nat → Option W) : Links :=
  fun a => (mem a).map field.get

/-- `*prv = target->next`, where `prv` is the head or the field of a node. -/
def Field.write {W : Type} (field : Field W) (mem : Nat → Option W) (head : Option Nat)
    (target : Nat) (prv : Cell) : Option (Option Nat × (Nat → Option W)) := do
  let node ← mem target
  match prv with
  | .head => some (field.get node, mem)
  | .node a => do
      let w ← mem a
      some (head, Function.update mem a (some (field.set (field.get node) w)))

/-- The unlinking loop and its write, giving the new head and the new memory. -/
def Field.unlink {W : Type} (field : Field W) (turns target : Nat) (head : Option Nat)
    (mem : Nat → Option W) : Option (Option Nat × (Nat → Option W)) := do
  let prv ← seek (field.links mem) target turns .head head
  field.write mem head target prv

/-- The same with a test for the end. -/
def Field.unlinkOrEnd {W : Type} (field : Field W) (turns target : Nat) (head : Option Nat)
    (mem : Nat → Option W) : Option (Option (Option Nat × (Nat → Option W))) := do
  match ← seekOrEnd (field.links mem) target turns .head head with
  | none => some none
  | some prv => (field.write mem head target prv).map some

/-- `*prv = value` on the links. -/
def setLinks (links : Links) (prv : Cell) (value : Option Nat) : Links :=
  match prv with
  | .head => links
  | .node address => Function.update links address (some value)

/-- `*prv = value` on the head. -/
def setHead (head : Option Nat) (prv : Cell) (value : Option Nat) : Option Nat :=
  match prv with
  | .head => value
  | .node _ => head

/-- The cell that points past the nodes of a list, read from `prv`. -/
def lastCell (prv : Cell) : List Nat → Cell
  | [] => prv
  | node :: rest => lastCell (.node node) rest

section

variable {links links' : Links} {head : Option Nat} {nodes : List Nat} {target turns : Nat}

theorem Leads.congr (h : Leads links head nodes) (hsame : ∀ a ∈ nodes, links' a = links a) :
    Leads links' head nodes := by
  induction nodes generalizing head with
  | nil => exact h
  | cons node rest ih =>
      obtain ⟨hhead, next, hnext, hrest⟩ := h
      refine ⟨hhead, next, (hsame node (by simp)).trans hnext, ih hrest ?_⟩
      exact fun a ha => hsame a (by simp [ha])

theorem Leads.allocated (h : Leads links head nodes) {a : Nat} (ha : a ∈ nodes) :
    ∃ next, links a = some next := by
  induction nodes generalizing head with
  | nil => cases ha
  | cons node rest ih =>
      obtain ⟨-, next, hnext, hrest⟩ := h
      rcases List.mem_cons.mp ha with rfl | ha
      · exact ⟨next, hnext⟩
      · exact ih hrest ha

theorem Leads.cons {new : Nat} (h : Leads links head nodes) (hnew : links new = some head) :
    Leads links (some new) (new :: nodes) :=
  ⟨rfl, head, hnew, h⟩

/-! ## Unlinking -/

theorem lastCell_mem (prv : Cell) (node : Nat) (rest : List Nat) :
    ∃ a ∈ node :: rest, lastCell prv (node :: rest) = .node a := by
  induction rest generalizing prv node with
  | nil => exact ⟨node, by simp, rfl⟩
  | cons next rest ih =>
      obtain ⟨a, ha, hcell⟩ := ih (.node node) next
      exact ⟨a, List.mem_cons_of_mem node ha, hcell⟩

/-- The loop stops at the cell that points to the target. -/
theorem seek_split {front back : List Nat} (h : Leads links head (front ++ target :: back))
    (hfront : target ∉ front) (hturns : front.length < turns) (prv : Cell) :
    seek links target turns prv head = some (lastCell prv front) := by
  induction front generalizing head turns prv with
  | nil =>
      obtain ⟨rfl, -⟩ := h
      cases turns with
      | zero => cases hturns
      | succ turns => simp [seek, lastCell]
  | cons node front ih =>
      obtain ⟨rfl, next, hnext, hrest⟩ := h
      cases turns with
      | zero => cases hturns
      | succ turns =>
          have hne : node ≠ target := fun heq => hfront (by simp [heq])
          rw [seek, if_neg hne, hnext]
          exact ih hrest (fun hin => hfront (by simp [hin])) (by simpa using hturns) (.node node)

theorem seekOrEnd_of_seek {prv cell : Cell} (h : seek links target turns prv head = some cell) :
    seekOrEnd links target turns prv head = some (some cell) := by
  induction turns generalizing prv head with
  | zero => cases h
  | succ turns ih =>
      cases head with
      | none => cases h
      | some node =>
          by_cases hnode : node = target
          · simpa [seek, seekOrEnd, hnode] using h
          · cases hnext : links node with
            | none => simp [seek, hnode, hnext] at h
            | some next =>
                rw [seek, if_neg hnode, hnext] at h
                rw [seekOrEnd, if_neg hnode, hnext]
                exact ih h

/-- Writing there the link of the target takes it out of the chain. -/
theorem Leads.unlink {front back : List Nat} {next : Option Nat}
    (h : Leads links head (front ++ target :: back)) (hnodup : (front ++ target :: back).Nodup)
    (hnext : links target = some next) :
    Leads (setLinks links (lastCell .head front) next)
      (setHead head (lastCell .head front) next) (front ++ back) := by
  induction front generalizing head with
  | nil =>
      obtain ⟨-, next', hnext', hback⟩ := h
      rw [hnext] at hnext'
      cases hnext'
      exact hback
  | cons node front ih =>
      obtain ⟨rfl, link, hlink, hrest⟩ := h
      obtain ⟨hnot, hnodup'⟩ := List.nodup_cons.mp hnodup
      have hrec := ih hrest hnodup'
      cases front with
      | nil =>
          refine ⟨rfl, next, Function.update_self .., hrec.congr ?_⟩
          intro a ha
          have hne : a ≠ node := by
            rintro rfl
            exact hnot (List.mem_cons_of_mem target ha)
          exact Function.update_of_ne hne _ _
      | cons node' front =>
          -- the cell that is written is further on
          obtain ⟨a, ha, hcell⟩ := lastCell_mem (.node node) node' front
          have hcell' : lastCell .head (node' :: front) = .node a := hcell
          rw [hcell'] at hrec
          have hne : node ≠ a := by
            rintro rfl
            exact hnot (List.mem_append_left _ ha)
          have hwhole : lastCell .head (node :: node' :: front) = .node a := hcell
          rw [hwhole]
          refine ⟨rfl, link, ?_, hrec⟩
          rw [setLinks, Function.update_of_ne hne, hlink]

/-- The loop finds a target of the chain; the cell it stops at is the head or another node
of the chain, and writing there takes the target out. -/
theorem seek_spec (h : Leads links head nodes) (hnodup : nodes.Nodup) (hmem : target ∈ nodes)
    (hturns : nodes.length ≤ turns) :
    ∃ cell, seek links target turns .head head = some cell ∧
      (cell = .head ∨ ∃ a ∈ nodes, a ≠ target ∧ cell = .node a) ∧
      ∀ next, links target = some next →
        Leads (setLinks links cell next) (setHead head cell next) (nodes.erase target) := by
  obtain ⟨front, back, rfl, hfront⟩ := List.eq_append_cons_of_mem hmem
  have herase : (front ++ target :: back).erase target = front ++ back := by
    rw [List.erase_append_right _ hfront, List.erase_cons_head]
  refine ⟨lastCell .head front, seek_split h hfront ?_ .head, ?_, ?_⟩
  · rw [List.length_append, List.length_cons] at hturns
    omega
  · cases front with
    | nil => exact Or.inl rfl
    | cons node rest =>
        obtain ⟨a, ha, hcell⟩ := lastCell_mem .head node rest
        exact Or.inr ⟨a, List.mem_append_left _ ha, fun heq => hfront (heq ▸ ha), hcell⟩
  · intro next hnext
    rw [herase]
    exact h.unlink hnodup hnext

/-- What the unlinking of a node leaves: the chain without it, and every node as it was but
for the field. -/
structure Unlinked {W : Type} (field : Field W) (target : Nat) (nodes : List Nat)
    (mem : Nat → Option W) (head' : Option Nat) (mem' : Nat → Option W) : Prop where
  leads : Leads (field.links mem') head' (nodes.erase target)
  others : ∀ a, a ∉ nodes → mem' a = mem a
  target : mem' target = mem target
  same : ∀ a, mem' a = mem a ∨ ∃ w value, mem a = some w ∧ mem' a = some (field.set value w)

theorem Unlinked.view {W β : Type} {field : Field W} {mem mem' : Nat → Option W}
    {head' : Option Nat} (h : Unlinked field target nodes mem head' mem') {view : W → β}
    (hview : ∀ value w, view (field.set value w) = view w) (a : Nat) :
    (mem' a).map view = (mem a).map view := by
  rcases h.same a with hsame | ⟨w, value, hw, hw'⟩
  · rw [hsame]
  · rw [hw, hw', Option.map_some, Option.map_some, hview]

theorem write_spec {W : Type} (field : Field W) {mem : Nat → Option W}
    (h : Leads (field.links mem) head nodes) (hmem : target ∈ nodes) {cell : Cell}
    (hcell : cell = .head ∨ ∃ a ∈ nodes, a ≠ target ∧ cell = .node a)
    (hleads : ∀ next, field.links mem target = some next →
      Leads (setLinks (field.links mem) cell next) (setHead head cell next) (nodes.erase target)) :
    ∃ head' mem', field.write mem head target cell = some (head', mem') ∧
      Unlinked field target nodes mem head' mem' := by
  have hnode : ∀ a ∈ nodes, ∃ w, mem a = some w := by
    intro a ha
    obtain ⟨next, hnext⟩ := h.allocated ha
    obtain ⟨w, hw, -⟩ := Option.map_eq_some_iff.mp hnext
    exact ⟨w, hw⟩
  obtain ⟨node, hnode'⟩ := hnode target hmem
  have hlink : field.links mem target = some (field.get node) := by simp [Field.links, hnode']
  have hleads' := hleads _ hlink
  rcases hcell with rfl | ⟨a, ha, hne, rfl⟩
  · exact ⟨field.get node, mem, by simp [Field.write, hnode'], hleads', fun _ _ => rfl, rfl,
      fun _ => Or.inl rfl⟩
  · obtain ⟨w, hw⟩ := hnode a ha
    refine ⟨head, Function.update mem a (some (field.set (field.get node) w)),
      by simp [Field.write, hnode', hw], ?_, ?_, ?_, ?_⟩
    · apply hleads'.congr
      intro b _
      simp only [Field.links, setLinks, Function.update_apply]
      split
      · simp [field.get_set]
      · rfl
    · intro b hb
      exact Function.update_of_ne (fun heq => hb (by rw [heq]; exact ha)) _ _
    · exact Function.update_of_ne (Ne.symm hne) _ _
    · intro b
      by_cases hb : b = a
      · exact Or.inr ⟨w, _, hb ▸ hw, by rw [hb, Function.update_self]⟩
      · exact Or.inl (Function.update_of_ne hb _ _)

theorem unlink_spec {W : Type} (field : Field W) {mem : Nat → Option W}
    (h : Leads (field.links mem) head nodes) (hnodup : nodes.Nodup) (hmem : target ∈ nodes)
    (hturns : nodes.length ≤ turns) :
    ∃ head' mem', field.unlink turns target head mem = some (head', mem') ∧
      field.unlinkOrEnd turns target head mem = some (some (head', mem')) ∧
      Unlinked field target nodes mem head' mem' := by
  obtain ⟨cell, hseek, hcell, hleads⟩ := seek_spec h hnodup hmem hturns
  obtain ⟨head', mem', hwrite, hunlinked⟩ := write_spec field h hmem hcell hleads
  refine ⟨head', mem', ?_, ?_, hunlinked⟩
  · simp [Field.unlink, hseek, hwrite]
  · simp [Field.unlinkOrEnd, seekOrEnd_of_seek hseek, hwrite]

/-! ## Looking up -/

theorem lookup_spec {test : Nat → Option Bool} (h : Leads links head nodes)
    (htest : ∀ a ∈ nodes, (test a).isSome) (hturns : nodes.length < turns) :
    lookup links test turns head = some (nodes.find? fun a => test a = some true) := by
  induction nodes generalizing head turns with
  | nil =>
      have hnone : head = none := h
      cases turns with
      | zero => cases hturns
      | succ turns => simp [lookup, hnone]
  | cons node rest ih =>
      obtain ⟨rfl, next, hnext, hrest⟩ := h
      obtain ⟨passes, hpasses⟩ := Option.isSome_iff_exists.mp (htest node (by simp))
      cases turns with
      | zero => cases hturns
      | succ turns =>
          have hrec := ih hrest (fun a ha => htest a (by simp [ha])) (by simpa using hturns)
          cases passes with
          | true => simp [lookup, hpasses]
          | false => simp [lookup, hpasses, hnext, hrec]

/-! ## More turns -/

theorem seek_mono {turns' : Nat} (hle : turns ≤ turns') (prv : Cell) :
    Extends (seek links target turns prv head) (seek links target turns' prv head) := by
  induction turns generalizing head turns' prv with
  | zero => exact fun _ h => by cases h
  | succ turns ih =>
      obtain ⟨turns', rfl⟩ : ∃ k, turns' = k + 1 := ⟨turns' - 1, by omega⟩
      cases head with
      | none => exact fun _ h => by cases h
      | some node =>
          rw [seek, seek]
          split
          · exact Extends.refl _
          · split
            · exact Extends.refl _
            · exact ih (by omega) (.node node)

theorem seekOrEnd_mono {turns' : Nat} (hle : turns ≤ turns') (prv : Cell) :
    Extends (seekOrEnd links target turns prv head) (seekOrEnd links target turns' prv head) := by
  induction turns generalizing head turns' prv with
  | zero => exact fun _ h => by cases h
  | succ turns ih =>
      obtain ⟨turns', rfl⟩ : ∃ k, turns' = k + 1 := ⟨turns' - 1, by omega⟩
      cases head with
      | none => exact Extends.refl _
      | some node =>
          rw [seekOrEnd, seekOrEnd]
          split
          · exact Extends.refl _
          · split
            · exact Extends.refl _
            · exact ih (by omega) (.node node)

theorem lookup_mono {turns' : Nat} {test : Nat → Option Bool} (hle : turns ≤ turns') :
    Extends (lookup links test turns head) (lookup links test turns' head) := by
  induction turns generalizing head turns' with
  | zero => exact fun _ h => by cases h
  | succ turns ih =>
      obtain ⟨turns', rfl⟩ : ∃ k, turns' = k + 1 := ⟨turns' - 1, by omega⟩
      cases head with
      | none => exact Extends.refl _
      | some node =>
          rw [lookup, lookup]
          apply (Extends.refl (test node)).bind
          intro passes
          split
          · exact Extends.refl _
          · exact (Extends.refl (links node)).bind fun _ => ih (by omega)

theorem Field.unlink_mono {W : Type} (field : Field W) {mem : Nat → Option W} {turns' : Nat}
    (hle : turns ≤ turns') :
    Extends (field.unlink turns target head mem) (field.unlink turns' target head mem) :=
  (seek_mono hle .head).bind fun _ => Extends.refl _

theorem Field.unlinkOrEnd_mono {W : Type} (field : Field W) {mem : Nat → Option W} {turns' : Nat}
    (hle : turns ≤ turns') :
    Extends (field.unlinkOrEnd turns target head mem)
      (field.unlinkOrEnd turns' target head mem) :=
  (seekOrEnd_mono hle .head).bind fun _ => Extends.refl _

end

end AfbBinder.Lib.Chain
