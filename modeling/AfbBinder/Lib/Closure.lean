import Mathlib.Logic.Relation

/-!
# Closing a list under a partial function

A loop goes over a list from its start and appends, for each element, the next one of that
element if there is one and the list lacks it.  When it has gone over the whole list, the
list has what can be reached from its first elements.
-/

namespace AfbBinder.Lib

universe u

variable {α : Type u} {next : α → Option α} {start nodes nodes' : List α} {node : Nat} {x : α}

/-- From an element to another one, by any number of steps. -/
def Leads (next : α → Option α) : α → α → Prop :=
  Relation.ReflTransGen fun a b => next a = some b

theorem Leads.head {a b : α} (hstep : next a = some b) (h : Leads next b x) : Leads next a x :=
  Relation.ReflTransGen.head hstep h

/-- Steps that make a number smaller come to an end. -/
theorem Leads.ends (size : α → Nat) (h : ∀ a b, next a = some b → size b < size a) (a : α) :
    ∃ last, Leads next a last ∧ next last = none := by
  induction hn : size a using Nat.strongRecOn generalizing a with
  | ind n ih =>
      cases hstep : next a with
      | none => exact ⟨a, .refl, hstep⟩
      | some b =>
          have hlt := h a b hstep
          rw [hn] at hlt
          rcases ih (size b) hlt b rfl with ⟨last, hleads, hlast⟩
          exact ⟨last, hleads.head hstep, hlast⟩

/-- An element of the list leads there. -/
def Reached (next : α → Option α) (start : List α) (x : α) : Prop := ∃ a ∈ start, Leads next a x

theorem Reached.of_mem (h : x ∈ start) : Reached next start x := ⟨x, h, .refl⟩

theorem Reached.step {y : α} (h : Reached next start x) (hy : next x = some y) :
    Reached next start y := by
  rcases h with ⟨a, ha, hleads⟩
  exact ⟨a, ha, hleads.tail hy⟩

theorem Reached.mono (hsub : start ⊆ nodes) (h : Reached next start x) : Reached next nodes x := by
  rcases h with ⟨a, ha, hleads⟩
  exact ⟨a, hsub ha, hleads⟩

theorem Reached.trans (hnodes : ∀ y ∈ nodes, Reached next start y) (h : Reached next nodes x) :
    Reached next start x := by
  rcases h with ⟨b, hb, hx⟩
  rcases hnodes b hb with ⟨a, ha, hleads⟩
  exact ⟨a, ha, hleads.trans hx⟩

/-- The loop has gone over the first elements of the list. -/
structure Closing (next : α → Option α) (start : List α) (node : Nat) (nodes : List α) : Prop where
  kept : start ⊆ nodes
  reached : ∀ x ∈ nodes, Reached next start x
  closed : ∀ i < node, ∀ a, nodes[i]? = some a → ∀ b, next a = some b → b ∈ nodes

theorem Closing.init (next : α → Option α) (start : List α) : Closing next start 0 start where
  kept := fun _ h => h
  reached := fun _ h => .of_mem h
  closed := fun _ h => absurd h (Nat.not_lt_zero _)

/-- The loop goes over one more element, which has its next one in the list at the end. -/
theorem Closing.turn (h : Closing next start node nodes) {a : α} (ha : nodes[node]? = some a)
    (hfront : nodes <+: nodes') (hnew : ∀ b ∈ nodes', b ∈ nodes ∨ next a = some b)
    (hnext : ∀ b, next a = some b → b ∈ nodes') : Closing next start (node + 1) nodes' where
  kept := fun _ hx => hfront.subset (h.kept hx)
  reached := by
    intro b hb
    rcases hnew b hb with hold | hstep
    · exact h.reached b hold
    · exact (h.reached a (List.mem_of_getElem? ha)).step hstep
  closed := by
    intro i hi c hc b hb
    have hnode := (List.getElem?_eq_some_iff.mp ha).1
    rcases hfront with ⟨more, rfl⟩
    rw [List.getElem?_append_left (by omega)] at hc
    rcases Nat.lt_or_eq_of_le (Nat.le_of_lt_succ hi) with hlt | rfl
    · exact List.mem_append_left more (h.closed i hlt c hc b hb)
    · rw [ha] at hc
      cases hc
      exact hnext b hb

theorem Closing.end_closed (h : Closing next start node nodes) (hend : nodes.length ≤ node) {a b : α}
    (ha : a ∈ nodes) (hb : next a = some b) : b ∈ nodes := by
  rcases List.mem_iff_getElem?.mp ha with ⟨i, hi⟩
  have hlt := (List.getElem?_eq_some_iff.mp hi).1
  exact h.closed i (by omega) a hi b hb

/-- The list at the end has what is reached, and nothing else. -/
theorem Closing.mem_iff (h : Closing next start node nodes) (hend : nodes.length ≤ node) :
    x ∈ nodes ↔ Reached next start x := by
  constructor
  · exact h.reached x
  · intro hx
    rcases hx with ⟨a, ha, hleads⟩
    induction hleads with
    | refl => exact h.kept ha
    | tail _ hstep ih => exact h.end_closed hend ih hstep

end AfbBinder.Lib
