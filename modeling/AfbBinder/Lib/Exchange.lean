import AfbBinder.Lib.Keyed
import Mathlib.Data.List.Perm.Basic

/-!
# Requests and replies between two ends

A caller issues requests, the callee gets them in order and replies to them in any order,
and the replies come back in order.  A request waits at the caller under a key, by which
its reply is looked for; a key may be used again when nothing waits under it.  A request is
known by its rank among those issued, and a ticket is a rank with the key.
-/

namespace AfbBinder.Lib.Exchange

universe u v

structure Ticket (κ : Type u) where
  key : κ
  rank : Nat
deriving DecidableEq

/-- What is at both ends and between, and what has happened: the ranks received, the
replies given and how requests have ended, `none` standing for a request that the caller
has ended by itself. -/
structure State (κ : Type u) (ρ : Type v) where
  issued : Nat
  waiting : List (Ticket κ)
  upstream : List (Ticket κ)
  pending : List (Ticket κ)
  downstream : List (Ticket κ × ρ)
  lost : List (Ticket κ)
  received : List Nat
  answers : List (Nat × ρ)
  ended : List (Nat × Option ρ)

variable {κ : Type u} {ρ : Type v}

namespace State

def initial : State κ ρ := ⟨0, [], [], [], [], [], [], [], []⟩

/-- The tickets of the requests that are somewhere between the ends. -/
def journey (s : State κ ρ) : List (Ticket κ) :=
  s.upstream ++ s.pending ++ s.downstream.map Prod.fst ++ s.lost

/-- The requests that have left the caller and are not lost before the callee. -/
def departed (s : State κ ρ) : List Nat := s.received ++ s.upstream.map Ticket.rank

end State

/-! ## The invariant -/

/-- Each request issued has ended or waits, once, under a key of its own; those that wait
are between the ends; the callee gets the requests in order and replies once; a request
ends with a reply given to it, or without having left. -/
structure Sound (s : State κ ρ) : Prop where
  distinct : (s.waiting.map Ticket.key).Nodup
  accounted : (s.ended.map Prod.fst ++ s.waiting.map Ticket.rank).Perm (List.range s.issued)
  conserved : s.journey.Perm s.waiting
  ordered : s.departed.Pairwise (· < ·)
  below : ∀ rank ∈ s.departed, rank < s.issued
  held : ∀ ticket ∈ s.pending, ticket.rank ∈ s.received
  answered : ∀ given ∈ s.answers, given.1 ∈ s.received
  once : (s.answers.map Prod.fst ++ s.pending.map Ticket.rank).Nodup
  sent : ∀ reply ∈ s.downstream, (reply.1.rank, reply.2) ∈ s.answers
  replied : ∀ rank reply, (rank, some reply) ∈ s.ended → (rank, reply) ∈ s.answers
  refused : ∀ rank, (rank, none) ∈ s.ended → rank ∉ s.departed

theorem sound_initial : Sound (State.initial : State κ ρ) where
  distinct := List.nodup_nil
  accounted := .nil
  conserved := .nil
  ordered := .nil
  below := nofun
  held := nofun
  answered := nofun
  once := List.nodup_nil
  sent := nofun
  replied := nofun
  refused := nofun

variable {s s' : State κ ρ}

theorem Sound.next (h : Sound s) :
    (s.issued :: (s.ended.map Prod.fst ++ s.waiting.map Ticket.rank)).Perm
      (List.range (s.issued + 1)) := by
  rw [List.range_succ]
  exact (h.accounted.cons _).trans (List.perm_append_singleton _ _).symm

theorem Sound.ended_lt (h : Sound s) {rank : Nat} {ending : Option ρ}
    (hended : (rank, ending) ∈ s.ended) : rank < s.issued := by
  have hmem : rank ∈ s.ended.map Prod.fst := List.mem_map_of_mem hended
  exact List.mem_range.mp (h.accounted.subset (List.mem_append_left _ hmem))

/-- A request taken out of those that are pending is not among the others, nor answered. -/
theorem Sound.taken (h : Sound s) {index : Nat} {ticket : Ticket κ}
    (found : s.pending[index]? = some ticket) :
    s.pending.Perm (ticket :: s.pending.eraseIdx index) ∧ ticket.rank ∈ s.received ∧
      (ticket.rank :: (s.answers.map Prod.fst ++
        (s.pending.eraseIdx index).map Ticket.rank)).Nodup := by
  rcases List.getElem?_eq_some_iff.mp found with ⟨hlt, rfl⟩
  have hperm := (List.getElem_cons_eraseIdx_perm hlt).symm
  refine ⟨hperm, h.held _ (List.getElem_mem hlt), ?_⟩
  have honce := ((hperm.map Ticket.rank).append_left (s.answers.map Prod.fst)).nodup_iff.mp h.once
  exact List.perm_middle.nodup_iff.mp honce

theorem Sound.given (h : Sound s) {index : Nat} {ticket : Ticket κ}
    (found : s.pending[index]? = some ticket) (reply : ρ) :
    (∀ given ∈ s.answers ++ [(ticket.rank, reply)], given.1 ∈ s.received) ∧
      ((s.answers ++ [(ticket.rank, reply)]).map Prod.fst ++
        (s.pending.eraseIdx index).map Ticket.rank).Nodup := by
  rcases h.taken found with ⟨-, hgot, honce⟩
  constructor
  · intro given hgiven
    rcases List.mem_append.mp hgiven with hgiven | hgiven
    · exact h.answered given hgiven
    · rw [List.mem_singleton.mp hgiven]
      exact hgot
  · rw [List.map_append, List.append_assoc]
    exact List.perm_middle.nodup_iff.mpr honce

theorem Sound.issue (h : Sound s) {key : κ} (fresh : key ∉ s.waiting.map Ticket.key) :
    Sound { s with
      issued := s.issued + 1
      waiting := ⟨key, s.issued⟩ :: s.waiting
      upstream := s.upstream ++ [⟨key, s.issued⟩] } := by
  have hdeparted : State.departed { s with upstream := s.upstream ++ [⟨key, s.issued⟩] } =
      s.departed ++ [s.issued] := by
    simp [State.departed]
  exact { h with
    distinct := List.nodup_cons.mpr ⟨fresh, h.distinct⟩
    accounted := List.perm_middle.trans h.next
    conserved := by
      refine List.Perm.trans ?_ (h.conserved.cons ⟨key, s.issued⟩)
      simp only [State.journey, List.append_assoc, List.cons_append, List.nil_append]
      exact List.perm_middle
    ordered := by
      refine hdeparted ▸ List.pairwise_append.mpr ⟨h.ordered, List.pairwise_singleton _ _, ?_⟩
      intro rank hrank last hlast
      rw [List.mem_singleton.mp hlast]
      exact h.below rank hrank
    below := by
      intro rank hrank
      rcases List.mem_append.mp (hdeparted ▸ hrank) with hrank | hrank
      · exact Nat.lt_succ_of_lt (h.below rank hrank)
      · rw [List.mem_singleton.mp hrank]
        exact Nat.lt_succ_self _
    refused := by
      intro rank hended hrank
      rcases List.mem_append.mp (hdeparted ▸ hrank) with hrank | hrank
      · exact h.refused rank hended hrank
      · rw [List.mem_singleton.mp hrank] at hended
        exact Nat.lt_irrefl _ (h.ended_lt hended) }

theorem Sound.refuse (h : Sound s) :
    Sound { s with issued := s.issued + 1, ended := s.ended ++ [(s.issued, none)] } :=
  { h with
    accounted := by
      simp only [List.map_append, List.map_cons, List.map_nil, List.append_assoc,
        List.singleton_append]
      exact List.perm_middle.trans h.next
    below := fun rank hrank => Nat.lt_succ_of_lt (h.below rank hrank)
    replied := by
      intro rank reply hended
      rcases List.mem_append.mp hended with hended | hended
      · exact h.replied rank reply hended
      · cases List.mem_singleton.mp hended
    refused := by
      intro rank hended hrank
      rcases List.mem_append.mp hended with hended | hended
      · exact h.refused rank hended hrank
      · cases List.mem_singleton.mp hended
        exact Nat.lt_irrefl _ (h.below _ hrank) }

/-! ## What it gives -/

/-- No request ends twice. -/
theorem Sound.ended_once (h : Sound s) : (s.ended.map Prod.fst).Nodup :=
  (List.nodup_append.mp (h.accounted.nodup_iff.mpr List.nodup_range)).1

/-- Each request issued has ended or is between the ends. -/
theorem Sound.whole (h : Sound s) :
    (s.ended.map Prod.fst ++ s.journey.map Ticket.rank).Perm (List.range s.issued) :=
  ((h.conserved.map Ticket.rank).append_left _).trans h.accounted

/-- The callee gets the requests in the order in which they were issued. -/
theorem Sound.received_ordered (h : Sound s) : s.received.Pairwise (· < ·) :=
  (List.pairwise_append.mp h.ordered).1

theorem Sound.answered_once (h : Sound s) : (s.answers.map Prod.fst).Nodup :=
  (List.nodup_append.mp h.once).1

/-- What the caller has refused never reached the callee. -/
theorem Sound.refused_unreceived (h : Sound s) {rank : Nat} (hended : (rank, none) ∈ s.ended) :
    rank ∉ s.received :=
  fun hrank => h.refused rank hended (List.mem_append_left _ hrank)

/-! ## Steps -/

variable [DecidableEq κ]

/-- What can happen.  A request or a reply can be lost; the caller ends the request that it
finds under the key of a reply. -/
inductive Step (s : State κ ρ) : State κ ρ → Prop
  | issue (key : κ) (fresh : key ∉ s.waiting.map Ticket.key) : Step s { s with
      issued := s.issued + 1
      waiting := ⟨key, s.issued⟩ :: s.waiting
      upstream := s.upstream ++ [⟨key, s.issued⟩] }
  | refuse : Step s { s with issued := s.issued + 1, ended := s.ended ++ [(s.issued, none)] }
  | accept {ticket : Ticket κ} {upstream : List (Ticket κ)} (next : s.upstream = ticket :: upstream) :
      Step s { s with
        upstream
        pending := s.pending ++ [ticket]
        received := s.received ++ [ticket.rank] }
  | drop {ticket : Ticket κ} {upstream : List (Ticket κ)} (next : s.upstream = ticket :: upstream) :
      Step s { s with upstream, lost := ticket :: s.lost }
  | answer {index : Nat} {ticket : Ticket κ} (found : s.pending[index]? = some ticket) (reply : ρ) :
      Step s { s with
        pending := s.pending.eraseIdx index
        answers := s.answers ++ [(ticket.rank, reply)]
        downstream := s.downstream ++ [(ticket, reply)] }
  | mislay {index : Nat} {ticket : Ticket κ} (found : s.pending[index]? = some ticket) (reply : ρ) :
      Step s { s with
        pending := s.pending.eraseIdx index
        answers := s.answers ++ [(ticket.rank, reply)]
        lost := ticket :: s.lost }
  | abandon {index : Nat} {ticket : Ticket κ} (found : s.pending[index]? = some ticket) :
      Step s { s with pending := s.pending.eraseIdx index, lost := ticket :: s.lost }
  | settle {ticket found : Ticket κ} {reply : ρ} {downstream : List (Ticket κ × ρ)}
      (next : s.downstream = (ticket, reply) :: downstream)
      (search : Keyed.search Ticket.key s.waiting ticket.key = some found) : Step s { s with
        downstream
        waiting := s.waiting.erase found
        ended := s.ended ++ [(found.rank, some reply)] }
  | ignore {ticket : Ticket κ} {reply : ρ} {downstream : List (Ticket κ × ρ)}
      (next : s.downstream = (ticket, reply) :: downstream)
      (search : Keyed.search Ticket.key s.waiting ticket.key = none) : Step s { s with downstream }

theorem Sound.accept (h : Sound s) {ticket : Ticket κ} {upstream : List (Ticket κ)}
    (next : s.upstream = ticket :: upstream) :
    Sound { s with
      upstream
      pending := s.pending ++ [ticket]
      received := s.received ++ [ticket.rank] } := by
  have hdeparted : State.departed { s with
      upstream, received := s.received ++ [ticket.rank] } = s.departed := by
    simp [State.departed, next]
  -- the request is new to the callee
  have hnew : ticket.rank ∉ s.received := by
    intro hmem
    have hordered := h.ordered
    rw [State.departed, next] at hordered
    exact Nat.lt_irrefl _ ((List.pairwise_append.mp hordered).2.2 _ hmem _ (by simp))
  exact { h with
    conserved := by
      refine List.Perm.trans ?_ h.conserved
      apply List.perm_iff_count.mpr
      intro other
      simp only [State.journey, next, List.count_append, List.count_cons, List.count_nil]
      omega
    ordered := hdeparted ▸ h.ordered
    below := hdeparted ▸ h.below
    held := by
      intro other hother
      rcases List.mem_append.mp hother with hother | hother
      · exact List.mem_append_left _ (h.held other hother)
      · rw [List.mem_singleton.mp hother]
        exact List.mem_append_right _ (List.mem_singleton_self _)
    answered := fun given hgiven => List.mem_append_left _ (h.answered given hgiven)
    once := by
      rw [List.map_append, ← List.append_assoc]
      refine List.nodup_append.mpr ⟨h.once, by simp, ?_⟩
      intro rank hrank last hlast heq
      rw [List.map_singleton, List.mem_singleton] at hlast
      subst hlast heq
      rcases List.mem_append.mp hrank with hrank | hrank
      · rcases List.mem_map.mp hrank with ⟨given, hgiven, heq⟩
        exact hnew (heq ▸ h.answered given hgiven)
      · rcases List.mem_map.mp hrank with ⟨other, hother, heq⟩
        exact hnew (heq ▸ h.held other hother)
    refused := by
      intro rank hended
      exact hdeparted ▸ h.refused rank hended }

theorem Sound.drop (h : Sound s) {ticket : Ticket κ} {upstream : List (Ticket κ)}
    (next : s.upstream = ticket :: upstream) :
    Sound { s with upstream, lost := ticket :: s.lost } := by
  have hsub : (State.departed { s with upstream }).Sublist s.departed := by
    rw [State.departed, State.departed, next]
    exact (List.Sublist.refl _).append (List.sublist_cons_self _ _)
  exact { h with
    conserved := by
      refine List.Perm.trans ?_ h.conserved
      apply List.perm_iff_count.mpr
      intro other
      simp only [State.journey, next, List.count_append, List.count_cons]
      omega
    ordered := h.ordered.sublist hsub
    below := fun rank hrank => h.below rank (hsub.subset hrank)
    refused := fun rank hended hrank => h.refused rank hended (hsub.subset hrank) }

theorem Sound.answer (h : Sound s) {index : Nat} {ticket : Ticket κ}
    (found : s.pending[index]? = some ticket) (reply : ρ) :
    Sound { s with
      pending := s.pending.eraseIdx index
      answers := s.answers ++ [(ticket.rank, reply)]
      downstream := s.downstream ++ [(ticket, reply)] } :=
  { h with
    conserved := by
      refine List.Perm.trans ?_ h.conserved
      apply List.perm_iff_count.mpr
      intro other
      have hcount := (h.taken found).1.count_eq other
      simp only [List.count_cons] at hcount
      simp only [State.journey, List.map_append, List.map_cons, List.map_nil, List.count_append,
        List.count_cons, List.count_nil]
      omega
    held := fun other hother => h.held other (List.mem_of_mem_eraseIdx hother)
    answered := (h.given found reply).1
    once := (h.given found reply).2
    sent := by
      intro sent hsent
      rcases List.mem_append.mp hsent with hsent | hsent
      · exact List.mem_append_left _ (h.sent sent hsent)
      · rw [List.mem_singleton.mp hsent]
        exact List.mem_append_right _ (List.mem_singleton_self _)
    replied := fun rank ending hended => List.mem_append_left _ (h.replied rank ending hended) }

theorem Sound.mislay (h : Sound s) {index : Nat} {ticket : Ticket κ}
    (found : s.pending[index]? = some ticket) (reply : ρ) :
    Sound { s with
      pending := s.pending.eraseIdx index
      answers := s.answers ++ [(ticket.rank, reply)]
      lost := ticket :: s.lost } :=
  { h with
    conserved := by
      refine List.Perm.trans ?_ h.conserved
      apply List.perm_iff_count.mpr
      intro other
      have hcount := (h.taken found).1.count_eq other
      simp only [List.count_cons] at hcount
      simp only [State.journey, List.count_append, List.count_cons]
      omega
    held := fun other hother => h.held other (List.mem_of_mem_eraseIdx hother)
    answered := (h.given found reply).1
    once := (h.given found reply).2
    sent := fun sent hsent => List.mem_append_left _ (h.sent sent hsent)
    replied := fun rank ending hended => List.mem_append_left _ (h.replied rank ending hended) }

theorem Sound.abandon (h : Sound s) {index : Nat} {ticket : Ticket κ}
    (found : s.pending[index]? = some ticket) :
    Sound { s with pending := s.pending.eraseIdx index, lost := ticket :: s.lost } :=
  { h with
    conserved := by
      refine List.Perm.trans ?_ h.conserved
      apply List.perm_iff_count.mpr
      intro other
      have hcount := (h.taken found).1.count_eq other
      simp only [List.count_cons] at hcount
      simp only [State.journey, List.count_append, List.count_cons]
      omega
    held := fun other hother => h.held other (List.mem_of_mem_eraseIdx hother)
    once := (List.nodup_cons.mp (h.taken found).2.2).2 }

/-- The ticket of a reply on its way waits, and is the one found by its key. -/
theorem Sound.search_next (h : Sound s) {ticket : Ticket κ} {reply : ρ}
    {downstream : List (Ticket κ × ρ)} (next : s.downstream = (ticket, reply) :: downstream) :
    ticket ∈ s.waiting ∧ Keyed.search Ticket.key s.waiting ticket.key = some ticket := by
  have hmem : ticket ∈ s.waiting := by
    apply h.conserved.subset
    simp [State.journey, next]
  exact ⟨hmem, Keyed.search_mem h.distinct hmem⟩

theorem Sound.settle (h : Sound s) {ticket : Ticket κ} {reply : ρ}
    {downstream : List (Ticket κ × ρ)} (next : s.downstream = (ticket, reply) :: downstream) :
    Sound { s with
      downstream
      waiting := s.waiting.erase ticket
      ended := s.ended ++ [(ticket.rank, some reply)] } := by
  have hmem := (h.search_next next).1
  have hwaiting := List.perm_cons_erase hmem
  have hgiven : (ticket.rank, reply) ∈ s.answers :=
    h.sent (ticket, reply) (next ▸ List.mem_cons_self)
  exact { h with
    distinct := h.distinct.sublist (List.erase_sublist.map Ticket.key)
    accounted := by
      simp only [List.map_append, List.map_cons, List.map_nil, List.append_assoc,
        List.singleton_append]
      exact ((hwaiting.map Ticket.rank).symm.append_left _).trans h.accounted
    conserved := by
      have hjourney : (ticket :: State.journey { s with downstream }).Perm s.journey := by
        apply List.perm_iff_count.mpr
        intro other
        simp only [State.journey, next, List.map_cons, List.count_append, List.count_cons]
        omega
      exact (hjourney.trans (h.conserved.trans hwaiting)).cons_inv
    sent := fun sent hsent => h.sent sent (next ▸ List.mem_cons_of_mem _ hsent)
    replied := by
      intro rank other hended
      rcases List.mem_append.mp hended with hended | hended
      · exact h.replied rank other hended
      · cases List.mem_singleton.mp hended
        exact hgiven
    refused := by
      intro rank hended
      rcases List.mem_append.mp hended with hended | hended
      · exact h.refused rank hended
      · cases List.mem_singleton.mp hended }

/-- The invariant is kept; in particular no reply is ignored. -/
theorem Sound.step (h : Sound s) (hstep : Step s s') : Sound s' := by
  cases hstep with
  | issue key fresh => exact h.issue fresh
  | refuse => exact h.refuse
  | accept next => exact h.accept next
  | drop next => exact h.drop next
  | answer found reply => exact h.answer found reply
  | mislay found reply => exact h.mislay found reply
  | abandon found => exact h.abandon found
  | settle next search =>
      cases (h.search_next next).2.symm.trans search
      exact h.settle next
  | ignore next search => cases (h.search_next next).2.symm.trans search

end AfbBinder.Lib.Exchange
