import AfbBinder.Http.Handlers

/-!
# The location of the one-page redirection

The location is the URL up to the tail, `/#!` and the tail without its slash; its stores
fill the buffer exactly.  When the tail is empty the NUL of the URL is copied before the
`#!`, and the location is the URL itself.
-/

namespace AfbBinder.Http

open Lib

variable {τ : Type}

/-- The stores are inside of the buffer, that holds a string; the string is made of the URL
up to the tail, `/#!` and the tail without its slash, and is not the URL. -/
structure Redirects (url tail : Bytes) (redirected : Redirected) : Prop where
  inBounds : ∀ store ∈ redirected.stores, store.1 + store.2.length ≤ url.length + 3
  terminated : 0 ∈ redirected.buffer
  location : cstring redirected.buffer =
    url.take (url.length - tail.length) ++ ([slash, 35, 33] ++ tail.drop 1)
  differs : cstring redirected.buffer ≠ url

theorem stores_fill (stack : Nat → UInt8) {first second : Bytes} {size : Nat}
    (h : first.length + 2 + second.length = size) :
    [(0, first), (first.length, [35]), (first.length + 1, [33]), (first.length + 2, second)].foldl
        (fun buffer store => copyAt buffer store.1 store.2) ((List.range size).map stack) =
      first ++ ([35, 33] ++ second) := by
  have hlength : ((List.range size).map stack).length = size := by simp
  generalize (List.range size).map stack = buffer at hlength
  have hfirst : copyAt buffer 0 first = first ++ buffer.drop first.length := by
    simpa using copyAt_append [] buffer first
  have hnumber := copyAt_append first (buffer.drop first.length) [35]
  have hbang := copyAt_append (first ++ [35]) ((buffer.drop first.length).drop 1) [33]
  have hlast := copyAt_append (first ++ [35] ++ [33])
    (((buffer.drop first.length).drop 1).drop 1) second
  have hend : (((buffer.drop first.length).drop 1).drop 1).drop second.length = [] := by
    rw [List.drop_drop, List.drop_drop, List.drop_drop]
    apply List.drop_eq_nil_of_le
    omega
  simp only [List.length_append, List.length_singleton, Nat.add_assoc, Nat.reduceAdd]
    at hnumber hbang hlast
  simp only [List.foldl_cons, List.foldl_nil]
  rw [hfirst, hnumber, hbang, hlast, hend]
  simp

/-- The stores, when the memory is split at the second byte of the tail. -/
theorem onePage_eq (stack : Nat → UInt8) {memory first second after : Bytes} {lenurl lentail : Nat}
    (hmemory : memory = first ++ (second ++ after)) (hfirst : lenurl - lentail + 1 = first.length)
    (hsecond : lentail = second.length) (hle : lentail ≤ lenurl) :
    onePage stack memory lenurl lentail =
      ⟨[(0, first), (first.length, [35]), (first.length + 1, [33]), (first.length + 2, second)],
        first ++ ([35, 33] ++ second)⟩ := by
  have hstores : onePageStores memory lenurl lentail =
      [(0, first), (first.length, [35]), (first.length + 1, [33]), (first.length + 2, second)] := by
    unfold onePageStores
    rw [hfirst, hsecond, hmemory]
    simp only [List.take_left, List.drop_left]
  have hsize : first.length + 2 + second.length = lenurl + 3 := by omega
  unfold onePage
  rw [hstores, stores_fill stack hsize]

section Location

variable {url : CString} (stack : Nat → UInt8) (beyond : Bytes)

/-- A tail that starts with a slash fills the buffer with the location and its NUL. -/
theorem redirects_slash {front rest : Bytes} (hurl : url.bytes = front ++ slash :: rest) :
    Redirects url.bytes (slash :: rest)
      (onePage stack (memoryOf url beyond) url.bytes.length (slash :: rest).length) := by
  have htotal : url.bytes.length = front.length + (rest.length + 1) := by
    rw [hurl, List.length_append, List.length_cons]
  have hmemory : memoryOf url beyond = (front ++ [slash]) ++ ((rest ++ [0]) ++ beyond) := by
    simp [memoryOf, hurl]
  have hfirst : url.bytes.length - (slash :: rest).length + 1 = (front ++ [slash]).length := by
    rw [List.length_cons, List.length_append, List.length_singleton]
    omega
  have hsecond : (slash :: rest).length = (rest ++ [0]).length := by simp
  have hle : (slash :: rest).length ≤ url.bytes.length := by
    rw [List.length_cons]
    omega
  have htake : url.bytes.take (url.bytes.length - (slash :: rest).length) = front := by
    have hplace : url.bytes.length - (slash :: rest).length = front.length := by
      rw [List.length_cons]
      omega
    rw [hplace, hurl, List.take_left]
  have hnul : (0 : UInt8) ∉ front ++ ([slash, 35, 33] ++ rest) := by
    have hfree := url.nulFree
    rw [hurl, List.mem_append, List.mem_cons] at hfree
    rintro hmem
    rcases List.mem_append.mp hmem with hmem | hmem
    · exact hfree (Or.inl hmem)
    · rcases List.mem_append.mp hmem with hmem | hmem
      · revert hmem
        decide
      · exact hfree (Or.inr (Or.inr hmem))
  have hbuffer : front ++ [slash] ++ ([35, 33] ++ (rest ++ [0])) =
      (front ++ ([slash, 35, 33] ++ rest)) ++ 0 :: [] := by simp
  have hlocation : cstring (front ++ [slash] ++ ([35, 33] ++ (rest ++ [0]))) =
      front ++ ([slash, 35, 33] ++ rest) := by
    rw [hbuffer]
    exact cstring_append ⟨_, hnul⟩ []
  rw [onePage_eq stack hmemory hfirst hsecond hle]
  constructor
  · simp only [List.forall_mem_cons, List.length_append, List.length_singleton]
    simp only [List.not_mem_nil, false_implies, implies_true, and_true]
    omega
  · simp
  · dsimp only
    rw [hlocation, htake, List.drop_one, List.tail_cons]
  · dsimp only
    rw [hlocation]
    intro hsame
    have hlength := congrArg List.length hsame
    rw [List.length_append, List.length_append, htotal] at hlength
    simp only [List.length_cons, List.length_nil] at hlength
    omega

theorem onePage_nil :
    cstring (onePage stack (memoryOf url beyond) url.bytes.length 0).buffer = url.bytes := by
  have hmemory : memoryOf url beyond = (url.bytes ++ [0]) ++ ([] ++ beyond) := by
    simp [memoryOf]
  have hfirst : url.bytes.length - 0 + 1 = (url.bytes ++ [0]).length := by simp
  rw [onePage_eq stack hmemory hfirst rfl (Nat.zero_le _)]
  have hbuffer : url.bytes ++ [0] ++ ([35, 33] ++ []) = url.bytes ++ 0 :: [35, 33] := by simp
  dsimp only
  rw [hbuffer, cstring_append]

theorem redirects_iff {pfx tail : Bytes} (h : Remains pfx url.bytes tail) :
    Redirects url.bytes tail
        (onePage stack (memoryOf url beyond) url.bytes.length tail.length) ↔ tail ≠ [] := by
  rcases h with ⟨front, slashes, hsplit, -, -, hend⟩
  rcases hend with ⟨rfl, -⟩ | ⟨rest, rfl, -⟩
  · constructor
    · intro hredirects
      exact absurd (onePage_nil stack beyond) hredirects.differs
    · exact fun hne => absurd rfl hne
  · constructor
    · exact fun _ => List.cons_ne_nil slash rest
    · exact fun _ => redirects_slash stack beyond hsplit

end Location

/-- Whether a call is one of the redirection, for a tail that does not start with `/#`. -/
def Server.isOnePage {outside : Outside τ} (server : Server outside)
    (call : HandlerCall (Request τ)) : Bool :=
  match server.kind call.handler with
  | .onePage => !tailHash call.tail
  | _ => false

/-- The redirections made for a request are right exactly when the URL is longer than the
base prefix, its trailing slashes apart. -/
theorem one_page_redirect_iff {outside : Outside τ} (server : Server outside) (url : CString)
    (method : Method) (beyond : Bytes) (args : List Argument) (other : τ) :
    let served := server.serve url (freshRequest method beyond args other)
    List.Forall₂
      (fun call redirected =>
        Redirects url.bytes call.tail redirected ↔ call.handler.length < url.bytes.length)
      (served.1.filter server.isOnePage) served.2.rest.redirected := by
  intro served
  rw [server.redirected_eq]
  apply forall₂_recorded
  · intro call hcall honePage
    rcases call_share hcall with ⟨hmem, hshare⟩
    unfold Server.isOnePage at honePage
    unfold Server.redirections
    cases hkind : server.kind call.handler with
    | handleAlias da =>
        rw [hkind] at honePage
        cases honePage
    | onePage =>
        rw [hkind] at honePage
        have hhash : tailHash call.tail = false := by simpa using honePage
        simp only [hhash, Bool.false_eq_true, if_false]
        refine ⟨_, rfl, ?_⟩
        rw [redirects_iff _ _ (share_remains hmem hshare), share_ne_nil_iff hmem hshare]
    | other =>
        rw [hkind] at honePage
        cases honePage
  · intro call _ hother
    unfold Server.isOnePage at hother
    unfold Server.redirections
    cases hkind : server.kind call.handler with
    | handleAlias da => rfl
    | onePage =>
        rw [hkind] at hother
        have hhash : tailHash call.tail = true := by simpa using hother
        simp only [hhash, if_true]
    | other => rfl

/-- A server with the base `/opa`. -/
def opaServer : Server emptyOutside where
  regs := [⟨⟨[47, 111, 112, 97], by decide⟩, onePageServe emptyOutside, -20, true⟩]
  kind _ := .onePage
  does := by
    intro handler hmem
    rw [List.mem_singleton.mp hmem]
    exact rfl

/-- The URL `/opa` is redirected to itself. -/
theorem one_page_redirect_fails :
    let served := opaServer.serve ⟨[47, 111, 112, 97], by decide⟩ (freshRequest .get [] [] ())
    served.1.map HandlerCall.tail = [[]] ∧ served.2.reply = some 301 ∧
      served.2.rest.location = some [47, 111, 112, 97] ∧
      ∀ redirected ∈ served.2.rest.redirected, ¬Redirects [47, 111, 112, 97] [] redirected := by
  refine ⟨rfl, rfl, by decide, ?_⟩
  intro redirected hmem hredirects
  rcases List.mem_singleton.mp hmem with rfl
  exact hredirects.differs (by decide)

end AfbBinder.Http
