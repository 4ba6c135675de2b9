import AfbBinder.Http.Handlers

/-!
# The file that an alias looks up

An alias looks up what follows its prefix and the slashes.  When nothing follows the
prefix, the handler reads after the NUL of the URL.
-/

namespace AfbBinder.Http

open Lib

variable {τ : Type}

/-- The name looked up is what follows the prefix and its slashes in the URL, and nothing is
read after the NUL of the URL. -/
structure UsesUrl (pfx url : Bytes) (looked : Looked) : Prop where
  name : ∃ front slashes, url = front ++ slashes ++ looked.name ∧
    front.map tolower = (pfx.rdropWhile (· == slash)).map tolower ∧
    (∀ c ∈ slashes, c = slash) ∧ looked.name.head? ≠ some slash
  read : looked.first + looked.name.length ≤ url.length

/-- What is read from the second byte of a tail that starts with a slash. -/
theorem lookedAt_slash {url : CString} {front rest : Bytes}
    (hurl : url.bytes = front ++ slash :: rest) (root : Nat) (beyond : Bytes) :
    lookedAt root (memoryOf url beyond) url.bytes.length (slash :: rest).length =
      ⟨root, front.length + 1, rest⟩ := by
  have hplace : url.bytes.length - (slash :: rest).length = front.length := by
    rw [hurl, List.length_append, Nat.add_sub_cancel]
  have hnul : (0 : UInt8) ∉ rest := by
    intro hmem
    apply url.nulFree
    rw [hurl]
    exact List.mem_append_right front (List.mem_cons_of_mem slash hmem)
  have hmemory : memoryOf url beyond = (front ++ [slash]) ++ (rest ++ 0 :: beyond) := by
    simp [memoryOf, hurl]
  have hstart : (front ++ [slash]).length = front.length + 1 := by simp
  unfold lookedAt
  rw [hplace, hmemory, ← hstart, List.drop_left, cstring_append ⟨rest, hnul⟩]

theorem lookedAt_uses_iff {pfx tail : Bytes} {url : CString} (h : Remains pfx url.bytes tail)
    (root : Nat) (beyond : Bytes) :
    UsesUrl pfx url.bytes
        (lookedAt root (memoryOf url beyond) url.bytes.length tail.length) ↔ tail ≠ [] := by
  rcases h with ⟨front, slashes, hsplit, hfront, hslashes, hend⟩
  rcases hend with ⟨rfl, -⟩ | ⟨rest, rfl, hrest⟩
  · -- the first byte read is after the NUL
    constructor
    · intro huses
      have hread := huses.read
      simp only [lookedAt, List.length_nil] at hread
      omega
    · exact fun hne => absurd rfl hne
  · constructor
    · exact fun _ => List.cons_ne_nil slash rest
    · intro _
      rw [lookedAt_slash hsplit]
      have hurl : url.bytes = front ++ (slashes ++ [slash]) ++ rest := by simp [hsplit]
      constructor
      · refine ⟨front, slashes ++ [slash], hurl, hfront, ?_, hrest⟩
        intro c hc
        rcases List.mem_append.mp hc with hc | hc
        · exact hslashes c hc
        · exact List.mem_singleton.mp hc
      · have hlength := congrArg List.length hurl
        simp only [List.length_append, List.length_singleton] at hlength ⊢
        omega

/-- Whether a call is one of an alias. -/
def Server.isAlias {outside : Outside τ} (server : Server outside)
    (call : HandlerCall (Request τ)) : Bool :=
  match server.kind call.handler with
  | .handleAlias _ => true
  | _ => false

/-- The aliases called for a request look up what the URL tells exactly when the URL is
longer than their prefix, its trailing slashes apart. -/
theorem alias_lookup_iff {outside : Outside τ} (server : Server outside) (url : CString)
    (beyond : Bytes) (args : List Argument) (other : τ) :
    let served := server.serve url (freshRequest .get beyond args other)
    List.Forall₂
      (fun call looked =>
        UsesUrl call.handler.pfx.bytes url.bytes looked ↔ call.handler.length < url.bytes.length)
      (served.1.filter server.isAlias) served.2.rest.looked := by
  intro served
  rw [server.looked_eq]
  apply forall₂_recorded
  · intro call hcall halias
    rcases call_share hcall with ⟨hmem, hshare⟩
    unfold Server.isAlias at halias
    unfold Server.lookups
    cases hkind : server.kind call.handler with
    | handleAlias da =>
        refine ⟨_, rfl, ?_⟩
        rw [lookedAt_uses_iff (share_remains hmem hshare), share_ne_nil_iff hmem hshare]
    | onePage =>
        rw [hkind] at halias
        cases halias
    | other =>
        rw [hkind] at halias
        cases halias
  · intro call _ hother
    unfold Server.isAlias at hother
    unfold Server.lookups
    cases hkind : server.kind call.handler with
    | handleAlias da =>
        rw [hkind] at hother
        cases hother
    | onePage => rfl
    | other => rfl

/-- A server with the alias `/a`. -/
def aliasServer : Server emptyOutside where
  regs := [⟨⟨[47, 97], by decide⟩, aliasServe emptyOutside ⟨1, false⟩, 0, true⟩]
  kind _ := .handleAlias ⟨1, false⟩
  does := by
    intro handler hmem
    rw [List.mem_singleton.mp hmem]
    exact rfl

/-- For the URL `/a` the alias looks up what the memory holds after the URL. -/
theorem alias_lookup_fails :
    let served := aliasServer.serve ⟨[47, 97], by decide⟩
      (freshRequest .get [115, 101, 99, 0] [] ())
    served.2.rest.looked = [⟨1, 3, [115, 101, 99]⟩] ∧
      ¬UsesUrl [47, 97] [47, 97] ⟨1, 3, [115, 101, 99]⟩ := by
  constructor
  · rfl
  · intro huses
    have hread := huses.read
    revert hread
    decide

end AfbBinder.Http
