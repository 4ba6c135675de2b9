import AfbBinder.Handshake.Accept
import AfbBinder.WsClient.Headers

/-!
# The upgrade of a connection

`check_websocket_upgrade` of the websocket server looks at the headers of a request, chooses a
protocol among those that the client names, in the order of the client, and answers.
-/

namespace AfbBinder.Handshake

open Lib WsClient

/-! ## Words of a header -/

def vseparators : Bytes := ascii " \t,"

/-- A byte of a word: `strcspn` goes over it. -/
def isWord (c : UInt8) : Bool := c ∉ vseparators

/-- The turn of a loop over the words: the word found after the separators, and what follows
it; `none` at the end of the text. -/
def nextWord (text : Bytes) : Option (Bytes × Bytes) :=
  let text := text.drop (strspn text vseparators)
  if text = [] then none
  else some (text.take (strcspn text vseparators), text.drop (strcspn text vseparators))

theorem nextWord_eq (text : Bytes) :
    nextWord text =
      if text.dropWhile (!isWord ·) = [] then none
      else some ((text.dropWhile (!isWord ·)).takeWhile isWord,
        (text.dropWhile (!isWord ·)).dropWhile isWord) := by
  have hspaces : text.drop (strspn text vseparators) = text.dropWhile (!isWord ·) := by
    rw [strspn, drop_takeWhile]
    simp [isWord]
  have htake : ∀ t : Bytes, t.take (strcspn t vseparators) = t.takeWhile isWord :=
    fun t => take_takeWhile isWord t
  have hdrop : ∀ t : Bytes, t.drop (strcspn t vseparators) = t.dropWhile isWord :=
    fun t => drop_takeWhile isWord t
  unfold nextWord
  dsimp only
  rw [hspaces, htake, hdrop]

theorem nextWord_length {text word rest : Bytes} (h : nextWord text = some (word, rest)) :
    rest.length < text.length := by
  rw [nextWord_eq] at h
  split at h
  case isTrue => cases h
  case isFalse hne =>
    cases h
    rcases List.exists_cons_of_ne_nil hne with ⟨c, more, hcons⟩
    have hword : isWord c = true := by
      have hhead := List.head_dropWhile_not (!isWord ·) hne
      simpa [hcons] using hhead
    have hfirst : ((text.dropWhile (!isWord ·)).dropWhile isWord).length ≤ more.length := by
      rw [hcons, List.dropWhile_cons_of_pos hword]
      exact (List.dropWhile_sublist isWord).length_le
    have hall := (List.dropWhile_sublist (!isWord ·) : (text.dropWhile (!isWord ·)).Sublist text).length_le
    rw [hcons, List.length_cons] at hall
    omega

/-- `headerhas` -/
def headerhas (header needle : Bytes) : Bool :=
  match h : nextWord header with
  | none => false
  | some (word, rest) =>
      if needle.length = word.length ∧ strncaseeq needle.length needle word then true
      else
        have := nextWord_length h
        headerhas rest needle
termination_by header.length

/-- The test of a definition of protocol: `!strncasecmp(name, protocols, len) && !name[len]`. -/
def names (name word : Bytes) : Bool :=
  strncaseeq word.length name word && name.getD word.length 0 = 0

/-- `search_proto`, among the names of the definitions. -/
def searchProto (protodefs : List Bytes) (protocols : Option Bytes) : Option Bytes :=
  match protocols with
  | none => protodefs.head?
  | some text =>
      match h : nextWord text with
      | none => none
      | some (word, rest) =>
          match protodefs.find? (names · word) with
          | some name => some name
          | none =>
              have := nextWord_length h
              searchProto protodefs (some rest)
termination_by (protocols.getD []).length

/-! ## The answer -/

/-- `atoi` -/
def atoi (text : Bytes) : Int := (atol text).bmod (2 ^ 32)

/-- What the check does: nothing, or a response with the headers that it adds, after which the
connection has a websocket or not. -/
inductive Checked where
  | declined
  | replied (status : Nat) (headers : List (Bytes × Bytes)) (websock : Bool)
deriving DecidableEq, Repr

/-- The headers of the response that accepts. -/
def acceptHeaders (accept protocol : Bytes) : List (Bytes × Bytes) := [
  (ascii "Sec-WebSocket-Accept", accept),
  (ascii "Sec-WebSocket-Protocol", protocol),
  (ascii "Connection", ascii "Upgrade"),
  (ascii "Upgrade", ascii "websocket")]

/-- `check_websocket_upgrade`: `lookup` finds the headers of the request, `connected` tells
whether the library gives the descriptor of the connection, `creates` whether the websocket
of a protocol can be made. -/
def checkWebsocketUpgrade (sha1 : Bytes → Bytes) (lookup : Bytes → Option Bytes)
    (protodefs : List Bytes) (connected : Bool) (creates : Bytes → Bool) : Checked :=
  if (lookup (ascii "Upgrade")).all (fun value => !strcaseeq value (ascii "websocket")) then
    .declined
  else if (lookup (ascii "Connection")).all (fun value => !headerhas value (ascii "Upgrade")) then
    .declined
  else
    match lookup (ascii "Sec-WebSocket-Key"), lookup (ascii "Sec-WebSocket-Version") with
    | some key, some version =>
        if atoi version ≠ 13 then .replied 426 [(ascii "Sec-WebSocket-Version", ascii "13")] false
        else
          match searchProto protodefs (lookup (ascii "Sec-WebSocket-Protocol")) with
          | none => .replied 412 [] false
          | some protocol =>
              if connected && creates protocol then
                .replied 101 (acceptHeaders (makeAcceptValue sha1 key) protocol) true
              else .replied 500 [] false
    | _, _ => .declined

/-- `afb_websock_check_upgrade` -/
def afbWebsockCheckUpgrade (sha1 : Bytes → Bytes) (get : Bool) (version : Bytes)
    (lookup : Bytes → Option Bytes) (protodefs : List Bytes) (connected : Bool)
    (creates : Bytes → Bool) : Checked :=
  if !get || !strcaseeq version (ascii "HTTP/1.1") then .declined
  else checkWebsocketUpgrade sha1 lookup protodefs connected creates

/-! ## Words joined -/

/-- A word of a list: it is not empty and has no separator. -/
def IsWord (word : Bytes) : Prop := word ≠ [] ∧ ∀ c ∈ word, isWord c = true

/-- The next word, after separators and before the end or another separator. -/
theorem nextWord_word {lead word rest : Bytes} (hlead : ∀ c ∈ lead, isWord c = false)
    (hword : IsWord word) (hrest : ∀ c ∈ rest.head?, isWord c = false) :
    nextWord (lead ++ word ++ rest) = some (word, rest) := by
  have hskip : (lead ++ word ++ rest).dropWhile (!isWord ·) = word ++ rest := by
    rw [List.append_assoc, List.dropWhile_append_of_pos]
    · rcases List.exists_cons_of_ne_nil hword.1 with ⟨c, more, rfl⟩
      rw [List.cons_append, List.dropWhile_cons_of_neg]
      simpa using hword.2 c List.mem_cons_self
    · intro c hc
      simpa using hlead c hc
  have hspan := @span_append isWord word rest hword.2 hrest
  rw [nextWord_eq, hskip, if_neg, hspan.1, hspan.2]
  simp [hword.1]

end AfbBinder.Handshake
