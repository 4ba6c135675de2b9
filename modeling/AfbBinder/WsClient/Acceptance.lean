import AfbBinder.WsClient.Headers

/-!
# When the handshake is accepted

A result that is not an error should mean that the headers of the protocol were there with
their values.  The headers are checked as they come, and an absent one is not missed; and
the index of a protocol that was not asked for is the one after the last.
-/

namespace AfbBinder.WsClient

open Lib

/-- What a response is to hold for the client to take its protocol `i`. -/
structure Accepted (protocols : List Bytes) (ack status : Bytes) (headers : List Bytes) (i : Nat) :
    Prop where
  status : Switching status
  accept : ∃ header ∈ headers, headerValue secWebSocketAccept header = some ack
  upgrade : ∃ header ∈ headers, headerValue upgrade header = some (ascii "websocket")
  protocol : ∃ protocol, protocols[i]? = some protocol ∧
    ∃ header ∈ headers, headerValue secWebSocketProtocol header = some protocol

/-- The client takes a protocol only when the block of the stream holds all that. -/
def HandshakeSound (protocols : List Bytes) (ack : Bytes) (line : LineBuffer)
    (script : List Arrival) : Prop :=
  ∀ i : Nat, (receiveResponse protocols ack line script).1 = i →
    ∃ status headers, Block (arriving script) status headers ∧
      Accepted protocols ack status headers i

/-- No value of the headers is refused, and some protocol is named. -/
structure Unrefused (ack : Bytes) (headers : List Bytes) : Prop where
  accept : ∀ header ∈ headers, ∀ value, headerValue secWebSocketAccept header = some value →
    value = ack
  upgrade : ∀ header ∈ headers, ∀ value, headerValue upgrade header = some value →
    value = ascii "websocket"
  protocol : ∃ header ∈ headers, (headerValue secWebSocketProtocol header).isSome = true

/-- The headers that nothing checks the presence of are there, and the last protocol named
is one that was asked for. -/
structure Complete (protocols : List Bytes) (headers : List Bytes) : Prop where
  accept : ∃ header ∈ headers, (headerValue secWebSocketAccept header).isSome = true
  upgrade : ∃ header ∈ headers, (headerValue upgrade header).isSome = true
  protocol : ∃ protocol ∈ protocols, lastValue secWebSocketProtocol headers = some protocol

/-! ## The scan and the headers -/

theorem any_other_eq_false {found : Option Bytes} {expected : Bytes} :
    found.any (· ≠ expected) = false ↔ ∀ value, found = some value → value = expected := by
  cases found with
  | none => exact iff_of_true rfl fun _ h => nomatch h
  | some value => simp

theorem scanned_haserr (protocols : List Bytes) (ack : Bytes) (headers : List Bytes) :
    (scanned protocols ack headers).haserr = false ↔
      (∀ header ∈ headers, ∀ value, headerValue secWebSocketAccept header = some value →
        value = ack) ∧
      ∀ header ∈ headers, ∀ value, headerValue upgrade header = some value →
        value = ascii "websocket" := by
  rw [scanned, scanLines_haserr, Bool.false_or, List.any_eq_false]
  constructor
  · intro hnone
    have hboth := fun header hin => Bool.or_eq_false_iff.mp (Bool.eq_false_iff.mpr (hnone header hin))
    constructor
    · intro header hin
      exact any_other_eq_false.mp (hboth header hin).1
    · intro header hin
      exact any_other_eq_false.mp (hboth header hin).2
  · intro ⟨haccept, hupgrade⟩ header hin
    rw [any_other_eq_false.mpr (haccept header hin), any_other_eq_false.mpr (hupgrade header hin)]
    exact Bool.false_ne_true

theorem scanned_result (protocols : List Bytes) (ack : Bytes) (headers : List Bytes) :
    (scanned protocols ack headers).result =
      ((lastValue secWebSocketProtocol headers).map fun value =>
        ((protocols.findIdx (value = ·) : Nat) : Int)).getD (-1) :=
  scanLines_result _ _ _ _

theorem scanned_result_iff {protocols : List Bytes} {ack : Bytes} {headers : List Bytes} {i : Nat} :
    (scanned protocols ack headers).result = i ↔
      ∃ value, lastValue secWebSocketProtocol headers = some value ∧
        protocols.findIdx (value = ·) = i := by
  rw [scanned_result]
  cases lastValue secWebSocketProtocol headers with
  | none =>
      apply iff_of_false
      · change ¬ (-1 : Int) = i
        omega
      · rintro ⟨value, hnone, -⟩
        cases hnone
  | some value =>
      change ((protocols.findIdx (value = ·) : Nat) : Int) = i ↔ _
      rw [Int.ofNat_inj]
      simp

theorem unrefused_iff (protocols : List Bytes) (ack : Bytes) (headers : List Bytes) :
    Unrefused ack headers ↔ (scanned protocols ack headers).haserr = false ∧
      0 ≤ (scanned protocols ack headers).result := by
  rw [scanned_haserr]
  constructor
  · intro h
    rcases Option.isSome_iff_exists.mp (lastValue_isSome.mpr h.protocol) with ⟨value, hvalue⟩
    rw [scanned_result_iff.mpr ⟨value, hvalue, rfl⟩]
    exact ⟨⟨h.accept, h.upgrade⟩, Int.natCast_nonneg _⟩
  · intro ⟨⟨haccept, hupgrade⟩, hresult⟩
    rcases scanned_result_iff.mp (Int.toNat_of_nonneg hresult).symm with ⟨value, hlast, -⟩
    exact ⟨haccept, hupgrade, lastValue_isSome.mp (Option.isSome_iff_exists.mpr ⟨value, hlast⟩)⟩

theorem findIdx_protocol {protocols : List Bytes} {value protocol : Bytes}
    (h : protocols[protocols.findIdx (value = ·)]? = some protocol) : value = protocol := by
  rcases List.getElem?_eq_some_iff.mp h with ⟨hlt, rfl⟩
  exact of_decide_eq_true (@List.findIdx_getElem _ _ _ hlt)

theorem getElem?_findIdx {protocols : List Bytes} {protocol : Bytes} (h : protocol ∈ protocols) :
    protocols[protocols.findIdx (protocol = ·)]? = some protocol := by
  have hlt : protocols.findIdx (protocol = ·) < protocols.length :=
    List.findIdx_lt_length_of_exists ⟨protocol, h, decide_eq_true rfl⟩
  rw [List.getElem?_eq_getElem hlt]
  exact congrArg some (of_decide_eq_true (@List.findIdx_getElem _ _ _ hlt)).symm

/-! ## The condition -/

section Condition

variable {protocols : List Bytes} {ack status : Bytes} {headers : List Bytes}
  {script rest : List Arrival} {line : LineBuffer}

/-- The client takes the last protocol named in a response that it does not refuse. -/
theorem receiveResponse_unrefused (h : Answered script status headers rest)
    (hstatus : Switching status) (hunrefused : Unrefused ack headers) :
    ∃ value, lastValue secWebSocketProtocol headers = some value ∧
      (receiveResponse protocols ack line script).1 = (protocols.findIdx (value = ·) : Nat) := by
  rcases (unrefused_iff protocols ack headers).mp hunrefused with ⟨hhaserr, hnonneg⟩
  rcases Option.isSome_iff_exists.mp (lastValue_isSome.mpr hunrefused.protocol) with ⟨value, hvalue⟩
  have hresult := @scanned_result_iff protocols ack headers (protocols.findIdx (value = ·))
    |>.mpr ⟨value, hvalue, rfl⟩
  refine ⟨value, hvalue, ?_⟩
  rw [receiveResponse_of_answered h ((acceptsStatus_iff status).mpr hstatus)]
  dsimp only
  rw [if_neg]
  · exact hresult
  · rw [hhaserr, not_or]
    exact ⟨Bool.false_ne_true, Int.not_lt.mpr hnonneg⟩

/-- What it takes when the headers are all there. -/
theorem accepted_of_complete (hstatus : Switching status) (hunrefused : Unrefused ack headers)
    (hcomplete : Complete protocols headers) {i : Nat}
    (hresult : (scanned protocols ack headers).result = i) :
    Accepted protocols ack status headers i := by
  rcases scanned_result_iff.mp hresult with ⟨value, hlast, rfl⟩
  rcases hcomplete.protocol with ⟨protocol, hin, hlast'⟩
  rw [hlast] at hlast'
  cases hlast'
  constructor
  · exact hstatus
  · rcases hcomplete.accept with ⟨header, hheader, hsome⟩
    rcases Option.isSome_iff_exists.mp hsome with ⟨found, hfound⟩
    rw [hunrefused.accept header hheader found hfound] at hfound
    exact ⟨header, hheader, hfound⟩
  · rcases hcomplete.upgrade with ⟨header, hheader, hsome⟩
    rcases Option.isSome_iff_exists.mp hsome with ⟨found, hfound⟩
    rw [hunrefused.upgrade header hheader found hfound] at hfound
    exact ⟨header, hheader, hfound⟩
  · exact ⟨value, getElem?_findIdx hin, lastValue_mem hlast⟩

theorem Accepted.complete {value : Bytes} (hlast : lastValue secWebSocketProtocol headers = some value)
    (h : Accepted protocols ack status headers (protocols.findIdx (value = ·))) :
    Complete protocols headers := by
  constructor
  · rcases h.accept with ⟨header, hin, hvalue⟩
    exact ⟨header, hin, Option.isSome_iff_exists.mpr ⟨_, hvalue⟩⟩
  · rcases h.upgrade with ⟨header, hin, hvalue⟩
    exact ⟨header, hin, Option.isSome_iff_exists.mpr ⟨_, hvalue⟩⟩
  · rcases h.protocol with ⟨protocol, hat, -⟩
    have hsame := findIdx_protocol hat
    rw [hsame] at hlast
    exact ⟨protocol, List.mem_of_getElem? hat, hlast⟩

theorem HandshakeSound.complete (hsound : HandshakeSound protocols ack line script)
    (hanswered : Answered script status headers rest) (hstatus : Switching status)
    (hunrefused : Unrefused ack headers) : Complete protocols headers := by
  rcases receiveResponse_unrefused hanswered hstatus hunrefused with ⟨value, hlast, hresult⟩
  rcases hsound _ hresult with ⟨status', headers', hblock, haccepted⟩
  rcases hblock.unique hanswered.block with ⟨rfl, rfl⟩
  exact haccepted.complete hlast

end Condition

/-- The client takes no protocol that it should not take exactly when the block that it
reads, unless it refuses it, has the two headers whose presence is not checked and names
last a protocol that was asked for. -/
theorem handshake_sound_iff (protocols : List Bytes) (ack : Bytes) (line : LineBuffer)
    (script : List Arrival) :
    HandshakeSound protocols ack line script ↔
      ∀ status headers rest, Answered script status headers rest → Switching status →
        Unrefused ack headers → Complete protocols headers := by
  constructor
  · intro hsound status headers rest hanswered hstatus hunrefused
    exact hsound.complete hanswered hstatus hunrefused
  · intro hcomplete i hi
    rcases receiveResponse_answered (Int.natCast_nonneg i) (Prod.ext hi rfl) with
      ⟨status, headers, rest, hanswered, haccepts, hhaserr, hresult, -⟩
    have hstatus := (acceptsStatus_iff status).mp haccepts
    have hnonneg : 0 ≤ (scanned protocols ack headers).result := by
      rw [hresult]
      exact Int.natCast_nonneg i
    have hunrefused := (unrefused_iff protocols ack headers).mpr ⟨hhaserr, hnonneg⟩
    exact ⟨status, headers, hanswered.block, accepted_of_complete hstatus hunrefused
      (hcomplete status headers rest hanswered hstatus hunrefused) hresult⟩

/-! ## A response without the two headers -/

/-- All the bytes in one read. -/
def atOnce : Bytes → List Arrival
  | [] => []
  | b :: bytes => [.data b bytes]

theorem arriving_atOnce (bytes : Bytes) : arriving (atOnce bytes) = bytes := by
  cases bytes with
  | nil => rfl
  | cons b bytes => exact List.append_nil _

theorem plain_atOnce (bytes : Bytes) : Plain (atOnce bytes) := by
  intro code hin
  cases bytes with
  | nil => cases hin
  | cons b bytes => cases List.mem_singleton.mp hin

def blank : LineBuffer := ⟨List.replicate lineSize 0, List.length_replicate⟩

def switchingLine : Bytes := ascii "HTTP/1.1 101 Switching Protocols"

def protocolJson1 : Bytes := ascii "x-afb-ws-json1"

def ackText : Bytes := ascii "s3pPLMBiTxaQ9kYGzzhZRbK+xOo="

/-- A response that is not refused although its headers are not all there. -/
theorem not_sound_of_headers {protocols : List Bytes} {ack : Bytes} {headers : List Bytes}
    (hheaders : ∀ header ∈ headers, (CrlfFree header ∧ header ≠ []) ∧ header.length + 2 ≤ lineSize)
    (hunrefused : Unrefused ack headers) (hincomplete : ¬ Complete protocols headers)
    (line : LineBuffer) :
    ¬ HandshakeSound protocols ack line (atOnce (crlfLines (switchingLine :: headers) ++ [13, 10])) := by
  intro hsound
  have harriving : arriving (atOnce (crlfLines (switchingLine :: headers) ++ [13, 10])) =
      (crlfLines (switchingLine :: headers) ++ [13, 10]) ++ [] := by
    rw [arriving_atOnce, List.append_nil]
  have hstatus : CrlfFree switchingLine ∧ switchingLine.length + 2 ≤ lineSize :=
    ⟨crlfFree_of_no_cr (by decide), by decide⟩
  rcases feeds_of_arriving (plain_atOnce _) harriving with ⟨rest, hfeeds, -⟩
  have hanswered := answered_of_feeds hstatus hheaders hfeeds
  have hswitching : Switching switchingLine := (acceptsStatus_iff _).mp (by decide)
  exact hincomplete (hsound.complete hanswered hswitching hunrefused)

def protocolHeader : Bytes := ascii "Sec-WebSocket-Protocol: x-afb-ws-json1"

/-- A response whose only header names the protocol is accepted. -/
theorem handshake_sound_fails :
    ¬ HandshakeSound [protocolJson1] ackText blank
      (atOnce (crlfLines [switchingLine, protocolHeader] ++ [13, 10])) := by
  have haccept : headerValue secWebSocketAccept protocolHeader = none := by decide
  have hupgrade : headerValue upgrade protocolHeader = none := by decide
  have hprotocol : (headerValue secWebSocketProtocol protocolHeader).isSome = true := by decide
  apply not_sound_of_headers
  · exact List.forall_mem_singleton.mpr ⟨⟨crlfFree_of_no_cr (by decide), by decide⟩, by decide⟩
  · constructor
    · refine List.forall_mem_singleton.mpr fun value h => ?_
      rw [haccept] at h
      cases h
    · refine List.forall_mem_singleton.mpr fun value h => ?_
      rw [hupgrade] at h
      cases h
    · exact ⟨protocolHeader, List.mem_singleton_self _, hprotocol⟩
  · intro hcomplete
    rcases hcomplete.accept with ⟨header, hin, hsome⟩
    rw [List.mem_singleton.mp hin, haccept] at hsome
    cases hsome

end AfbBinder.WsClient
