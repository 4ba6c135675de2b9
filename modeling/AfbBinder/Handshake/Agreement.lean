import AfbBinder.Handshake.Request
import AfbBinder.Handshake.Upgrade
import AfbBinder.WsClient.Acceptance
import Mathlib.Data.List.TakeWhile

/-!
# Both ends of the handshake

The request that the client writes, as the server answers it, and the answer as the client
reads it: both ends take the first protocol of the client that the server has.
-/

namespace AfbBinder.Handshake

open Lib WsClient

/-! ## The choice of the server -/

theorem names_iff {name word : Bytes} (hname : (0 : UInt8) ∉ name) :
    names name word = true ↔ strcaseeq name word = true := by
  have hisheader := @isheader_iff word [] name hname
  rw [List.append_nil] at hisheader
  have hsame : names name word = isheader word word.length name := by
    rw [names, isheader, Bool.eq_iff_iff]
    simp only [Bool.and_eq_true, strncaseeq_iff]
    constructor
    · exact fun h => ⟨h.1.symm, h.2⟩
    · exact fun h => ⟨h.1.symm, h.2⟩
  rw [hsame, hisheader]
  simp only [strcaseeq, decide_eq_true_eq]
  exact eq_comm

theorem searchProto_word {protodefs : List Bytes} {text word rest : Bytes}
    (h : nextWord text = some (word, rest)) :
    searchProto protodefs (some text) =
      (protodefs.find? (names · word)).or (searchProto protodefs (some rest)) := by
  rw [searchProto]
  split
  case h_1 hnone =>
    rw [h] at hnone
    cases hnone
  case h_2 word' rest' hnext =>
    cases h.symm.trans hnext
    cases protodefs.find? (names · word) <;> rfl

theorem searchProto_end {protodefs : List Bytes} {text : Bytes} (h : nextWord text = none) :
    searchProto protodefs (some text) = none := by
  rw [searchProto]
  split
  case h_1 => rfl
  case h_2 hnext =>
    rw [h] at hnext
    cases hnext

theorem headerhas_word {text word rest needle : Bytes} (h : nextWord text = some (word, rest))
    (hsame : needle.length = word.length ∧ strncaseeq needle.length needle word = true) :
    headerhas text needle = true := by
  rw [headerhas]
  split
  case h_1 hnone =>
    rw [h] at hnone
    cases hnone
  case h_2 word' rest' hnext =>
    cases h.symm.trans hnext
    rw [if_pos hsame]

theorem isWord_separ {c : UInt8} (hc : c ∈ ascii ", ") : isWord c = false := by
  have hall : ∀ c ∈ ascii ", ", isWord c = false := forall_mem_of_all (by decide +kernel)
  exact hall c hc

theorem searchProto_strjoin {protodefs protocols : List Bytes} (hwords : ∀ p ∈ protocols, IsWord p)
    {lead : Bytes} (hlead : ∀ c ∈ lead, isWord c = false) :
    searchProto protodefs (some (lead ++ strjoin (ascii ", ") protocols)) =
      protocols.findSome? fun word => protodefs.find? (names · word) := by
  induction protocols generalizing lead with
  | nil =>
      apply searchProto_end
      have hall : lead.dropWhile (!isWord ·) = [] := by
        apply List.dropWhile_eq_nil_iff.mpr
        intro c hc
        simpa using hlead c hc
      rw [strjoin, List.append_nil, nextWord_eq, if_pos hall]
  | cons word protocols ih =>
      have hrest : ∀ c ∈ (protocols.flatMap (ascii ", " ++ ·)).head?, isWord c = false := by
        cases protocols with
        | nil => intro c hc; cases hc
        | cons next protocols =>
            intro c hc
            cases hc
            exact isWord_separ List.mem_cons_self
      have hnext := nextWord_word hlead (hwords word List.mem_cons_self) hrest
      rw [strjoin, ← List.append_assoc, searchProto_word hnext, List.findSome?_cons]
      have hmore : searchProto protodefs (some (protocols.flatMap (ascii ", " ++ ·))) =
          protocols.findSome? fun word => protodefs.find? (names · word) := by
        have ih' := fun lead => @ih (fun p hp => hwords p (List.mem_cons_of_mem _ hp)) lead
        cases protocols with
        | nil => exact ih' [] (by simp)
        | cons next protocols =>
            have hflat : (next :: protocols).flatMap (ascii ", " ++ ·) =
                ascii ", " ++ strjoin (ascii ", ") (next :: protocols) := by
              rw [List.flatMap_cons, List.append_assoc]
              rfl
            rw [hflat]
            exact ih' (ascii ", ") fun c hc => isWord_separ hc
      rw [hmore]
      cases protodefs.find? (names · word) <;> rfl

/-- With the same spelling, the server chooses the first protocol that it has. -/
theorem findSome_names {protodefs protocols : List Bytes} (hprotodefs : ∀ d ∈ protodefs, (0 : UInt8) ∉ d)
    (hspelled : ∀ p ∈ protocols, ∀ d ∈ protodefs, strcaseeq d p = true → d = p) :
    (protocols.findSome? fun word => protodefs.find? (names · word)) =
      protocols.find? (· ∈ protodefs) := by
  induction protocols with
  | nil => rfl
  | cons word protocols ih =>
      have ih' := ih fun p hp => hspelled p (List.mem_cons_of_mem _ hp)
      rw [List.findSome?_cons, List.find?_cons]
      by_cases hin : word ∈ protodefs
      · have hfound : protodefs.find? (names · word) = some word := by
          cases hfind : protodefs.find? (names · word) with
          | none =>
              have hnot := List.find?_eq_none.mp hfind word hin
              exact absurd ((names_iff (hprotodefs word hin)).mpr (by simp [strcaseeq])) hnot
          | some d =>
              have hd := List.mem_of_find?_eq_some hfind
              have hnames := List.find?_some hfind
              rw [hspelled word List.mem_cons_self d hd ((names_iff (hprotodefs d hd)).mp hnames)]
        simp [hfound, hin]
      · have hnone : protodefs.find? (names · word) = none := by
          apply List.find?_eq_none.mpr
          intro d hd hnames
          have hsame := hspelled word List.mem_cons_self d hd ((names_iff (hprotodefs d hd)).mp hnames)
          exact hin (hsame ▸ hd)
        simp only [hnone, hin, decide_false, ih']

/-! ## The headers of the answer -/

/-- A name and a value that a header line gives back. -/
structure Field (name value : Bytes) : Prop where
  name_ne : name ≠ []
  name : ∀ c ∈ name, c ≠ 0 ∧ c ∉ ascii ": "
  value_ne : value ≠ []
  value : ∀ c ∈ value, c ≠ 0 ∧ c ∉ ascii " ,"

theorem headerValue_headerLine {name value : Bytes} (h : Field name value) (other : Bytes) :
    headerValue other (headerLine (name, value)) =
      if strcaseeq name other = true then some value else none := by
  have htext : cstring (headerLine (name, value)) = name ++ 58 :: 32 :: value := by
    rw [headerLine, cstring, List.takeWhile_eq_self_iff.mpr]
    · rw [List.append_assoc]
      rfl
    · intro c hc
      have hne : c ≠ 0 := by
        rcases List.mem_append.mp hc with hc | hc
        · rcases List.mem_append.mp hc with hc | hc
          · exact (h.name c hc).1
          · have hall : ∀ c ∈ ascii ": ", c ≠ 0 := forall_mem_of_all (by decide +kernel)
            exact hall c hc
        · exact (h.value c hc).1
      simpa using hne
  have hname : fieldName (headerLine (name, value)) = name := by
    rw [fieldName, htext, List.takeWhile_append_of_pos]
    · simp [ascii]
    · intro c hc
      simpa using (h.name c hc).2
  have hvalue : firstToken (32 :: value) = value := by
    rcases List.exists_cons_of_ne_nil h.value_ne with ⟨c, more, hcons⟩
    have hhead : c ∉ ascii " ," := (h.value c (hcons ▸ List.mem_cons_self)).2
    have hskip : (32 :: value).dropWhile (· ∈ ascii " ,") = value := by
      rw [List.dropWhile_cons_of_pos (by decide), hcons, List.dropWhile_cons_of_neg]
      simpa using hhead
    rw [firstToken, hskip]
    apply List.takeWhile_eq_self_iff.mpr
    intro c hc
    simpa using (h.value c hc).2
  have hcolon : (cstring (headerLine (name, value))).getD name.length 0 = 58 := by
    rw [htext]
    simp
  have hafter : (cstring (headerLine (name, value))).drop (name.length + 1) = 32 :: value := by
    rw [htext, ← List.drop_drop, List.drop_left]
    rfl
  rw [headerValue, hname, hafter, hvalue]
  simp only [h.name_ne, hcolon, ne_eq, not_false_eq_true, true_and]

/-- The bytes that reach the client are a response with the headers that were added, and
with others that it does not look at. -/
structure Carries (script : List Arrival) (added : List (Bytes × Bytes)) (status : Bytes)
    (headers : List Bytes) : Prop where
  plain : Plain script
  stream : ∃ following, arriving script = (crlfLines (status :: headers) ++ [13, 10]) ++ following
  status : Switching status ∧ CrlfFree status ∧ status.length + 2 ≤ lineSize
  lines : ∀ header ∈ headers, (CrlfFree header ∧ header ≠ []) ∧ header.length + 2 ≤ lineSize
  adds : ∀ header ∈ added, headerLine header ∈ headers
  others : ∀ header ∈ headers, header ∈ added.map headerLine ∨
    headerValue secWebSocketAccept header = none ∧
      headerValue secWebSocketProtocol header = none ∧ headerValue upgrade header = none

/-- The values of the headers of an answer that accepts. -/
structure Told (accept protocol name value : Bytes) : Prop where
  accept : name = secWebSocketAccept → value = accept
  protocol : name = secWebSocketProtocol → value = protocol
  upgrade : name = upgrade → value = ascii "websocket"

theorem told_of_added {accept protocol name value : Bytes} {header : Bytes × Bytes}
    (haccept : Field (ascii "Sec-WebSocket-Accept") accept)
    (hprotocol : Field (ascii "Sec-WebSocket-Protocol") protocol)
    (hadded : header ∈ acceptHeaders accept protocol)
    (hvalue : headerValue name (headerLine header) = some value) : Told accept protocol name value := by
  have hconnection : Field (ascii "Connection") (ascii "Upgrade") :=
    ⟨by decide +kernel, forall_mem_of_all (by decide +kernel), by decide +kernel,
      forall_mem_of_all (by decide +kernel)⟩
  have hupgrade : Field (ascii "Upgrade") (ascii "websocket") :=
    ⟨by decide +kernel, forall_mem_of_all (by decide +kernel), by decide +kernel,
      forall_mem_of_all (by decide +kernel)⟩
  simp only [acceptHeaders, List.mem_cons, List.not_mem_nil, or_false] at hadded
  rcases hadded with rfl | rfl | rfl | rfl
  · rw [headerValue_headerLine haccept] at hvalue
    constructor
    · rintro rfl
      exact (Option.some.inj hvalue).symm
    · rintro rfl
      cases hvalue
    · rintro rfl
      cases hvalue
  · rw [headerValue_headerLine hprotocol] at hvalue
    constructor
    · rintro rfl
      cases hvalue
    · rintro rfl
      exact (Option.some.inj hvalue).symm
    · rintro rfl
      cases hvalue
  · rw [headerValue_headerLine hconnection] at hvalue
    constructor
    · rintro rfl
      cases hvalue
    · rintro rfl
      cases hvalue
    · rintro rfl
      cases hvalue
  · rw [headerValue_headerLine hupgrade] at hvalue
    constructor
    · rintro rfl
      cases hvalue
    · rintro rfl
      cases hvalue
    · rintro rfl
      exact (Option.some.inj hvalue).symm

/-- The client takes the protocol that the answer names. -/
theorem receiveResponse_carries {script : List Arrival} {status accept protocol : Bytes}
    {headers protocols : List Bytes} (h : Carries script (acceptHeaders accept protocol) status headers)
    (haccept : Field (ascii "Sec-WebSocket-Accept") accept)
    (hprotocol : Field (ascii "Sec-WebSocket-Protocol") protocol) (line : LineBuffer) :
    (receiveResponse protocols accept line script).1 = (protocols.findIdx (protocol = ·) : Nat) := by
  rcases h.stream with ⟨following, hstream⟩
  rcases feeds_of_arriving h.plain hstream with ⟨rest, hfeeds, -⟩
  have hanswered := answered_of_feeds ⟨h.status.2.1, h.status.2.2⟩ h.lines hfeeds
  have htold : ∀ header ∈ headers, ∀ name value, headerValue name header = some value →
      Told accept protocol name value := by
    intro header hheader name value hvalue
    rcases h.others header hheader with hadded | ⟨hnoaccept, hnoprotocol, hnoupgrade⟩
    · rcases List.mem_map.mp hadded with ⟨added, hin, rfl⟩
      exact told_of_added haccept hprotocol hin hvalue
    · constructor
      · rintro rfl
        rw [hnoaccept] at hvalue
        cases hvalue
      · rintro rfl
        rw [hnoprotocol] at hvalue
        cases hvalue
      · rintro rfl
        rw [hnoupgrade] at hvalue
        cases hvalue
  have hnamed : headerValue secWebSocketProtocol (headerLine (ascii "Sec-WebSocket-Protocol", protocol)) =
      some protocol := by
    rw [headerValue_headerLine hprotocol]
    rfl
  have hunrefused : Unrefused accept headers := by
    constructor
    · exact fun header hheader value hvalue => (htold header hheader _ value hvalue).accept rfl
    · exact fun header hheader value hvalue => (htold header hheader _ value hvalue).upgrade rfl
    · refine ⟨_, h.adds (ascii "Sec-WebSocket-Protocol", protocol) (by simp [acceptHeaders]), ?_⟩
      rw [hnamed]
      rfl
  rcases @receiveResponse_unrefused protocols _ _ _ _ _ line hanswered h.status.1 hunrefused with
    ⟨value, hlast, hresult⟩
  rcases lastValue_mem hlast with ⟨header, hheader, hvalue⟩
  rw [hresult, (htold header hheader _ value hvalue).protocol rfl]

/-! ## The request as the server sees it -/

/-- The library finds the headers of a request by their names; a header has a name without a
colon or a space, and a value that neither starts nor ends with a space. -/
def Presents (lookup : Bytes → Option Bytes) (request : Bytes) : Prop :=
  ∀ first lines, request = crlfLines (first :: lines) ++ [13, 10] →
    (∀ line ∈ first :: lines, CrlfFree line ∧ line ≠ []) →
    ∀ name value, headerLine (name, value) ∈ lines → (∀ c ∈ name, c ∉ ascii ": ") →
      value ≠ [] → value.head? ≠ some 32 → value.getLast? ≠ some 32 → lookup name = some value

/-- A protocol that can be named in a list. -/
def IsProtocol (p : Bytes) : Prop := IsWord p ∧ ∀ c ∈ p, c ≠ 0 ∧ c ≠ 13

theorem isWord_other {c : UInt8} (h : isWord c = true) : c ∉ ascii " ," ∧ c ≠ 32 := by
  have hnot : c ∉ vseparators := by simpa [isWord] using h
  simp only [vseparators, ascii] at hnot
  constructor
  · simp only [ascii]
    intro hin
    apply hnot
    simp at hin ⊢
    rcases hin with rfl | rfl
    · exact .inl rfl
    · exact .inr (.inr rfl)
  · rintro rfl
    apply hnot
    simp

theorem strjoin_spec {protocols : List Bytes} (hne : protocols ≠ [])
    (hprotocols : ∀ p ∈ protocols, IsProtocol p) :
    strjoin (ascii ", ") protocols ≠ [] ∧ (13 : UInt8) ∉ strjoin (ascii ", ") protocols ∧
      (strjoin (ascii ", ") protocols).head? ≠ some 32 ∧
      (strjoin (ascii ", ") protocols).getLast? ≠ some 32 := by
  have hlast : ∀ {front : Bytes}, front ≠ [] → front.getLast? ≠ some 32 →
      ∀ rest : List Bytes, (∀ p ∈ rest, IsProtocol p) →
        (front ++ rest.flatMap (ascii ", " ++ ·)).getLast? ≠ some 32 := by
    intro front hfront hend rest
    induction rest generalizing front with
    | nil =>
        intro _
        simpa using hend
    | cons p rest ih =>
        intro hall
        have hp := hall p List.mem_cons_self
        have hpne : p ≠ [] := hp.1.1
        rw [List.flatMap_cons, ← List.append_assoc]
        apply ih
        · simp [ascii]
        · rw [← List.append_assoc, List.getLast?_append]
          cases hends : p.getLast? with
          | none => exact absurd (List.getLast?_eq_none_iff.mp hends) hpne
          | some c =>
              intro hspace
              cases hspace
              exact (isWord_other (hp.1.2 32 (List.mem_of_getLast? hends))).2 rfl
        · exact fun q hq => hall q (List.mem_cons_of_mem _ hq)
  cases protocols with
  | nil => exact absurd rfl hne
  | cons p protocols =>
      have hp := hprotocols p List.mem_cons_self
      rcases List.exists_cons_of_ne_nil hp.1.1 with ⟨c, more, hcons⟩
      have hend : p.getLast? ≠ some 32 := by
        intro hspace
        exact (isWord_other (hp.1.2 32 (List.mem_of_getLast? hspace))).2 rfl
      refine ⟨?_, ?_, ?_, ?_⟩
      · simp [strjoin, hcons]
      · intro hin
        rcases List.mem_append.mp hin with hin | hin
        · exact (hp.2 13 hin).2 rfl
        · rcases List.mem_flatMap.mp hin with ⟨q, hq, hin⟩
          rcases List.mem_append.mp hin with hin | hin
          · exact absurd hin (by decide)
          · exact ((hprotocols q (List.mem_cons_of_mem _ hq)).2 13 hin).2 rfl
      · rw [strjoin, hcons, List.cons_append, List.head?_cons]
        rintro hspace
        have hword := hp.1.2 c (hcons ▸ List.mem_cons_self)
        rw [Option.some.inj hspace] at hword
        exact (isWord_other hword).2 rfl
      · exact hlast hp.1.1 hend protocols fun q hq => hprotocols q (List.mem_cons_of_mem _ hq)

theorem compkeys_plain :
    ∀ pair ∈ compkeys, pair.1 ≠ [] ∧ ∀ c ∈ pair.1, c ≠ 13 ∧ c ≠ 32 := by
  have hall : ∀ pair ∈ compkeys,
      pair.1 ≠ [] ∧ pair.1.all (fun c => decide (c ≠ 13 ∧ c ≠ 32)) = true := by
    decide +kernel
  intro pair hpair
  exact ⟨(hall pair hpair).1, forall_mem_of_all (hall pair hpair).2⟩

theorem crlfFree_headerLine {name value : Bytes} (hname : (13 : UInt8) ∉ name)
    (hvalue : (13 : UInt8) ∉ value) :
    CrlfFree (headerLine (name, value)) ∧ headerLine (name, value) ≠ [] := by
  constructor
  · apply crlfFree_of_no_cr
    intro hin
    rcases List.mem_append.mp hin with hin | hin
    · rcases List.mem_append.mp hin with hin | hin
      · exact hname hin
      · exact absurd hin (by decide)
    · exact hvalue hin
  · simp [headerLine, ascii]

def requestNames : List Bytes :=
  [ascii "Host", ascii "Upgrade", ascii "Connection", ascii "Sec-WebSocket-Version",
    ascii "Sec-WebSocket-Key", ascii "Sec-WebSocket-Protocol", ascii "Content-Length"]

/-- The server finds the headers that the client wrote. -/
theorem presents_request {lookup : Bytes → Option Bytes} {path host key protocols : Bytes}
    (h : Presents lookup (makeRequest path host key protocols)) (hpath : (13 : UInt8) ∉ path)
    (hhost : (13 : UInt8) ∉ host) (hkey : (13 : UInt8) ∉ key) (hprotocols : (13 : UInt8) ∉ protocols)
    {header : Bytes × Bytes} (hheader : header ∈ requestHeaders host key protocols)
    (hne : header.2 ≠ []) (hfirst : header.2.head? ≠ some 32) (hlast : header.2.getLast? ≠ some 32) :
    lookup header.1 = some header.2 := by
  have hnames : ∀ header ∈ requestHeaders host key protocols,
      (13 : UInt8) ∉ header.1 ∧ ∀ c ∈ header.1, c ∉ ascii ": " := by
    have hall : ∀ name ∈ requestNames,
        (13 : UInt8) ∉ name ∧ name.all (fun c => decide (c ∉ ascii ": ")) = true := by
      decide +kernel
    intro header hin
    have hmap : (requestHeaders host key protocols).map Prod.fst = requestNames := rfl
    have hname := hall header.1 (hmap ▸ List.mem_map_of_mem hin)
    exact ⟨hname.1, forall_mem_of_all hname.2⟩
  have hvalues : ∀ header ∈ requestHeaders host key protocols, (13 : UInt8) ∉ header.2 := by
    intro header hin
    simp only [requestHeaders, List.mem_cons, List.not_mem_nil, or_false] at hin
    rcases hin with rfl | rfl | rfl | rfl | rfl | rfl | rfl
    · exact hhost
    · exact fun hin => absurd hin (by decide)
    · exact fun hin => absurd hin (by decide)
    · exact fun hin => absurd hin (by decide)
    · exact hkey
    · exact hprotocols
    · exact fun hin => absurd hin (by decide)
  apply h _ _ rfl
  · intro line hline
    rcases List.mem_cons.mp hline with rfl | hline
    · constructor
      · apply crlfFree_of_no_cr
        intro hin
        rcases List.mem_append.mp hin with hin | hin
        · rcases List.mem_append.mp hin with hin | hin
          · exact absurd hin (by decide)
          · exact hpath hin
        · exact absurd hin (by decide)
      · simp [ascii]
    · rcases List.mem_map.mp hline with ⟨other, hother, rfl⟩
      exact crlfFree_headerLine (hnames other hother).1 (hvalues other hother)
  · exact List.mem_map.mpr ⟨header, hheader, rfl⟩
  · exact (hnames header hheader).2
  · exact hne
  · exact hfirst
  · exact hlast

theorem headerhas_upgrade : headerhas (ascii "Upgrade") (ascii "Upgrade") = true := by
  have hnext : nextWord (ascii "Upgrade") = some (ascii "Upgrade", []) := by decide +kernel
  exact headerhas_word hnext ⟨rfl, by decide +kernel⟩

/-- The server answers the request of the client by its first protocol that it has, if any. -/
theorem checked_of_presents {lookup : Bytes → Option Bytes} {path host : Bytes} {pair : Bytes × Bytes}
    {protocols protodefs : List Bytes} (hpair : pair ∈ compkeys) (hne : protocols ≠ [])
    (hprotocols : ∀ p ∈ protocols, IsProtocol p) (hprotodefs : ∀ d ∈ protodefs, (0 : UInt8) ∉ d)
    (hspelled : ∀ p ∈ protocols, ∀ d ∈ protodefs, strcaseeq d p = true → d = p)
    (hpath : (13 : UInt8) ∉ path) (hhost : (13 : UInt8) ∉ host)
    (hpresents : Presents lookup
      (makeRequest path host pair.1 (strjoin (ascii ", ") protocols)))
    {creates : Bytes → Bool} (hcreates : ∀ d ∈ protodefs, creates d = true) :
    checkWebsocketUpgrade Sha1.hash lookup protodefs true creates =
      ((protocols.find? (· ∈ protodefs)).map fun p =>
        Checked.replied 101 (acceptHeaders pair.2 p) true).getD (.replied 412 [] false) := by
  rcases compkeys_plain pair hpair with ⟨hkeyne, hkey⟩
  rcases strjoin_spec hne hprotocols with ⟨hjoinne, hjoin, hjoinfirst, hjoinlast⟩
  have hkeycr : (13 : UInt8) ∉ pair.1 := fun hin => (hkey 13 hin).1 rfl
  have hfinds := fun {header} => @presents_request lookup path host pair.1
    (strjoin (ascii ", ") protocols) hpresents hpath hhost hkeycr hjoin header
  have hupgrade : lookup (ascii "Upgrade") = some (ascii "websocket") :=
    @hfinds (ascii "Upgrade", ascii "websocket") (by simp [requestHeaders]) (by decide +kernel)
      (by decide +kernel) (by decide +kernel)
  have hconnection : lookup (ascii "Connection") = some (ascii "Upgrade") :=
    @hfinds (ascii "Connection", ascii "Upgrade") (by simp [requestHeaders]) (by decide +kernel)
      (by decide +kernel) (by decide +kernel)
  have hversion : lookup (ascii "Sec-WebSocket-Version") = some (ascii "13") :=
    @hfinds (ascii "Sec-WebSocket-Version", ascii "13") (by simp [requestHeaders])
      (by decide +kernel) (by decide +kernel) (by decide +kernel)
  have hkeyfound : lookup (ascii "Sec-WebSocket-Key") = some pair.1 := by
    apply @hfinds (ascii "Sec-WebSocket-Key", pair.1) (by simp [requestHeaders]) hkeyne
    · intro hspace
      exact (hkey 32 (List.mem_of_head? hspace)).2 rfl
    · intro hspace
      exact (hkey 32 (List.mem_of_getLast? hspace)).2 rfl
  have hprotocol : lookup (ascii "Sec-WebSocket-Protocol") = some (strjoin (ascii ", ") protocols) :=
    @hfinds (ascii "Sec-WebSocket-Protocol", strjoin (ascii ", ") protocols) (by simp [requestHeaders])
      hjoinne hjoinfirst hjoinlast
  have hsearch := @searchProto_strjoin protodefs protocols (fun p hp => (hprotocols p hp).1) []
    (by simp)
  rw [List.nil_append, findSome_names hprotodefs hspelled] at hsearch
  have hthirteen : atoi (ascii "13") = 13 := by decide +kernel
  have hwebsocket : strcaseeq (ascii "websocket") (ascii "websocket") = true := by decide +kernel
  rw [checkWebsocketUpgrade, hupgrade, hconnection, hversion, hkeyfound, hprotocol, hsearch]
  simp only [Option.all_some, hwebsocket, headerhas_upgrade, Bool.not_true, Bool.false_eq_true,
    if_false, hthirteen, ne_eq, not_true_eq_false, Bool.true_and]
  cases hfind : protocols.find? (· ∈ protodefs) with
  | none => rfl
  | some p =>
      have hin : p ∈ protodefs := by simpa using List.find?_some hfind
      simp only [hcreates p hin, if_true, compkeys_accept pair hpair]
      rfl

/-- A request as the client writes it, for `GET` and `HTTP/1.1`. -/
theorem afbWebsockCheckUpgrade_get (sha1 : Bytes → Bytes) (lookup : Bytes → Option Bytes)
    (protodefs : List Bytes) (connected : Bool) (creates : Bytes → Bool) :
    afbWebsockCheckUpgrade sha1 true (ascii "HTTP/1.1") lookup protodefs connected creates =
      checkWebsocketUpgrade sha1 lookup protodefs connected creates := by
  rw [afbWebsockCheckUpgrade, if_neg]
  decide +kernel

/-- Both ends agree: the server answers the request of the client by the first protocol of
the client that it has, with the accept value that the client expects, and the client takes
that protocol; it refuses the request when it has none of them. -/
theorem handshake_agrees {rand : Nat} {protocols protodefs : List Bytes} {path host request ack : Bytes}
    {lookup : Bytes → Option Bytes} {creates : Bytes → Bool} (hne : protocols ≠ [])
    (hprotocols : ∀ p ∈ protocols, IsProtocol p) (hprotodefs : ∀ d ∈ protodefs, (0 : UInt8) ∉ d)
    (hspelled : ∀ p ∈ protocols, ∀ d ∈ protodefs, strcaseeq d p = true → d = p)
    (hpath : (13 : UInt8) ∉ path) (hhost : (13 : UInt8) ∉ host)
    (hsend : sendRequest rand protocols path host = some (request, ack))
    (hpresents : Presents lookup request) (hcreates : ∀ d ∈ protodefs, creates d = true) :
    ((∀ p ∈ protocols, p ∉ protodefs) →
      afbWebsockCheckUpgrade Sha1.hash true (ascii "HTTP/1.1") lookup protodefs true creates =
        .replied 412 [] false) ∧
    ∀ p, protocols.find? (· ∈ protodefs) = some p →
      afbWebsockCheckUpgrade Sha1.hash true (ascii "HTTP/1.1") lookup protodefs true creates =
        .replied 101 (acceptHeaders ack p) true ∧
      ∀ script status headers line, Carries script (acceptHeaders ack p) status headers →
        ∃ i : Nat, (receiveResponse protocols ack line script).1 = i ∧ protocols[i]? = some p := by
  rcases getkeypair_mem rand with ⟨pair, hpair, hkeys⟩
  rw [sendRequest, hkeys] at hsend
  cases hsend
  have hchecked := checked_of_presents hpair hne hprotocols hprotodefs hspelled hpath hhost
    hpresents hcreates
  rw [afbWebsockCheckUpgrade_get]
  constructor
  · intro hnone
    have hfind : protocols.find? (· ∈ protodefs) = none := by
      apply List.find?_eq_none.mpr
      intro p hp
      simpa using hnone p hp
    rw [hchecked, hfind]
    rfl
  · intro p hfind
    have hp := List.mem_of_find?_eq_some hfind
    rcases makeAcceptValue_plain Sha1.hash Sha1.length_hash pair.1 with ⟨hackne, hack⟩
    rw [compkeys_accept pair hpair] at hackne hack
    have haccept : Field (ascii "Sec-WebSocket-Accept") pair.2 :=
      ⟨by decide +kernel, forall_mem_of_all (by decide +kernel), hackne, hack⟩
    have hprotocol : Field (ascii "Sec-WebSocket-Protocol") p :=
      ⟨by decide +kernel, forall_mem_of_all (by decide +kernel), (hprotocols p hp).1.1, fun c hc =>
        ⟨((hprotocols p hp).2 c hc).1, (isWord_other ((hprotocols p hp).1.2 c hc)).1⟩⟩
    constructor
    · rw [hchecked, hfind]
      rfl
    · intro script status headers line hcarries
      exact ⟨_, receiveResponse_carries hcarries haccept hprotocol line, getElem?_findIdx hp⟩

/-! ### A request of this repository -/

theorem headerLine_injective {name name' value value' : Bytes} (hname : ∀ c ∈ name, c ∉ ascii ": ")
    (hname' : ∀ c ∈ name', c ∉ ascii ": ")
    (h : headerLine (name, value) = headerLine (name', value')) : name = name' ∧ value = value' := by
  have hcut : ∀ {name value : Bytes}, (∀ c ∈ name, c ∉ ascii ": ") →
      (headerLine (name, value)).takeWhile (· ∉ ascii ": ") = name := by
    intro name value hname
    rw [headerLine, List.append_assoc, List.takeWhile_append_of_pos]
    · simp [ascii]
    · intro c hc
      simpa using hname c hc
  have hsame : name = name' := by
    rw [← hcut hname, h, hcut hname']
  subst hsame
  exact ⟨rfl, List.append_cancel_left h⟩

/-- The headers of a request by their names, whatever the case. -/
def lookupIn (headers : List (Bytes × Bytes)) (name : Bytes) : Option Bytes :=
  (headers.find? fun header => strcaseeq header.1 name).map Prod.snd

def plainKey : Bytes := ascii "lYKr2sn9+ILcLpkqdrE2VQ=="

def plainAccept : Bytes := ascii "G5J7ncQnmS/MubIYcqKWM+E6k8I="

def plainHeaders : List (Bytes × Bytes) := requestHeaders (ascii "h") plainKey protocolJson1

theorem presents_plain :
    Presents (lookupIn plainHeaders) (makeRequest (ascii "/") (ascii "h") plainKey protocolJson1) := by
  intro first lines hrequest hlines name value hin hname hvalue hfirst hlast
  have hnames : ∀ header ∈ plainHeaders,
      header.1.all (fun c => decide (c ∉ ascii ": ")) = true := by decide +kernel
  have hfound : ∀ header ∈ plainHeaders, lookupIn plainHeaders header.1 = some header.2 := by decide +kernel
  have hown : ∀ line ∈ (ascii "GET " ++ ascii "/" ++ ascii " HTTP/1.1") :: plainHeaders.map headerLine,
      (13 : UInt8) ∉ line ∧ line ≠ [] := by decide +kernel
  have hsame := crlfLines_unique (fun line hline => ⟨crlfFree_of_no_cr (hown line hline).1,
    (hown line hline).2⟩) (.inr ⟨[], rfl⟩) hlines (.inr ⟨[], rfl⟩) hrequest
  have htail : lines = plainHeaders.map headerLine := (List.cons.inj hsame).2.symm
  rw [htail] at hin
  rcases List.mem_map.mp hin with ⟨header, hheader, heq⟩
  rcases headerLine_injective (forall_mem_of_all (hnames header hheader)) hname heq with ⟨rfl, rfl⟩
  exact hfound header hheader

/-- The client of this repository asks its server for the protocol of JSON messages. -/
theorem handshake_agrees_json1 :
    ∃ i : Nat, afbWebsockCheckUpgrade Sha1.hash true (ascii "HTTP/1.1") (lookupIn plainHeaders)
        [protocolJson1] true (fun _ => true) =
          .replied 101 (acceptHeaders plainAccept protocolJson1) true ∧
      (receiveResponse [protocolJson1] plainAccept blank
        (atOnce (crlfLines (switchingLine :: (acceptHeaders plainAccept protocolJson1).map headerLine) ++
          [13, 10]))).1 = i ∧ [protocolJson1][i]? = some protocolJson1 := by
  have hsend : sendRequest 0 [protocolJson1] (ascii "/") (ascii "h") =
      some (makeRequest (ascii "/") (ascii "h") plainKey protocolJson1, plainAccept) := by
    have hfold : foldRand 0 = 0 := by
      rw [foldRand]
      rfl
    rw [sendRequest, getkeypair, hfold]
    rfl
  have hall := @handshake_agrees 0 [protocolJson1] [protocolJson1] (ascii "/") (ascii "h") _ _
    (lookupIn plainHeaders) (fun _ => true) (List.cons_ne_nil _ _)
    (List.forall_mem_singleton.mpr ⟨⟨by decide +kernel, forall_mem_of_all (by decide +kernel)⟩,
      forall_mem_of_all (by decide +kernel)⟩) (by decide +kernel) (by decide +kernel)
    (by decide +kernel) (by decide +kernel) hsend presents_plain (fun _ _ => rfl)
  rcases hall.2 protocolJson1 (by decide +kernel) with ⟨hchecked, htaken⟩
  have hcarries : Carries
      (atOnce (crlfLines (switchingLine :: (acceptHeaders plainAccept protocolJson1).map headerLine) ++
        [13, 10])) (acceptHeaders plainAccept protocolJson1) switchingLine
      ((acceptHeaders plainAccept protocolJson1).map headerLine) := by
    constructor
    · exact plain_atOnce _
    · exact ⟨[], by rw [arriving_atOnce, List.append_nil]⟩
    · exact ⟨(acceptsStatus_iff _).mp (by decide +kernel), crlfFree_of_no_cr (by decide +kernel),
        by decide +kernel⟩
    · have hlines : ∀ line ∈ (acceptHeaders plainAccept protocolJson1).map headerLine,
          ((13 : UInt8) ∉ line ∧ line ≠ []) ∧ line.length + 2 ≤ lineSize := by decide +kernel
      exact fun line hline => ⟨⟨crlfFree_of_no_cr (hlines line hline).1.1, (hlines line hline).1.2⟩,
        (hlines line hline).2⟩
    · exact fun header hheader => List.mem_map_of_mem hheader
    · exact fun header hheader => .inl hheader
  rcases htaken _ _ _ blank hcarries with ⟨i, hresult, hprotocol⟩
  exact ⟨i, hchecked, hresult, hprotocol⟩

end AfbBinder.Handshake
