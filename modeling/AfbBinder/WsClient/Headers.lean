import AfbBinder.WsClient.Block

/-!
# What the headers set

The status line and the headers as a reader of the protocol sees them, and what the scan of
the header lines makes of them: an error for a value that is not the expected one, the
index of the protocol that the last header of the protocols names, the length that the last
header of the length gives, and the length of the last name.
-/

namespace AfbBinder.WsClient

open Lib

/-! ## The lines as they are to be read -/

/-- The status line is of HTTP/1.1 and has the code 101. -/
def Switching (status : Bytes) : Prop :=
  ∃ spaces rest, cstring status = ascii "HTTP/1.1" ++ List.replicate (spaces + 1) 32 ++ ascii "101" ++ rest ∧
    (rest = [] ∨ rest.head? = some 32)

/-- The name at the start of a header line. -/
def fieldName (header : Bytes) : Bytes := (cstring header).takeWhile (· ∉ ascii ": ")

/-- The first token of a value. -/
def firstToken (value : Bytes) : Bytes :=
  (value.dropWhile (· ∈ ascii " ,")).takeWhile (· ∉ ascii " ,")

/-- The value of a header line that has the given name, whatever the case. -/
def headerValue (name header : Bytes) : Option Bytes :=
  if fieldName header ≠ [] ∧ (cstring header).getD (fieldName header).length 0 = 58 ∧
      strcaseeq (fieldName header) name = true then
    some (firstToken ((cstring header).drop ((fieldName header).length + 1)))
  else none

def secWebSocketAccept : Bytes := ascii "Sec-WebSocket-Accept"

def secWebSocketProtocol : Bytes := ascii "Sec-WebSocket-Protocol"

def upgrade : Bytes := ascii "Upgrade"

def contentLength : Bytes := ascii "Content-Length"

/-! ## The status line -/

theorem drop_takeWhile (p : UInt8 → Bool) (text : Bytes) :
    text.drop (text.takeWhile p).length = text.dropWhile p := by
  have hsplit : (text.takeWhile p ++ text.dropWhile p).drop (text.takeWhile p).length =
      text.dropWhile p := List.drop_left
  rwa [List.takeWhile_append_dropWhile] at hsplit

theorem take_takeWhile (p : UInt8 → Bool) (text : Bytes) :
    text.take (text.takeWhile p).length = text.takeWhile p :=
  (List.prefix_iff_eq_take.mp (List.takeWhile_prefix p)).symm

theorem span_append {p : UInt8 → Bool} {front back : Bytes} (hfront : ∀ c ∈ front, p c = true)
    (hback : ∀ c, back.head? = some c → p c = false) :
    (front ++ back).takeWhile p = front ∧ (front ++ back).dropWhile p = back := by
  have htake : (front ++ back).takeWhile p = front := by
    rw [List.takeWhile_append_of_pos hfront]
    cases back with
    | nil => exact List.append_nil _
    | cons c back => rw [List.takeWhile_cons_of_neg (Bool.eq_false_iff.mp (hback c rfl)), List.append_nil]
  constructor
  · exact htake
  · rw [← drop_takeWhile, htake, List.drop_left]

theorem token_iff {text word reject : Bytes} :
    strcspn text reject = word.length ∧ text.take word.length = word ↔
      text.takeWhile (· ∉ reject) = word := by
  unfold strcspn
  constructor
  · intro ⟨hlen, hword⟩
    rw [← take_takeWhile, hlen, hword]
  · rintro rfl
    exact ⟨rfl, take_takeWhile _ _⟩

theorem acceptsStatus_words (line : Bytes) :
    acceptsStatus line = true ↔
      line.takeWhile (· ∉ ascii " ") = ascii "HTTP/1.1" ∧
        strspn (line.dropWhile (· ∉ ascii " ")) (ascii " ") ≠ 0 ∧
        ((line.dropWhile (· ∉ ascii " ")).dropWhile (· ∈ ascii " ")).takeWhile (· ∉ ascii " ") =
          ascii "101" := by
  rw [← token_iff, ← token_iff]
  have hversion : line.drop (strcspn line (ascii " ")) = line.dropWhile (· ∉ ascii " ") :=
    drop_takeWhile _ _
  have hspaces : ∀ text : Bytes, text.drop (strspn text (ascii " ")) =
      text.dropWhile (· ∈ ascii " ") := drop_takeWhile _
  unfold acceptsStatus
  have hversionLen : (ascii "HTTP/1.1").length = 8 := rfl
  have hcodeLen : (ascii "101").length = 3 := rfl
  simp only [hversion, hspaces, hversionLen, hcodeLen]
  split
  case isTrue hother =>
    refine iff_of_false (fun h => nomatch h) fun h => ?_
    rcases hother with hlen | hword
    · exact hlen h.1.1
    · exact hword h.1.2
  case isFalse hsame =>
    simp only [not_or, ne_eq, not_not] at hsame
    split
    case isTrue hnone => exact iff_of_false (fun h => nomatch h) fun h => h.2.1 hnone
    case isFalse hsome =>
      rw [Bool.and_eq_true, decide_eq_true_eq, decide_eq_true_eq]
      constructor
      · intro hcode
        exact ⟨hsame, hsome, hcode⟩
      · intro h
        exact h.2.2

theorem spaces_split (text : Bytes) :
    text = List.replicate (strspn text (ascii " ")) 32 ++ text.dropWhile (· ∈ ascii " ") := by
  have hreplicate : text.takeWhile (· ∈ ascii " ") =
      List.replicate (strspn text (ascii " ")) 32 := by
    apply List.eq_replicate_of_mem
    intro c hc
    have hspace := List.all_eq_true.mp List.all_takeWhile c hc
    exact List.mem_singleton.mp (of_decide_eq_true hspace)
  rw [← hreplicate, List.takeWhile_append_dropWhile]

/-- After a word the line ends or has a space. -/
theorem after_word (text : Bytes) :
    text.dropWhile (· ∉ ascii " ") = [] ∨ (text.dropWhile (· ∉ ascii " ")).head? = some 32 := by
  have hhead := List.head?_dropWhile_not (· ∉ ascii " ") text
  cases hrest : text.dropWhile (· ∉ ascii " ") with
  | nil => exact .inl rfl
  | cons c rest =>
      rw [hrest] at hhead
      have hspace : c ∈ ascii " " := by simpa using hhead
      exact .inr (congrArg some (List.mem_singleton.mp hspace))

theorem word_append {word rest : Bytes} (hword : word.all (· ∉ ascii " ") = true)
    (hrest : rest = [] ∨ rest.head? = some 32) :
    (word ++ rest).takeWhile (· ∉ ascii " ") = word ∧
      (word ++ rest).dropWhile (· ∉ ascii " ") = rest := by
  apply span_append (List.all_eq_true.mp hword)
  intro c hc
  rcases hrest with rfl | hspace
  · cases hc
  · rw [hspace] at hc
    cases hc
    rfl

theorem acceptsStatus_iff (status : Bytes) :
    acceptsStatus (cstring status) = true ↔ Switching status := by
  rw [acceptsStatus_words]
  unfold Switching
  generalize cstring status = line
  constructor
  · intro ⟨hversion, hspaces, hcode⟩
    have hline : line = ascii "HTTP/1.1" ++ line.dropWhile (· ∉ ascii " ") := by
      rw [← hversion, List.takeWhile_append_dropWhile]
    generalize line.dropWhile (· ∉ ascii " ") = after at hline hspaces hcode
    have hafter := spaces_split after
    rcases Nat.exists_eq_succ_of_ne_zero hspaces with ⟨n, hn⟩
    rw [hn] at hafter
    generalize after.dropWhile (· ∈ ascii " ") = code at hafter hcode
    refine ⟨n, code.dropWhile (· ∉ ascii " "), ?_, after_word code⟩
    rw [List.append_assoc, ← hcode, List.takeWhile_append_dropWhile, List.append_assoc, ← hafter,
      ← hline]
  · rintro ⟨n, rest, rfl, hrest⟩
    have hversion := @word_append (ascii "HTTP/1.1")
      (List.replicate (n + 1) 32 ++ (ascii "101" ++ rest)) (by decide) (.inr rfl)
    have hcode := @word_append (ascii "101") rest (by decide) hrest
    have hspaces := @span_append (· ∈ ascii " ") (List.replicate (n + 1) 32) (ascii "101" ++ rest)
      (by
        intro c hc
        rw [List.eq_of_mem_replicate hc]
        rfl) (by
        intro c hc
        cases hc
        rfl)
    rw [List.append_assoc, List.append_assoc]
    refine ⟨hversion.1, ?_, ?_⟩
    · rw [hversion.2, strspn, hspaces.1, List.length_replicate]
      exact Nat.succ_ne_zero n
    · rw [hversion.2, hspaces.2, hcode.1]

/-! ## The names -/

theorem isheader_iff {field rest key : Bytes} (hkey : (0 : UInt8) ∉ key) :
    isheader (field ++ rest) field.length key = true ↔ strcaseeq field key = true := by
  unfold isheader strcaseeq
  rw [Bool.and_eq_true, strncaseeq_iff, List.take_left, decide_eq_true_eq, decide_eq_true_eq]
  constructor
  · intro ⟨hsame, hend⟩
    have hlen := congrArg List.length hsame
    rw [List.length_map, List.length_map, List.length_take] at hlen
    have hle : key.length ≤ field.length := by
      by_contra hlt
      have hin : field.length < key.length := Nat.lt_of_not_le hlt
      rw [List.getD_eq_getElem?_getD, List.getElem?_eq_getElem hin, Option.getD_some] at hend
      exact hkey (hend ▸ List.getElem_mem hin)
    rwa [List.take_of_length_le hle] at hsame
  · intro hsame
    have hlen := congrArg List.length hsame
    rw [List.length_map, List.length_map] at hlen
    have hall : key.take field.length = key := List.take_of_length_le (Nat.le_of_eq hlen.symm)
    refine ⟨by rw [hall]; exact hsame, ?_⟩
    simp [hlen]

theorem strcaseeq_other {field key key' : Bytes} (hother : strcaseeq key key' = false)
    (h : strcaseeq field key = true) : strcaseeq field key' = false := by
  unfold strcaseeq at h hother ⊢
  rw [decide_eq_true_eq] at h
  rw [h]
  exact hother

theorem isheader_name {header key : Bytes} (hkey : (0 : UInt8) ∉ key) :
    isheader (cstring header) (strcspn (cstring header) (ascii ": ")) key =
      strcaseeq (fieldName header) key := by
  have hsplit : fieldName header ++ (cstring header).dropWhile (· ∉ ascii ": ") = cstring header :=
    List.takeWhile_append_dropWhile
  have hiff := @isheader_iff (fieldName header) ((cstring header).dropWhile (· ∉ ascii ": ")) key hkey
  rw [hsplit] at hiff
  exact Bool.eq_iff_iff.mpr hiff

/-- The value of a header: the scan leaves the separators before it and cuts it at the next
one. -/
theorem scanned_value (line : Bytes) (len : Nat) :
    (line.take (valueEnd line len)).drop (valueStart line len) =
      firstToken (line.drop (len + 1)) := by
  have hstart : line.drop (valueStart line len) =
      (line.drop (len + 1)).dropWhile (· ∈ ascii " ,") := by
    rw [valueStart, ← List.drop_drop, strspn]
    exact drop_takeWhile _ _
  rw [List.drop_take, valueEnd, Nat.add_sub_cancel_left, hstart, strcspn]
  exact take_takeWhile _ _

theorem headerValue_eq (name header : Bytes) :
    headerValue name header =
      if isField (cstring header) = true ∧ strcaseeq (fieldName header) name = true then
        some (firstToken ((cstring header).drop ((fieldName header).length + 1)))
      else none := by
  have hfield : isField (cstring header) = true ↔
      fieldName header ≠ [] ∧ (cstring header).getD (fieldName header).length 0 = 58 := by
    have hlen : strcspn (cstring header) (ascii ": ") = (fieldName header).length := rfl
    rw [isField, hlen, Bool.and_eq_true, decide_eq_true_eq, decide_eq_true_eq]
    exact and_congr_left fun _ => not_congr List.length_eq_zero_iff
  unfold headerValue
  simp only [hfield, and_assoc]

/-! ## One header line -/

/-- What one header line does to the variables. -/
theorem scanHeader_eq (protocols : List Bytes) (ack : Bytes) (s : Scan) (header : Bytes) :
    scanHeader protocols ack s (cstring header) =
      { result := ((headerValue secWebSocketProtocol header).map fun value =>
          ((protocols.findIdx (value = ·) : Nat) : Int)).getD s.result
        haserr := s.haserr || (headerValue secWebSocketAccept header).any (· ≠ ack) ||
          (headerValue upgrade header).any (· ≠ ascii "websocket")
        clen := ((headerValue contentLength header).map fun value =>
          (atol value % (2 ^ 64 : Nat)).toNat).getD s.clen
        len := (fieldName header).length } := by
  have hlen : strcspn (cstring header) (ascii ": ") = (fieldName header).length := rfl
  rw [headerValue_eq, headerValue_eq, headerValue_eq, headerValue_eq, scanHeader, scanned_value]
  rw [isheader_name (by decide), isheader_name (by decide), isheader_name (by decide),
    isheader_name (by decide)]
  rw [hlen]
  generalize firstToken ((cstring header).drop ((fieldName header).length + 1)) = value
  -- a name is one of the four at most
  have hprotocol : strcaseeq (fieldName header) (ascii "Sec-WebSocket-Accept") = true →
      strcaseeq (fieldName header) secWebSocketProtocol = false := strcaseeq_other (by decide)
  have hupgrade : strcaseeq (fieldName header) (ascii "Sec-WebSocket-Accept") = true ∨
      strcaseeq (fieldName header) (ascii "Sec-WebSocket-Protocol") = true →
      strcaseeq (fieldName header) upgrade = false :=
    fun h => h.elim (strcaseeq_other (by decide)) (strcaseeq_other (by decide))
  have hlength : strcaseeq (fieldName header) (ascii "Sec-WebSocket-Accept") = true ∨
      strcaseeq (fieldName header) (ascii "Sec-WebSocket-Protocol") = true ∨
      strcaseeq (fieldName header) (ascii "Upgrade") = true →
      strcaseeq (fieldName header) contentLength = false :=
    fun h => h.elim (strcaseeq_other (by decide))
      fun h => h.elim (strcaseeq_other (by decide)) (strcaseeq_other (by decide))
  simp only [secWebSocketAccept, secWebSocketProtocol, upgrade, contentLength] at *
  cases hfield : isField (cstring header) with
  | false => simp
  | true =>
      by_cases haccept : strcaseeq (fieldName header) (ascii "Sec-WebSocket-Accept") = true
      · rw [if_pos rfl, if_pos haccept]
        by_cases hvalue : value = ack
        · simp [haccept, hprotocol haccept, hupgrade (.inl haccept), hlength (.inl haccept), hvalue]
        · simp [haccept, hprotocol haccept, hupgrade (.inl haccept), hlength (.inl haccept), hvalue]
      · rw [if_pos rfl, if_neg haccept]
        by_cases hproto : strcaseeq (fieldName header) (ascii "Sec-WebSocket-Protocol") = true
        · simp [haccept, hproto, hupgrade (.inr hproto), hlength (.inr (.inl hproto))]
        · by_cases hup : strcaseeq (fieldName header) (ascii "Upgrade") = true
          · by_cases hvalue : value = ascii "websocket"
            · simp [haccept, hproto, hup, hlength (.inr (.inr hup)), hvalue]
            · simp [haccept, hproto, hup, hlength (.inr (.inr hup)), hvalue]
          · by_cases hlen : strcaseeq (fieldName header) (ascii "Content-Length") = true
            · simp [haccept, hproto, hup, hlen]
            · simp [haccept, hproto, hup, hlen]

/-! ## The header lines -/

/-- The last value of the headers of a name. -/
def lastValue (name : Bytes) (headers : List Bytes) : Option Bytes :=
  (headers.filterMap (headerValue name)).getLast?

theorem lastValue_cons (name header : Bytes) (headers : List Bytes) :
    lastValue name (header :: headers) = (lastValue name headers).or (headerValue name header) := by
  unfold lastValue
  cases hvalue : headerValue name header with
  | none => rw [List.filterMap_cons_none hvalue, Option.or_none]
  | some value =>
      rw [List.filterMap_cons_some hvalue, List.getLast?_cons]
      cases (headers.filterMap (headerValue name)).getLast? <;> rfl

theorem lastValue_mem {name value : Bytes} {headers : List Bytes}
    (h : lastValue name headers = some value) :
    ∃ header ∈ headers, headerValue name header = some value :=
  List.mem_filterMap.mp (List.mem_of_getLast? h)

theorem lastValue_isSome {name : Bytes} {headers : List Bytes} :
    (lastValue name headers).isSome = true ↔
      ∃ header ∈ headers, (headerValue name header).isSome = true := by
  induction headers with
  | nil => simp [lastValue]
  | cons header headers ih =>
      rw [lastValue_cons, Option.isSome_or, Bool.or_eq_true, ih]
      simp only [List.mem_cons, exists_eq_or_imp]
      exact or_comm

section Scan

variable (protocols : List Bytes) (ack : Bytes) (s : Scan) (headers : List Bytes)

theorem scanLines_cons (header : Bytes) :
    scanLines protocols ack s (header :: headers) =
      scanLines protocols ack (scanHeader protocols ack s (cstring header)) headers := rfl

theorem scanLines_result :
    (scanLines protocols ack s headers).result =
      ((lastValue secWebSocketProtocol headers).map fun value =>
        ((protocols.findIdx (value = ·) : Nat) : Int)).getD s.result := by
  induction headers generalizing s with
  | nil => rfl
  | cons header headers ih =>
      rw [scanLines_cons, ih, lastValue_cons, scanHeader_eq]
      cases lastValue secWebSocketProtocol headers <;> rfl

theorem scanLines_clen :
    (scanLines protocols ack s headers).clen =
      ((lastValue contentLength headers).map fun value =>
        (atol value % (2 ^ 64 : Nat)).toNat).getD s.clen := by
  induction headers generalizing s with
  | nil => rfl
  | cons header headers ih =>
      rw [scanLines_cons, ih, lastValue_cons, scanHeader_eq]
      cases lastValue contentLength headers <;> rfl

theorem scanLines_haserr :
    (scanLines protocols ack s headers).haserr = (s.haserr || headers.any fun header =>
      (headerValue secWebSocketAccept header).any (· ≠ ack) ||
        (headerValue upgrade header).any (· ≠ ascii "websocket")) := by
  induction headers generalizing s with
  | nil => simp [scanLines]
  | cons header headers ih =>
      rw [scanLines_cons, ih, scanHeader_eq, List.any_cons]
      simp only [Bool.or_assoc]

theorem scanLines_len :
    (scanLines protocols ack s headers).len =
      (headers.getLast?.map fun header => (fieldName header).length).getD s.len := by
  induction headers generalizing s with
  | nil => rfl
  | cons header headers ih =>
      rw [scanLines_cons, ih, List.getLast?_cons, scanHeader_eq]
      cases headers.getLast? <;> rfl

end Scan

end AfbBinder.WsClient
