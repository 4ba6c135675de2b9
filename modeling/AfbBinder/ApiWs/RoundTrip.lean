import AfbBinder.ApiWs.Server

/-!
# The round trip of binder messages

A message as its fields, what it means to a client, and that the vectors written by the
server (or, for a call, by the client) are read back with that meaning.  A message with
a string whose length and NUL do not fit 32 bits is not written.
-/

namespace AfbBinder.ApiWs

open Lib

/-! ## Messages -/

/-- The messages of a server to its clients. -/
inductive ServerMessage (J : Type) where
  | success (msgid flags : UInt32) (object : Option J) (info : Option CString)
  | fail (msgid flags : UInt32) (status : CString) (info : Option CString)
  | send (msgid flags : UInt32) (buffer : Bytes)
  | broadcast (event : CString) (object : Option J)
  | add (event : CString) (eventid : UInt32)
  | remove (event : CString) (eventid : UInt32)
  | push (event : CString) (eventid : UInt32) (object : Option J)
  | subscribe (msgid eventid : UInt32) (name : CString)
  | unsubscribe (msgid eventid : UInt32) (name : CString)

namespace ServerMessage

variable {J : Type} (json : JsonC J)

/-- The encoder of each message. -/
def encode : ServerMessage J → Option Writebuf
  | .success msgid flags object info => apiWsServerReqSuccess json msgid flags object info
  | .fail msgid flags status info => apiWsServerReqFail msgid flags status info
  | .send msgid flags buffer => apiWsServerReqSend msgid flags buffer
  | .broadcast event object => apiWsServerEventBroadcast json event object
  | .add event eventid => apiWsServerEventAdd event eventid
  | .remove event eventid => apiWsServerEventRemove event eventid
  | .push event eventid object => apiWsServerEventPush json event eventid object
  | .subscribe msgid eventid name => apiWsServerReqSubscribe msgid eventid name
  | .unsubscribe msgid eventid name => apiWsServerReqUnsubscribe msgid eventid name

/-- The strings that the message counts. -/
def strings : ServerMessage J → List Bytes
  | .success _ _ object info =>
      [(info.getD emptyString).bytes, (json.toJsonString object).bytes]
  | .fail _ _ status info => [status.bytes, (info.getD emptyString).bytes]
  | .send _ _ buffer => [buffer]
  | .broadcast event object => [event.bytes, (json.toJsonString object).bytes]
  | .add event _ => [event.bytes]
  | .remove event _ => [event.bytes]
  | .push event _ object => [event.bytes, (json.toJsonString object).bytes]
  | .subscribe _ _ name => [name.bytes]
  | .unsubscribe _ _ name => [name.bytes]

/-- The length of a string with its NUL is a word. -/
def Fits (message : ServerMessage J) : Prop :=
  ∀ string ∈ message.strings json, string.length + 1 < 2 ^ 32

/-- The meaning of a message to a client, `none` when it refers to a call that is not
waiting or to an event that is not known. -/
def receive (message : ServerMessage J) (api : Client J) : Option (Client J) :=
  match message with
  | .success msgid flags object info => do
      let memo ← apiWsClientMemoSearch api.memos msgid
      let info := optionalInfo (info.getD emptyString).bytes
      some (apiWsClientMemoDestroy memo (api.effect (.success memo.req flags object info)))
  | .fail msgid flags status info => do
      let memo ← apiWsClientMemoSearch api.memos msgid
      let info := optionalInfo (info.getD emptyString).bytes
      some (apiWsClientMemoDestroy memo
        (api.effect (.fail memo.req (some flags) status.bytes info)))
  | .send msgid flags buffer => do
      let memo ← apiWsClientMemoSearch api.memos msgid
      some (apiWsClientMemoDestroy memo (api.effect (.send memo.req flags buffer)))
  | .broadcast event object => some (api.effect (.broadcast event.bytes object))
  | .add event eventid => some (createEvent eventid event.bytes api)
  | .remove event eventid => do
      let ev ← apiWsClientEventSearch api.events eventid event.bytes
      some (dropEvent ev api)
  | .push event eventid object => do
      let ev ← apiWsClientEventSearch api.events eventid event.bytes
      some (api.effect (.push ev.eventid ev.name object))
  | .subscribe msgid eventid name => do
      let memo ← apiWsClientMemoSearch api.memos msgid
      let ev ← apiWsClientEventSearch api.events eventid name.bytes
      some (api.effect (.subscribe memo.req ev.eventid ev.name))
  | .unsubscribe msgid eventid name => do
      let memo ← apiWsClientMemoSearch api.memos msgid
      let ev ← apiWsClientEventSearch api.events eventid name.bytes
      some (api.effect (.unsubscribe memo.req ev.eventid ev.name))

/-- The bytes after the first character. -/
def fields : ServerMessage J → Bytes
  | .success msgid flags object info =>
      le32 msgid ++ (le32 flags ++ (countedString (info.getD emptyString).bytes ++
        countedString (json.toJsonString object).bytes))
  | .fail msgid flags status info =>
      le32 msgid ++ (le32 flags ++ (countedString status.bytes ++
        countedString (info.getD emptyString).bytes))
  | .send msgid flags buffer => le32 msgid ++ (le32 flags ++ countedString buffer)
  | .broadcast event object =>
      countedString event.bytes ++ countedString (json.toJsonString object).bytes
  | .add event eventid => le32 eventid ++ countedString event.bytes
  | .remove event eventid => le32 eventid ++ countedString event.bytes
  | .push event eventid object =>
      le32 eventid ++ (countedString event.bytes ++
        countedString (json.toJsonString object).bytes)
  | .subscribe msgid eventid name => le32 msgid ++ (le32 eventid ++ countedString name.bytes)
  | .unsubscribe msgid eventid name => le32 msgid ++ (le32 eventid ++ countedString name.bytes)

def order : ServerMessage J → UInt8
  | .success .. => 84
  | .fail .. => 70
  | .send .. => 88
  | .broadcast .. => 42
  | .add .. => 43
  | .remove .. => 45
  | .push .. => 33
  | .subscribe .. => 83
  | .unsubscribe .. => 85

/-! ## Encoding -/

theorem encode_fits {message : ServerMessage J} (h : message.Fits json) :
    ∃ count, Built (message.encode json) (message.order :: message.fields json) count := by
  have hhead : Built (some [] >>= apiWsWriteChar message.order) [message.order] 1 :=
    built_nil.char message.order (by omega)
  cases message with
  | success msgid flags object info =>
      have hinfo := h (info.getD emptyString).bytes (by simp [strings])
      have hobject := h (json.toJsonString object).bytes (by simp [strings])
      have hids := (hhead.uint32 msgid (by omega)).uint32 flags (by omega)
      have hall := (hids.string _ (by omega) hinfo).string _ (by omega) hobject
      exact ⟨_, hall.cast (by simp [fields])⟩
  | fail msgid flags status info =>
      have hstatus := h status.bytes (by simp [strings])
      have hinfo := h (info.getD emptyString).bytes (by simp [strings])
      have hids := (hhead.uint32 msgid (by omega)).uint32 flags (by omega)
      have hall := (hids.string _ (by omega) hstatus).string _ (by omega) hinfo
      exact ⟨_, hall.cast (by simp [fields])⟩
  | send msgid flags buffer =>
      have hbuffer := h buffer (by simp [strings])
      have hids := (hhead.uint32 msgid (by omega)).uint32 flags (by omega)
      have hall := hids.stringLength buffer (by omega) hbuffer
      exact ⟨_, hall.cast (by simp [fields])⟩
  | broadcast event object =>
      have hevent := h event.bytes (by simp [strings])
      have hobject := h (json.toJsonString object).bytes (by simp [strings])
      have hall := (hhead.string _ (by omega) hevent).string _ (by omega) hobject
      exact ⟨_, hall.cast (by simp [fields])⟩
  | add event eventid | remove event eventid =>
      have hevent := h event.bytes (by simp [strings])
      have hall := (hhead.uint32 eventid (by omega)).string _ (by omega) hevent
      exact ⟨_, hall.cast (by simp [fields])⟩
  | push event eventid object =>
      have hevent := h event.bytes (by simp [strings])
      have hobject := h (json.toJsonString object).bytes (by simp [strings])
      have hname := (hhead.uint32 eventid (by omega)).string _ (by omega) hevent
      have hall := hname.string _ (by omega) hobject
      exact ⟨_, hall.cast (by simp [fields])⟩
  | subscribe msgid eventid name | unsubscribe msgid eventid name =>
      have hname := h name.bytes (by simp [strings])
      have hids := (hhead.uint32 msgid (by omega)).uint32 eventid (by omega)
      exact ⟨_, (hids.string _ (by omega) hname).cast (by simp [fields])⟩

theorem encode_refused {message : ServerMessage J} (h : ¬ message.Fits json) :
    message.encode json = none := by
  obtain ⟨string, hmem, hlong⟩ : ∃ string ∈ message.strings json,
      ¬ string.length + 1 < 2 ^ 32 := by
    simpa only [Fits, Classical.not_forall, Classical.not_imp, exists_prop] using h
  cases message with
  | success msgid flags object info =>
      simp only [strings, List.mem_cons, List.not_mem_nil, or_false] at hmem
      simp only [encode, apiWsServerReqSuccess]
      rcases hmem with rfl | rfl
      · rw [writeString_refused hlong]
        rfl
      · exact writeString_refused hlong _
  | fail msgid flags status info =>
      simp only [strings, List.mem_cons, List.not_mem_nil, or_false] at hmem
      simp only [encode, apiWsServerReqFail]
      rcases hmem with rfl | rfl
      · rw [writeString_refused hlong]
        rfl
      · exact writeString_refused hlong _
  | send msgid flags buffer =>
      simp only [strings, List.mem_singleton] at hmem
      subst hmem
      exact writeStringLength_refused hlong _
  | broadcast event object =>
      simp only [strings, List.mem_cons, List.not_mem_nil, or_false] at hmem
      simp only [encode, apiWsServerEventBroadcast]
      rcases hmem with rfl | rfl
      · rw [writeString_refused hlong]
        rfl
      · exact writeString_refused hlong _
  | add | remove | subscribe | unsubscribe =>
      simp only [strings, List.mem_singleton] at hmem
      subst hmem
      exact writeString_refused hlong _
  | push event eventid object =>
      simp only [strings, List.mem_cons, List.not_mem_nil, or_false] at hmem
      simp only [encode, apiWsServerEventPush, apiWsServerEventSend]
      rcases hmem with rfl | rfl
      · rw [writeString_refused hlong]
        rfl
      · exact writeString_refused hlong _

/-! ## Decoding -/

variable {json} {beyond rest : Bytes} {rb : Readbuf} (api : Client J)

theorem memoGet_written {msgid : UInt32} (h : Unread (le32 msgid ++ rest) beyond rb) :
    ∃ rb', Unread rest beyond rb' ∧
      apiWsClientMsgMemoGet api rb =
        (apiWsClientMemoSearch api.memos msgid).map fun memo => (memo, rb') := by
  obtain ⟨rb', hread, hrest, -⟩ := readUint32_written h
  refine ⟨rb', hrest, ?_⟩
  simp only [apiWsClientMsgMemoGet, hread, Option.bind_eq_bind, Option.bind_some]
  cases apiWsClientMemoSearch api.memos msgid <;> rfl

theorem eventRead_written {eventid : UInt32} {name : CString}
    (hsize : name.bytes.length + 1 < 2 ^ 32)
    (h : Unread (le32 eventid ++ (countedString name.bytes ++ rest)) beyond rb) :
    ∃ rb', Unread rest beyond rb' ∧
      apiWsClientMsgEventRead rb = some ((eventid, name.bytes), rb') := by
  obtain ⟨rb₁, hread₁, hrest₁, -⟩ := readUint32_written h
  obtain ⟨address, rb', hread, hrest, -, -, hholds⟩ := readString_written hsize hrest₁
  refine ⟨rb', hrest, ?_⟩
  simp only [apiWsClientMsgEventRead, hread₁, hread, Option.bind_eq_bind, Option.bind_some,
    hholds.text]

theorem eventGet_written {eventid : UInt32} {name : CString}
    (hsize : name.bytes.length + 1 < 2 ^ 32)
    (h : Unread (le32 eventid ++ (countedString name.bytes ++ rest)) beyond rb) :
    ∃ rb', Unread rest beyond rb' ∧
      apiWsClientMsgEventGet api rb =
        (apiWsClientEventSearch api.events eventid name.bytes).map fun ev => (ev, rb') := by
  obtain ⟨rb', hrest, hread⟩ := eventRead_written hsize h
  refine ⟨rb', hrest, ?_⟩
  simp only [apiWsClientMsgEventGet, hread, Option.bind_eq_bind, Option.bind_some]
  cases apiWsClientEventSearch api.events eventid name.bytes <;> rfl

/-- The end of the buffer is reached with the meaning of the message; a message without
meaning leaves the client. -/
def Reads (api : Client J) (meaning : Option (Client J)) (result : Client J × Readbuf) : Prop :=
  match meaning with
  | none => result.1 = api
  | some api' => result.1 = api' ∧ result.2.head = result.2.stop

/-- A reply whose answer is readable. -/
theorem replyWith_written {msgid : UInt32} {answer : Memo → Readbuf → Option (Effect J × Readbuf)}
    {effect : Memo → Effect J} (h : Unread (le32 msgid ++ rest) beyond rb)
    (hanswer : ∀ memo rb, Unread rest beyond rb →
      ∃ rb', answer memo rb = some (effect memo, rb') ∧ Unread [] beyond rb') :
    Reads api
      ((apiWsClientMemoSearch api.memos msgid).map fun memo =>
        apiWsClientMemoDestroy memo (api.effect (effect memo)))
      (replyWith answer api rb) := by
  obtain ⟨rb₁, hrest, hget⟩ := memoGet_written api h
  unfold replyWith
  rw [hget]
  cases apiWsClientMemoSearch api.memos msgid with
  | none => rfl
  | some memo =>
      obtain ⟨rb', hread, hend⟩ := hanswer memo rb₁ hrest
      simp only [Option.map_some, hread]
      exact ⟨rfl, hend.done⟩

/-- A message that refers to a call and to an event. -/
theorem subscriptionGet_written {msgid eventid : UInt32} {name : CString}
    (hsize : name.bytes.length + 1 < 2 ^ 32)
    (h : Unread (le32 msgid ++ (le32 eventid ++ countedString name.bytes)) beyond rb) :
    ∃ rb', Unread [] beyond rb' ∧
      apiWsClientMsgSubscriptionGet api rb =
        (apiWsClientMemoSearch api.memos msgid).bind fun memo =>
          (apiWsClientEventSearch api.events eventid name.bytes).map fun ev =>
            ((ev, memo), rb') := by
  obtain ⟨rb₁, hrest₁, hmemo⟩ := memoGet_written api h
  rw [← List.append_nil (countedString name.bytes)] at hrest₁
  obtain ⟨rb', hrest, hevent⟩ := eventGet_written api hsize hrest₁
  refine ⟨rb', hrest, ?_⟩
  simp only [apiWsClientMsgSubscriptionGet, hmemo]
  cases apiWsClientMemoSearch api.memos msgid with
  | none => rfl
  | some memo =>
      simp only [Option.map_some, Option.bind_eq_bind, Option.bind_some, hevent]
      cases apiWsClientEventSearch api.events eventid name.bytes <;> rfl

theorem onBinary_order {order : UInt8} {fields : Bytes} (h : Unread (order :: fields) beyond rb) :
    apiWsClientOnBinary json api rb = handlerOf json order api { rb with head := rb.head + 1 } ∧
      Unread fields beyond { rb with head := rb.head + 1 } := by
  obtain ⟨-, -, hrest⟩ := @Unread.advance beyond fields rb [order] h
  refine ⟨?_, hrest⟩
  have hstop := h.stop
  rw [List.length_cons] at hstop
  have hsome : rb.stop - rb.head > 0 := by omega
  rw [apiWsClientOnBinary, if_pos hsome, h.content]
  rfl

theorem successAnswer_written (hjson : json.Inverse) {flags : UInt32} {object : Option J}
    {info : CString} (hinfo : info.bytes.length + 1 < 2 ^ 32)
    (hobject : (json.toJsonString object).bytes.length + 1 < 2 ^ 32) (memo : Memo) (rb : Readbuf)
    (h : Unread (le32 flags ++ (countedString info.bytes ++
      countedString (json.toJsonString object).bytes)) beyond rb) :
    ∃ rb', successAnswer json memo rb =
        some (.success memo.req flags object (optionalInfo info.bytes), rb') ∧
      Unread [] beyond rb' := by
  obtain ⟨rb₁, hread₁, hrest₁, -⟩ := readUint32_written h
  obtain ⟨address, rb₂, hread₂, hrest₂, -, -, hholds⟩ := readString_written hinfo hrest₁
  rw [← List.append_nil (countedString (json.toJsonString object).bytes)] at hrest₂
  obtain ⟨rb', hread, hrest, hmem, hbase⟩ := readObject_written hjson hobject hrest₂
  refine ⟨rb', ?_, hrest⟩
  have htext : rb'.text address = info.bytes := (hholds.later hmem hbase).text
  simp only [successAnswer, hread₁, hread₂, hread, Option.bind_eq_bind, Option.bind_some, htext]

theorem failAnswer_written {flags : UInt32} {status info : CString}
    (hstatus : status.bytes.length + 1 < 2 ^ 32) (hinfo : info.bytes.length + 1 < 2 ^ 32)
    (memo : Memo) (rb : Readbuf)
    (h : Unread (le32 flags ++ (countedString status.bytes ++ countedString info.bytes)) beyond rb) :
    ∃ rb', failAnswer (J := J) memo rb =
        some (.fail memo.req (some flags) status.bytes (optionalInfo info.bytes), rb') ∧
      Unread [] beyond rb' := by
  obtain ⟨rb₁, hread₁, hrest₁, -⟩ := readUint32_written h
  obtain ⟨address, rb₂, hread₂, hrest₂, -, -, hholds⟩ := readString_written hstatus hrest₁
  rw [← List.append_nil (countedString info.bytes)] at hrest₂
  obtain ⟨address', rb', hread, hrest, hmem, hbase, hholds'⟩ := readString_written hinfo hrest₂
  refine ⟨rb', ?_, hrest⟩
  have htext : rb'.text address = status.bytes := (hholds.later hmem hbase).text
  simp only [failAnswer, hread₁, hread₂, hread, Option.bind_eq_bind, Option.bind_some, htext,
    hholds'.text]

theorem sendAnswer_written {flags : UInt32} {buffer : Bytes}
    (hbuffer : buffer.length + 1 < 2 ^ 32) (memo : Memo) (rb : Readbuf)
    (h : Unread (le32 flags ++ countedString buffer) beyond rb) :
    ∃ rb', sendAnswer (J := J) memo rb = some (.send memo.req flags buffer, rb') ∧
      Unread [] beyond rb' := by
  obtain ⟨rb₁, hread₁, hrest₁, -⟩ := readUint32_written h
  rw [← List.append_nil (countedString buffer)] at hrest₁
  obtain ⟨address, rb', hread, hrest, -, -, hholds⟩ := readString_written hbuffer hrest₁
  refine ⟨rb', ?_, hrest⟩
  simp only [sendAnswer, hread₁, hread, Option.bind_eq_bind, Option.bind_some, hholds.data]

theorem eventBroadcast_written (hjson : json.Inverse) {event : CString} {object : Option J}
    (hevent : event.bytes.length + 1 < 2 ^ 32)
    (hobject : (json.toJsonString object).bytes.length + 1 < 2 ^ 32)
    (h : Unread (countedString event.bytes ++ countedString (json.toJsonString object).bytes)
      beyond rb) :
    Reads api (some (api.effect (.broadcast event.bytes object)))
      (apiWsClientEventBroadcast json api rb) := by
  obtain ⟨address, rb₁, hread₁, hrest₁, -, -, hholds⟩ := readString_written hevent h
  rw [← List.append_nil (countedString (json.toJsonString object).bytes)] at hrest₁
  obtain ⟨rb', hread, hrest, hmem, hbase⟩ := readObject_written hjson hobject hrest₁
  have htext : rb'.text address = event.bytes := (hholds.later hmem hbase).text
  simp only [apiWsClientEventBroadcast, hread₁, hread, Option.bind_eq_bind, Option.bind_some, htext]
  exact ⟨rfl, hrest.done⟩

theorem eventCreate_written {event : CString} {eventid : UInt32}
    (hevent : event.bytes.length + 1 < 2 ^ 32)
    (h : Unread (le32 eventid ++ countedString event.bytes) beyond rb) :
    Reads api (some (createEvent eventid event.bytes api)) (apiWsClientEventCreate api rb) := by
  rw [← List.append_nil (countedString event.bytes)] at h
  obtain ⟨rb', hrest, hread⟩ := eventRead_written hevent h
  simp only [apiWsClientEventCreate, hread]
  exact ⟨rfl, hrest.done⟩

theorem eventDrop_written {event : CString} {eventid : UInt32}
    (hevent : event.bytes.length + 1 < 2 ^ 32)
    (h : Unread (le32 eventid ++ countedString event.bytes) beyond rb) :
    Reads api ((apiWsClientEventSearch api.events eventid event.bytes).map fun ev => dropEvent ev api)
      (apiWsClientEventDrop api rb) := by
  rw [← List.append_nil (countedString event.bytes)] at h
  obtain ⟨rb', hrest, hget⟩ := eventGet_written api hevent h
  simp only [apiWsClientEventDrop, hget]
  cases apiWsClientEventSearch api.events eventid event.bytes with
  | none => rfl
  | some ev => exact ⟨rfl, hrest.done⟩

theorem eventPush_written (hjson : json.Inverse) {event : CString} {eventid : UInt32}
    {object : Option J} (hevent : event.bytes.length + 1 < 2 ^ 32)
    (hobject : (json.toJsonString object).bytes.length + 1 < 2 ^ 32)
    (h : Unread (le32 eventid ++ (countedString event.bytes ++
      countedString (json.toJsonString object).bytes)) beyond rb) :
    Reads api ((apiWsClientEventSearch api.events eventid event.bytes).map fun ev =>
        api.effect (.push ev.eventid ev.name object))
      (apiWsClientEventPush json api rb) := by
  obtain ⟨rb₁, hrest₁, hget⟩ := eventGet_written api hevent h
  rw [← List.append_nil (countedString (json.toJsonString object).bytes)] at hrest₁
  obtain ⟨rb', hread, hrest, -⟩ := readObject_written hjson hobject hrest₁
  simp only [apiWsClientEventPush, hget]
  cases apiWsClientEventSearch api.events eventid event.bytes with
  | none => rfl
  | some ev =>
      simp only [Option.map_some, Option.bind_eq_bind, Option.bind_some, hread]
      exact ⟨rfl, hrest.done⟩

/-- The handlers of a message that refers to a call and to an event. -/
theorem subscription_written {msgid eventid : UInt32} {name : CString}
    (effect : Memo → ApiWsEvent → Effect J) (hname : name.bytes.length + 1 < 2 ^ 32)
    (h : Unread (le32 msgid ++ (le32 eventid ++ countedString name.bytes)) beyond rb) :
    Reads api
      ((apiWsClientMemoSearch api.memos msgid).bind fun memo =>
        (apiWsClientEventSearch api.events eventid name.bytes).map fun ev =>
          api.effect (effect memo ev))
      (match apiWsClientMsgSubscriptionGet api rb with
      | none => (api, rb)
      | some ((ev, memo), rb) => (api.effect (effect memo ev), rb)) := by
  obtain ⟨rb', hrest, hget⟩ := subscriptionGet_written api hname h
  rw [hget]
  cases apiWsClientMemoSearch api.memos msgid with
  | none => rfl
  | some memo =>
      cases apiWsClientEventSearch api.events eventid name.bytes with
      | none => rfl
      | some ev => exact ⟨rfl, hrest.done⟩

/-- The client reads back what a message means. -/
theorem onBinary_written (hjson : json.Inverse) {message : ServerMessage J}
    (hfits : message.Fits json) (h : Unread (message.order :: message.fields json) beyond rb)
    (api : Client J) : Reads api (message.receive api) (apiWsClientOnBinary json api rb) := by
  obtain ⟨hhandler, hfields⟩ := @onBinary_order J json beyond rb api _ _ h
  rw [hhandler]
  cases message with
  | success msgid flags object info =>
      have hinfo := hfits (info.getD emptyString).bytes (by simp [strings])
      have hobject := hfits (json.toJsonString object).bytes (by simp [strings])
      have hreads := replyWith_written api hfields (successAnswer_written hjson hinfo hobject)
      rwa [Option.map_eq_bind] at hreads
  | fail msgid flags status info =>
      have hstatus := hfits status.bytes (by simp [strings])
      have hinfo := hfits (info.getD emptyString).bytes (by simp [strings])
      have hreads := replyWith_written api hfields (failAnswer_written hstatus hinfo)
      rwa [Option.map_eq_bind] at hreads
  | send msgid flags buffer =>
      have hbuffer := hfits buffer (by simp [strings])
      have hreads := replyWith_written api hfields (sendAnswer_written hbuffer)
      rwa [Option.map_eq_bind] at hreads
  | broadcast event object =>
      have hevent := hfits event.bytes (by simp [strings])
      have hobject := hfits (json.toJsonString object).bytes (by simp [strings])
      exact eventBroadcast_written api hjson hevent hobject hfields
  | add event eventid =>
      have hevent := hfits event.bytes (by simp [strings])
      exact eventCreate_written api hevent hfields
  | remove event eventid =>
      have hevent := hfits event.bytes (by simp [strings])
      have hreads := eventDrop_written api hevent hfields
      rwa [Option.map_eq_bind] at hreads
  | push event eventid object =>
      have hevent := hfits event.bytes (by simp [strings])
      have hobject := hfits (json.toJsonString object).bytes (by simp [strings])
      have hreads := eventPush_written api hjson hevent hobject hfields
      rwa [Option.map_eq_bind] at hreads
  | subscribe msgid eventid name =>
      have hname := hfits name.bytes (by simp [strings])
      have hreads := subscription_written api
        (fun memo ev => .subscribe memo.req ev.eventid ev.name) hname hfields
      simp only [Option.map_eq_bind] at hreads
      exact hreads
  | unsubscribe msgid eventid name =>
      have hname := hfits name.bytes (by simp [strings])
      have hreads := subscription_written api
        (fun memo ev => .unsubscribe memo.req ev.eventid ev.name) hname hfields
      simp only [Option.map_eq_bind] at hreads
      exact hreads

end ServerMessage

/-! ## Calls -/

/-- The verb is a text in memory at least as long as it is said to be. -/
structure Call.VerbOk (call : Call) : Prop where
  inMemory : call.lenverb ≤ call.verb.length
  nulFree : (0 : UInt8) ∉ call.verb.take call.lenverb

def Call.Fits (call : Call) (raw : Bytes) : Prop :=
  call.lenverb + 1 < 2 ^ 32 ∧ call.uuid.bytes.length + 1 < 2 ^ 32 ∧ raw.length + 1 < 2 ^ 32

def callFields (msgid : UInt32) (call : Call) (raw : Bytes) : Bytes :=
  le32 msgid ++ (le32 call.flags ++ (countedString (call.verb.take call.lenverb) ++
    (countedString call.uuid.bytes ++ countedString raw)))

theorem callMessage_fits (msgid : UInt32) {call : Call} {raw : Bytes} (hverb : call.VerbOk)
    (h : call.Fits raw) :
    ∃ count, Built (callMessage msgid call raw) (callFields msgid call raw) count := by
  have hlen : (call.verb.take call.lenverb).length = call.lenverb := by
    rw [List.length_take]
    have := hverb.inMemory
    omega
  have hids := (built_nil.uint32 msgid (by omega)).uint32 call.flags (by omega)
  have htexts := (hids.stringNz call.verb (by omega) hlen h.1).string call.uuid (by omega) h.2.1
  exact ⟨_, (htexts.stringLength raw (by omega) h.2.2).cast (by simp [callFields])⟩

theorem callMessage_refused (msgid : UInt32) {call : Call} {raw : Bytes} (h : ¬ call.Fits raw) :
    callMessage msgid call raw = none := by
  unfold callMessage
  by_cases hverb : call.lenverb + 1 < 2 ^ 32
  · by_cases huuid : call.uuid.bytes.length + 1 < 2 ^ 32
    · by_cases hraw : raw.length + 1 < 2 ^ 32
      · exact absurd ⟨hverb, huuid, hraw⟩ h
      · exact writeStringLength_refused hraw _
    · rw [writeString_refused huuid]
      rfl
  · rw [writeStringNz_refused hverb]
    rfl

/-- The server reads back the fields of a call. -/
theorem serverCalled_written {msgid : UInt32} {call : Call} {raw beyond : Bytes} {rb : Readbuf}
    (hverb : call.VerbOk) (hfits : call.Fits raw)
    (h : Unread (callFields msgid call raw) beyond rb) :
    ∃ rb', apiWsServerCalled rb = some (⟨msgid, call.flags, call.verb.take call.lenverb,
        call.uuid.bytes, raw⟩, rb') ∧ rb'.head = rb'.stop := by
  have hlen : (call.verb.take call.lenverb).length = call.lenverb := by
    rw [List.length_take]
    have := hverb.inMemory
    omega
  obtain ⟨rb₁, hread₁, h₁, -⟩ := readUint32_written h
  obtain ⟨rb₂, hread₂, h₂, -⟩ := readUint32_written h₁
  obtain ⟨verb, rb₃, hread₃, h₃, -, -, hverbAt⟩ :=
    readString_written (by rw [hlen]; exact hfits.1) h₂
  obtain ⟨uuid, rb₄, hread₄, h₄, hmem₄, hbase₄, huuidAt⟩ :=
    readString_written hfits.2.1 h₃
  rw [← List.append_nil (countedString raw)] at h₄
  obtain ⟨request, rb₅, hread₅, h₅, hmem₅, hbase₅, hrequest⟩ := readString_written hfits.2.2 h₄
  have huuid : rb₅.text uuid = call.uuid.bytes := (huuidAt.later hmem₅ hbase₅).text
  have hverbText : rb₅.text verb = call.verb.take call.lenverb := by
    apply @Readbuf.Holds.text rb₅ verb ⟨call.verb.take call.lenverb, hverb.nulFree⟩
    exact (hverbAt.later hmem₄ hbase₄).later hmem₅ hbase₅
  refine ⟨rb₅, ?_, h₅.done⟩
  simp only [apiWsServerCalled, hread₁, hread₂, hread₃, hread₄, hread₅, Option.bind_eq_bind,
    Option.bind_some, huuid, hverbText, hrequest.data]

/-! ## Both ways -/

/-- The round trip of every message between binders: it is written exactly when its
lengths fit, and what is written is read back up to its end with the values of its
fields. -/
theorem message_round_trip {J : Type} (json : JsonC J) (hjson : json.Inverse) (width base : Nat)
    (beyond : Bytes) :
    (∀ (message : ServerMessage J) (api : Client J),
      ((message.encode json).isSome ↔ message.Fits json) ∧
      ∀ wb, message.encode json = some wb → base + wb.flatten.length < 2 ^ width →
        ∀ api', message.receive api = some api' →
          ∃ rb, apiWsClientOnBinary json api (Readbuf.ofData width base wb.flatten beyond) =
            (api', rb) ∧ rb.head = rb.stop) ∧
    ∀ (msgid : UInt32) (call : Call) (raw : Bytes), call.VerbOk →
      ((callMessage msgid call raw).isSome ↔ call.Fits raw) ∧
      ∀ wb, callMessage msgid call raw = some wb → base + wb.flatten.length < 2 ^ width →
        ∃ rb, apiWsServerCalled (Readbuf.ofData width base wb.flatten beyond) =
          some (⟨msgid, call.flags, call.verb.take call.lenverb, call.uuid.bytes, raw⟩, rb) ∧
          rb.head = rb.stop := by
  refine ⟨fun message api => ?_, fun msgid call raw hverb => ?_⟩
  · by_cases hfits : message.Fits json
    · obtain ⟨count, vectors, hencode, hbytes, -⟩ := message.encode_fits json hfits
      refine ⟨by simp [hencode, hfits], fun wb hwb hroom api' hreceive => ?_⟩
      cases hencode.symm.trans hwb
      have hunread := unread_ofData vectors.flatten beyond hroom
      rw [hbytes] at hunread ⊢
      have hreads := ServerMessage.onBinary_written hjson hfits hunread api
      rw [hreceive] at hreads
      exact ⟨_, Prod.ext hreads.1 rfl, hreads.2⟩
    · have hnone := message.encode_refused json hfits
      exact ⟨by simp [hnone, hfits], fun wb hwb => by simp [hnone] at hwb⟩
  · by_cases hfits : call.Fits raw
    · obtain ⟨count, vectors, hencode, hbytes, -⟩ := callMessage_fits msgid hverb hfits
      refine ⟨by simp [hencode, hfits], fun wb hwb hroom => ?_⟩
      cases hencode.symm.trans hwb
      have hunread := unread_ofData vectors.flatten beyond hroom
      rw [hbytes] at hunread ⊢
      exact serverCalled_written hverb hfits hunread
    · have hnone := callMessage_refused msgid hfits
      exact ⟨by simp [hnone, hfits], fun wb hwb => by simp [hnone] at hwb⟩

/-- json-c with the object without members as its only value. -/
def memberless : JsonC Unit where
  toJsonString
    | none => nullString
    | some () => ⟨[123, 125], by decide⟩
  tokenerParse text := if text = [123, 125] then some () else none

theorem memberless_inverse : memberless.Inverse where
  parse_print
    | none => rfl
    | some () => rfl
  print_null := rfl

/-- A success for the call 7, and the call itself. -/
theorem message_round_trip_seven :
    (∃ rb, apiWsClientOnBinary memberless ⟨7, [⟨7, 3⟩], [], []⟩
      (Readbuf.ofData 64 4096
        [84, 7, 0, 0, 0, 1, 0, 0, 0, 1, 0, 0, 0, 0, 3, 0, 0, 0, 123, 125, 0] [9]) =
        (⟨7, [], [], [.success 3 1 (some ()) none]⟩, rb) ∧ rb.head = rb.stop) ∧
    ∃ rb, apiWsServerCalled (Readbuf.ofData 64 4096
      [7, 0, 0, 0, 1, 0, 0, 0, 3, 0, 0, 0, 103, 111, 0, 2, 0, 0, 0, 117, 0, 2, 0, 0, 0, 49, 0] [9]) =
        some (⟨7, 1, [103, 111], [117], [49]⟩, rb) ∧ rb.head = rb.stop := by
  obtain ⟨hserver, hclient⟩ := message_round_trip memberless memberless_inverse 64 4096 [9]
  constructor
  · exact (hserver (.success 7 1 (some ()) none) ⟨7, [⟨7, 3⟩], [], []⟩).2
      [[84], [7, 0, 0, 0], [1, 0, 0, 0], [1, 0, 0, 0], [0], [3, 0, 0, 0], [123, 125, 0]]
      rfl (by decide) _ rfl
  · exact (hclient 7 ⟨1, [103, 111, 47], 2, ⟨[117], by decide⟩, some [49]⟩ [49]
      ⟨by decide, by decide⟩).2
      [[7, 0, 0, 0], [1, 0, 0, 0], [3, 0, 0, 0], [103, 111], [0], [2, 0, 0, 0], [117, 0],
        [2, 0, 0, 0], [49, 0]]
      rfl (by decide)

end AfbBinder.ApiWs
