import AfbBinder.Lib.Keyed
import AfbBinder.Lib.Loop
import AfbBinder.Wsj1.Scan

/-!
# A JSON websocket

The functions of `afb-wsj1.c` on one link: the calls that wait for a reply, the messages
received and the texts sent.  A message keeps the buffer of its text, in which the parser
cuts its strings by writing NULs, and offsets for its pointers.  The callback of a call
comes with its closure.  The memory of messages and calls is counted nowhere; where the
source looks at the result of an allocation, an argument tells it, and the websocket says
whether it sent.
-/

namespace AfbBinder.Wsj1

open Lib Lib.JsonText

/-- The bytes of an ASCII text of the source. -/
def ascii (text : String) : Bytes := text.toList.map fun c => UInt8.ofNat c.toNat

def slash : UInt8 := 47

/-- `CALL`, `RETOK`, `RETERR` and `EVENT` -/
inductive Code where
  | call
  | retok
  | reterr
  | event
deriving DecidableEq, Repr

def Code.number : Code → UInt8
  | .call => 2
  | .retok => 3
  | .reterr => 4
  | .event => 5

/-- `'0' + code` -/
def Code.digit (code : Code) : UInt8 := 48 + code.number

/-- The code of a message by its first item. -/
def codeOf (c : UInt8) : Option Code :=
  if c = 50 then some .call
  else if c = 51 then some .retok
  else if c = 52 then some .reterr
  else if c = 53 then some .event
  else none

/-- `struct afb_wsj1_msg` -/
structure AfbWsj1Msg where
  text : Bytes
  code : Code
  id : Option Nat
  api : Option Nat
  verb : Option Nat
  event : Option Nat
  objectS : Nat
  objectSLength : Nat
  token : Option Nat
deriving DecidableEq, Repr

/-- The C string at an offset of the buffer. -/
def stringAt (text : Bytes) (offset : Nat) : Bytes := cstring (text.drop offset)

def afbWsj1MsgApi (msg : AfbWsj1Msg) : Option Bytes := msg.api.map (stringAt msg.text)
def afbWsj1MsgVerb (msg : AfbWsj1Msg) : Option Bytes := msg.verb.map (stringAt msg.text)
def afbWsj1MsgEvent (msg : AfbWsj1Msg) : Option Bytes := msg.event.map (stringAt msg.text)
def afbWsj1MsgToken (msg : AfbWsj1Msg) : Option Bytes := msg.token.map (stringAt msg.text)
def afbWsj1MsgObjectS (msg : AfbWsj1Msg) : Bytes := stringAt msg.text msg.objectS

def afbWsj1MsgIsReplyOk (msg : AfbWsj1Msg) : Bool := msg.code = .retok
def afbWsj1MsgIsReplyError (msg : AfbWsj1Msg) : Bool := msg.code = .reterr

/-- `msg->id`, which has no accessor. -/
def AfbWsj1Msg.idText (msg : AfbWsj1Msg) : Option Bytes := msg.id.map (stringAt msg.text)

/-- `struct wsj1_call`, `callback` being the function with its closure. -/
structure Wsj1Call (κ : Type) where
  id : Bytes
  callback : κ
deriving DecidableEq, Repr

/-- `struct afb_wsj1` -/
structure AfbWsj1 (κ : Type) where
  genid : Nat
  calls : List (Wsj1Call κ)
deriving DecidableEq, Repr

/-- `afb_wsj1_create` -/
def afbWsj1Create {κ : Type} : AfbWsj1 κ := ⟨0, []⟩

/-- `struct afb_wsj1_itf`: which callbacks are defined. -/
structure AfbWsj1Itf where
  onHangup : Bool
  onCall : Bool
  onEvent : Bool
deriving DecidableEq, Repr

/-- What the reception of a text does: the callbacks, the release of the text and the
close of the websocket. -/
inductive Effect (κ : Type) where
  | onCall (api verb : Bytes) (msg : AfbWsj1Msg)
  | onEvent (event : Bytes) (msg : AfbWsj1Msg)
  | reply (callback : κ) (msg : AfbWsj1Msg)
  | freeText
  | close (code : Nat)
deriving DecidableEq, Repr

variable {κ : Type}

/-! ## Calls -/

/-- `wsj1_call_search` without `remove` -/
def wsj1CallSearch (calls : List (Wsj1Call κ)) (id : Bytes) : Option (Wsj1Call κ) :=
  Keyed.search Wsj1Call.id calls id

/-- `wsj1_call_search` with `remove` -/
def wsj1CallRemove (calls : List (Wsj1Call κ)) (id : Bytes) :
    Option (Wsj1Call κ) × List (Wsj1Call κ) :=
  (wsj1CallSearch calls id, calls.eraseP fun call => call.id = id)

/-- `sprintf(.., "%d", n)` of a natural number. -/
def decimal (n : Nat) : Bytes := (Nat.toDigits 10 n).map fun c => UInt8.ofNat c.toNat

/-- One turn of the loop that makes an identifier, on `genid` and `call->id`. -/
def nextId (s : Nat × Bytes) : Nat × Bytes :=
  let genid := if s.1 = 0 then 999999 else s.1
  (genid - 1, decimal genid)

/-- `wsj1_call_create`: the new call and the link, `none` when the loop does not end.  One
turn more than there are calls is enough. -/
def wsj1CallCreate (callback : κ) (w : AfbWsj1 κ) : Option (Wsj1Call κ × AfbWsj1 κ) := do
  let (genid, id) ← doWhile nextId (fun s => (wsj1CallSearch w.calls s.2).isSome)
    (w.calls.length + 1) (w.genid, [])
  some (⟨id, callback⟩, ⟨genid, ⟨id, callback⟩ :: w.calls⟩)

/-! ## Sending -/

/-- The text of `afb_ws_texts`: its arguments up to the first `NULL`. -/
def afbWsTexts (args : List (Option Bytes)) : Bytes :=
  ((args.takeWhile Option.isSome).map fun s => s.getD []).flatten

/-- `wsj1_send_isot` -/
def wsj1SendIsot (i1 : Code) (s1 o1 t1 : Option Bytes) : Bytes :=
  afbWsTexts [ascii "[", [i1.digit], ascii ",\"", s1, ascii "\",", o1.getD (ascii "null"),
    if t1.isSome then ascii ",\"" else ascii "]", t1, ascii "\"]", none]

/-- `wsj1_send_issot` -/
def wsj1SendIssot (i1 : Code) (s1 s2 o1 t1 : Option Bytes) : Bytes :=
  afbWsTexts [ascii "[", [i1.digit], ascii ",\"", s1, ascii "\",\"", s2, ascii "\",",
    o1.getD (ascii "null"), if t1.isSome then ascii ",\"" else ascii "]", t1, ascii "\"]", none]

/-- `afb_wsj1_send_event_s` -/
def afbWsj1SendEventS (event : CString) (object : Option CString) : Bytes :=
  wsj1SendIsot .event event.bytes (object.map CString.bytes) none

/-- `afb_wsj1_reply_s` -/
def afbWsj1ReplyS (msg : AfbWsj1Msg) (object token : Option CString) (iserror : Bool) : Bytes :=
  wsj1SendIsot (if iserror then .reterr else .retok) msg.idText (object.map CString.bytes)
    (token.map CString.bytes)

/-- `afb_wsj1_call_s`: the link and the text sent, if any; `none` when the loop of the
identifiers does not end.  `allocated` tells whether there is memory for the call
and `sends` whether the websocket sends the text. -/
def afbWsj1CallS (api verb : CString) (object : Option CString) (callback : κ) (allocated : Bool)
    (sends : Bytes → Bool) (w : AfbWsj1 κ) : Option (AfbWsj1 κ × Option Bytes) :=
  if !allocated then some (w, none)
  else do
    let (call, w) ← wsj1CallCreate callback w
    let tag := api.bytes ++ ascii "/" ++ verb.bytes
    let text := wsj1SendIssot .call call.id tag (object.map CString.bytes) none
    if sends text then some (w, some text)
    else some ({ w with calls := (wsj1CallRemove w.calls call.id).2 }, none)

/-! ## Receiving -/

/-- `items[k]` -/
def slot (items : List Item) (k : Nat) : Except Stop Item :=
  match items[k]? with
  | some item => .ok item
  | none => .error (.fault .unfilledItem)

/-- `text[i]` -/
def charAt (text : Bytes) (i : Nat) : Except Stop UInt8 := deref (text.drop i)

/-- `text[i] = 0` -/
def writeNul (text : Bytes) (i : Nat) : Except Stop Bytes :=
  if i < text.length then .ok (text.set i 0) else .error (.fault .pastEnd)

/-- `strchr(text, c)`, as an offset from `text`. -/
def strchr (c : UInt8) : Bytes → Except Stop (Option Nat)
  | [] => .error (.fault .pastEnd)
  | b :: rest =>
      if b = c then .ok (some 0)
      else if b = 0 then .ok none
      else (strchr c rest).map fun found => found.map (· + 1)

/-- `wsj1_msg_parse_extract` -/
def wsj1MsgParseExtract (text : Bytes) (offset size : Nat) : Except Stop (Nat × Bytes) :=
  (writeNul text (offset + size)).map fun text => (offset, text)

/-- `wsj1_msg_parse_string` -/
def wsj1MsgParseString (text : Bytes) (offset size : Nat) : Except Stop (Nat × Bytes) :=
  if size > 1 then do
    let c ← charAt text offset
    if c = quote then wsj1MsgParseExtract text (offset + 1) (size - 2)
    else wsj1MsgParseExtract text offset size
  else wsj1MsgParseExtract text offset size

/-- The string of an item. -/
def itemString (items : List Item) (k : Nat) (text : Bytes) : Except Stop (Nat × Bytes) := do
  let item ← slot items k
  wsj1MsgParseString text item.offset item.length

/-- The object of an item, with its length. -/
def itemObject (items : List Item) (k : Nat) (text : Bytes) : Except Stop (Nat × Nat × Bytes) := do
  let item ← slot items k
  let (object, text) ← wsj1MsgParseExtract text item.offset item.length
  .ok (object, item.length, text)

/-- `n == 5 ? wsj1_msg_parse_string(..) : NULL` -/
def itemToken (items : List Item) (k : Nat) (text : Bytes) : Except Stop (Option Nat × Bytes) :=
  if items.length = 5 then (itemString items k text).map fun (token, text) => (some token, text)
  else .ok (none, text)

/-- `msg->verb = strchr(msg->api, '/')` and the NUL in its place; gives the verb. -/
def cutVerb (api : Nat) (text : Bytes) : Except Stop (Nat × Bytes) := do
  match ← strchr slash (text.drop api) with
  | none => .error .bad
  | some verb => (writeNul text (api + verb)).map fun text => (api + verb + 1, text)

/-- The message of a call. -/
def fillCall (items : List Item) (text : Bytes) : Except Stop AfbWsj1Msg :=
  if items.length ≠ 4 ∧ items.length ≠ 5 then .error .bad
  else do
    let (id, text) ← itemString items 1 text
    let (api, text) ← itemString items 2 text
    let (verb, text) ← cutVerb api text
    let (object, length, text) ← itemObject items 3 text
    let (token, text) ← itemToken items 4 text
    .ok ⟨text, .call, id, api, verb, none, object, length, token⟩

/-- The message of a reply, with the call that it removes and the calls left.  Its token
is looked for when there are five items. -/
def fillReply (code : Code) (calls : List (Wsj1Call κ)) (items : List Item) (text : Bytes) :
    Except Stop (AfbWsj1Msg × Wsj1Call κ × List (Wsj1Call κ)) :=
  if items.length ≠ 3 ∧ items.length ≠ 4 then .error .bad
  else do
    let (id, text) ← itemString items 1 text
    match wsj1CallRemove calls (stringAt text id) with
    | (none, _) => .error .bad
    | (some call, calls) => do
        let (object, length, text) ← itemObject items 2 text
        let (token, text) ← itemToken items 3 text
        .ok (⟨text, code, id, none, none, none, object, length, token⟩, call, calls)

/-- The message of an event. -/
def fillEvent (items : List Item) (text : Bytes) : Except Stop AfbWsj1Msg :=
  if items.length ≠ 3 then .error .bad
  else do
    let (event, text) ← itemString items 1 text
    let (object, length, text) ← itemObject items 2 text
    .ok ⟨text, .event, none, none, none, event, object, length, none⟩

/-- The code, from the first item. -/
def scanCode (items : List Item) (text : Bytes) : Except Stop Code := do
  let item ← slot items 0
  if item.length ≠ 1 then .error .bad
  else
    match codeOf (← charAt text item.offset) with
    | none => .error .bad
    | some code => .ok code

/-- `wsj1->itf->on_call(..)` and `wsj1->itf->on_event(..)` -/
def invoke (defined : Bool) (effect : Effect κ) (w : AfbWsj1 κ) :
    Except Stop (List (Effect κ) × AfbWsj1 κ) :=
  if defined then .ok ([effect], w) else .error (.fault .nullCallback)

/-- The part of `wsj1_on_text` after the allocation and up to the release of the message. -/
def handleText (itf : AfbWsj1Itf) (text : Bytes) (w : AfbWsj1 κ) :
    Except Stop (List (Effect κ) × AfbWsj1 κ) := do
  let items ← wsj1MsgScan text
  match ← scanCode items text with
  | .call =>
      let msg ← fillCall items text
      let api := (afbWsj1MsgApi msg).getD []
      let verb := (afbWsj1MsgVerb msg).getD []
      invoke itf.onCall (.onCall api verb msg) w
  | .event =>
      let msg ← fillEvent items text
      invoke itf.onEvent (.onEvent ((afbWsj1MsgEvent msg).getD []) msg) w
  | code =>
      let (msg, call, calls) ← fillReply code w.calls items text
      .ok ([.reply call.callback msg], { w with calls := calls })

/-- `wsj1_on_text` of a text followed by its NUL; `allocated` tells whether there is memory
for the message. -/
def wsj1OnText (itf : AfbWsj1Itf) (allocated : Bool) (text : CString) (w : AfbWsj1 κ) :
    Except Fault (List (Effect κ) × AfbWsj1 κ) :=
  if !allocated then .ok ([.freeText, .close 1008], w)
  else
    match handleText itf (text.bytes ++ [0]) w with
    | .ok result => .ok result
    | .error .bad => .ok ([.freeText, .close 1008], w)
    | .error (.fault f) => .error f

end AfbBinder.Wsj1
