import AfbBinder.Ws.Hangup

/-!
# The stores into the buffer of the message

`aws_read` makes the block of the buffer one byte longer than what it is going to hold,
and `aws_continue` writes its zero in that byte.  A fragment without payload allocates
nothing: the zero of a message whose fragments are all empty goes through `NULL`.

The functions `…Stores` follow the functions of the link and give the bytes they store,
in order.
-/

namespace AfbBinder.Ws

open Lib

/-- The store of a byte: the size of the block it goes to, none for `NULL`, and where. -/
structure ByteStore where
  block : Option Nat
  index : Nat
deriving DecidableEq, Repr

def ByteStore.InBounds (store : ByteStore) : Prop :=
  ∃ size, store.block = some size ∧ store.index < size

/-- The stores of consecutive bytes. -/
def storesAt (block : Option Nat) (index count : Nat) : List ByteStore :=
  (List.range count).map fun i => ⟨block, index + i⟩

def Buf.block (b : Buf) : Option Nat := b.buffer.map List.length

section Functions

variable (itf : AfbWsItf) (heap : Heap) (memory : Bool)

/-- The stores of the loop of `aws_read`: `websock_read` writes the bytes it reads. -/
def awsReadLoopStores : Nat → Nat → AfbWs → List ByteStore
  | 0, _, _ => []
  | fuel + 1, size, link =>
      match link.ws with
      | none => []
      | some ws =>
          let block := link.buffer.buffer.getD []
          let address := heap.place block.length + link.buffer.size
          match websockRead ws address size link.rx with
          | (.error .EAGAIN, ws, rx) =>
              awsReadLoopStores fuel size { link with ws := some ws, rx := rx }
          | (.error _, _, _) => []
          | (.bytes data, ws, rx) =>
              let buffer := ⟨some (copyAt block link.buffer.size data),
                link.buffer.size + data.length⟩
              let after := { link with ws := some ws, rx := rx, buffer := buffer }
              storesAt link.buffer.block link.buffer.size data.length ++
                if size - data.length = 0 then []
                else awsReadLoopStores fuel (size - data.length) after

/-- The stores of `aws_read`. -/
def awsReadStores (size : Nat) (link : AfbWs) : List ByteStore :=
  if size = 0 then []
  else if !memory then []
  else
    let block := heap.realloc link.buffer.buffer (link.buffer.size + size + 1)
    awsReadLoopStores heap (link.rx.length + 1) size
      { link with buffer := ⟨some block, link.buffer.size⟩ }

/-- The stores of `aws_continue`: those of `aws_read`, then the zero. -/
def awsContinueStores (last : Bool) (size : Nat) (link : AfbWs) : List ByteStore :=
  awsReadStores heap memory size link ++
    match awsRead heap memory size link with
    | .ok (true, link) => if last then [⟨link.buffer.block, link.buffer.size⟩] else []
    | _ => []

/-- The stores of `aws_on_text` and `aws_on_binary`. -/
def awsOnFirstStores (reading : State) (defined : Bool) (last : Bool) (size : Nat)
    (link : AfbWs) : List ByteStore :=
  if link.state ≠ .waiting then []
  else if !defined then []
  else awsContinueStores heap memory last size { link with state := reading }

/-- The stores of `aws_on_continue`. -/
def awsOnContinueStores (last : Bool) (size : Nat) (link : AfbWs) : List ByteStore :=
  if link.state = .waiting then [] else awsContinueStores heap memory last size link

/-- The stores of `aws_on_close`. -/
def awsOnCloseStores (size : Nat) (link : AfbWs) : List ByteStore :=
  if !itf.onClose then []
  else awsReadStores heap memory size { link with state := .waiting, buffer := Buf.null }

/-- The stores of the call of the interface for a frame. -/
def handleFrameStores (ws : Websock) (link : AfbWs) : List ByteStore :=
  match ws.opcode with
  | .continuation => awsOnContinueStores heap memory ws.fin ws.length link
  | .text => awsOnFirstStores heap memory .readingText itf.onText ws.fin ws.length link
  | .binary => awsOnFirstStores heap memory .readingBinary itf.onBinary ws.fin ws.length link
  | .close => awsOnCloseStores itf heap memory ws.length link
  | _ => []

/-- The stores of a turn of the loop of `websock_dispatch`. -/
def dispatchTurnStores (link : AfbWs) : List ByteStore :=
  match link.ws with
  | none => []
  | some ws =>
      match websockTurn ws link.rx with
      | (.frame, ws, rx) => handleFrameStores itf heap memory ws { link with ws := some ws, rx := rx }
      | _ => []

/-- The stores of a step. -/
def Action.stores (c : Activation) : Action → List ByteStore
  | .turn memory _ => dispatchTurnStores itf heap memory c.link
  | _ => []

end Functions

/-- The turn ends a message that it accepts, with an empty frame and nothing read before. -/
def EndsEmpty (itf : AfbWsItf) (c : Activation) : Action → Prop
  | .turn _ _ =>
      ∃ ws ws' rx', c.link.ws = some ws ∧ websockTurn ws c.link.rx = (.frame, ws', rx') ∧
        ws'.opcode.isData = true ∧ refused itf ws'.opcode c.link.state = false ∧
        ws'.fin = true ∧ ws'.length = 0 ∧ c.link.buffer.buffer = none
  | _ => False

/-! ## The room of the buffer -/

/-- The buffer has a byte after what it holds. -/
def Buf.Room (b : Buf) : Prop := ∀ block, b.buffer = some block → b.size < block.length

theorem Buf.null_room : Buf.null.Room := fun _ h => by cases h

section Room

variable {itf : AfbWsItf} {heap : Heap} {memory : Bool} {reaction : Reaction} {link : AfbWs}
  {ws : Websock}

/-- The link keeps its room, whatever fault there is. -/
abbrev RoomPost (outcome : Outcome AfbWs) : Prop :=
  outcome.Post (fun _ => True) fun after => after.buffer.Room

theorem awsDisconnect_room (call : Bool) (h : link.buffer.Room) :
    (awsDisconnect itf call link).buffer.Room := by
  unfold awsDisconnect
  split
  · exact h
  · dsimp only
    split
    · exact Buf.null_room
    · exact Buf.null_room

theorem callback_room (event : Event) (h : link.buffer.Room) :
    (callback itf reaction event link).buffer.Room := by
  cases reaction with
  | keep => exact h
  | hangup => exact awsDisconnect_room true h
  | destroy => exact awsDisconnect_room false h

theorem websockError_room (code : UInt16) (h : link.buffer.Room) :
    RoomPost (websockError itf reaction code link) := by
  unfold websockError
  split
  · trivial
  · change (awsOnError itf reaction code.toNat _).buffer.Room
    unfold awsOnError
    split
    · exact callback_room _ h
    · exact awsDisconnect_room true h

theorem dropFrame_room (h : link.buffer.Room) : RoomPost (dropFrame link) := by
  unfold dropFrame
  split
  · trivial
  · split
    · trivial
    · exact h

theorem awsDropError_room (code : UInt16) : RoomPost (awsDropError itf reaction code link) :=
  (dropFrame_room Buf.null_room).bind fun _ hafter => websockError_room code hafter

theorem realloc_length (block : Option Bytes) (size : Nat) :
    (heap.realloc block size).length = size := by
  simp only [Heap.realloc, List.length_append, List.length_take, List.length_map,
    List.length_range]
  omega

theorem awsReadv_length {size : Nat} {rx rest : List Rx} {data : Bytes}
    (h : awsReadv size rx = (.bytes data, rest)) : data.length ≤ size := by
  have harriving := awsReadv_arriving size rx
  rw [h] at harriving
  exact harriving.1

theorem websockRead_length {address size : Nat} {rx rx' : List Rx} {ws' : Websock} {data : Bytes}
    (h : websockRead ws address size rx = (.bytes data, ws', rx')) : data.length ≤ size := by
  unfold websockRead at h
  split at h
  · cases h
    exact Nat.zero_le _
  · split at h
    · cases h
    · rename_i raw rest hread
      have hle := awsReadv_length hread
      dsimp only at h
      split at h
      · cases h
        omega
      · rw [unmask_eq] at h
        cases h
        rw [unmaskBytes_length]
        omega

theorem storesAt_inBounds {size index count : Nat} (h : index + count ≤ size) :
    ∀ store ∈ storesAt (some size) index count, store.InBounds := by
  intro store hstore
  rcases List.mem_map.mp hstore with ⟨i, hi, rfl⟩
  have hlt := List.mem_range.mp hi
  exact ⟨size, rfl, by simp only; omega⟩

/-- The loop writes before the last byte of the block, and keeps the block. -/
theorem awsReadLoop_room {fuel size : Nat} {block : Bytes} (hblock : link.buffer.buffer = some block)
    (hroom : link.buffer.size + size < block.length) :
    (∀ store ∈ awsReadLoopStores heap fuel size link, store.InBounds) ∧
      (awsReadLoop heap fuel size link).Post (fun _ => True) fun result =>
        ∃ block', result.2.buffer.buffer = some block' ∧ result.2.buffer.size < block'.length := by
  induction fuel generalizing link size block with
  | zero => exact ⟨by simp [awsReadLoopStores], trivial⟩
  | succ fuel ih =>
      unfold awsReadLoopStores awsReadLoop
      cases hws : link.ws with
      | none => exact ⟨by simp, trivial⟩
      | some ws =>
          simp only [hblock, Option.getD_some]
          cases hread : websockRead ws (heap.place block.length + link.buffer.size) size link.rx with
          | mk received rest =>
              cases received with
              | error errno =>
                  cases errno with
                  | EAGAIN => exact ih hblock hroom
                  | EPIPE => exact ⟨by simp, block, hblock, by simp only; omega⟩
                  | EINVAL => exact ⟨by simp, block, hblock, by simp only; omega⟩
                  | other code => exact ⟨by simp, block, hblock, by simp only; omega⟩
              | bytes data =>
                  have hle := websockRead_length hread
                  have hcopied : (copyAt block link.buffer.size data).length = block.length :=
                    length_copyAt (by omega)
                  have hstores : ∀ store ∈ storesAt link.buffer.block link.buffer.size data.length,
                      store.InBounds := by
                    rw [Buf.block, hblock]
                    exact storesAt_inBounds (by omega)
                  simp only
                  split
                  case isTrue =>
                    constructor
                    · simpa using hstores
                    · exact ⟨_, rfl, by rw [hcopied]; simp only; omega⟩
                  case isFalse =>
                    let after : AfbWs := { link with
                      ws := some rest.1, rx := rest.2
                      buffer := ⟨some (copyAt block link.buffer.size data),
                        link.buffer.size + data.length⟩ }
                    have hblock' : after.buffer.buffer =
                      some (copyAt block link.buffer.size data) := rfl
                    have hroom' : after.buffer.size + (size - data.length) <
                        (copyAt block link.buffer.size data).length := by
                      rw [hcopied]
                      simp only [after]
                      omega
                    have hrest := ih hblock' hroom'
                    constructor
                    · intro store hstore
                      rcases List.mem_append.mp hstore with hmem | hmem
                      · exact hstores store hmem
                      · exact hrest.1 store hmem
                    · exact hrest.2

/-- What `aws_read` leaves: a buffer with room, that is not `NULL` once a payload is read. -/
theorem awsRead_room {size : Nat} (h : link.buffer.Room) :
    (∀ store ∈ awsReadStores heap memory size link, store.InBounds) ∧
      (awsRead heap memory size link).Post (fun _ => True) fun result =>
        result.2.buffer.Room ∧
          (result.1 = true →
            (result.2.buffer.buffer = none ↔ size = 0 ∧ link.buffer.buffer = none)) := by
  unfold awsReadStores awsRead
  by_cases hzero : size = 0
  · rw [if_pos hzero, if_pos hzero]
    exact ⟨by simp, h, by simp [hzero]⟩
  cases memory with
  | false =>
    rw [if_neg hzero, if_neg hzero]
    exact ⟨by simp, h, by simp⟩
  | true =>
    rw [if_neg hzero, if_neg hzero, if_neg (by decide), if_neg (by decide)]
    let block := heap.realloc link.buffer.buffer (link.buffer.size + size + 1)
    let grown : AfbWs := { link with buffer := ⟨some block, link.buffer.size⟩ }
    have hblock : grown.buffer.buffer = some block := rfl
    have hroom : grown.buffer.size + size < block.length := by
      simp only [block, realloc_length, grown]
      omega
    have hread := @awsReadLoop_room heap grown (link.rx.length + 1) size block hblock hroom
    refine ⟨hread.1, hread.2.mono ?_⟩
    intro result hresult
    rcases hresult with ⟨block', hblock', hlt⟩
    constructor
    · intro other hother
      rw [hblock'] at hother
      cases hother
      exact hlt
    · intro _
      simp [hblock', hzero]

theorem zero_inBounds_iff {b : Buf} (h : b.Room) :
    ByteStore.InBounds ⟨b.block, b.size⟩ ↔ b.buffer ≠ none := by
  unfold ByteStore.InBounds Buf.block
  cases hbuffer : b.buffer with
  | none => simp
  | some block =>
      have hlt := h block hbuffer
      simpa using hlt

/-- The stores of `aws_continue` are in bounds unless it ends a message without any byte. -/
theorem awsContinueStores_iff {last : Bool} {size : Nat} (h : link.buffer.Room) :
    (∀ store ∈ awsContinueStores heap memory last size link, store.InBounds) ↔
      ¬ (last = true ∧ size = 0 ∧ link.buffer.buffer = none) := by
  have hread := @awsRead_room heap memory link size h
  unfold awsContinueStores
  rw [List.forall_mem_append, and_iff_right hread.1]
  by_cases hzero : size = 0
  · have hok : awsRead heap memory size link = .ok (true, link) := by rw [awsRead, if_pos hzero]
    rw [hok]
    cases last with
    | false => simp
    | true => simpa [hzero] using zero_inBounds_iff h
  · have hright : ¬ (last = true ∧ size = 0 ∧ link.buffer.buffer = none) := fun hempty =>
      hzero hempty.2.1
    rw [iff_true_right hright]
    have hpost := hread.2
    cases hrun : awsRead heap memory size link with
    | blocked => simp
    | fault f => simp
    | ok result =>
        rw [hrun] at hpost
        rcases result with ⟨complete, after⟩
        cases complete with
        | false => simp
        | true =>
            have hheld : after.buffer.buffer ≠ none :=
              fun hnone => hzero ((hpost.2 rfl).mp hnone).1
            cases last with
            | false => simp
            | true => simpa using (zero_inBounds_iff hpost.1).mpr hheld

theorem awsContinue_room {last : Bool} {size : Nat} (h : link.buffer.Room) :
    RoomPost (awsContinue itf heap memory reaction last size link) := by
  apply (@awsRead_room heap memory link size h).2.bind
  intro result hresult
  rcases result with ⟨complete, after⟩
  cases complete with
  | false => exact awsDropError_room _
  | true =>
      cases last with
      | false => exact hresult.1
      | true =>
          simp only [Bool.not_true, Bool.false_eq_true, if_false, if_true]
          split
          · trivial
          · split
            · split
              · exact callback_room _ Buf.null_room
              · trivial
            · split
              · exact callback_room _ Buf.null_room
              · trivial

theorem awsOnFirst_room {reading : State} {defined last : Bool} {size : Nat}
    (h : link.buffer.Room) :
    RoomPost (awsOnFirst itf heap memory reaction reading defined last size link) := by
  unfold awsOnFirst
  split
  · exact awsDropError_room _
  · split
    · exact awsDropError_room _
    · exact @awsContinue_room itf heap memory reaction { link with state := reading } last size h

theorem awsOnContinue_room {last : Bool} {size : Nat} (h : link.buffer.Room) :
    RoomPost (awsOnContinue itf heap memory reaction last size link) := by
  unfold awsOnContinue
  split
  · exact awsDropError_room _
  · exact awsContinue_room h

theorem awsOnClose_room {code size : Nat} :
    RoomPost (awsOnClose itf heap memory reaction code size link) := by
  have hnull : ({ link with state := .waiting, buffer := Buf.null } : AfbWs).buffer.Room :=
    Buf.null_room
  unfold awsOnClose
  dsimp only
  split
  · exact (dropFrame_room hnull).bind fun _ hafter => awsDisconnect_room true hafter
  · apply (awsRead_room hnull).2.bind
    intro result hresult
    rcases result with ⟨complete, after⟩
    cases complete with
    | false => exact callback_room _ hresult.1
    | true => exact callback_room _ Buf.null_room

theorem handleFrame_room (h : link.buffer.Room) :
    (handleFrame itf heap memory reaction ws link).Post (fun _ => True) fun result =>
      result.2.buffer.Room := by
  unfold handleFrame
  split
  · exact (awsOnContinue_room h).bind fun _ hafter => hafter
  · exact (awsOnFirst_room h).bind fun _ hafter => hafter
  · exact (awsOnFirst_room h).bind fun _ hafter => hafter
  · exact awsOnClose_room.bind fun _ hafter => hafter
  · exact (dropFrame_room h).bind fun _ hafter => hafter
  · exact (dropFrame_room h).bind fun _ hafter => hafter
  · exact (websockError_room _ h).bind fun _ hafter => hafter

theorem dispatchTurn_room (h : link.buffer.Room) :
    (dispatchTurn itf heap memory reaction link).Post (fun _ => True) fun result =>
      result.2.buffer.Room := by
  have hset : ∀ ws rx, ({ link with ws := some ws, rx := rx } : AfbWs).buffer.Room :=
    fun _ _ => h
  unfold dispatchTurn
  split
  · trivial
  · split
    · exact h
    · exact h
    · apply (websockError_room _ (hset _ _)).bind
      exact fun _ hafter => hafter
    · apply (websockError_room _ (hset _ _)).bind
      exact fun _ hafter => hafter
    · exact handleFrame_room h

theorem afterTurn_room {hup : Bool} {outcome : Outcome (Next × AfbWs)} (h : link.buffer.Room)
    (hpost : outcome.Post (fun _ => True) fun result => result.2.buffer.Room) :
    (afterTurn hup link outcome).link.buffer.Room := by
  cases outcome with
  | blocked => exact h
  | fault f => exact h
  | ok result =>
      rcases result with ⟨next, after⟩
      cases next with
      | loop => exact hpost
      | back result => exact hpost

theorem afterHangup_room {asked : Bool} {pc : Pc} (h : link.buffer.Room) :
    (afterHangup itf asked pc link).link.buffer.Room := by
  unfold afterHangup afbWsHangupAfter
  cases asked with
  | false => exact h
  | true =>
      cases link.destroyed with
      | true => exact h
      | false => exact awsDisconnect_room true h

/-! ## The stores of a turn -/

theorem handleFrameStores_iff (h : link.buffer.Room) :
    (∀ store ∈ handleFrameStores itf heap memory ws link, store.InBounds) ↔
      ¬ (ws.opcode.isData = true ∧ refused itf ws.opcode link.state = false ∧ ws.fin = true ∧
        ws.length = 0 ∧ link.buffer.buffer = none) := by
  have hfirst : ∀ reading defined,
      (∀ store ∈ awsOnFirstStores heap memory reading defined ws.fin ws.length link, store.InBounds) ↔
        ¬ ((decide (link.state ≠ .waiting) || !defined) = false ∧ ws.fin = true ∧
          ws.length = 0 ∧ link.buffer.buffer = none) := by
    intro reading defined
    have hcontinue := @awsContinueStores_iff heap memory { link with state := reading } ws.fin ws.length h
    unfold awsOnFirstStores
    by_cases hwaiting : link.state = .waiting
    · cases defined with
      | false => simp [hwaiting]
      | true => simpa [hwaiting] using hcontinue
    · simp [hwaiting]
  unfold handleFrameStores
  cases hopcode : ws.opcode with
  | continuation =>
      have hcontinue := @awsContinueStores_iff heap memory link ws.fin ws.length h
      unfold awsOnContinueStores
      by_cases hwaiting : link.state = .waiting
      · simp [hwaiting, refused]
      · simpa [hwaiting, refused, Opcode.isData] using hcontinue
  | text => simpa [refused, Opcode.isData] using hfirst .readingText itf.onText
  | binary => simpa [refused, Opcode.isData] using hfirst .readingBinary itf.onBinary
  | close =>
      have hnull : ({ link with state := .waiting, buffer := Buf.null } : AfbWs).buffer.Room :=
        Buf.null_room
      have hstores := (@awsRead_room heap memory _ ws.length hnull).1
      simp only [Opcode.isData, Bool.false_eq_true, false_and, not_false_eq_true, iff_true]
      unfold awsOnCloseStores
      split
      · simp
      · exact hstores
  | ping => simp [Opcode.isData]
  | pong => simp [Opcode.isData]
  | reserved code => simp [Opcode.isData]

theorem dispatchTurnStores_frame {ws' : Websock} {rx' : List Rx} (hws : link.ws = some ws)
    (hturn : websockTurn ws link.rx = (.frame, ws', rx')) :
    dispatchTurnStores itf heap memory link =
      handleFrameStores itf heap memory ws' { link with ws := some ws', rx := rx' } := by
  simp only [dispatchTurnStores, hws, hturn]

theorem dispatchTurnStores_header {result : Turn × Websock × List Rx} (hws : link.ws = some ws)
    (hturn : websockTurn ws link.rx = result) (hframe : result.1 ≠ .frame) :
    dispatchTurnStores itf heap memory link = [] := by
  simp only [dispatchTurnStores, hws, hturn]
  split
  · exact absurd rfl hframe
  · rfl

theorem stores_iff {c : Activation} (h : c.link.buffer.Room) (action : Action) :
    (∀ store ∈ action.stores itf heap c, store.InBounds) ↔ ¬ EndsEmpty itf c action := by
  cases action with
  | event input hup => simp [Action.stores, EndsEmpty]
  | readable => simp [Action.stores, EndsEmpty]
  | finish => simp [Action.stores, EndsEmpty]
  | turn memory reaction =>
      change (∀ store ∈ dispatchTurnStores itf heap memory c.link, store.InBounds) ↔ _
      cases hws : c.link.ws with
      | none => simp [dispatchTurnStores, EndsEmpty, hws]
      | some ws =>
          by_cases hframe : (websockTurn ws c.link.rx).1 = .frame
          · have hturn : websockTurn ws c.link.rx =
                (.frame, (websockTurn ws c.link.rx).2.1, (websockTurn ws c.link.rx).2.2) := by
              rw [← hframe]
            rw [dispatchTurnStores_frame hws hturn]
            refine (handleFrameStores_iff ?_).trans (not_congr ?_)
            · exact h
            · constructor
              · intro hempty
                exact ⟨ws, _, _, hws, hturn, hempty⟩
              · intro hempty
                rcases hempty with ⟨_, _, _, hsame, hother, hempty⟩
                cases hws.symm.trans hsame
                rw [hother]
                exact hempty
          · rw [dispatchTurnStores_header hws rfl hframe]
            simp only [List.not_mem_nil, false_imp_iff, implies_true, true_iff]
            intro hempty
            rcases hempty with ⟨_, _, _, hsame, hother, -⟩
            cases hws.symm.trans hsame
            rw [hother] at hframe
            exact hframe rfl

/-! ## Runs -/

theorem step_room {c c' : Activation} {action : Action} (h : c.link.buffer.Room)
    (hstep : Step itf heap c action c') : c'.link.buffer.Room := by
  cases hstep with
  | event input hup connected => exact h
  | turn memory reaction => exact afterTurn_room h (dispatchTurn_room h)
  | readable => exact afterHangup_room h
  | finish => exact afterHangup_room h

end Room

/-- In every run the stores into the buffer of the message are in bounds if and only if no
turn ends a message, that it accepts, without any byte read. -/
theorem message_stores_in_bounds_iff (itf : AfbWsItf) (heap : Heap) (rx : List Rx) (tx : List Tx)
    {c : Activation} {ts : List (Transition Activation Action)}
    (hrun : Runs (Step itf heap) ⟨afbWsCreate rx tx, .idle⟩ c ts) :
    (∀ t ∈ ts, ∀ store ∈ t.action.stores itf heap t.before, store.InBounds) ↔
      ∀ t ∈ ts, ¬ EndsEmpty itf t.before t.action := by
  apply forall₂_congr
  intro t ht
  rcases hrun.mem_spec ht with ⟨-, us, -, hus⟩
  apply stores_iff
  apply hus.invariant fun c => c.link.buffer.Room
  · intro c action c' hroom hstep
    exact step_room hroom hstep
  · exact Buf.null_room

/-- A text in two fragments, the second one empty. -/
theorem message_stores_in_bounds_fragments :
    ∃ (c : Activation) (ts : List (Transition Activation Action)),
      Runs (Step textOnly zeroHeap)
        ⟨afbWsCreate [.data 1 [2, 104, 105, 128, 0]] [], .idle⟩ c ts ∧
      (∃ t ∈ ts, t.action.stores textOnly zeroHeap t.before = [⟨some 3, 2⟩]) ∧
      ∀ t ∈ ts, ∀ store ∈ t.action.stores textOnly zeroHeap t.before, store.InBounds := by
  have hidle : Runs (Step textOnly zeroHeap)
    ⟨afbWsCreate [.data 1 [2, 104, 105, 128, 0]] [], .idle⟩ _ [] := Runs.refl
  have hrun := ((hidle.snoc (Step.event true false rfl)).snoc (Step.turn true .keep)).snoc
    (Step.turn true .keep) |>.snoc (Step.turn true .keep)
  have hbounds := message_stores_in_bounds_iff textOnly zeroHeap _ _ hrun
  refine ⟨_, _, hrun, ⟨_, List.mem_append_right _ (List.mem_singleton_self _), by decide⟩,
    hbounds.mpr ?_⟩
  intro t ht
  simp only [List.nil_append, List.mem_append, List.mem_singleton] at ht
  rcases ht with ((rfl | rfl) | rfl) | rfl
  · exact fun hempty => hempty
  · intro hempty
    rcases hempty with ⟨_, _, _, hws, hturn, -, -, hfin, -⟩
    cases hws
    cases hturn
    cases hfin
  · intro hempty
    rcases hempty with ⟨_, _, _, hws, hturn, -⟩
    cases hws
    cases hturn
  · intro hempty
    rcases hempty with ⟨_, _, _, hws, hturn, -, -, -, -, hnone⟩
    cases hnone

/-- A text message that is one empty frame: the zero goes through `NULL`. -/
theorem message_stores_in_bounds_fails :
    ¬ ∀ (itf : AfbWsItf) (heap : Heap) (rx : List Rx) (tx : List Tx) (c : Activation)
        (ts : List (Transition Activation Action)),
        Runs (Step itf heap) ⟨afbWsCreate rx tx, .idle⟩ c ts →
          ∀ t ∈ ts, ∀ store ∈ t.action.stores itf heap t.before, store.InBounds := by
  intro h
  have hidle : Runs (Step textOnly zeroHeap) ⟨afbWsCreate [.data 129 [0]] [], .idle⟩ _ [] :=
    Runs.refl
  have hrun := (hidle.snoc (Step.event true false rfl)).snoc (Step.turn true .keep)
  have hbounds := h textOnly zeroHeap [.data 129 [0]] [] _ _ hrun _
    (List.mem_append_right _ (List.mem_singleton_self _)) ⟨none, 0⟩ (by decide)
  rcases hbounds with ⟨_, hnone, -⟩
  cases hnone

end AfbBinder.Ws
