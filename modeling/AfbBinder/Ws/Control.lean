import AfbBinder.Ws.Delivery
import AfbBinder.Ws.Hangup

/-!
# Ping and pong frames

`websock_drop` skips the payload of a ping or of a pong, and stops when the socket says
`EAGAIN`; the websocket goes back to the start of a header whatever was skipped.  So the
stream stays in step exactly when the socket never says `EAGAIN` inside such a payload,
and then the messages are those of the stream without the pings and the pongs.
-/

namespace AfbBinder.Ws

open Lib

/-! ## The pauses of a script -/

/-- For each `EAGAIN` of the script, how many bytes arrive after it. -/
def pauses : List Rx → List Nat
  | [] => []
  | .again :: script => (arriving script).length :: pauses script
  | _ :: script => pauses script

/-- The second script is what is left of the first one. -/
structure Later (rx rx' : List Rx) : Prop where
  kept : ∀ r ∈ pauses rx', r ∈ pauses rx
  used : ∀ r ∈ pauses rx, r ∈ pauses rx' ∨ (arriving rx').length ≤ r
  shorter : (arriving rx').length ≤ (arriving rx).length

theorem Later.refl (rx : List Rx) : Later rx rx :=
  ⟨fun _ hr => hr, fun _ hr => Or.inl hr, Nat.le_refl _⟩

theorem Later.trans {rx₁ rx₂ rx₃ : List Rx} (h : Later rx₁ rx₂) (h' : Later rx₂ rx₃) :
    Later rx₁ rx₃ := by
  refine ⟨fun r hr => h.kept r (h'.kept r hr), fun r hr => ?_, Nat.le_trans h'.shorter h.shorter⟩
  rcases h.used r hr with hmid | hmid
  · exact h'.used r hmid
  · exact Or.inr (Nat.le_trans h'.shorter hmid)

theorem pauses_le {rx : List Rx} {r : Nat} (h : r ∈ pauses rx) : r ≤ (arriving rx).length := by
  induction rx with
  | nil => cases h
  | cons entry rx ih =>
      cases entry with
      | again =>
          rcases List.mem_cons.mp h with rfl | h
          · exact Nat.le_refl _
          · exact ih h
      | data first rest =>
          have hle := ih h
          simp only [arriving, List.length_cons, List.length_append]
          omega
      | intr => exact ih h
      | eof => exact ih h
      | fail code => exact ih h

/-- A read that returns bytes passes no `EAGAIN`; one that says `EAGAIN` passes one, unless
the script is at its end. -/
theorem awsReadv_pauses (size : Nat) (script : List Rx) :
    match awsReadv size script with
    | (.bytes data, rest) =>
        pauses rest = pauses script ∧ arriving script = data ++ arriving rest
    | (.error .EAGAIN, rest) =>
        arriving rest = arriving script ∧
          (pauses script = (arriving script).length :: pauses rest ∨
            (pauses rest = pauses script ∧ arriving script = []))
    | (.error _, rest) => pauses rest = pauses script ∧ arriving rest = arriving script := by
  fun_induction awsReadv size script with
  | case1 script => exact ⟨rfl, rfl⟩
  | case2 n => exact ⟨rfl, Or.inr ⟨rfl, rfl⟩⟩
  | case3 n rest => exact ⟨rfl, Or.inl rfl⟩
  | case4 n rest ih => exact ih
  | case5 n rest => exact ⟨rfl, rfl⟩
  | case6 n code rest => exact ⟨rfl, rfl⟩
  | case7 n first more rest hdrop => exact ⟨rfl, rfl⟩
  | case8 n first more rest b left hdrop =>
      refine ⟨rfl, ?_⟩
      have hsplit : more = more.take n ++ b :: left := by rw [← hdrop, List.take_append_drop]
      simp only [arriving, List.cons_append]
      rw [← List.cons_append (a := b), ← List.append_assoc, ← hsplit]

theorem Later.of_pauses {rx rx' : List Rx} (h : pauses rx' = pauses rx)
    (hshorter : (arriving rx').length ≤ (arriving rx).length) : Later rx rx' :=
  ⟨fun _ hr => h ▸ hr, fun _ hr => Or.inl (h ▸ hr), hshorter⟩

theorem awsReadv_later (size : Nat) (script : List Rx) : Later script (awsReadv size script).2 := by
  have h := awsReadv_pauses size script
  generalize hread : awsReadv size script = result at h
  split at h
  · refine .of_pauses h.1 ?_
    rw [h.2]
    exact (List.suffix_append _ _).length_le
  · obtain ⟨harr, hpauses | ⟨hpauses, -⟩⟩ := h
    · refine ⟨fun r hr => ?_, fun r hr => ?_, Nat.le_of_eq (congrArg List.length harr)⟩
      · rw [hpauses]
        exact List.mem_cons_of_mem _ hr
      · rw [hpauses] at hr
        rcases List.mem_cons.mp hr with rfl | hr
        · exact Or.inr (Nat.le_of_eq (congrArg List.length harr))
        · exact Or.inl hr
    · exact .of_pauses hpauses (Nat.le_of_eq (congrArg List.length harr))
  · exact .of_pauses h.1 (Nat.le_of_eq (congrArg List.length h.2))

theorem readHeader_pauses (ws : Websock) (rx : List Rx) :
    Later rx (readHeader ws rx).2.2 ∧
      ((readHeader ws rx).1 = .ok → pauses (readHeader ws rx).2.2 = pauses rx) := by
  unfold readHeader
  split
  · have hlater := awsReadv_later (ws.szhead - ws.lenhead) rx
    have hpauses := awsReadv_pauses (ws.szhead - ws.lenhead) rx
    cases hread : awsReadv (ws.szhead - ws.lenhead) rx with
    | mk result rest =>
        rw [hread] at hlater hpauses
        cases result with
        | bytes data => exact ⟨hlater, fun _ => hpauses.1⟩
        | error errno => exact ⟨hlater, fun hok => by cases hok⟩
  · exact ⟨.refl rx, fun _ => rfl⟩

/-- What a turn does to the script. -/
def TurnPauses (rx : List Rx) (result : Turn × Websock × List Rx) : Prop :=
  Later rx result.2.2 ∧ (result.1 = .frame → pauses result.2.2 = pauses rx)

theorem turnLength_pauses (ws : Websock) (rx : List Rx) : TurnPauses rx (turnLength ws rx) := by
  have hread := readHeader_pauses ws rx
  unfold turnLength
  split
  · rename_i heq
    rw [heq] at hread
    exact ⟨hread.1, fun h => by cases h⟩
  · rename_i heq
    rw [heq] at hread
    have hsame : ∀ turn w, TurnPauses rx (turn, w, _) := fun turn w => ⟨hread.1, fun _ => hread.2 rfl⟩
    dsimp only
    split
    · exact hsame _ _
    · split
      · exact hsame _ _
      · split
        · exact hsame _ _
        · split
          · exact hsame _ _
          · split
            · exact hsame _ _
            · exact hsame _ _

theorem turnStart_pauses (ws : Websock) (rx : List Rx) : TurnPauses rx (turnStart ws rx) := by
  have hread := readHeader_pauses ws rx
  unfold turnStart
  split
  · rename_i heq
    rw [heq] at hread
    exact ⟨hread.1, fun h => by cases h⟩
  · rename_i rx' heq
    rw [heq] at hread
    split
    · exact ⟨hread.1, fun h => by cases h⟩
    · split
      · exact ⟨hread.1, fun h => by cases h⟩
      · rename_i ws' _
        have hnext := turnLength_pauses { ws' with
          szhead := ws'.szhead + headingSize (ws'.byte 1)
          state := .length } rx'
        exact ⟨hread.1.trans hnext.1, fun h => (hnext.2 h).trans (hread.2 rfl)⟩

theorem websockTurn_pauses (ws : Websock) (rx : List Rx) : TurnPauses rx (websockTurn ws rx) := by
  unfold websockTurn
  split
  · exact turnStart_pauses _ rx
  · exact turnStart_pauses _ rx
  · exact turnLength_pauses _ rx
  · split
    · exact ⟨.refl rx, fun h => by cases h⟩
    · exact ⟨.refl rx, fun h => by cases h⟩

theorem websockRead_later (ws : Websock) (address size : Nat) (rx : List Rx) :
    Later rx (websockRead ws address size rx).2.2 := by
  have hlater := awsReadv_later (min size ws.length) rx
  unfold websockRead
  split
  · exact .refl rx
  · split
    · rename_i hread
      rw [hread] at hlater
      exact hlater
    · rename_i hread
      rw [hread] at hlater
      dsimp only
      split
      · exact hlater
      · exact hlater

/-! ## Reading the payload of a data frame -/

section Payload

variable {itf : AfbWsItf} {heap : Heap} {memory : Bool} {reaction : Reaction}

theorem awsReadLoop_later (fuel size : Nat) (link : AfbWs) :
    (awsReadLoop heap fuel size link).Post (fun _ => True) fun result =>
      Later link.rx result.2.rx := by
  induction fuel generalizing size link with
  | zero => trivial
  | succ fuel ih =>
      unfold awsReadLoop
      split
      · trivial
      · rename_i ws hws
        have hlater := websockRead_later ws
          (heap.place (link.buffer.buffer.getD []).length + link.buffer.size) size link.rx
        dsimp only
        split
        · rename_i hread
          rw [hread] at hlater
          exact (ih size _).mono fun result hresult => hlater.trans hresult
        · rename_i hread
          rw [hread] at hlater
          exact hlater
        · rename_i hread
          rw [hread] at hlater
          split
          · exact hlater
          · exact (ih _ _).mono fun result hresult => hlater.trans hresult

theorem awsRead_later (size : Nat) (link : AfbWs) :
    (awsRead heap memory size link).Post (fun _ => True) fun result => Later link.rx result.2.rx := by
  unfold awsRead
  split
  · exact Later.refl link.rx
  · split
    · exact Later.refl link.rx
    · exact awsReadLoop_later _ _ _

theorem awsDisconnect_rx (call : Bool) (link : AfbWs) : (awsDisconnect itf call link).rx = link.rx := by
  unfold awsDisconnect
  split
  · rfl
  · dsimp only
    split <;> rfl

theorem callback_rx (event : Event) (link : AfbWs) :
    (callback itf reaction event link).rx = link.rx := by
  cases reaction with
  | keep => rfl
  | hangup => exact awsDisconnect_rx true _
  | destroy => exact awsDisconnect_rx false _

theorem websockError_later (code : UInt16) (link : AfbWs) :
    (websockError itf reaction code link).Post (fun _ => True) fun after =>
      Later link.rx after.rx := by
  unfold websockError
  split
  · trivial
  · show Later link.rx (awsOnError itf reaction code.toNat _).rx
    unfold awsOnError
    split
    · rw [callback_rx]
      exact .refl _
    · rw [afbWsHangup, awsDisconnect_rx]
      exact .refl _

theorem websockDropLoop_later {fuel : Nat} {ws ws' : Websock} {rx rx' : List Rx}
    (h : websockDropLoop fuel ws rx = some (ws', rx')) : Later rx rx' := by
  induction fuel generalizing ws rx with
  | zero =>
      unfold websockDropLoop at h
      split at h
      · cases h
        exact .refl _
      · cases h
  | succ fuel ih =>
      have hlater := websockRead_later ws 0 8000 rx
      unfold websockDropLoop at h
      split at h
      · cases h
        exact .refl _
      · split at h
        · rename_i hread
          rw [hread] at hlater
          cases h
          exact hlater
        · rename_i hread
          rw [hread] at hlater
          exact hlater.trans (ih h)

theorem dropFrame_later (link : AfbWs) :
    (dropFrame link).Post (fun _ => True) fun after => Later link.rx after.rx := by
  unfold dropFrame
  split
  · trivial
  · split
    · trivial
    · rename_i hdrop
      exact websockDropLoop_later hdrop

theorem awsDropError_later (code : UInt16) (link : AfbWs) :
    (awsDropError itf reaction code link).Post (fun _ => True) fun after =>
      Later link.rx after.rx := by
  apply (dropFrame_later _).bind
  intro dropped hdropped
  exact (websockError_later code dropped).mono fun after hafter => hdropped.trans hafter

theorem awsContinue_later (last : Bool) (size : Nat) (link : AfbWs) :
    (awsContinue itf heap memory reaction last size link).Post (fun _ => True) fun after =>
      Later link.rx after.rx := by
  apply (awsRead_later size link).bind
  rintro ⟨complete, read⟩ hread
  dsimp only
  split
  · exact (awsDropError_later _ read).mono fun after hafter => hread.trans hafter
  · split
    · split
      · trivial
      · have hcall : ∀ event, Later link.rx (callback itf reaction event
            { read with state := .waiting, buffer := Buf.null }).rx := by
          intro event
          rw [callback_rx]
          exact hread
        split
        · split
          · exact hcall _
          · trivial
        · split
          · exact hcall _
          · trivial
    · exact hread

theorem awsOnFirst_later (reading : State) (defined last : Bool) (size : Nat) (link : AfbWs) :
    (awsOnFirst itf heap memory reaction reading defined last size link).Post (fun _ => True) fun after =>
      Later link.rx after.rx := by
  unfold awsOnFirst
  split
  · exact awsDropError_later _ link
  · split
    · exact awsDropError_later _ link
    · exact awsContinue_later last size _

/-- The handling of a data frame reads on in the script. -/
theorem handleFrame_later {ws : Websock} {link : AfbWs} (h : ws.opcode.isData = true) :
    (handleFrame itf heap memory reaction ws link).Post (fun _ => True) fun result =>
      Later link.rx result.2.rx := by
  have hthen : ∀ outcome : Outcome AfbWs,
      outcome.Post (fun _ => True) (fun after => Later link.rx after.rx) →
      (outcome >>= fun after => .ok (Next.loop, after)).Post (fun _ => True) fun result =>
        Later link.rx result.2.rx :=
    fun outcome houtcome => houtcome.bind fun after hafter => hafter
  unfold handleFrame
  split
  · apply hthen
    unfold awsOnContinue
    split
    · exact awsDropError_later _ link
    · exact awsContinue_later _ _ link
  · exact hthen _ (awsOnFirst_later _ _ _ _ link)
  · exact hthen _ (awsOnFirst_later _ _ _ _ link)
  all_goals simp_all [Opcode.isData]

end Payload

/-! ## Dropping the payload of a control frame -/

theorem websockRead_pauses {ws : Websock} (hdata : ws.state = .data) (address size : Nat)
    (rx : List Rx) :
    match websockRead ws address size rx with
    | (.bytes _, _, rest) => pauses rest = pauses rx
    | (.error .EAGAIN, _, _) => (arriving rx).length ∈ pauses rx ∨ arriving rx = []
    | (.error _, _, _) => True := by
  have hpauses := awsReadv_pauses (min size ws.length) rx
  rw [websockRead, if_neg (by simp [hdata])]
  cases hread : awsReadv (min size ws.length) rx with
  | mk result rest =>
      rw [hread] at hpauses
      cases result with
      | bytes data =>
          dsimp only
          by_cases hzero : ws.mask = Mask.zero
          · rw [if_pos hzero]
            exact hpauses.1
          · rw [if_neg hzero]
            exact hpauses.1
      | error errno =>
          cases errno with
          | EAGAIN =>
              rcases hpauses.2 with hcons | hend
              · exact Or.inl (by rw [hcons]; exact List.mem_cons_self)
              · exact Or.inr hend.2
          | EPIPE => trivial
          | EINVAL => trivial
          | other code => trivial

/-- The payload is dropped, or the socket says `EAGAIN` before its end. -/
theorem websockDropLoop_spec {fuel : Nat} {ws : Websock} {rx : List Rx} {raw rest : Bytes}
    (hdata : ws.state = .data) (hlength : ws.length = raw.length) (hfuel : raw.length ≤ fuel)
    (hcoming : arriving rx = raw ++ rest) (hdelays : ∀ entry ∈ rx, entry.delays = true) :
    ∃ ws' rx' left, websockDropLoop fuel ws rx = some (ws', rx') ∧
      ws'.maxlength = ws.maxlength ∧ ws'.header = ws.header ∧ arriving rx' = left ++ rest ∧
      (∀ entry ∈ rx', entry.delays = true) ∧ rx'.length ≤ rx.length ∧
      ((left = [] ∧ pauses rx' = pauses rx) ∨
        (left ≠ [] ∧ left.length ≤ raw.length ∧ left.length + rest.length ∈ pauses rx)) := by
  induction fuel generalizing ws rx raw with
  | zero =>
      have hnil : raw = [] := List.eq_nil_of_length_eq_zero (by omega)
      have hzero : ws.length = 0 := by rw [hlength, hnil]; rfl
      refine ⟨ws, rx, [], by rw [websockDropLoop, if_pos hzero], rfl, rfl, ?_, hdelays, Nat.le_refl _,
        Or.inl ⟨rfl, rfl⟩⟩
      rw [hcoming, hnil]
  | succ fuel ih =>
      by_cases hzero : ws.length = 0
      · have hnil : raw = [] := List.eq_nil_of_length_eq_zero (by omega)
        refine ⟨ws, rx, [], by rw [websockDropLoop, if_pos hzero], rfl, rfl, ?_, hdelays,
          Nat.le_refl _, Or.inl ⟨rfl, rfl⟩⟩
        rw [hcoming, hnil]
      · obtain ⟨n, hn⟩ : ∃ n, min 8000 ws.length = n + 1 := ⟨min 8000 ws.length - 1, by omega⟩
        have hpauses := websockRead_pauses hdata 0 8000 rx
        obtain ⟨script, hscript, hcase⟩ := websockRead_cases hdata hn 0 rx
        rw [websockDropLoop, if_neg hzero]
        rcases hcase with ⟨hread, harr, hused, -⟩ | ⟨errno, -, -, hfail⟩ |
          ⟨data, hread, hpos, hle, harr, -, hbound, -⟩
        · -- `EAGAIN`: the loop stops here
          rw [hread] at hpauses ⊢
          have hlen := congrArg List.length hcoming
          rw [List.length_append] at hlen
          have hpause : raw.length + rest.length ∈ pauses rx := by
            rcases hpauses with hmem | hend
            · rw [← hlen]
              exact hmem
            · rw [hend, List.length_nil] at hlen
              omega
          refine ⟨ws, script, raw, rfl, rfl, rfl, harr.trans hcoming, hscript hdelays, ?_, Or.inr
            ⟨List.length_pos_iff.mp (by omega), Nat.le_refl _, hpause⟩⟩
          rcases hused with hnil | hless
          · rw [hnil]
            exact Nat.zero_le _
          · omega
        · rw [failsWithin_of_delays hdelays] at hfail
          cases hfail
        · rw [hread] at hpauses ⊢
          have hsame : pauses script = pauses rx := hpauses
          obtain ⟨left, rfl, hleft⟩ := append_split (hcoming.symm.trans harr) (by omega)
          rw [List.length_append] at hlength hfuel
          obtain ⟨ws', rx', last, hdrop, hmax, hheader, hrest, hdel, hlen, hend⟩ := @ih
            { ws with
              length := ws.length - data.length
              mask := (unmaskBytes ws.mask data).1 } script left hdata
            (by simp only; omega) (by omega) hleft (hscript hdelays)
          refine ⟨ws', rx', last, hdrop, hmax, hheader, hrest, hdel, by omega, ?_⟩
          rw [hsame] at hend
          refine hend.imp_right fun hcut => ⟨hcut.1, ?_, hcut.2.2⟩
          rw [List.length_append]
          have := hcut.2.1
          omega

/-! ## A receiver that leaves the control frames out -/

namespace Assembly

variable (itf : AfbWsItf)

def pass (a : Assembly) (frame : Frame) : Assembly :=
  if frame.opcode.isData then a.take frame else a

/-- The frame ends a message that has no byte: the link has no buffer to end by a zero. -/
def Crashes (a : Assembly) (frame : Frame) : Prop :=
  frame.opcode.isData = true ∧ frame.fin = true ∧ a.done ++ frame.payload = []

instance (a : Assembly) (frame : Frame) : Decidable (a.Crashes frame) :=
  inferInstanceAs (Decidable (_ ∧ _ ∧ _))

/-- The frame can come next in a well-formed stream, and belongs to a message that the
link has a callback for. -/
def Admits (a : Assembly) (frame : Frame) : Prop :=
  if frame.opcode.isData then
    a.Expects frame.opcode ∧ frame.payload.length ≤ 65000 ∧ a.Defined itf frame
  else (frame.opcode = .ping ∨ frame.opcode = .pong) ∧ frame.payload.length ≤ 125

def AdmitsAll : Assembly → List Frame → Prop
  | _, [] => True
  | a, frame :: rest => a.Admits itf frame ∧ (a.pass frame).AdmitsAll rest

/-- The receiver after the frames, or after those before a crash. -/
def receive : Assembly → List Frame → Assembly
  | a, [] => a
  | a, frame :: rest => if a.Crashes frame then a else (a.pass frame).receive rest

/-- No `EAGAIN` comes inside the payload of a ping or of a pong, up to a crash. -/
def Uncut (rx : List Rx) : Assembly → List Frame → Prop
  | _, [] => True
  | a, frame :: rest =>
      a.Crashes frame ∨
        ((frame.opcode.isData = false → ∀ r ∈ pauses rx,
          ¬ ((wires rest).length < r ∧ r ≤ (wires rest).length + frame.payload.length)) ∧
        Uncut rx (a.pass frame) rest)

variable {itf}

theorem pass_data {a : Assembly} {frame : Frame} (h : frame.opcode.isData = true) :
    a.pass frame = a.take frame := if_pos h

theorem pass_control {a : Assembly} {frame : Frame} (h : frame.opcode.isData = false) :
    a.pass frame = a := by
  rw [pass, h, if_neg Bool.false_ne_true]

theorem Admits.ordinary {a : Assembly} {frame : Frame} (h : a.Admits itf frame) :
    frame.Ordinary := by
  unfold Admits at h
  split at h
  · rename_i hdata
    exact (Frame.Receivable.mk hdata h.2.1).ordinary
  · refine ⟨?_, ?_, by omega, fun _ => h.2⟩
    · intro code hop
      rcases h.1 with hkind | hkind <;> simp [hkind] at hop
    · intro hop
      rcases h.1 with hkind | hkind <;> simp [hkind] at hop

/-- Without its control frames, a stream makes the same messages. -/
theorem receive_data (a : Assembly) (frames : List Frame) :
    a.receive (frames.filter fun frame => frame.opcode.isData) = a.receive frames := by
  induction frames generalizing a with
  | nil => rfl
  | cons frame rest ih =>
      cases hdata : frame.opcode.isData with
      | true =>
          rw [List.filter_cons_of_pos (by exact hdata), receive, receive]
          split
          · rfl
          · exact ih _
      | false =>
          have hnot : ¬ a.Crashes frame := by
            intro hcrash
            rw [hcrash.1] at hdata
            cases hdata
          rw [List.filter_cons_of_neg (by simp [hdata]), receive, if_neg hnot, pass_control hdata]
          exact ih a

theorem admitsAll_data {a : Assembly} {frames : List Frame} (h : a.AdmitsAll itf frames) :
    a.AdmitsAll itf (frames.filter fun frame => frame.opcode.isData) := by
  induction frames generalizing a with
  | nil => trivial
  | cons frame rest ih =>
      cases hdata : frame.opcode.isData with
      | true =>
          rw [List.filter_cons_of_pos (by exact hdata)]
          exact ⟨h.1, ih h.2⟩
      | false =>
          have hrest := h.2
          rw [pass_control hdata] at hrest
          rw [List.filter_cons_of_neg (by simp [hdata])]
          exact ih hrest

theorem uncut_data {a : Assembly} {frames : List Frame} (rx : List Rx)
    (h : ∀ frame ∈ frames, frame.opcode.isData = true) : Uncut rx a frames := by
  induction frames generalizing a with
  | nil => trivial
  | cons frame rest ih =>
      refine Or.inr ⟨fun hcontrol => ?_, ih fun f hf => h f (List.mem_cons_of_mem _ hf)⟩
      rw [h frame List.mem_cons_self] at hcontrol
      cases hcontrol

/-- The pauses that count are those inside the payloads to come. -/
theorem uncut_later {a : Assembly} {frames : List Frame} {rx rx' : List Rx} (h : Later rx rx')
    (hlong : ∀ frame rest, frames = frame :: rest →
      (wires rest).length + frame.payload.length < (arriving rx').length) :
    Uncut rx a frames ↔ Uncut rx' a frames := by
  induction frames generalizing a with
  | nil => exact Iff.rfl
  | cons frame rest ih =>
      have hhere := hlong frame rest rfl
      have hpauses : ∀ r ≤ (wires rest).length + frame.payload.length,
          r ∈ pauses rx ↔ r ∈ pauses rx' := by
        intro r hr
        constructor
        · exact fun hmem => (h.used r hmem).resolve_right (by omega)
        · exact h.kept r
      have hrest : Uncut rx (a.pass frame) rest ↔ Uncut rx' (a.pass frame) rest := by
        apply ih
        rintro next last rfl
        rw [wires_cons, List.length_append, Frame.wire, List.length_append, body_length] at hhere
        omega
      unfold Uncut
      rw [hrest]
      apply or_congr Iff.rfl
      apply and_congr _ Iff.rfl
      constructor
      · intro hspan hcontrol r hr hin
        exact hspan hcontrol r ((hpauses r hin.2).mpr hr) hin
      · intro hspan hcontrol r hr hin
        exact hspan hcontrol r ((hpauses r hin.2).mp hr) hin

end Assembly

/-! ## Handling a frame -/

section Frames

variable {itf : AfbWsItf} {heap : Heap} {link : AfbWs} {ws : Websock} {a : Assembly}
  {frame : Frame} {rest : Bytes}

theorem awsContinue_empty (hstate : link.buffer = Buf.null) :
    awsContinue itf heap true .keep true 0 link = .fault .nullBuffer := by
  have hread : awsRead heap true 0 link = .ok (true, link) := if_pos rfl
  rw [awsContinue, hread, Outcome.ok_bind]
  simp only [Bool.not_true, Bool.false_eq_true, if_false, if_true, hstate, Buf.null]

theorem handleFrame_crashes (h : Arriving frame rest ws link) (hrefines : Refines a link)
    (hadmits : a.Admits itf frame) (hcrash : a.Crashes frame) :
    handleFrame itf heap true .keep ws link = .fault .nullBuffer := by
  obtain ⟨hdata, hfin, hempty⟩ := hcrash
  rw [Assembly.Admits, if_pos hdata] at hadmits
  obtain ⟨hexpects, -, hdefined⟩ := hadmits
  have hparts := List.append_eq_nil_iff.mp hempty
  have hbuffer : link.buffer = Buf.null := by
    rcases hrefines.buffer with ⟨-, hnull⟩ | ⟨hne, -⟩
    · exact hnull
    · exact absurd hparts.1 hne
  rw [handleFrame_data heap hdefined h.heading hrefines.state hexpects, hfin, hparts.2,
    List.length_nil,
    @awsContinue_empty itf heap { link with state := a.opened frame.opcode } hbuffer]
  rfl

/-- A ping or a pong: headers are read again, after its payload or after what was dropped
of it before the socket said `EAGAIN`. -/
theorem handleFrame_control (h : Arriving frame rest ws link) (hrefines : Refines a link)
    (hcontrol : frame.opcode = .ping ∨ frame.opcode = .pong) :
    ∃ after wsEnd left, handleFrame itf heap true .keep ws link = .ok (.loop, after) ∧
      Refines a after ∧ after.ws = some wsEnd ∧ wsEnd.state = .init ∧ wsEnd.maxlength = 65000 ∧
      wsEnd.header.length = 14 ∧ arriving after.rx = left ++ rest ∧
      (∀ entry ∈ after.rx, entry.delays = true) ∧ after.rx.length ≤ link.rx.length ∧
      ((left = [] ∧ pauses after.rx = pauses link.rx) ∨
        (left ≠ [] ∧ left.length ≤ frame.payload.length ∧
          left.length + rest.length ∈ pauses link.rx)) := by
  have hbody := body_length frame
  have hlength : ws.length = frame.body.length := by rw [h.heading.length, hbody]
  obtain ⟨ws', rx', left, hdrop, hmax, hheader, hrest, hdelays, hbound, hend⟩ :=
    websockDropLoop_spec h.heading.state hlength (Nat.le_of_eq hlength.symm) h.coming h.delays
  rw [hbody] at hend
  have hdropped : dropFrame link = .ok { link with ws := some ws', rx := rx' } := by
    simp only [dropFrame, h.websock, websockDrop, hdrop]
  have hroom : ws'.header.length = 14 := by rw [hheader, h.room]
  unfold handleFrame
  rw [h.heading.opcode]
  rcases hcontrol with hop | hop
  · rw [hop]
    simp only [hdropped, Outcome.ok_bind]
    exact ⟨_, { ws' with state := .init }, left, rfl,
      ⟨hrefines.state, hrefines.buffer, hrefines.events⟩, rfl, rfl, hmax.trans h.maxlength, hroom,
      hrest, hdelays, hbound, hend⟩
  · rw [hop]
    simp only [hdropped, Outcome.ok_bind]
    exact ⟨_, { ws' with state := .init }, left, rfl,
      ⟨hrefines.state, hrefines.buffer, hrefines.events⟩, rfl, rfl, hmax.trans h.maxlength, hroom,
      hrest, hdelays, hbound, hend⟩

end Frames

/-! ## Turns -/

section Turns

variable (itf : AfbWsItf) (heap : Heap)

/-- The turns of the loop of `websock_dispatch`, called again when it returns: the link
after them, or where they stop. -/
def turns : Nat → AfbWs → AfbWs
  | 0, link => link
  | n + 1, link =>
      match dispatchTurn itf heap true .keep link with
      | .ok (.back (.error .EPIPE), after) => turns n (afbWsHangup itf after)
      | .ok (_, after) => turns n after
      | .blocked => link
      | .fault _ => link

/-- If the next turn handles a ping or a pong, headers are read again from the byte that
follows its payload. -/
def ResumesAt (link : AfbWs) : Prop :=
  ∀ ws ws' rx', link.ws = some ws → websockTurn ws link.rx = (.frame, ws', rx') →
    ws'.opcode = .ping ∨ ws'.opcode = .pong →
      ∃ after wsEnd, dispatchTurn itf heap true .keep link = .ok (.loop, after) ∧
        after.ws = some wsEnd ∧ wsEnd.state = .init ∧
        arriving after.rx = (arriving rx').drop ws'.length

/-- So it is at each ping and pong of the run. -/
def Resumes (link : AfbWs) : Prop := ∀ n, ResumesAt itf heap (turns itf heap n link)

/-- The link delivers the messages, in the end. -/
def Delivers (events : List Event) (link : AfbWs) : Prop :=
  ∃ N, ∀ n ≥ N, (turns itf heap n link).events = events

variable {itf heap} {link after : AfbWs} {next : Next}

theorem turns_ok (n : Nat) (h : dispatchTurn itf heap true .keep link = .ok (next, after))
    (hnext : next ≠ .back (.error .EPIPE)) :
    turns itf heap (n + 1) link = turns itf heap n after := by
  rw [turns, h]
  split
  · rename_i heq
    cases heq
    exact absurd rfl hnext
  · rename_i heq
    cases heq
    rfl
  · rename_i heq
    cases heq
  · rename_i heq
    cases heq

theorem turns_fault {f : Fault} (n : Nat) (h : dispatchTurn itf heap true .keep link = .fault f) :
    turns itf heap n link = link := by
  cases n with
  | zero => rfl
  | succ n => rw [turns, h]

theorem resumes_ok (h : dispatchTurn itf heap true .keep link = .ok (next, after))
    (hnext : next ≠ .back (.error .EPIPE)) :
    Resumes itf heap link ↔ ResumesAt itf heap link ∧ Resumes itf heap after := by
  constructor
  · intro hresumes
    refine ⟨hresumes 0, fun n => ?_⟩
    have hn := hresumes (n + 1)
    rwa [turns_ok n h hnext] at hn
  · intro hresumes n
    cases n with
    | zero => exact hresumes.1
    | succ n =>
        rw [turns_ok n h hnext]
        exact hresumes.2 n

theorem Delivers.ok {events : List Event} (h : dispatchTurn itf heap true .keep link = .ok (next, after))
    (hnext : next ≠ .back (.error .EPIPE)) (hafter : Delivers itf heap events after) :
    Delivers itf heap events link := by
  obtain ⟨N, hN⟩ := hafter
  refine ⟨N + 1, fun n hn => ?_⟩
  obtain ⟨m, rfl⟩ : ∃ m, n = m + 1 := ⟨n - 1, by omega⟩
  rw [turns_ok m h hnext]
  exact hN m (by omega)

/-! ## Runs on a stream -/

/-- Between two turns: the link is as the receiver, and the frames can come. -/
structure Mixed (itf : AfbWsItf) (a : Assembly) (frames : List Frame) (link : AfbWs) : Prop where
  refines : Refines a link
  synced : ∃ ws, link.ws = some ws ∧ Synced frames ws link.rx
  admits : a.AdmitsAll itf frames

variable {a : Assembly} {frames : List Frame} {ws ws' : Websock} {rx rx' : List Rx}

theorem Mixed.ordinary (h : Mixed itf a frames link) : ∀ frame ∈ frames.head?, frame.Ordinary := by
  intro frame hframe
  have hadmits := h.admits
  cases frames with
  | nil => cases hframe
  | cons first rest =>
      cases hframe
      exact hadmits.1.ordinary

/-- Before its payload is reached, more than the payload is to come. -/
theorem Synced.long {frame : Frame} (h : Synced (frame :: frames) ws rx) :
    (wires frames).length + frame.payload.length < (arriving rx).length := by
  have hhead := head_two frame
  have hwires : (wires (frame :: frames)).length =
      frame.head.length + frame.payload.length + (wires frames).length := by
    rw [wires_cons, List.length_append, Frame.wire, List.length_append, body_length]
  obtain ⟨-, -, -, hphase⟩ := h
  split at hphase
  · rw [hphase]
    omega
  · rw [hphase.2]
    omega
  · rw [hphase.2.2.coming, List.length_drop]
    omega
  · obtain ⟨first, rest, hframes, hszhead, hincomplete, hseen⟩ := hphase
    cases hframes
    rw [hseen.coming, List.length_drop]
    omega

theorem resumesAt_of_turn {turn : Turn} (hws : link.ws = some ws)
    (hturn : websockTurn ws link.rx = (turn, ws', rx')) (hframe : turn ≠ .frame) :
    ResumesAt itf heap link := by
  intro w w' r hw hresult
  rw [hws] at hw
  cases hw
  rw [hturn] at hresult
  cases hresult
  exact absurd rfl hframe

variable (heap) in
theorem mixed_idle (h : Mixed itf a [] link) (n : Nat) : Mixed itf a [] (turns itf heap n link) := by
  induction n generalizing link with
  | zero => exact h
  | succ n ih =>
      obtain ⟨ws, hws, hsynced⟩ := h.synced
      have hrefines : ∀ w r, Refines a { link with ws := w, rx := r } := fun _ _ =>
        ⟨h.refines.state, h.refines.buffer, h.refines.events⟩
      rcases websockTurn_cases h.ordinary hsynced with ⟨rc, ws', rx', hturn, hrc, hsynced', -⟩ |
        ⟨-, hturn, hsynced'⟩ | ⟨ws', rx', frame, rest, -, hframes, -⟩
      · have hok : dispatchTurn itf heap true .keep link =
            .ok (.back rc, { link with ws := some ws', rx := rx' }) := by
          simp only [dispatchTurn, hws, hturn]
        rw [turns_ok n hok (by rcases hrc with rfl | rfl <;> simp)]
        exact ih ⟨hrefines _ _, ⟨_, rfl, hsynced'⟩, trivial⟩
      · have hok : dispatchTurn itf heap true .keep link =
            .ok (.loop, { link with ws := some { ws with state := .init } }) := by
          simp only [dispatchTurn, hws, hturn]
        rw [turns_ok n hok (by simp)]
        exact ih ⟨hrefines _ _, ⟨_, rfl, hsynced'⟩, trivial⟩
      · cases hframes

theorem resumes_idle (h : Mixed itf a [] link) : Resumes itf heap link := by
  intro n
  have hn := mixed_idle heap h n
  obtain ⟨ws, hws, hsynced⟩ := hn.synced
  rcases websockTurn_cases hn.ordinary hsynced with ⟨rc, ws', rx', hturn, -⟩ |
    ⟨-, hturn, -⟩ | ⟨ws', rx', frame, rest, -, hframes, -⟩
  · exact resumesAt_of_turn hws hturn (by simp)
  · exact resumesAt_of_turn hws hturn (by simp)
  · cases hframes

/-- What the turns from the link come to. -/
structure Outruns (itf : AfbWsItf) (heap : Heap) (a : Assembly) (frames : List Frame)
    (link : AfbWs) : Prop where
  resumes : Resumes itf heap link ↔ Assembly.Uncut link.rx a frames
  delivers : Assembly.Uncut link.rx a frames →
    Delivers itf heap ((a.receive frames).delivered.map deliveryEvent) link

theorem outruns_idle (h : Mixed itf a [] link) : Outruns itf heap a [] link :=
  ⟨⟨fun _ => trivial, fun _ => resumes_idle h⟩,
    fun _ => ⟨0, fun n _ => (mixed_idle heap h n).refines.events⟩⟩

/-- A turn that leaves the property to the link after it. -/
theorem Outruns.turn {a' : Assembly} {frames' : List Frame}
    (hok : dispatchTurn itf heap true .keep link = .ok (next, after))
    (hnext : next ≠ .back (.error .EPIPE)) (hhere : ResumesAt itf heap link)
    (huncut : Assembly.Uncut link.rx a frames ↔ Assembly.Uncut after.rx a' frames')
    (hreceive : a.receive frames = a'.receive frames')
    (hafter : Outruns itf heap a' frames' after) : Outruns itf heap a frames link := by
  refine ⟨?_, fun h => ?_⟩
  · rw [resumes_ok hok hnext, huncut, ← hafter.resumes]
    exact ⟨fun h => h.2, fun h => ⟨hhere, h⟩⟩
  · rw [hreceive]
    exact (hafter.delivers (huncut.mp h)).ok hok hnext

/-- The next turn handles the first frame. -/
structure Handling (itf : AfbWsItf) (a : Assembly) (frame : Frame) (rest : List Frame)
    (ws' : Websock) (rx' : List Rx) (link : AfbWs) : Prop where
  mixed : Mixed itf a (frame :: rest) link
  turn : ∃ ws, link.ws = some ws ∧ websockTurn ws link.rx = (.frame, ws', rx')
  arriving : Arriving frame (wires rest) ws' { link with ws := some ws', rx := rx' }
  bound : rx'.length ≤ link.rx.length

section Handling

variable {frame : Frame} {rest : List Frame}

theorem Handling.pauses_eq (h : Handling itf a frame rest ws' rx' link) :
    pauses rx' = pauses link.rx := by
  obtain ⟨ws, -, hturn⟩ := h.turn
  have hall := (websockTurn_pauses ws link.rx).2
  rw [hturn] at hall
  exact hall rfl

theorem Handling.later (h : Handling itf a frame rest ws' rx' link) : Later link.rx rx' := by
  obtain ⟨ws, -, hturn⟩ := h.turn
  have hall := (websockTurn_pauses ws link.rx).1
  rw [hturn] at hall
  exact hall

theorem Handling.refines (h : Handling itf a frame rest ws' rx' link) :
    Refines a { link with ws := some ws', rx := rx' } :=
  ⟨h.mixed.refines.state, h.mixed.refines.buffer, h.mixed.refines.events⟩

variable (heap) in
theorem Handling.dispatch (h : Handling itf a frame rest ws' rx' link) :
    dispatchTurn itf heap true .keep link =
      handleFrame itf heap true .keep ws' { link with ws := some ws', rx := rx' } := by
  obtain ⟨ws, hws, hturn⟩ := h.turn
  simp only [dispatchTurn, hws, hturn]

theorem Handling.resumesAt_data (h : Handling itf a frame rest ws' rx' link)
    (hdata : frame.opcode.isData = true) : ResumesAt itf heap link := by
  obtain ⟨ws, hws, hturn⟩ := h.turn
  intro w w' r hw hresult hkind
  rw [hws] at hw
  cases hw
  rw [hturn] at hresult
  cases hresult
  rw [h.arriving.heading.opcode] at hkind
  rcases hkind with hkind | hkind
  · rw [hkind] at hdata
    cases hdata
  · rw [hkind] at hdata
    cases hdata

/-- The frames after the first one are cut as they are once it is handled. -/
theorem uncut_rest {a' : Assembly} (hlater : Later link.rx after.rx)
    (hmixed : Mixed itf a' rest after) :
    Assembly.Uncut link.rx a' rest ↔ Assembly.Uncut after.rx a' rest := by
  obtain ⟨ws, -, hsynced⟩ := hmixed.synced
  apply Assembly.uncut_later hlater
  rintro first last rfl
  exact hsynced.long

/-- The link stops on a message without a byte. -/
theorem outruns_crash (h : Handling itf a frame rest ws' rx' link) (hcrash : a.Crashes frame) :
    Outruns itf heap a (frame :: rest) link := by
  have hfault := (h.dispatch heap).trans
    (handleFrame_crashes h.arriving h.refines h.mixed.admits.1 hcrash)
  refine ⟨⟨fun _ => Or.inl hcrash, fun _ n => ?_⟩, fun _ => ⟨0, fun n _ => ?_⟩⟩
  · rw [turns_fault n hfault]
    exact h.resumesAt_data hcrash.1
  · rw [turns_fault n hfault, Assembly.receive, if_pos hcrash]
    exact h.mixed.refines.events

theorem outruns_data (h : Handling itf a frame rest ws' rx' link)
    (hdata : frame.opcode.isData = true) (hcrash : ¬ a.Crashes frame)
    (ih : ∀ (a' : Assembly) (after : AfbWs), after.rx.length ≤ link.rx.length →
      Mixed itf a' rest after → Outruns itf heap a' rest after) :
    Outruns itf heap a (frame :: rest) link := by
  obtain ⟨hadmits, hrest⟩ := h.mixed.admits
  rw [Assembly.Admits, if_pos hdata] at hadmits
  have hfilled : frame.fin = true → a.done ++ frame.payload ≠ [] :=
    fun hfin hempty => hcrash ⟨hdata, hfin, hempty⟩
  obtain ⟨after, hframe, hhandled⟩ := handleFrame_delivers heap hadmits.2.2 h.arriving h.refines
    ⟨hadmits.1, hadmits.2.1, hfilled⟩
  have hlater : Later rx' after.rx := by
    have hpost := @handleFrame_later itf heap true .keep ws' { link with ws := some ws', rx := rx' }
      (by rw [h.arriving.heading.opcode]; exact hdata)
    rw [hframe] at hpost
    exact hpost
  have hmixed : Mixed itf (a.pass frame) rest after := by
    obtain ⟨wsEnd, hwsEnd, hread⟩ := hhandled.frameRead
    refine ⟨?_, ⟨wsEnd, hwsEnd, hread.synced hhandled.delays hhandled.coming⟩, hrest⟩
    rw [Assembly.pass_data hdata]
    exact hhandled.refines
  have huncut : Assembly.Uncut link.rx a (frame :: rest) ↔
      Assembly.Uncut after.rx (a.pass frame) rest := by
    rw [← uncut_rest (h.later.trans hlater) hmixed, Assembly.Uncut, hdata]
    simp [hcrash]
  refine Outruns.turn ((h.dispatch heap).trans hframe) (by simp) (h.resumesAt_data hdata) huncut ?_
    (ih _ after (Nat.le_trans hhandled.bound h.bound) hmixed)
  rw [Assembly.receive, if_neg hcrash]

theorem outruns_control (h : Handling itf a frame rest ws' rx' link)
    (hdata : frame.opcode.isData = false)
    (ih : ∀ (a' : Assembly) (after : AfbWs), after.rx.length ≤ link.rx.length →
      Mixed itf a' rest after → Outruns itf heap a' rest after) :
    Outruns itf heap a (frame :: rest) link := by
  have hnot : ¬ a.Crashes frame := by
    intro hcrash
    rw [hcrash.1] at hdata
    cases hdata
  obtain ⟨hadmits, hrest⟩ := h.mixed.admits
  rw [Assembly.Admits, hdata, if_neg Bool.false_ne_true] at hadmits
  rw [Assembly.pass_control hdata] at hrest
  obtain ⟨after, wsEnd, left, hframe, hafter, hwsEnd, hinit, hmax, hroom, hcoming, hdelays, hlen,
    hend⟩ := @handleFrame_control itf heap _ _ _ _ _ h.arriving h.refines hadmits.1
  have hok := (h.dispatch heap).trans hframe
  have hbody : arriving rx' = frame.body ++ wires rest := h.arriving.coming
  have hdrop : (arriving rx').drop ws'.length = wires rest := by
    rw [hbody, h.arriving.heading.length, ← body_length, List.drop_left]
  obtain ⟨ws, hws, hturn⟩ := h.turn
  rcases hend with ⟨hnil, hkept⟩ | ⟨hne, hle, hpause⟩
  · -- the payload is dropped
    rw [hnil, List.nil_append] at hcoming
    have hmixed : Mixed itf a rest after := by
      refine ⟨hafter, ⟨wsEnd, hwsEnd, hmax, hroom, hdelays, ?_⟩, hrest⟩
      simp only [hinit]
      exact hcoming
    have hhere : ResumesAt itf heap link := by
      intro w w' r hw hresult _
      rw [hws] at hw
      cases hw
      rw [hturn] at hresult
      cases hresult
      exact ⟨after, wsEnd, hok, hwsEnd, hinit, by rw [hcoming, hdrop]⟩
    have hall : pauses after.rx = pauses link.rx := hkept.trans h.pauses_eq
    have hlater : Later link.rx after.rx := by
      refine .of_pauses hall (Nat.le_trans ?_ h.later.shorter)
      rw [hcoming, hbody]
      exact (List.suffix_append _ _).length_le
    have hspan : ∀ r ∈ pauses link.rx,
        ¬ ((wires rest).length < r ∧ r ≤ (wires rest).length + frame.payload.length) := by
      intro r hr hin
      rw [← hall] at hr
      have hr' := pauses_le hr
      rw [hcoming] at hr'
      omega
    have huncut : Assembly.Uncut link.rx a (frame :: rest) ↔ Assembly.Uncut after.rx a rest := by
      rw [← uncut_rest hlater hmixed, Assembly.Uncut, Assembly.pass_control hdata]
      exact ⟨fun hu => (hu.resolve_left hnot).2, fun hu => Or.inr ⟨fun _ => hspan, hu⟩⟩
    refine Outruns.turn hok (by simp) hhere huncut ?_ (ih a after (Nat.le_trans hlen h.bound) hmixed)
    rw [Assembly.receive, if_neg hnot, Assembly.pass_control hdata]
  · -- some of the payload is left, and is read as a header
    have hcut : ¬ Assembly.Uncut link.rx a (frame :: rest) := by
      intro hu
      have hpos := List.length_pos_iff.mpr hne
      have hpause' : left.length + (wires rest).length ∈ pauses link.rx := by
        rw [← h.pauses_eq]
        exact hpause
      exact (hu.resolve_left hnot).1 hdata _ hpause' ⟨by omega, by omega⟩
    have hlost : ¬ Resumes itf heap link := by
      intro hresumes
      have hkind : ws'.opcode = .ping ∨ ws'.opcode = .pong := by
        rw [h.arriving.heading.opcode]
        exact hadmits.1
      obtain ⟨last, wsLast, hlast, -, -, hat⟩ := hresumes 0 ws ws' rx' hws hturn hkind
      have hlast' : dispatchTurn itf heap true .keep link = .ok (.loop, last) := hlast
      rw [hok] at hlast'
      cases hlast'
      rw [hdrop, hcoming] at hat
      exact hne (List.append_left_eq_self.mp hat)
    exact ⟨⟨fun hr => absurd hr hlost, fun hu => absurd hu hcut⟩, fun hu => absurd hu hcut⟩

end Handling

/-- How far the turns are from the end of the script and of the frames. -/
def distance (frames : List Frame) (link : AfbWs) : Nat :=
  2 * link.rx.length + turnsLeft frames link

theorem outruns_back {frame : Frame} {rest : List Frame} {rc : Rc}
    (h : Mixed itf a (frame :: rest) link) (hws : link.ws = some ws)
    (hturn : websockTurn ws link.rx = (.back rc, ws', rx')) (hrc : rc = .ok ∨ rc = .error .EAGAIN)
    (hsynced : Synced (frame :: rest) ws' rx')
    (hafter : Mixed itf a (frame :: rest) { link with ws := some ws', rx := rx' } →
      Outruns itf heap a (frame :: rest) { link with ws := some ws', rx := rx' }) :
    Outruns itf heap a (frame :: rest) link := by
  have hok : dispatchTurn itf heap true .keep link =
      .ok (.back rc, { link with ws := some ws', rx := rx' }) := by
    simp only [dispatchTurn, hws, hturn]
  have hlater : Later link.rx rx' := by
    have hall := (websockTurn_pauses ws link.rx).1
    rw [hturn] at hall
    exact hall
  have hmixed : Mixed itf a (frame :: rest) { link with ws := some ws', rx := rx' } :=
    ⟨⟨h.refines.state, h.refines.buffer, h.refines.events⟩, ⟨_, rfl, hsynced⟩, h.admits⟩
  exact Outruns.turn hok (by rcases hrc with rfl | rfl <;> simp)
    (resumesAt_of_turn hws hturn (by simp)) (uncut_rest hlater hmixed) rfl (hafter hmixed)

/-- The run of a link that is in step with its stream. -/
theorem outruns_mixed {d : Nat} (hdistance : distance frames link ≤ d)
    (h : Mixed itf a frames link) : Outruns itf heap a frames link := by
  induction d generalizing a frames link with
  | zero =>
      have hnil : frames = [] := by
        apply List.eq_nil_of_length_eq_zero
        unfold distance turnsLeft at hdistance
        omega
      rw [hnil] at h ⊢
      exact outruns_idle h
  | succ d ih =>
      cases frames with
      | nil => exact outruns_idle h
      | cons frame rest =>
          obtain ⟨ws, hws, hsynced⟩ := h.synced
          rcases websockTurn_cases h.ordinary hsynced with
            ⟨rc, ws', rx', hturn, hrc, hsynced', hused⟩ | ⟨hdata, hturn, hsynced'⟩ |
            ⟨ws', rx', first, last, hturn, hframes, hheading, hmax, hroom, hcoming, hdelays, hbound⟩
          · -- an entry of the script is used up, for bytes of the frame are to come
            apply outruns_back h hws hturn hrc hsynced'
            apply ih
            have hless : rx'.length < link.rx.length := by
              rcases hused with hnil | hless
              · have hlong := hsynced'.long
                rw [hnil] at hlong
                cases hlong
              · exact hless
            unfold distance turnsLeft at hdistance ⊢
            simp only [List.length_cons] at hdistance ⊢
            split <;> omega
          · have hok : dispatchTurn itf heap true .keep link =
                .ok (.loop, { link with ws := some { ws with state := .init } }) := by
              simp only [dispatchTurn, hws, hturn]
            have hmixed : Mixed itf a (frame :: rest)
                { link with ws := some { ws with state := .init } } :=
              ⟨⟨h.refines.state, h.refines.buffer, h.refines.events⟩, ⟨_, rfl, hsynced'⟩, h.admits⟩
            refine Outruns.turn hok (by simp) (resumesAt_of_turn hws hturn (by simp)) Iff.rfl rfl
              (ih ?_ hmixed)
            have hless : turnsLeft (frame :: rest)
                { link with ws := some { ws with state := .init } } <
                  turnsLeft (frame :: rest) link := by simp [turnsLeft, hws, hdata]
            unfold distance at hdistance ⊢
            dsimp only at hless ⊢
            omega
          · cases hframes
            have hhandling : Handling itf a frame rest ws' rx' link :=
              ⟨h, ⟨ws, hws, hturn⟩, ⟨hheading, hmax, hroom, rfl, hcoming, hdelays⟩, hbound⟩
            have hnext : ∀ (a' : Assembly) (after : AfbWs), after.rx.length ≤ link.rx.length →
                Mixed itf a' rest after → Outruns itf heap a' rest after := by
              intro a' after hlen hmixed
              obtain ⟨wsEnd, hwsEnd, -⟩ := hmixed.synced
              have hless := @turnsLeft_cons link wsEnd frame rest after hwsEnd
              apply ih _ hmixed
              unfold distance at hdistance ⊢
              omega
            cases hkind : frame.opcode.isData with
            | true =>
                by_cases hcrash : a.Crashes frame
                · exact outruns_crash hhandling hcrash
                · exact outruns_data hhandling hkind hcrash hnext
            | false => exact outruns_control hhandling hkind hnext

/-! ## The stream with its control frames -/

/-- Header parsing resumes after each ping and pong, and the messages are those of the
stream without them, exactly when the socket never says `EAGAIN` inside the payload of a
ping or of a pong. -/
theorem control_frames_skipped_iff (itf : AfbWsItf) (heap : Heap) (frames : List Frame)
    (hframes : Assembly.start.AdmitsAll itf frames) (rx : List Rx) (tx : List Tx)
    (hdelays : ∀ entry ∈ rx, entry.delays = true) (hcoming : arriving rx = wires frames) :
    (Resumes itf heap (afbWsCreate rx tx) ∧
      ∀ (rx' : List Rx) (tx' : List Tx), (∀ entry ∈ rx', entry.delays = true) →
        arriving rx' = wires (frames.filter fun frame => frame.opcode.isData) →
        ∃ N, ∀ n ≥ N, (turns itf heap n (afbWsCreate rx tx)).events =
          (turns itf heap n (afbWsCreate rx' tx')).events) ↔
      Assembly.Uncut rx Assembly.start frames := by
  have hcreated : ∀ (frames : List Frame) (rx : List Rx) (tx : List Tx),
      Assembly.start.AdmitsAll itf frames → (∀ entry ∈ rx, entry.delays = true) →
      arriving rx = wires frames →
      Outruns itf heap Assembly.start frames (afbWsCreate rx tx) := by
    intro frames rx tx hadmits hdelays hcoming
    exact outruns_mixed (Nat.le_refl _)
      ⟨⟨rfl, Or.inl ⟨rfl, rfl⟩, rfl⟩, ⟨_, rfl, rfl, rfl, hdelays, hcoming⟩, hadmits⟩
  have hrun := hcreated frames rx tx hframes hdelays hcoming
  constructor
  · exact fun h => hrun.resumes.mp h.1
  · intro huncut
    refine ⟨hrun.resumes.mpr huncut, fun rx' tx' hdelays' hcoming' => ?_⟩
    have hdata := hcreated _ rx' tx' (Assembly.admitsAll_data hframes) hdelays' hcoming'
    have hnone : Assembly.Uncut rx' Assembly.start
        (frames.filter fun frame => frame.opcode.isData) :=
      Assembly.uncut_data rx' fun frame hframe => (List.mem_filter.mp hframe).2
    obtain ⟨N, hN⟩ := hrun.delivers huncut
    obtain ⟨M, hM⟩ := hdata.delivers hnone
    refine ⟨N + M, fun n hn => ?_⟩
    rw [hN n (by omega), hM n (by omega), Assembly.receive_data]

/-- A ping with two bytes, then the text `hi`. -/
def pingThenText : List Frame :=
  [⟨true, .ping, none, [97, 98]⟩, ⟨true, .text, none, [104, 105]⟩]

theorem pingThenText_admitted : Assembly.start.AdmitsAll textOnly pingThenText := by
  simp [pingThenText, Assembly.AdmitsAll, Assembly.Admits, Assembly.pass, Assembly.Expects,
    Assembly.Defined, Assembly.opened, Assembly.start, Opcode.isData, textOnly]

/-- The stream is cut before and after the payload of the ping. -/
theorem control_frames_skipped_iff_outside :
    Resumes textOnly zeroHeap (afbWsCreate [.data 137 [], .again, .data 2 [97, 98], .again,
      .data 129 [2, 104], .again, .data 105 []] []) := by
  apply ((control_frames_skipped_iff textOnly zeroHeap pingThenText pingThenText_admitted
    [.data 137 [], .again, .data 2 [97, 98], .again, .data 129 [2, 104], .again, .data 105 []] []
    (by decide) (by decide)).mpr _).1
  refine Or.inr ⟨fun _ => by decide, Or.inr ⟨fun hcontrol => ?_, trivial⟩⟩
  cases hcontrol

/-- When the socket says `EAGAIN` before the second byte of the ping, that byte is taken for
the start of a header. -/
theorem control_frames_desynchronise :
    ¬ ∀ (itf : AfbWsItf) (heap : Heap) (frames : List Frame) (rx : List Rx) (tx : List Tx),
        Assembly.start.AdmitsAll itf frames → (∀ entry ∈ rx, entry.delays = true) →
        arriving rx = wires frames →
        Resumes itf heap (afbWsCreate rx tx) ∧
          ∀ (rx' : List Rx) (tx' : List Tx), (∀ entry ∈ rx', entry.delays = true) →
            arriving rx' = wires (frames.filter fun frame => frame.opcode.isData) →
            ∃ N, ∀ n ≥ N, (turns itf heap n (afbWsCreate rx tx)).events =
              (turns itf heap n (afbWsCreate rx' tx')).events := by
  intro h
  have hresumes := (h textOnly zeroHeap pingThenText
    [.data 137 [2, 97], .again, .data 98 [129, 2, 104, 105]] [] pingThenText_admitted (by decide)
    (by decide)).1
  obtain ⟨after, wsEnd, hok, -, -, hat⟩ := hresumes 0 _ _ _ rfl rfl (Or.inl rfl)
  cases hok
  exact absurd hat (by decide)

end Turns

end AfbBinder.Ws
