import AfbBinder.Http.Hsrv
import AfbBinder.Lib.Keyed
import Mathlib.Data.List.Induction

/-!
# The fields of a form

The post processor hands the values of the fields in pieces, that are put together in a
list searched by the name of the field.  The search ignores the case, so that two fields
whose names differ in the case only share one value; a value is read as a C string.
-/

namespace AfbBinder.Http

open Lib

/-! ## The data of a request -/

/-- `struct hreq_data`: `value` is the block with its final NUL, `none` for NULL. -/
structure HreqData where
  key : CString
  value : Option Bytes
  length : Nat
  path : Option CString

/-- `get_data`, without creation. -/
def getData (data : List HreqData) (key : CString) : Option HreqData :=
  data.find? fun hdat => strcaseeq hdat.key.bytes key.bytes

/-- The memory for a call: `calloc` with `strdup` of `get_data`, and `realloc`. -/
structure Memory where
  created : Bool
  grown : Bool

/-- The list after `get_data` with creation, `none` when it returns NULL. -/
def createData (created : Bool) (data : List HreqData) (key : CString) : Option (List HreqData) :=
  if (getData data key).isSome then some data
  else if created then some (⟨key, none, 0, none⟩ :: data)
  else none

/-- Changes the data that `get_data` finds. -/
def updateData (change : HreqData → HreqData) (key : CString) : List HreqData → List HreqData
  | [] => []
  | hdat :: data =>
      if strcaseeq hdat.key.bytes key.bytes then change hdat :: data
      else hdat :: updateData change key data

/-- `realloc`, `memcpy` at the length and the final NUL. -/
def HreqData.add (chunk : Bytes) (hdat : HreqData) : HreqData :=
  { hdat with
    value := some ((hdat.value.getD []).take hdat.length ++ chunk ++ [0])
    length := hdat.length + chunk.length }

/-- `afb_hreq_post_add`: what it returns and the data after it, `none` when it reads the path
through the NULL that `get_data` returned. -/
def afbHreqPostAdd (memory : Memory) (data : List HreqData) (key : CString) (chunk : Bytes) :
    Option (Bool × List HreqData) := do
  let data ← createData memory.created data key
  let hdat ← getData data key
  if hdat.path.isSome then some (false, data)
  else if memory.grown then some (true, updateData (HreqData.add chunk) key data)
  else some (false, data)

/-- `struct afb_arg`, its strings as their readers see them. -/
structure AfbArg where
  name : Option Bytes
  value : Option Bytes
  path : Option Bytes

/-- `req_get`, given the arguments of the URL. -/
def reqGet (lookup : CString → Option CString) (data : List HreqData) (name : CString) : AfbArg :=
  match getData data name with
  | some hdat => ⟨some hdat.key.bytes, hdat.value.map cstring, hdat.path.map CString.bytes⟩
  | none =>
      match lookup name with
      | none => ⟨none, none, none⟩
      | some value => ⟨some name.bytes, some value.bytes, none⟩

/-! ## Forms -/

/-- A plain field. -/
structure Field where
  name : CString
  value : Bytes

/-- A call of `afb_hreq_post_add` by the post processor. -/
structure PostCall where
  key : CString
  chunk : Bytes
  memory : Memory

/-- The memory for the calls is found. -/
def Found (calls : List PostCall) : Prop :=
  ∀ call ∈ calls, call.memory.created = true ∧ call.memory.grown = true

/-- The chunks of the calls for some keys, put together. -/
def gathered (calls : List PostCall) (keys : Bytes → Bool) : Bytes :=
  (calls.filter fun call => keys call.key.bytes).flatMap PostCall.chunk

/-- The calls cut the values of the fields, each in one chunk at least. -/
structure Cuts (form : List Field) (calls : List PostCall) : Prop where
  named : ∀ call ∈ calls, ∃ field ∈ form, call.key.bytes = field.name.bytes
  called : ∀ field ∈ form, ∃ call ∈ calls, call.key.bytes = field.name.bytes
  value : ∀ field ∈ form, gathered calls (· == field.name.bytes) = field.value

/-- The data after the calls. -/
def posted (calls : List PostCall) : Option (List HreqData) :=
  calls.foldlM (fun data call =>
    (afbHreqPostAdd call.memory data call.key call.chunk).map Prod.snd) []

/-! ## The list searched without the case -/

/-- A name, without its case. -/
def folded (name : CString) : Bytes := name.bytes.map tolower

theorem strcaseeq_iff (name name' : CString) :
    strcaseeq name.bytes name'.bytes = true ↔ folded name = folded name' := by
  simp [strcaseeq, folded]

theorem getData_eq (data : List HreqData) (key : CString) :
    getData data key = Keyed.search (fun hdat => folded hdat.key) data (folded key) := rfl

theorem getData_update {change : HreqData → HreqData} (hkey : ∀ hdat, (change hdat).key = hdat.key)
    (data : List HreqData) (key key' : CString) :
    getData (updateData change key data) key' =
      if folded key' = folded key then (getData data key').map change else getData data key' := by
  simp only [getData_eq]
  induction data with
  | nil => simp [updateData, Keyed.search]
  | cons hdat data ih =>
      have hsame := strcaseeq_iff hdat.key key
      rw [updateData]
      split
      case isTrue hfound =>
        have hfolded := hsame.mp hfound
        rw [Keyed.search_cons, Keyed.search_cons, hkey, hfolded]
        split
        case isTrue heq =>
          rw [if_pos heq.symm]
          rfl
        case isFalse hne => rw [if_neg (Ne.symm hne)]
      case isFalse hother =>
        have hne := mt hsame.mpr hother
        rw [Keyed.search_cons, Keyed.search_cons, ih]
        by_cases hkey' : folded hdat.key = folded key'
        · rw [if_pos hkey', if_pos hkey', if_neg (hkey' ▸ hne)]
        · rw [if_neg hkey', if_neg hkey']

theorem getData_congr (data : List HreqData) {key key' : CString} (h : folded key = folded key') :
    getData data key = getData data key' := by
  rw [getData_eq, getData_eq, h]

/-- The data that `get_data` creates. -/
def newData (key : CString) : HreqData := ⟨key, none, 0, none⟩

theorem getData_create (data : List HreqData) (key : CString) :
    ∃ created, createData true data key = some created ∧ ∀ key', getData created key' =
      if folded key' = folded key then some ((getData data key).getD (newData key))
      else getData data key' := by
  unfold createData
  cases hfound : getData data key with
  | some hdat =>
      refine ⟨data, rfl, fun key' => ?_⟩
      split
      case isTrue heq => rw [getData_congr data heq, hfound, Option.getD_some]
      case isFalse => rfl
  | none =>
      refine ⟨newData key :: data, rfl, fun key' => ?_⟩
      rw [Option.getD_none, getData_eq, getData_eq, Keyed.search_cons]
      have hkey : folded (newData key).key = folded key := rfl
      by_cases heq : folded key' = folded key
      · rw [if_pos heq, heq, if_pos hkey]
      · rw [if_neg heq, if_neg fun h => heq (h.symm.trans hkey)]

/-- A chunk goes to the data that the search without the case finds. -/
theorem postAdd_getData {data : List HreqData} {key : CString}
    (hpath : ((getData data key).getD (newData key)).path = none) (chunk : Bytes) :
    ∃ data', afbHreqPostAdd ⟨true, true⟩ data key chunk = some (true, data') ∧
      ∀ key', getData data' key' =
        if folded key' = folded key then
          some (((getData data key).getD (newData key)).add chunk)
        else getData data key' := by
  rcases getData_create data key with ⟨created, hcreate, hfind⟩
  have hfound := hfind key
  rw [if_pos rfl] at hfound
  refine ⟨updateData (HreqData.add chunk) key created, ?_, fun key' => ?_⟩
  · simp only [afbHreqPostAdd, hcreate, hfound, hpath, Option.bind_eq_bind, Option.bind_some,
      Option.isSome_none, Bool.false_eq_true, if_false, if_true]
  · rw [@getData_update (HreqData.add chunk) (fun _ => rfl), hfind]
    split <;> rfl

/-! ## The values put together -/

theorem gathered_append (calls : List PostCall) (call : PostCall) (keys : Bytes → Bool) :
    gathered (calls ++ [call]) keys =
      gathered calls keys ++ if keys call.key.bytes then call.chunk else [] := by
  unfold gathered
  rw [List.filter_append, List.flatMap_append]
  cases hkeys : keys call.key.bytes with
  | false => simp [hkeys]
  | true => simp [hkeys]

/-- The chunks of the calls whose key is the name, but for the case. -/
def merged (calls : List PostCall) (name : CString) : Bytes :=
  gathered calls (strcaseeq · name.bytes)

theorem merged_append (calls : List PostCall) (call : PostCall) (name : CString) :
    merged (calls ++ [call]) name =
      merged calls name ++ if folded name = folded call.key then call.chunk else [] := by
  unfold merged
  rw [gathered_append]
  by_cases h : folded name = folded call.key
  · rw [if_pos h, if_pos ((strcaseeq_iff call.key name).mpr h.symm)]
  · rw [if_neg h, if_neg (mt (strcaseeq_iff call.key name).mp (Ne.symm h))]

theorem merged_nil {calls : List PostCall} {name : CString}
    (h : ∀ call ∈ calls, folded call.key ≠ folded name) : merged calls name = [] := by
  unfold merged gathered
  rw [List.flatMap_eq_nil_iff]
  intro call hcall
  rcases List.mem_filter.mp hcall with ⟨hmem, hcase⟩
  exact absurd ((strcaseeq_iff call.key name).mp hcase) (h call hmem)

/-- What the data hold after the calls, for every name. -/
structure Holds (calls : List PostCall) (data : List HreqData) : Prop where
  absent : ∀ name : CString,
    (∀ call ∈ calls, folded call.key ≠ folded name) → getData data name = none
  present : ∀ name : CString, (∃ call ∈ calls, folded call.key = folded name) →
    ∃ hdat, getData data name = some hdat ∧ hdat.path = none ∧
      hdat.value = some (merged calls name ++ [0]) ∧ hdat.length = (merged calls name).length

theorem Holds.before {calls : List PostCall} {data : List HreqData} (h : Holds calls data)
    (key : CString) :
    let hdat := (getData data key).getD (newData key)
    hdat.path = none ∧ (hdat.value.getD []).take hdat.length = merged calls key ∧
      hdat.length = (merged calls key).length := by
  by_cases hcalled : ∃ call ∈ calls, folded call.key = folded key
  · rcases h.present key hcalled with ⟨hdat, hfound, hpath, hvalue, hlength⟩
    rw [hfound, Option.getD_some]
    refine ⟨hpath, ?_, hlength⟩
    rw [hvalue, hlength, Option.getD_some, List.take_left]
  · have hnone : ∀ call ∈ calls, folded call.key ≠ folded key :=
      fun call hmem heq => hcalled ⟨call, hmem, heq⟩
    rw [h.absent key hnone, merged_nil hnone]
    exact ⟨rfl, rfl, rfl⟩

theorem Holds.add {calls : List PostCall} {data : List HreqData} (h : Holds calls data)
    (call : PostCall) :
    ∃ data', afbHreqPostAdd ⟨true, true⟩ data call.key call.chunk = some (true, data') ∧
      Holds (calls ++ [call]) data' := by
  rcases h.before call.key with ⟨hpath, hvalue, hlength⟩
  rcases postAdd_getData hpath call.chunk with ⟨data', hadd, hfind⟩
  refine ⟨data', hadd, ?_, ?_⟩
  · intro name hnone
    have hlast := hnone call (List.mem_append_right calls (List.mem_singleton.mpr rfl))
    rw [hfind, if_neg (Ne.symm hlast)]
    exact h.absent name fun c hc => hnone c (List.mem_append_left [call] hc)
  · intro name hcalled
    rw [hfind, merged_append]
    by_cases hname : folded name = folded call.key
    · have hmerged : merged calls name = merged calls call.key := by
        unfold merged gathered
        have hsame : (strcaseeq · name.bytes) = (strcaseeq · call.key.bytes) := by
          funext bytes
          simp only [strcaseeq, folded] at hname ⊢
          rw [hname]
        rw [hsame]
      rw [if_pos hname, if_pos hname, hmerged]
      refine ⟨_, rfl, hpath, ?_, ?_⟩
      · rw [HreqData.add, hvalue]
      · rw [HreqData.add, hlength, List.length_append]
    · rw [if_neg hname, if_neg hname, List.append_nil]
      apply h.present name
      rcases hcalled with ⟨c, hc, hfolded⟩
      rcases List.mem_append.mp hc with hc | hc
      · exact ⟨c, hc, hfolded⟩
      · rw [List.mem_singleton.mp hc] at hfolded
        exact absurd hfolded.symm hname

/-- What the data hold after a run of calls. -/
theorem posted_holds {calls : List PostCall} (hmemory : Found calls) :
    ∃ data, posted calls = some data ∧ Holds calls data := by
  unfold posted
  induction calls using List.reverseRecOn with
  | nil => exact ⟨[], rfl, fun _ _ => rfl, fun _ ⟨call, hcall, _⟩ => by cases hcall⟩
  | append_singleton calls call ih =>
      rcases ih fun c hc => hmemory c (List.mem_append_left [call] hc) with ⟨data, hrun, hholds⟩
      have hlast := hmemory call (List.mem_append_right calls (List.mem_singleton.mpr rfl))
      have hfound : call.memory = ⟨true, true⟩ := congr (congrArg Memory.mk hlast.1) hlast.2
      rcases hholds.add call with ⟨data', hadd, hholds'⟩
      refine ⟨data', ?_, hholds'⟩
      rw [List.foldlM_append, hrun, Option.bind_eq_bind, Option.bind_some, List.foldlM_cons, hfound, hadd]
      rfl

theorem reqGet_called {calls : List PostCall} {data : List HreqData} (h : Holds calls data)
    {name : CString} (hcalled : ∃ call ∈ calls, folded call.key = folded name)
    (lookup : CString → Option CString) :
    (reqGet lookup data name).value = some (cstring (merged calls name ++ [0])) := by
  rcases h.present name hcalled with ⟨hdat, hfound, -, hvalue, -⟩
  simp only [reqGet, hfound, hvalue, Option.map_some]

/-! ## Which chunks are put together -/

theorem gathered_cons (call : PostCall) (calls : List PostCall) (keys : Bytes → Bool) :
    gathered (call :: calls) keys =
      (if keys call.key.bytes then call.chunk else []) ++ gathered calls keys := by
  unfold gathered
  cases hkeys : keys call.key.bytes with
  | false => simp [hkeys]
  | true => simp [hkeys]

theorem gathered_eq_nil {calls : List PostCall} {keys : Bytes → Bool} :
    gathered calls keys = [] ↔ ∀ call ∈ calls, keys call.key.bytes = true → call.chunk = [] := by
  simp [gathered, List.flatMap_eq_nil_iff]

section Narrow

variable {narrow wide : Bytes → Bool}

theorem gathered_length (h : ∀ key, narrow key = true → wide key = true) (calls : List PostCall) :
    (gathered calls narrow).length ≤ (gathered calls wide).length := by
  induction calls with
  | nil => exact Nat.le_refl _
  | cons call calls ih =>
      rw [gathered_cons, gathered_cons, List.length_append, List.length_append]
      cases hnarrow : narrow call.key.bytes with
      | true =>
          rw [h _ hnarrow]
          exact Nat.add_le_add_left ih _
      | false =>
          simp only [Bool.false_eq_true, if_false, List.length_nil]
          omega

/-- More keys give the same bytes when those in excess give none. -/
theorem gathered_eq_iff (h : ∀ key, narrow key = true → wide key = true) (calls : List PostCall) :
    gathered calls wide = gathered calls narrow ↔
      ∀ call ∈ calls, wide call.key.bytes = true → narrow call.key.bytes = false →
        call.chunk = [] := by
  induction calls with
  | nil => simp [gathered]
  | cons call calls ih =>
      rw [gathered_cons, gathered_cons, List.forall_mem_cons, ← ih]
      cases hnarrow : narrow call.key.bytes with
      | true => simp [h _ hnarrow]
      | false =>
          cases hwide : wide call.key.bytes with
          | false => simp
          | true =>
              have hlength := gathered_length h calls
              simp only [if_true, Bool.false_eq_true, if_false, List.nil_append, forall_const]
              constructor
              · intro hsame
                have htotal := congrArg List.length hsame
                rw [List.length_append] at htotal
                have hnil : call.chunk = [] := List.eq_nil_of_length_eq_zero (by omega)
                rw [hnil, List.nil_append] at hsame
                exact ⟨hnil, hsame⟩
              · rintro ⟨hnil, hsame⟩
                rw [hnil, List.nil_append, hsame]

end Narrow

theorem mem_gathered {calls : List PostCall} {call : PostCall} (hcall : call ∈ calls)
    {keys : Bytes → Bool} (hkey : keys call.key.bytes = true) {c : UInt8} (hc : c ∈ call.chunk) :
    c ∈ gathered calls keys :=
  List.mem_flatMap.mpr ⟨call, List.mem_filter.mpr ⟨hcall, hkey⟩, hc⟩

/-- What is put together is made of bytes of the values. -/
theorem merged_nulFree {form : List Field} {calls : List PostCall} (hcuts : Cuts form calls)
    (hfree : ∀ field ∈ form, (0 : UInt8) ∉ field.value) (name : CString) :
    (0 : UInt8) ∉ merged calls name := by
  intro hnul
  rcases List.mem_flatMap.mp hnul with ⟨call, hfilter, hc⟩
  have hcall := (List.mem_filter.mp hfilter).1
  rcases hcuts.named call hcall with ⟨field, hfield, hname⟩
  have hmem := @mem_gathered calls call hcall (· == field.name.bytes) (beq_iff_eq.mpr hname) 0 hc
  rw [hcuts.value field hfield] at hmem
  exact hfree field hfield hmem

/-- When no value has a NUL, one field is whole if and only if the chunks of the names that
the search takes for its own are empty. -/
theorem field_whole_iff {form : List Field} {calls : List PostCall} (hcuts : Cuts form calls)
    {data : List HreqData} (hholds : Holds calls data)
    (hfree : ∀ field ∈ form, (0 : UInt8) ∉ field.value) {field : Field} (hfield : field ∈ form)
    (lookup : CString → Option CString) :
    (reqGet lookup data field.name).value = some field.value ↔
      ∀ call ∈ calls, strcaseeq call.key.bytes field.name.bytes = true →
        call.key.bytes ≠ field.name.bytes → call.chunk = [] := by
  have hcalled : ∃ call ∈ calls, folded call.key = folded field.name := by
    rcases hcuts.called field hfield with ⟨call, hmem, hkey⟩
    exact ⟨call, hmem, by rw [folded, folded, hkey]⟩
  have hnarrow : ∀ key, (key == field.name.bytes) = true →
      strcaseeq key field.name.bytes = true := by
    intro key hkey
    rw [beq_iff_eq.mp hkey]
    simp [strcaseeq]
  have hread : cstring (merged calls field.name ++ [0]) = merged calls field.name :=
    cstring_append ⟨merged calls field.name, merged_nulFree hcuts hfree field.name⟩ []
  have hiff := @gathered_eq_iff (· == field.name.bytes) (strcaseeq · field.name.bytes) hnarrow calls
  rw [reqGet_called hholds hcalled, hread, Option.some.injEq, ← hcuts.value field hfield, merged, hiff]
  simp

/-- When memory is found, the fields of a form are whole and separate exactly when no value has
a NUL and those whose names differ in the case only are empty. -/
theorem form_fields_iff {form : List Field} {calls : List PostCall} (hcuts : Cuts form calls)
    (hmemory : Found calls) (lookup : CString → Option CString) :
    ∃ data, posted calls = some data ∧
      ((∀ field ∈ form, (reqGet lookup data field.name).value = some field.value) ↔
        (∀ field ∈ form, (0 : UInt8) ∉ field.value) ∧
        ∀ field ∈ form, ∀ other ∈ form,
          strcaseeq field.name.bytes other.name.bytes = true →
            field.name.bytes ≠ other.name.bytes → field.value = []) := by
  rcases posted_holds hmemory with ⟨data, hrun, hholds⟩
  refine ⟨data, hrun, ?_, ?_⟩
  · intro hwhole
    have hfree : ∀ field ∈ form, (0 : UInt8) ∉ field.value := by
      intro field hfield
      rcases hcuts.called field hfield with ⟨call, hcall, hkey⟩
      have hread := hwhole field hfield
      rw [reqGet_called hholds ⟨call, hcall, by rw [folded, folded, hkey]⟩] at hread
      rw [← Option.some.inj hread]
      exact nul_not_mem_cstring _
    refine ⟨hfree, ?_⟩
    intro field hfield other hother hcase hne
    have hchunks := (field_whole_iff hcuts hholds hfree hother lookup).mp (hwhole other hother)
    rw [← hcuts.value field hfield, gathered_eq_nil]
    intro call hcall hkey
    have hname := beq_iff_eq.mp hkey
    exact hchunks call hcall (by rw [hname]; exact hcase) (by rw [hname]; exact hne)
  · rintro ⟨hfree, hempty⟩ field hfield
    rw [field_whole_iff hcuts hholds hfree hfield lookup]
    intro call hcall hcase hne
    rcases hcuts.named call hcall with ⟨other, hother, hname⟩
    rw [hname] at hcase hne
    have hnil := hempty other hother field hfield hcase hne
    rw [← hcuts.value other hother, gathered_eq_nil] at hnil
    exact hnil call hcall (beq_iff_eq.mpr hname)

/-- The fields `a` and `b`, the first one cut in two. -/
theorem form_fields_two :
    let calls : List PostCall :=
      [⟨⟨[97], by decide⟩, [120], ⟨true, true⟩⟩, ⟨⟨[98], by decide⟩, [122], ⟨true, true⟩⟩,
        ⟨⟨[97], by decide⟩, [121], ⟨true, true⟩⟩]
    ∃ data, posted calls = some data ∧
      (reqGet (fun _ => none) data ⟨[97], by decide⟩).value = some [120, 121] := by
  intro calls
  have hcuts : Cuts [⟨⟨[97], by decide⟩, [120, 121]⟩, ⟨⟨[98], by decide⟩, [122]⟩] calls := by
    constructor
    · decide
    · decide
    · decide
  have hmemory : Found calls := by
    unfold Found
    decide
  rcases form_fields_iff hcuts hmemory fun _ => none with ⟨data, hrun, hiff⟩
  exact ⟨data, hrun, hiff.mpr (by decide) ⟨⟨[97], by decide⟩, [120, 121]⟩ List.mem_cons_self⟩

/-- The fields `Id` and `id` share the value `12`. -/
theorem form_fields_fail :
    let calls : List PostCall :=
      [⟨⟨[73, 100], by decide⟩, [49], ⟨true, true⟩⟩, ⟨⟨[105, 100], by decide⟩, [50], ⟨true, true⟩⟩]
    Cuts [⟨⟨[73, 100], by decide⟩, [49]⟩, ⟨⟨[105, 100], by decide⟩, [50]⟩] calls ∧
      ∃ data, posted calls = some data ∧
        (reqGet (fun _ => none) data ⟨[73, 100], by decide⟩).value = some [49, 50] ∧
        (reqGet (fun _ => none) data ⟨[105, 100], by decide⟩).value = some [49, 50] := by
  refine ⟨⟨?_, ?_, ?_⟩, _, rfl, ?_, ?_⟩
  · decide
  · decide
  · decide
  · decide
  · decide

end AfbBinder.Http
