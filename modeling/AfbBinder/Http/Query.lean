import AfbBinder.Lib.Query
import Mathlib.Data.List.Basic

/-!
# Redirecting with the query

`url_with_query` writes the arguments of the request after the URL of a redirection, in a
buffer that grows.  It escapes neither the plus nor the number sign, which the reader of
the URL takes for a space and for the end of the query.
-/

namespace AfbBinder.Http

open Lib Lib.Query

/-! ## The encoder -/

/-- `struct _mkq_`: `text` holds what is written, before `length`, and is `none` for NULL. -/
structure Mkq where
  count : Nat
  length : Nat
  alloc : Nat
  text : Option Bytes
  bounded : length ≤ alloc
  filled : ∀ bytes, text = some bytes → bytes.length = length

/-- Whether `malloc` succeeds, and `realloc` for a size. -/
structure Allocator where
  malloc : Bool
  realloc : Nat → Bool

/-- `_mkq_add_` -/
def mkqAdd (heap : Allocator) (mkq : Mkq) (value : UInt8) : Mkq :=
  match htext : mkq.text with
  | none => mkq
  | some text =>
      if hfull : mkq.length = mkq.alloc then
        if heap.realloc (mkq.alloc + 100) then
          { mkq with
            length := mkq.length + 1
            alloc := mkq.alloc + 100
            text := some (text ++ [value])
            bounded := by omega
            filled := fun bytes hbytes => by
              cases hbytes
              simp [mkq.filled text htext] }
        else
          { mkq with
            alloc := mkq.alloc + 100
            text := none
            bounded := Nat.le_add_right_of_le mkq.bounded
            filled := fun bytes hbytes => by cases hbytes }
      else
        { mkq with
          length := mkq.length + 1
          text := some (text ++ [value])
          bounded := Nat.lt_of_le_of_ne mkq.bounded hfull
          filled := fun bytes hbytes => by
            cases hbytes
            simp [mkq.filled text htext] }

/-- The digit that `_mkq_add_hex_` adds. -/
def hexDigit (value : Int8) : UInt8 := (if value < 10 then value + 48 else value + 65 - 10).toUInt8

/-- `_mkq_add_hex_` -/
def mkqAddHex (heap : Allocator) (mkq : Mkq) (value : Int8) : Mkq :=
  mkqAdd heap mkq (hexDigit value)

/-- `_mkq_add_esc_` -/
def mkqAddEsc (heap : Allocator) (mkq : Mkq) (value : UInt8) : Mkq :=
  let mkq := mkqAdd heap mkq percent
  let mkq := mkqAddHex heap mkq ((value.toInt8 >>> 4) &&& 15)
  mkqAddHex heap mkq (value.toInt8 &&& 15)

/-- The tests of `_mkq_add_char_`, on a signed `char`. -/
def escaped (value : UInt8) : Bool :=
  value.toInt8 ≤ 32 || value.toInt8 ≥ 127 || value == equal || value == ampersand || value == percent

/-- `_mkq_add_char_` -/
def mkqAddChar (heap : Allocator) (mkq : Mkq) (value : UInt8) : Mkq :=
  if escaped value then mkqAddEsc heap mkq value else mkqAdd heap mkq value

/-- `_mkq_append_` -/
def mkqAppend (heap : Allocator) (mkq : Mkq) (value : CString) : Mkq :=
  value.bytes.foldl (mkqAddChar heap) mkq

/-- An argument of the request, as libmicrohttpd enumerates it. -/
structure Argument where
  key : CString
  value : Option CString

/-- `_mkquery_` -/
def mkquery (heap : Allocator) (mkq : Mkq) (arg : Argument) : Mkq :=
  let separator := if mkq.count ≠ 0 then ampersand else question
  let mkq := mkqAdd heap { mkq with count := mkq.count + 1 } separator
  let mkq := mkqAppend heap mkq arg.key
  match arg.value with
  | none => mkq
  | some value => mkqAppend heap (mkqAdd heap mkq equal) value

/-- The allocation of `url_with_query`, and its copy of the URL. -/
def mkqInit (heap : Allocator) (url : CString) : Mkq where
  count := 0
  length := url.bytes.length
  alloc := url.bytes.length + 1000
  text := if heap.malloc then some url.bytes else none
  bounded := Nat.le_add_right _ _
  filled := by
    intro bytes hbytes
    split at hbytes
    · cases hbytes
      rfl
    · cases hbytes

/-- `url_with_query`, with the state of its buffer. -/
def urlWithQuery (heap : Allocator) (url : CString) (args : List Argument) : Mkq :=
  let mkq := mkqInit heap url
  if mkq.text = none then mkq else mkqAdd heap (args.foldl (mkquery heap) mkq) 0

/-- The location that `afb_hreq_redirect_to` sends. -/
def afbHreqRedirectTo (heap : Allocator) (url : CString) (args : List Argument)
    (addQueryPart : Bool) : Bytes :=
  let wqp := if addQueryPart then (urlWithQuery heap url args).text else none
  match wqp with
  | some text => cstring text
  | none => url.bytes

/-! ## What the encoder writes -/

/-- A growth of the buffer fails. -/
def Allocator.Lacks (heap : Allocator) : Prop := ∃ size, heap.realloc size = false

/-- The arguments are counted, and the bytes written after the text unless memory lacks. -/
structure Appends (heap : Allocator) (args : Nat) (mkq mkq' : Mkq) (bytes : Bytes) : Prop where
  count : mkq'.count = mkq.count + args
  text : (mkq'.text = none ∧ (mkq.text = none ∨ heap.Lacks)) ∨
    ∃ text, mkq.text = some text ∧ mkq'.text = some (text ++ bytes)

theorem Appends.refl (heap : Allocator) (mkq : Mkq) : Appends heap 0 mkq mkq [] := by
  constructor
  · rfl
  · cases htext : mkq.text with
    | none => exact Or.inl ⟨rfl, Or.inl rfl⟩
    | some text => exact Or.inr ⟨text, rfl, by rw [List.append_nil]⟩

theorem Appends.trans {heap : Allocator} {args args' : Nat} {mkq mkq' mkq'' : Mkq}
    {bytes bytes' : Bytes} (h : Appends heap args mkq mkq' bytes)
    (h' : Appends heap args' mkq' mkq'' bytes') :
    Appends heap (args + args') mkq mkq'' (bytes ++ bytes') := by
  constructor
  · rw [h'.count, h.count, Nat.add_assoc]
  · rcases h'.text with ⟨hout, hlost⟩ | ⟨text', htext', hout⟩
    · rcases h.text with ⟨-, hbefore⟩ | ⟨text, htext, hmid⟩
      · exact Or.inl ⟨hout, hbefore⟩
      · rcases hlost with hnone | hlacks
        · rw [hmid] at hnone
          cases hnone
        · exact Or.inl ⟨hout, Or.inr hlacks⟩
    · rcases h.text with ⟨hnone, -⟩ | ⟨text, htext, hmid⟩
      · rw [hnone] at htext'
        cases htext'
      · rw [hmid] at htext'
        cases htext'
        exact Or.inr ⟨text, htext, by rw [hout, List.append_assoc]⟩

/-- What `_mkq_add_char_` writes. -/
def escape (value : UInt8) : Bytes :=
  if escaped value then
    [percent, hexDigit ((value.toInt8 >>> 4) &&& 15), hexDigit (value.toInt8 &&& 15)]
  else [value]

def escapeAll (text : Bytes) : Bytes := text.flatMap escape

/-- What `_mkquery_` writes after the separator. -/
def Argument.text (arg : Argument) : Bytes :=
  escapeAll arg.key.bytes ++
    match arg.value with
    | none => []
    | some value => equal :: escapeAll value.bytes

/-- The arguments, each after an `&`. -/
def separated (args : List Argument) : Bytes := args.flatMap fun arg => ampersand :: arg.text

/-- The query of the arguments. -/
def queryText : List Argument → Bytes
  | [] => []
  | arg :: args => question :: (arg.text ++ separated args)

section Encoder

variable (heap : Allocator) (mkq : Mkq)

theorem mkqAdd_appends (value : UInt8) : Appends heap 0 mkq (mkqAdd heap mkq value) [value] := by
  unfold mkqAdd
  split
  case h_1 hnone => exact ⟨rfl, Or.inl ⟨hnone, Or.inl hnone⟩⟩
  case h_2 text htext =>
    split
    · split
      case isTrue => exact ⟨rfl, Or.inr ⟨text, htext, rfl⟩⟩
      case isFalse hfails => exact ⟨rfl, Or.inl ⟨rfl, Or.inr ⟨_, Bool.not_eq_true _ ▸ hfails⟩⟩⟩
    · exact ⟨rfl, Or.inr ⟨text, htext, rfl⟩⟩

theorem mkqAddEsc_appends (value : UInt8) :
    Appends heap 0 mkq (mkqAddEsc heap mkq value)
      [percent, hexDigit ((value.toInt8 >>> 4) &&& 15), hexDigit (value.toInt8 &&& 15)] := by
  have hpercent := mkqAdd_appends heap mkq percent
  have hhigh := mkqAdd_appends heap (mkqAdd heap mkq percent)
    (hexDigit ((value.toInt8 >>> 4) &&& 15))
  exact (hpercent.trans hhigh).trans (mkqAdd_appends heap _ (hexDigit (value.toInt8 &&& 15)))

theorem mkqAddChar_appends (value : UInt8) :
    Appends heap 0 mkq (mkqAddChar heap mkq value) (escape value) := by
  unfold mkqAddChar escape
  split
  · exact mkqAddEsc_appends heap mkq value
  · exact mkqAdd_appends heap mkq value

theorem mkqAppend_appends (value : CString) :
    Appends heap 0 mkq (mkqAppend heap mkq value) (escapeAll value.bytes) := by
  unfold mkqAppend escapeAll
  induction value.bytes generalizing mkq with
  | nil => exact Appends.refl heap mkq
  | cons c text ih =>
      rw [List.foldl_cons, List.flatMap_cons]
      exact (mkqAddChar_appends heap mkq c).trans (ih (mkqAddChar heap mkq c))

theorem mkquery_appends (arg : Argument) :
    Appends heap 1 mkq (mkquery heap mkq arg)
      ((if mkq.count ≠ 0 then ampersand else question) :: arg.text) := by
  generalize hseparator : (if mkq.count ≠ 0 then ampersand else question) = separator
  have hstart : Appends heap 1 mkq (mkqAdd heap { mkq with count := mkq.count + 1 } separator)
      [separator] := by
    have hadd := mkqAdd_appends heap { mkq with count := mkq.count + 1 } separator
    exact ⟨hadd.count, hadd.text⟩
  have hkey := hstart.trans (mkqAppend_appends heap _ arg.key)
  unfold mkquery Argument.text
  rw [hseparator]
  cases arg.value with
  | none => simpa using hkey
  | some value =>
      have hequal := hkey.trans (mkqAdd_appends heap _ equal)
      simpa using hequal.trans (mkqAppend_appends heap _ value)

theorem mkquery_separated (args : List Argument) (h : mkq.count ≠ 0) :
    Appends heap args.length mkq (args.foldl (mkquery heap) mkq) (separated args) := by
  induction args generalizing mkq with
  | nil => exact Appends.refl heap mkq
  | cons arg args ih =>
      have hfirst := mkquery_appends heap mkq arg
      rw [if_pos h] at hfirst
      have hcount : (mkquery heap mkq arg).count ≠ 0 := by
        rw [hfirst.count]
        exact Nat.succ_ne_zero _
      rw [List.foldl_cons, List.length_cons, Nat.add_comm]
      exact hfirst.trans (ih _ hcount)

theorem mkquery_query (args : List Argument) (h : mkq.count = 0) :
    Appends heap args.length mkq (args.foldl (mkquery heap) mkq) (queryText args) := by
  cases args with
  | nil => exact Appends.refl heap mkq
  | cons arg args =>
      have hfirst := mkquery_appends heap mkq arg
      rw [if_neg (not_not.mpr h)] at hfirst
      have hcount : (mkquery heap mkq arg).count ≠ 0 := by
        rw [hfirst.count]
        exact Nat.succ_ne_zero _
      rw [List.foldl_cons, List.length_cons, Nat.add_comm]
      exact hfirst.trans (mkquery_separated heap _ args hcount)

theorem urlWithQuery_appends (hmalloc : heap.malloc = true) (url : CString)
    (args : List Argument) :
    Appends heap (args.length + 0) (mkqInit heap url) (urlWithQuery heap url args)
      (queryText args ++ [0]) := by
  have hinit : (mkqInit heap url).text ≠ none := by simp [mkqInit, hmalloc]
  have hquery := mkquery_query heap (mkqInit heap url) args rfl
  unfold urlWithQuery
  simp only [if_neg hinit]
  exact hquery.trans (mkqAdd_appends heap _ 0)

theorem urlWithQuery_text {url : CString} {args : List Argument} {text : Bytes}
    (h : (urlWithQuery heap url args).text = some text) :
    text = url.bytes ++ queryText args ++ [0] := by
  cases hmalloc : heap.malloc with
  | false => simp [urlWithQuery, mkqInit, hmalloc] at h
  | true =>
      have hinit : (mkqInit heap url).text = some url.bytes := by simp [mkqInit, hmalloc]
      rcases (urlWithQuery_appends heap hmalloc url args).text with ⟨hnone, -⟩ | ⟨start, hstart, hout⟩
      · rw [hnone] at h
        cases h
      · rw [hinit] at hstart
        cases hstart
        rw [hout, ← List.append_assoc] at h
        exact (Option.some.inj h).symm

theorem urlWithQuery_isSome (hmalloc : heap.malloc = true) (hlacks : ¬heap.Lacks) (url : CString)
    (args : List Argument) : (urlWithQuery heap url args).text.isSome := by
  have hinit : (mkqInit heap url).text ≠ none := by simp [mkqInit, hmalloc]
  rcases (urlWithQuery_appends heap hmalloc url args).text with ⟨-, hlost⟩ | ⟨start, -, hout⟩
  · exact absurd hlost (not_or.mpr ⟨hinit, hlacks⟩)
  · rw [hout]
    rfl

end Encoder

/-! ## Reading the query again -/

theorem byte_cases {P : UInt8 → Prop} (h : ∀ n < 256, P (UInt8.ofNat n)) (c : UInt8) : P c := by
  have hc := h c.toNat (UInt8.toNat_lt c)
  rwa [UInt8.ofNat_toNat] at hc

/-- The digits of a byte: they give it back, and a plus is none of them. -/
theorem hexDigit_read (c : UInt8) :
    hexValue (hexDigit ((c.toInt8 >>> 4) &&& 15)) = some (c >>> 4) ∧
      hexValue (hexDigit (c.toInt8 &&& 15)) = some (c &&& 15) ∧ (c >>> 4) * 16 + (c &&& 15) = c ∧
      unplus (hexDigit ((c.toInt8 >>> 4) &&& 15)) = hexDigit ((c.toInt8 >>> 4) &&& 15) ∧
      unplus (hexDigit (c.toInt8 &&& 15)) = hexDigit (c.toInt8 &&& 15) := by
  revert c
  apply byte_cases
  decide +kernel

/-- Of the bytes that have a meaning in a query, only the plus and the number sign are left. -/
theorem escape_plain (c : UInt8) :
    equal ∉ escape c ∧ ampersand ∉ escape c ∧ 0 ∉ escape c ∧ (number ∈ escape c ↔ c = number) ∧
      (escaped c = true → unplus c = c) ∧ (escaped c = false → unplus c ≠ percent) := by
  revert c
  apply byte_cases
  decide +kernel

theorem unescape_escape (c : UInt8) (rest : Bytes) :
    unescape ((escape c).map unplus ++ rest) = unplus c :: unescape rest := by
  rcases escape_plain c with ⟨-, -, -, -, hplus, hpercent⟩
  unfold escape
  split
  case isTrue hesc =>
    rcases hexDigit_read c with ⟨hhigh, hlow, hvalue, hhigh', hlow'⟩
    have hsign : unplus percent = percent := rfl
    simp only [List.map_cons, List.map_nil, hsign, hhigh', hlow', List.cons_append,
      List.nil_append]
    rw [unescape_percent hhigh hlow, hvalue, hplus hesc]
  case isFalse hesc =>
    rw [List.map_singleton, List.singleton_append]
    exact unescape_cons (hpercent (Bool.not_eq_true _ ▸ hesc)) rest

/-- Reading what is escaped loses the pluses only. -/
theorem component_escapeAll (text : Bytes) : component (escapeAll text) = text.map unplus := by
  induction text with
  | nil => rfl
  | cons c text ih =>
      unfold component escapeAll at *
      rw [List.flatMap_cons, List.map_append, unescape_escape, ih, List.map_cons]

/-- A byte that no byte is escaped to. -/
def Escaped (d : UInt8) : Prop := ∀ c, d ∉ escape c

theorem escaped_equal : Escaped equal := fun c => (escape_plain c).1

theorem escaped_ampersand : Escaped ampersand := fun c => (escape_plain c).2.1

theorem escaped_nul : Escaped 0 := fun c => (escape_plain c).2.2.1

theorem Escaped.not_mem {d : UInt8} (h : Escaped d) (text : Bytes) : d ∉ escapeAll text := by
  intro hmem
  rcases List.mem_flatMap.mp hmem with ⟨c, -, hc⟩
  exact h c hc

theorem number_escapeAll (text : Bytes) : number ∈ escapeAll text ↔ number ∈ text := by
  unfold escapeAll
  rw [List.mem_flatMap]
  constructor
  · rintro ⟨c, hc, hnumber⟩
    rwa [(escape_plain c).2.2.2.1.mp hnumber] at hc
  · intro hmem
    exact ⟨number, hmem, (escape_plain number).2.2.2.1.mpr rfl⟩

theorem escapeAll_append (front back : Bytes) :
    escapeAll (front ++ back) = escapeAll front ++ escapeAll back := List.flatMap_append

/-- The text up to its first number sign. -/
theorem escapeAll_cut {text : Bytes} (h : number ∈ text) (rest : Bytes) :
    ∃ front, front.length < text.length ∧
      (escapeAll text ++ rest).takeWhile (· ≠ number) = escapeAll front := by
  rcases List.eq_append_cons_of_mem h with ⟨front, back, rfl, hfront⟩
  have hescaped : number ∉ escapeAll front := mt (number_escapeAll front).mp hfront
  have hnumber : escapeAll (number :: back) = number :: escapeAll back := rfl
  have hshorter : front.length < (front ++ number :: back).length := by
    rw [List.length_append, List.length_cons]
    omega
  rw [escapeAll_append, hnumber, List.append_assoc, List.cons_append]
  exact ⟨front, hshorter, by rw [takeWhile_ne hescaped, List.takeWhile_cons_of_neg (by simp), List.append_nil]⟩

/-- An argument as a reader gives it. -/
def Argument.pair (arg : Argument) : Bytes × Option Bytes :=
  (arg.key.bytes, arg.value.map CString.bytes)

/-- There is neither plus nor number sign in the argument. -/
structure Argument.Plain (arg : Argument) : Prop where
  key : plus ∉ arg.key.bytes ∧ number ∉ arg.key.bytes
  value : ∀ value, arg.value = some value → plus ∉ value.bytes ∧ number ∉ value.bytes

section Reading

variable {arg : Argument}

theorem Escaped.text {d : UInt8} (h : Escaped d) (hequal : d ≠ equal) (arg : Argument) :
    d ∉ arg.text := by
  unfold Argument.text
  rw [List.mem_append, not_or]
  constructor
  · exact h.not_mem arg.key.bytes
  · cases arg.value with
    | none => exact List.not_mem_nil
    | some value =>
        rw [List.mem_cons, not_or]
        exact ⟨hequal, h.not_mem value.bytes⟩

theorem Argument.ampersand_text (arg : Argument) : ampersand ∉ arg.text :=
  escaped_ampersand.text (by decide) arg

theorem Argument.nul_text (arg : Argument) : 0 ∉ arg.text := escaped_nul.text (by decide) arg

theorem Argument.text_ne (hkey : arg.key.bytes ≠ []) : arg.text ≠ [] := by
  intro hnil
  have hescaped := (List.append_eq_nil_iff.mp hnil).1
  cases hbytes : arg.key.bytes with
  | nil => exact hkey hbytes
  | cons c key =>
      rw [hbytes, escapeAll, List.flatMap_cons, List.append_eq_nil_iff] at hescaped
      have hc := hescaped.1
      unfold escape at hc
      split at hc <;> cases hc

theorem Argument.number_text :
    number ∈ arg.text ↔
      number ∈ arg.key.bytes ∨ ∃ value, arg.value = some value ∧ number ∈ value.bytes := by
  unfold Argument.text
  rw [List.mem_append, number_escapeAll]
  apply or_congr_right
  cases arg.value with
  | none => simp
  | some value =>
      have hne : number ≠ equal := by decide
      simp [hne, number_escapeAll]

/-- Without number sign, the argument is read again but for its pluses. -/
theorem Argument.read (arg : Argument) :
    argument arg.text =
      (arg.key.bytes.map unplus, arg.value.map fun value => value.bytes.map unplus) := by
  unfold Argument.text
  have hkey := escaped_equal.not_mem arg.key.bytes
  cases arg.value with
  | none =>
      dsimp only
      rw [List.append_nil, argument_key hkey, component_escapeAll]
      rfl
  | some value =>
      dsimp only
      rw [argument_value hkey, component_escapeAll, component_escapeAll]
      rfl

theorem Argument.read_cut (h : number ∈ arg.text) (rest : Bytes) :
    argument ((arg.text ++ rest).takeWhile (· ≠ number)) ≠ arg.pair := by
  intro hsame
  by_cases hkey : number ∈ arg.key.bytes
  · unfold Argument.text at hsame
    rw [List.append_assoc] at hsame
    rcases escapeAll_cut hkey _ with ⟨front, hshorter, hcut⟩
    rw [hcut, argument_key (escaped_equal.not_mem front), component_escapeAll] at hsame
    have hlength := congrArg (fun pair => pair.1.length) hsame
    simp only [Argument.pair, List.length_map] at hlength
    omega
  · rcases (Argument.number_text.mp h).resolve_left hkey with ⟨value, hvalue, hnumber⟩
    have hescaped : number ∉ escapeAll arg.key.bytes := mt (number_escapeAll _).mp hkey
    rcases escapeAll_cut hnumber rest with ⟨front, hshorter, hcut⟩
    unfold Argument.text at hsame
    simp only [hvalue, List.append_assoc, List.cons_append] at hsame
    rw [takeWhile_ne hescaped, List.takeWhile_cons_of_pos (by decide), hcut,
      argument_value (escaped_equal.not_mem _), component_escapeAll front] at hsame
    have hlength := congrArg (fun pair => pair.2.map List.length) hsame
    simp only [Argument.pair, hvalue, Option.map_some, List.length_map, Option.some.injEq] at hlength
    omega

theorem Argument.read_iff (h : number ∉ arg.text) : argument arg.text = arg.pair ↔ arg.Plain := by
  have hnone := mt Argument.number_text.mpr h
  rw [not_or, not_exists] at hnone
  rw [Argument.read, Argument.pair, Prod.mk.injEq, map_unplus_eq_iff]
  constructor
  · rintro ⟨hkey, hvalue⟩
    constructor
    · exact ⟨hkey, hnone.1⟩
    · intro value hsome
      simp only [hsome, Option.map_some, Option.some.injEq] at hvalue
      exact ⟨(map_unplus_eq_iff value.bytes).mp hvalue, fun hnumber => hnone.2 value ⟨hsome, hnumber⟩⟩
  · intro hplain
    constructor
    · exact hplain.key.1
    · cases hsome : arg.value with
      | none => rfl
      | some value =>
          simp only [Option.map_some, Option.some.injEq]
          exact (map_unplus_eq_iff value.bytes).mpr (hplain.value value hsome).1

/-- An argument with a number sign ends what is read, and is not read itself. -/
theorem pieces_cut (h : number ∈ arg.text) (args : List Argument) :
    (pieces ((arg.text ++ separated args).takeWhile (· ≠ number))).map argument ≠
      (arg :: args).map Argument.pair := by
  intro hsame
  have hread := Argument.read_cut h (separated args)
  have hampersand : ampersand ∉ (arg.text ++ separated args).takeWhile (· ≠ number) := by
    rcases List.eq_append_cons_of_mem h with ⟨front, back, htext, hfront⟩
    have hcut : (arg.text ++ separated args).takeWhile (· ≠ number) = front := by
      rw [htext, List.append_assoc, List.cons_append, takeWhile_ne hfront,
        List.takeWhile_cons_of_neg (by simp), List.append_nil]
    intro hmem
    rw [hcut] at hmem
    apply arg.ampersand_text
    rw [htext]
    exact List.mem_append_left _ hmem
  generalize (arg.text ++ separated args).takeWhile (· ≠ number) = cut at hsame hread hampersand
  by_cases hnil : cut = []
  · rw [hnil] at hsame
    cases hsame
  · rw [pieces_single hampersand hnil] at hsame
    exact hread (List.cons.inj hsame).1

/-- An argument without number sign is the first one that is read. -/
theorem pieces_first (h : number ∉ arg.text) (hne : arg.text ≠ []) (args : List Argument) :
    pieces ((arg.text ++ separated args).takeWhile (· ≠ number)) =
      arg.text :: pieces ((separated args).tail.takeWhile (· ≠ number)) := by
  rw [takeWhile_ne h]
  cases args with
  | nil =>
      change pieces (arg.text ++ []) = arg.text :: pieces []
      rw [List.append_nil, pieces_single arg.ampersand_text hne]
      rfl
  | cons next args =>
      have hseparated : separated (next :: args) = ampersand :: (next.text ++ separated args) := rfl
      rw [hseparated, List.takeWhile_cons_of_pos (by decide), pieces_cons arg.ampersand_text,
        List.tail_cons]

theorem Argument.Plain.number_text (h : arg.Plain) : number ∉ arg.text := by
  intro hnumber
  rcases Argument.number_text.mp hnumber with hkey | ⟨value, hsome, hvalue⟩
  · exact h.key.2 hkey
  · exact (h.value value hsome).2 hvalue

end Reading

/-- The query is read again exactly when every argument is plain. -/
theorem pieces_separated_iff (args : List Argument) (hkeys : ∀ arg ∈ args, arg.key.bytes ≠ []) :
    (pieces ((separated args).tail.takeWhile (· ≠ number))).map argument =
        args.map Argument.pair ↔
      ∀ arg ∈ args, arg.Plain := by
  induction args with
  | nil => simp [separated, pieces]
  | cons arg args ih =>
      have htail : (separated (arg :: args)).tail = arg.text ++ separated args := rfl
      have hrest := ih fun a ha => hkeys a (List.mem_cons_of_mem arg ha)
      rw [htail, List.forall_mem_cons]
      by_cases hnumber : number ∈ arg.text
      · constructor
        · exact fun hsame => absurd hsame (pieces_cut hnumber args)
        · exact fun hplain => absurd hnumber hplain.1.number_text
      · have hne := arg.text_ne (hkeys arg List.mem_cons_self)
        rw [pieces_first hnumber hne, List.map_cons, List.map_cons, List.cons.injEq,
          Argument.read_iff hnumber, hrest]

/-! ## The redirection -/

theorem nul_queryText (args : List Argument) : 0 ∉ queryText args := by
  cases args with
  | nil => exact List.not_mem_nil
  | cons arg args =>
      have hseparated : 0 ∉ separated args := by
        intro hmem
        rcases List.mem_flatMap.mp hmem with ⟨next, -, hnext⟩
        rcases List.mem_cons.mp hnext with hzero | htext
        · cases hzero
        · exact next.nul_text htext
      unfold queryText
      rw [List.mem_cons, List.mem_append]
      rintro (hzero | htext | hrest)
      · cases hzero
      · exact arg.nul_text htext
      · exact hseparated hrest

/-- The query is kept exactly when no key and no value has a plus or a number sign; the
buffer never passes its allocation. -/
theorem query_preserved_iff (heap : Allocator) {url : CString} {args : List Argument} {text : Bytes}
    (hquestion : question ∉ url.bytes) (hnumber : number ∉ url.bytes)
    (hkeys : ∀ arg ∈ args, arg.key.bytes ≠ [])
    (htext : (urlWithQuery heap url args).text = some text) :
    (arguments (cstring text) = args.map Argument.pair ∧
        (urlWithQuery heap url args).length ≤ (urlWithQuery heap url args).alloc) ↔
      ∀ arg ∈ args, arg.Plain := by
  have hlocation : cstring text = url.bytes ++ queryText args := by
    have hnul : 0 ∉ url.bytes ++ queryText args := by
      rw [List.mem_append, not_or]
      exact ⟨url.nulFree, nul_queryText args⟩
    rw [urlWithQuery_text heap htext]
    exact cstring_append ⟨_, hnul⟩ []
  have hquery : query (url.bytes ++ queryText args) =
      (separated args).tail.takeWhile (· ≠ number) := by
    cases args with
    | nil =>
        change query (url.bytes ++ []) = []
        rw [List.append_nil, query_path hquestion hnumber]
    | cons arg args => exact query_append hquestion hnumber _
  rw [arguments, hlocation, hquery, and_iff_left (Mkq.bounded _)]
  exact pieces_separated_iff args hkeys

/-- Memory that never lacks. -/
def plenty : Allocator := ⟨true, fun _ => true⟩

/-- `?k=a%20b&z` after the path `/`. -/
theorem query_preserved_space :
    let args : List Argument :=
      [⟨⟨[107], by decide⟩, some ⟨[97, 32, 98], by decide⟩⟩, ⟨⟨[122], by decide⟩, none⟩]
    arguments (afbHreqRedirectTo plenty ⟨[47], by decide⟩ args true) = args.map Argument.pair := by
  intro args
  have hplain : ∀ arg ∈ args, arg.Plain := by
    intro arg harg
    rcases List.mem_cons.mp harg with rfl | harg
    · exact ⟨by decide, fun value hvalue => by cases hvalue; decide⟩
    · rw [List.mem_singleton.mp harg]
      exact ⟨by decide, fun value hvalue => by cases hvalue⟩
  have hkeys : ∀ arg ∈ args, arg.key.bytes ≠ [] := by decide
  have hlacks : ¬plenty.Lacks := fun ⟨_, hfails⟩ => by cases hfails
  have hsome := urlWithQuery_isSome plenty rfl hlacks ⟨[47], by decide⟩ args
  rcases Option.isSome_iff_exists.mp hsome with ⟨text, htext⟩
  have hread := (query_preserved_iff plenty (by decide) (by decide) hkeys htext).mpr hplain
  have hlocation : afbHreqRedirectTo plenty ⟨[47], by decide⟩ args true = cstring text := by
    simp only [afbHreqRedirectTo, if_true, htext]
  rw [hlocation]
  exact hread.1

/-- Of the value `a+b` the reader makes `a b`, and of `a#b` it makes `a`. -/
theorem query_preserved_fails :
    let added : List Argument := [⟨⟨[107], by decide⟩, some ⟨[97, 43, 98], by decide⟩⟩]
    let cut : List Argument := [⟨⟨[107], by decide⟩, some ⟨[97, 35, 98], by decide⟩⟩]
    let location := fun args => afbHreqRedirectTo plenty ⟨[47], by decide⟩ args true
    (arguments (location added) = [([107], some [97, 32, 98])] ∧
        arguments (location added) ≠ added.map Argument.pair) ∧
      arguments (location cut) = [([107], some [97])] ∧
        arguments (location cut) ≠ cut.map Argument.pair := by
  decide +kernel

end AfbBinder.Http
