import AfbBinder.Lib.Bytes
import AfbBinder.Lib.Loop

/-!
# Signatures

The grammar of the single complete types of D-Bus, and `lentype`, which looks for one at
the start of a signature.  A type that has a struct is never found: the loop over the
members of a struct ends on the result of scanning its closing parenthesis, which is an
error.
-/

namespace AfbBinder.Dbus

open Lib

def typeArray : UInt8 := 97

def typeStruct : UInt8 := 114

def typeStructBegin : UInt8 := 40

def typeStructEnd : UInt8 := 41

def typeDictEntry : UInt8 := 101

def typeDictEntryBegin : UInt8 := 123

def typeDictEntryEnd : UInt8 := 125

/-! ## The grammar -/

/-- A one-letter type. -/
def Basic (c : UInt8) : Prop :=
  c ∉ [0, typeArray, typeStructBegin, typeStructEnd, typeDictEntryBegin, typeDictEntryEnd,
    typeStruct, typeDictEntry]

instance (c : UInt8) : Decidable (Basic c) := inferInstanceAs (Decidable (_ ∉ _))

inductive Part where
  | single
  | members
deriving DecidableEq

/-- The texts of a single complete type and of the members of a struct. -/
inductive Derives : Part → Bytes → Prop
  | basic {c : UInt8} : Basic c → Derives .single [c]
  | array {t : Bytes} : Derives .single t → Derives .single (typeArray :: t)
  | dict {key : UInt8} {t : Bytes} : Basic key → Derives .single t →
      Derives .single (typeArray :: typeDictEntryBegin :: key :: (t ++ [typeDictEntryEnd]))
  | struct {ts : Bytes} : Derives .members ts →
      Derives .single (typeStructBegin :: (ts ++ [typeStructEnd]))
  | last {t : Bytes} : Derives .single t → Derives .members t
  | more {t ts : Bytes} : Derives .single t → Derives .members ts → Derives .members (t ++ ts)

/-- A single complete type. -/
abbrev Complete (t : Bytes) : Prop := Derives .single t

/-! ## The scanner -/

/-- A byte of a signature, the NUL after the last one. -/
def charAt (signature : Bytes) (i : Nat) : UInt8 := signature.getD i 0

/-- The variables of the loop over the members of a struct. -/
structure Members where
  len : Nat
  rc : Int
deriving DecidableEq, Repr

/-- `rc > 0 && signature[len] != SD_BUS_TYPE_STRUCT_END` -/
def Members.again (signature : Bytes) (m : Members) : Bool :=
  m.rc > 0 && charAt signature m.len ≠ typeStructEnd

def Members.next (scan : Bytes → Int) (signature : Bytes) (m : Members) : Members :=
  let len := m.len + m.rc.toNat
  ⟨len, scan (signature.drop len)⟩

/-- `lentype`, for a depth of calls. -/
def scanType : Nat → Bytes → Bool → Bool → Int
  | 0, _, _, _ => -1
  | depth + 1, signature, allowsDict, allowsNotBasic =>
      let c := charAt signature 0
      if c = typeArray then
        if !allowsNotBasic then -1
        else
          let rc := scanType depth (signature.drop 1) true true
          if rc < 0 then -1 else 1 + rc
      else if c = typeStructBegin then
        if !allowsNotBasic then -1
        else
          let scan := fun signature => scanType depth signature false true
          let m := whileDo (Members.again signature) (Members.next scan signature)
            signature.length ⟨1, scan (signature.drop 1)⟩
          if m.rc < 0 then -1 else 1 + m.len
      else if c = typeDictEntryBegin then
        if !allowsNotBasic || !allowsDict then -1
        else
          let rc := scanType depth (signature.drop 1) false false
          if rc < 0 then -1
          else
            let len := 1 + rc.toNat
            let rc := scanType depth (signature.drop len) false true
            if rc < 0 ∨ charAt signature (len + rc.toNat) ≠ typeDictEntryEnd then -1
            else len + rc + 1
      else if c ∈ [0, typeStruct, typeStructEnd, typeDictEntry, typeDictEntryEnd] then -1
      else 1

/-- `lentype`.  Each call scans a shorter text: the length is depth enough, and so is any
greater one. -/
def lentype (signature : Bytes) (allowsDict allowsNotBasic : Bool) : Int :=
  scanType (signature.length + 1) signature allowsDict allowsNotBasic

/-! ## What the scanner finds -/

/-- An entry of a dictionary. -/
def Entry (t : Bytes) : Prop :=
  ∃ key u, Basic key ∧ Complete u ∧ t = typeDictEntryBegin :: key :: (u ++ [typeDictEntryEnd])

theorem not_nonneg_error : ¬ (0 : Int) ≤ -1 := by decide

theorem basic_iff (c : UInt8) :
    Basic c ↔ c ≠ typeArray ∧ c ≠ typeStructBegin ∧ c ≠ typeDictEntryBegin ∧
      c ∉ [0, typeStruct, typeStructEnd, typeDictEntry, typeDictEntryEnd] := by
  unfold Basic
  simp only [List.mem_cons, List.not_mem_nil, or_false, not_or, ne_eq]
  constructor
  · intro ⟨hnul, harray, hbegin, hend, hdict, hdictEnd, hstruct, hentry⟩
    exact ⟨harray, hbegin, hdict, hnul, hstruct, hend, hentry, hdictEnd⟩
  · intro ⟨harray, hbegin, hdict, hnul, hstruct, hend, hentry, hdictEnd⟩
    exact ⟨hnul, harray, hbegin, hend, hdict, hdictEnd, hstruct, hentry⟩

theorem scanType_basic {c : UInt8} (h : Basic c) (depth : Nat) (rest : Bytes)
    (allowsDict allowsNotBasic : Bool) :
    scanType (depth + 1) (c :: rest) allowsDict allowsNotBasic = 1 := by
  rcases (basic_iff c).mp h with ⟨harray, hstruct, hdict, hother⟩
  have hc : charAt (c :: rest) 0 = c := rfl
  simp only [scanType, hc, if_neg harray, if_neg hstruct, if_neg hdict, if_neg hother]

/-- A scan without room for a container. -/
theorem scanType_letter {depth : Nat} {signature : Bytes} {allowsDict : Bool}
    (h : 0 ≤ scanType depth signature allowsDict false) :
    ∃ c rest, signature = c :: rest ∧ Basic c ∧ scanType depth signature allowsDict false = 1 := by
  cases depth with
  | zero => exact absurd h not_nonneg_error
  | succ depth =>
      cases signature with
      | nil => exact absurd h not_nonneg_error
      | cons c rest =>
          by_cases hbasic : Basic c
          · exact ⟨c, rest, rfl, hbasic, scanType_basic hbasic depth rest allowsDict false⟩
          · have hc : charAt (c :: rest) 0 = c := rfl
            have hnot := mt (basic_iff c).mpr hbasic
            simp only [scanType, hc, Bool.not_false, if_true, Bool.true_or] at h
            split at h
            · cases h
            · split at h
              · cases h
              · split at h
                · cases h
                · split at h
                  · cases h
                  · exact absurd ⟨by assumption, by assumption, by assumption, by assumption⟩ hnot

theorem scanType_range (depth : Nat) (signature : Bytes) (allowsDict allowsNotBasic : Bool) :
    scanType depth signature allowsDict allowsNotBasic = -1 ∨
      0 ≤ scanType depth signature allowsDict allowsNotBasic := by
  cases depth with
  | zero => exact .inl rfl
  | succ depth =>
      rw [scanType]
      dsimp only
      split
      · split
        · exact .inl rfl
        · split
          · exact .inl rfl
          · omega
      · split
        · split
          · exact .inl rfl
          · split
            · exact .inl rfl
            · omega
        · split
          · split
            · exact .inl rfl
            · split
              · exact .inl rfl
              · split
                · exact .inl rfl
                · omega
          · split
            · exact .inl rfl
            · exact .inr Int.one_nonneg

/-- No type starts with a closing parenthesis. -/
theorem scanType_end (depth : Nat) {signature : Bytes} (h : charAt signature 0 = typeStructEnd)
    (allowsDict allowsNotBasic : Bool) :
    scanType depth signature allowsDict allowsNotBasic = -1 := by
  cases depth with
  | zero => rfl
  | succ depth =>
      simp only [scanType, h]
      rfl

/-- The loop over the members of a struct ends on an error. -/
theorem members_refused {scan : Bytes → Int} {signature : Bytes}
    (hscan : ∀ s, scan s < 0 ∨ 0 < scan s ∧ (scan s).toNat ≤ s.length)
    (hend : ∀ s, charAt s 0 = typeStructEnd → scan s < 0) :
    (whileDo (Members.again signature) (Members.next scan signature) signature.length
      ⟨1, scan (signature.drop 1)⟩).rc < 0 := by
  have hbody : ∀ m : Members, m.rc = scan (signature.drop m.len) → m.again signature = true →
      (Members.next scan signature m).rc = scan (signature.drop (Members.next scan signature m).len) ∧
        signature.length - (Members.next scan signature m).len < signature.length - m.len := by
    intro m hrc hagain
    refine ⟨rfl, ?_⟩
    simp only [Members.again, Bool.and_eq_true, decide_eq_true_eq] at hagain
    have hpos := hagain.1
    have hmember := hscan (signature.drop m.len)
    rw [← hrc, List.length_drop] at hmember
    simp only [Members.next]
    omega
  have hloop := whileDo_spec (s := ⟨1, scan (signature.drop 1)⟩)
    (fun m : Members => m.rc = scan (signature.drop m.len)) (fun m => signature.length - m.len)
    hbody rfl (Nat.sub_le _ _)
  generalize whileDo (Members.again signature) (Members.next scan signature) signature.length
    ⟨1, scan (signature.drop 1)⟩ = m at hloop ⊢
  rcases hloop with ⟨hrc, hstop⟩
  rcases hscan (signature.drop m.len) with hneg | ⟨hpos, -⟩
  · omega
  · -- a member is found where the parenthesis stands
    have hparen : charAt signature m.len = typeStructEnd := by
      by_contra hother
      have hmore : m.again signature = true := by simp [Members.again, hother, hrc, hpos]
      rw [hmore] at hstop
      cases hstop
    have hhead : charAt (signature.drop m.len) 0 = typeStructEnd := by
      rw [← hparen]
      simp [charAt]
    have := hend _ hhead
    omega

section Equations

variable (depth : Nat) (rest : Bytes) (allowsDict : Bool)

theorem scanType_array :
    scanType (depth + 1) (typeArray :: rest) allowsDict true =
      if scanType depth rest true true < 0 then -1 else 1 + scanType depth rest true true := rfl

theorem scanType_entry :
    scanType (depth + 1) (typeDictEntryBegin :: rest) true true =
      if scanType depth rest false false < 0 then -1
      else
        let len := 1 + (scanType depth rest false false).toNat
        let rc := scanType depth ((typeDictEntryBegin :: rest).drop len) false true
        if rc < 0 ∨ charAt (typeDictEntryBegin :: rest) (len + rc.toNat) ≠ typeDictEntryEnd then -1
        else len + rc + 1 := rfl

/-- An entry, its key being scanned. -/
theorem scanType_entry_key {key : UInt8} (hkey : scanType depth (key :: rest) false false = 1) :
    scanType (depth + 1) (typeDictEntryBegin :: key :: rest) true true =
      if scanType depth rest false true < 0 ∨
          charAt rest (scanType depth rest false true).toNat ≠ typeDictEntryEnd then -1
      else 3 + scanType depth rest false true := by
  have hat : ∀ n, charAt (typeDictEntryBegin :: key :: rest) (2 + n) = charAt rest n := by
    intro n
    rw [Nat.add_comm]
    rfl
  have hlen : 1 + (1 : Int).toNat = 2 := rfl
  have hdrop : (typeDictEntryBegin :: key :: rest).drop 2 = rest := rfl
  rw [scanType_entry, hkey, if_neg (by decide)]
  simp only [hlen, hat, hdrop]
  split
  · rfl
  · omega

theorem scanType_other {c : UInt8} (harray : c ≠ typeArray) (hstruct : c ≠ typeStructBegin)
    (hentry : c ≠ typeDictEntryBegin) (hbasic : ¬ Basic c) :
    scanType (depth + 1) (c :: rest) allowsDict true = -1 := by
  have hc : charAt (c :: rest) 0 = c := rfl
  have hother : c ∈ [0, typeStruct, typeStructEnd, typeDictEntry, typeDictEntryEnd] := by
    by_contra hnot
    exact hbasic ((basic_iff c).mpr ⟨harray, hstruct, hentry, hnot⟩)
  simp only [scanType, hc, if_neg harray, if_neg hstruct, if_neg hentry, if_pos hother]

end Equations

/-- A type found at the start of a text, and what follows it. -/
def Found (depth : Nat) (signature : Bytes) (allowsDict : Bool) : Prop :=
  ∃ t rest, signature = t ++ rest ∧ scanType depth signature allowsDict true = t.length ∧
    t ≠ [] ∧ typeStructBegin ∉ t ∧ (Complete t ∨ allowsDict = true ∧ Entry t)

theorem scanType_struct_of {depth : Nat}
    (hfound : ∀ s, 0 ≤ scanType depth s false true → Found depth s false) (rest : Bytes)
    (allowsDict : Bool) : scanType (depth + 1) (typeStructBegin :: rest) allowsDict true = -1 := by
  apply if_pos
  apply members_refused
  · intro s
    rcases scanType_range depth s false true with herror | hnonneg
    · exact .inl (by omega)
    · rcases hfound s hnonneg with ⟨t, rest', rfl, hlen, hne, -, -⟩
      have hpos := List.length_pos_iff.mpr hne
      right
      rw [hlen, List.length_append]
      omega
  · intro s hs
    have := scanType_end depth hs false true
    omega

theorem Found.array {depth : Nat} {rest : Bytes} (h : Found depth rest true) (allowsDict : Bool) :
    Found (depth + 1) (typeArray :: rest) allowsDict := by
  rcases h with ⟨t, rest', rfl, hlen, hne, hstruct, hcase⟩
  refine ⟨typeArray :: t, rest', rfl, ?_, List.cons_ne_nil _ _, ?_, .inl ?_⟩
  · rw [scanType_array, hlen, if_neg (by omega), List.length_cons]
    omega
  · rw [List.mem_cons, not_or]
    exact ⟨by decide, hstruct⟩
  · rcases hcase with ht | ⟨-, key, u, hkey, hu, rfl⟩
    · exact .array ht
    · exact .dict hkey hu

theorem found_entry {depth : Nat} {rest : Bytes}
    (hfound : ∀ s, 0 ≤ scanType depth s false true → Found depth s false)
    (h : 0 ≤ scanType (depth + 1) (typeDictEntryBegin :: rest) true true) :
    Found (depth + 1) (typeDictEntryBegin :: rest) true := by
  by_cases hneg : scanType depth rest false false < 0
  · rw [scanType_entry, if_pos hneg] at h
    exact absurd h not_nonneg_error
  · rcases scanType_letter (Int.not_lt.mp hneg) with ⟨key, rest₁, rfl, hkey, hone⟩
    rw [scanType_entry_key depth rest₁ hone] at h
    by_cases hbad : scanType depth rest₁ false true < 0 ∨
        charAt rest₁ (scanType depth rest₁ false true).toNat ≠ typeDictEntryEnd
    · rw [if_pos hbad] at h
      exact absurd h not_nonneg_error
    · rcases not_or.mp hbad with ⟨hvalue, hend⟩
      rcases hfound rest₁ (Int.not_lt.mp hvalue) with ⟨u, rest₂, rfl, hlen, hne, hstruct, hcase⟩
      have hu : Complete u := by
        rcases hcase with hu | ⟨hfalse, -⟩
        · exact hu
        · cases hfalse
      -- the brace after the value
      rw [hlen, Int.toNat_natCast] at hend
      have hbrace : ∃ rest₃, rest₂ = typeDictEntryEnd :: rest₃ := by
        cases rest₂ with
        | nil => exact absurd hend (by simp [charAt, typeDictEntryEnd])
        | cons c rest₃ =>
            refine ⟨rest₃, ?_⟩
            rw [← Decidable.not_not.mp hend]
            simp [charAt]
      rcases hbrace with ⟨rest₃, rfl⟩
      refine ⟨typeDictEntryBegin :: key :: (u ++ [typeDictEntryEnd]), rest₃, by simp, ?_, by simp, ?_,
        .inr ⟨rfl, key, u, hkey, hu, rfl⟩⟩
      · rw [scanType_entry_key depth _ hone, if_neg hbad, hlen]
        simp only [List.length_cons, List.length_append, List.length_nil]
        omega
      · simp only [List.mem_cons, List.mem_append, List.not_mem_nil, or_false, not_or]
        have hletter := ((basic_iff key).mp hkey).2.1
        exact ⟨by decide, fun heq => hletter heq.symm, hstruct, by decide⟩

/-- What a scan finds is a single complete type without a struct, or an entry where one is
allowed. -/
theorem scanType_sound {depth : Nat} {signature : Bytes} {allowsDict : Bool}
    (h : 0 ≤ scanType depth signature allowsDict true) : Found depth signature allowsDict := by
  induction depth generalizing signature allowsDict with
  | zero => exact absurd h not_nonneg_error
  | succ depth ih =>
      cases signature with
      | nil => exact absurd h not_nonneg_error
      | cons c rest =>
          by_cases hbasic : Basic c
          · refine ⟨[c], rest, rfl, scanType_basic hbasic depth rest _ _, by simp, ?_,
              .inl (.basic hbasic)⟩
            rw [List.mem_singleton]
            exact fun heq => ((basic_iff c).mp hbasic).2.1 heq.symm
          · by_cases harray : c = typeArray
            · rw [harray] at h ⊢
              rw [scanType_array] at h
              split at h
              case isTrue => exact absurd h not_nonneg_error
              case isFalse hnonneg => exact (ih (Int.not_lt.mp hnonneg)).array allowsDict
            · by_cases hstruct : c = typeStructBegin
              · rw [hstruct, scanType_struct_of (fun s hs => ih hs)] at h
                exact absurd h not_nonneg_error
              · by_cases hentry : c = typeDictEntryBegin
                · rw [hentry] at h ⊢
                  cases allowsDict with
                  | false => exact absurd h not_nonneg_error
                  | true => exact found_entry (fun s hs => ih hs) h
                · rw [scanType_other depth rest allowsDict harray hstruct hentry hbasic] at h
                  exact absurd h not_nonneg_error

theorem scanType_struct (depth : Nat) (rest : Bytes) (allowsDict : Bool) :
    scanType (depth + 1) (typeStructBegin :: rest) allowsDict true = -1 :=
  scanType_struct_of (fun _ h => scanType_sound h) rest allowsDict

/-! ## What the scanner does not miss -/

theorem structBegin_dict {key : UInt8} (hkey : Basic key) {t : Bytes} :
    typeStructBegin ∈ typeArray :: typeDictEntryBegin :: key :: (t ++ [typeDictEntryEnd]) ↔
      typeStructBegin ∈ t := by
  have hletter : typeStructBegin ≠ key := fun heq => ((basic_iff key).mp hkey).2.1 heq.symm
  constructor
  · intro hin
    simp only [List.mem_cons, List.mem_append, List.not_mem_nil, or_false] at hin
    rcases hin with hin | hin | hin | hin | hin
    · cases hin
    · cases hin
    · exact absurd hin hletter
    · exact hin
    · cases hin
  · intro hin
    simp [hin]

theorem scanType_entry_complete {depth : Nat} {key : UInt8} {t rest : Bytes}
    (hone : scanType depth (key :: (t ++ typeDictEntryEnd :: rest)) false false = 1)
    (hrec : scanType depth (t ++ typeDictEntryEnd :: rest) false true =
      if typeStructBegin ∈ t then -1 else (t.length : Int)) :
    scanType (depth + 1) (typeDictEntryBegin :: key :: (t ++ typeDictEntryEnd :: rest)) true true =
      if typeStructBegin ∈ t then -1 else 3 + (t.length : Int) := by
  rw [scanType_entry_key depth _ hone, hrec]
  by_cases hstruct : typeStructBegin ∈ t
  · rw [if_pos hstruct, if_pos hstruct]
    exact if_pos (Or.inl (by decide))
  · have hbrace : charAt (t ++ typeDictEntryEnd :: rest) (t.length : Int).toNat =
        typeDictEntryEnd := by simp [charAt]
    rw [if_neg hstruct, if_neg hstruct, hbrace]
    apply if_neg
    rw [not_or]
    exact ⟨by omega, not_not_intro rfl⟩

/-- A complete type is found unless it has a struct, whatever follows it. -/
theorem scanType_complete {t : Bytes} (h : Complete t) {depth : Nat} (hdepth : t.length ≤ depth)
    (rest : Bytes) (allowsDict : Bool) :
    scanType depth (t ++ rest) allowsDict true =
      if typeStructBegin ∈ t then -1 else (t.length : Int) := by
  change Derives .single t at h
  generalize hpart : Part.single = part at h
  induction h generalizing depth rest allowsDict with
  | @basic c hc =>
      rcases Nat.exists_eq_succ_of_ne_zero (Nat.ne_of_gt hdepth) with ⟨depth, rfl⟩
      have hne : typeStructBegin ∉ [c] := by
        rw [List.mem_singleton]
        exact fun heq => ((basic_iff c).mp hc).2.1 heq.symm
      rw [if_neg hne]
      exact scanType_basic hc depth rest allowsDict true
  | @array t ht ih =>
      rcases Nat.exists_eq_succ_of_ne_zero (Nat.ne_of_gt (Nat.lt_of_lt_of_le (Nat.succ_pos _) hdepth))
        with ⟨depth, rfl⟩
      have hrec := ih (Nat.le_of_succ_le_succ hdepth) rest true rfl
      have hmem : typeStructBegin ∈ typeArray :: t ↔ typeStructBegin ∈ t := by
        rw [List.mem_cons]
        exact or_iff_right (by decide)
      rw [List.cons_append, scanType_array, hrec]
      simp only [hmem]
      by_cases hstruct : typeStructBegin ∈ t
      · rw [if_pos hstruct, if_pos hstruct, if_pos (by decide)]
      · rw [if_neg hstruct, if_neg hstruct, if_neg (by omega), List.length_cons]
        omega
  | @dict key t hkey ht ih =>
      simp only [List.length_cons, List.length_append, List.length_nil] at hdepth
      obtain ⟨depth, rfl⟩ : ∃ n, depth = n + 3 := ⟨depth - 3, by omega⟩
      have hone := scanType_basic hkey depth (t ++ typeDictEntryEnd :: rest) false false
      have hrec := @ih (depth + 1) (by omega) (typeDictEntryEnd :: rest) false rfl
      have happend : (typeArray :: typeDictEntryBegin :: key :: (t ++ [typeDictEntryEnd])) ++ rest =
          typeArray :: typeDictEntryBegin :: key :: (t ++ typeDictEntryEnd :: rest) := by simp
      rw [happend, scanType_array, scanType_entry_complete hone hrec]
      simp only [structBegin_dict hkey]
      by_cases hstruct : typeStructBegin ∈ t
      · rw [if_pos hstruct, if_pos hstruct, if_pos (by decide)]
      · rw [if_neg hstruct, if_neg hstruct, if_neg (by omega)]
        simp only [List.length_cons, List.length_append, List.length_nil]
        omega
  | @struct ts hts ih =>
      rcases Nat.exists_eq_succ_of_ne_zero (Nat.ne_of_gt (Nat.lt_of_lt_of_le (Nat.succ_pos _) hdepth))
        with ⟨depth, rfl⟩
      rw [if_pos List.mem_cons_self]
      exact scanType_struct depth _ allowsDict
  | last => cases hpart
  | more => cases hpart

theorem lentype_complete {t : Bytes} (h : Complete t) (rest : Bytes) :
    lentype (t ++ rest) false true = if typeStructBegin ∈ t then -1 else (t.length : Int) := by
  have hdepth : t.length ≤ (t ++ rest).length + 1 := by
    rw [List.length_append]
    omega
  exact scanType_complete h hdepth rest false

theorem lentype_sound {signature : Bytes} (h : 0 ≤ lentype signature false true) :
    ∃ t rest, signature = t ++ rest ∧ lentype signature false true = t.length ∧ Complete t ∧
      typeStructBegin ∉ t := by
  rcases scanType_sound h with ⟨t, rest, hsplit, hlen, -, hstruct, ht | ⟨hfalse, -⟩⟩
  · exact ⟨t, rest, hsplit, hlen, ht, hstruct⟩
  · cases hfalse

theorem lentype_range (signature : Bytes) :
    lentype signature false true = -1 ∨ 0 ≤ lentype signature false true :=
  scanType_range _ _ _ _

theorem lentype_depth {depth : Nat} {signature : Bytes} (h : signature.length ≤ depth) :
    scanType depth signature false true = lentype signature false true := by
  rcases scanType_range depth signature false true with herror | hfound
  · rcases lentype_range signature with herror' | hfound'
    · rw [herror, herror']
    · rcases lentype_sound hfound' with ⟨t, rest, rfl, hlen, ht, hstruct⟩
      rw [List.length_append] at h
      rw [scanType_complete ht (by omega), if_neg hstruct] at herror
      omega
  · rcases scanType_sound hfound with ⟨t, rest, rfl, hlen, -, hstruct, ht | ⟨hfalse, -⟩⟩
    · rw [hlen, lentype_complete ht, if_neg hstruct]
    · cases hfalse

theorem Complete.ne_nil {t : Bytes} (h : Complete t) : t ≠ [] := by
  cases h with
  | basic => exact List.cons_ne_nil _ _
  | array => exact List.cons_ne_nil _ _
  | dict => exact List.cons_ne_nil _ _
  | struct => exact List.cons_ne_nil _ _

/-- The scanner finds the single complete type at the start of the signature, if there is
one. -/
structure Scans (signature : Bytes) : Prop where
  found_iff : ∀ n : Nat, 0 < n → (lentype signature false true = n ↔
    n ≤ signature.length ∧ Complete (signature.take n))
  otherwise : (∀ n ≤ signature.length, ¬ Complete (signature.take n)) →
    lentype signature false true = -1

/-- It does so exactly when the type at the start has no struct. -/
theorem scans_iff (signature : Bytes) :
    Scans signature ↔ ∀ n ≤ signature.length, Complete (signature.take n) →
      typeStructBegin ∉ signature.take n := by
  constructor
  · intro hscans n hn ht hstruct
    have hpos : 0 < n := by
      rcases Nat.eq_zero_or_pos n with rfl | hpos
      · exact absurd rfl ht.ne_nil
      · exact hpos
    have hfound := (hscans.found_iff n hpos).mpr ⟨hn, ht⟩
    have hmissed := lentype_complete ht (signature.drop n)
    rw [List.take_append_drop, if_pos hstruct] at hmissed
    omega
  · intro hnone
    constructor
    · intro n hpos
      constructor
      · intro hfound
        have hnonneg : 0 ≤ lentype signature false true := by omega
        rcases lentype_sound hnonneg with ⟨t, rest, rfl, hlen, ht, -⟩
        have hsame : n = t.length := by omega
        rw [hsame, List.take_left, List.length_append]
        exact ⟨Nat.le_add_right _ _, ht⟩
      · intro hfirst
        rcases hfirst with ⟨hn, ht⟩
        have hfound := lentype_complete ht (signature.drop n)
        rw [List.take_append_drop, if_neg (hnone n hn ht), List.length_take,
          Nat.min_eq_left hn] at hfound
        exact hfound
    · intro hnothing
      rcases lentype_range signature with herror | hfound
      · exact herror
      · rcases lentype_sound hfound with ⟨t, rest, rfl, -, ht, -⟩
        have hcomplete := hnothing t.length (by
          rw [List.length_append]
          omega)
        rw [List.take_left] at hcomplete
        exact absurd ht hcomplete

end AfbBinder.Dbus
