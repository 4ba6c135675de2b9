import AfbBinder.Dbus.Signature
import Mathlib.Algebra.Group.Int.Defs

/-!
# Packing JSON items by a signature

`packsingle` and `packlist`, which append JSON items to a message as the types of a
signature ask for.  The message of sd-bus and the conversions of json-c are parameters.
-/

namespace AfbBinder.Dbus

open Lib

/-! ## Items and messages -/

/-- The objects of json-c, `NULL` standing for null. -/
inductive Json where
  | null
  | boolean (value : Bool)
  | double (bits : UInt64)
  | int (value : Int)
  | object (members : List (Bytes × Json))
  | array (elements : List Json)
  | string (text : Bytes)

def Json.isNull : Json → Bool
  | .null => true
  | _ => false

/-- `json_object_get_boolean` and the other conversions, from any object. -/
structure JsonC where
  getBoolean : Json → Int
  getInt : Json → Int
  getInt64 : Json → Int
  getDouble : Json → UInt64
  getString : Json → Option Bytes

/-- `union any`, by the member that is set. -/
inductive Any where
  | i32 (value : Int)
  | u8 (value : Int)
  | i16 (value : Int)
  | u16 (value : Int)
  | u32 (value : Int)
  | i64 (value : Int)
  | u64 (value : Int)
  | dbl (bits : UInt64)
  | cstr (text : Option Bytes)

/-- The functions of sd-bus on the messages `M`. -/
structure Bus (M : Type) where
  openContainer : M → UInt8 → Bytes → Int × M
  closeContainer : M → Int × M
  appendBasic : M → UInt8 → Any → Int × M

def typeVariant : UInt8 := 118

def typeString : UInt8 := 115

/-- `signature_for_json` -/
def signatureForJson : Json → Option Bytes
  | .null => none
  | .boolean _ => some [98]
  | .double _ => some [100]
  | .int _ => some [105]
  | .object _ => some [97, 123, 115, 118, 125]
  | .array _ => some [97, 118]
  | .string _ => some [115]

/-- The value that `packsingle` stores for a one-letter type; `none` when it does not fit or
when the type is not known. -/
def basicAny (json : JsonC) (type : UInt8) (item : Json) : Option Any :=
  let narrow := fun (value modulus offset : Int) (any : Int → Any) =>
    if value = (value + offset) % modulus - offset then some (any value) else none
  match type.toNat with
  | 98 => some (.i32 (json.getBoolean item))
  | 121 => narrow (json.getInt item) (2 ^ 8) 0 .u8
  | 110 => narrow (json.getInt item) (2 ^ 16) (2 ^ 15) .i16
  | 113 => narrow (json.getInt item) (2 ^ 16) 0 .u16
  | 105 => narrow (json.getInt64 item) (2 ^ 32) (2 ^ 31) .i32
  | 117 => narrow (json.getInt64 item) (2 ^ 32) 0 .u32
  | 120 => some (.i64 (json.getInt64 item))
  | 116 => some (.u64 (json.getInt64 item % 2 ^ 64))
  | 100 => some (.dbl (json.getDouble item))
  | 115 => some (.cstr (json.getString item))
  | 111 => some (.cstr (json.getString item))
  | 103 => some (.cstr (json.getString item))
  | _ => none

/-- Goes on unless the call has failed. -/
def andThen {M : Type} (call : Int × M) (next : M → Int × M) : Int × M :=
  if call.1 < 0 then (-1, call.2) else next call.2

/-! ## Packing -/

/-- A bound of the calls that `packsingle` makes for the same item. -/
def rank (signature : Bytes) : Nat :=
  if charAt signature 0 ∈ [typeVariant, typeStructBegin, typeDictEntryBegin] then signature.length + 1
  else 0

theorem rank_le (signature : Bytes) : rank signature ≤ signature.length + 1 := by
  unfold rank
  split
  · exact Nat.le_refl _
  · exact Nat.zero_le _

theorem rank_signatureForJson {item : Json} {signature : Bytes}
    (h : signatureForJson item = some signature) : rank signature = 0 := by
  cases item <;> cases h <;> rfl

theorem rank_struct {signature : Bytes}
    (h : charAt signature 0 = typeStructBegin ∨ charAt signature 0 = typeDictEntryBegin) (n : Nat) :
    ((signature.drop 1).take n).length + 1 < rank signature := by
  have hrank : rank signature = signature.length + 1 := by
    apply if_pos
    simp only [List.mem_cons, List.not_mem_nil, or_false]
    exact .inr h
  cases signature with
  | nil => exact absurd h (by decide)
  | cons c rest =>
      rw [hrank]
      simp only [List.drop_succ_cons, List.drop_zero, List.length_cons, List.length_take]
      omega

theorem rank_packed (signature : Bytes) :
    Prod.Lex (· < ·) (· < ·) (rank signature, 0) (signature.length + 1, 1) := by
  rcases Nat.lt_or_eq_of_le (rank_le signature) with hlt | heq
  · exact .left _ _ hlt
  · rw [heq]
    exact .right _ Nat.zero_lt_one

section Pack

variable {M : Type} (bus : Bus M) (json : JsonC)

mutual

/-- `packsingle` -/
def packsingle (msg : M) (signature : Bytes) (item : Json) : Int × M :=
  let len := lentype signature false true
  if len < 0 then (-1, msg)
  else if charAt signature 0 = typeVariant then
    match hsignature : signatureForJson item with
    | some inner =>
        andThen (bus.openContainer msg typeVariant inner) fun msg =>
        andThen (packsingle msg inner item) fun msg =>
        andThen (bus.closeContainer msg) fun msg => (len, msg)
    | none => (-1, msg)
  else if charAt signature 0 = typeArray then
    let subsig := (signature.drop 1).take (len.toNat - 1)
    andThen (bus.openContainer msg typeArray subsig) fun msg =>
    andThen
      (match item with
      | .array elements => packelements msg subsig elements
      | .object members =>
          if charAt subsig 0 ≠ typeDictEntryBegin then (-1, msg)
          else if charAt subsig 1 ≠ typeString then (-1, msg)
          else packmembers msg (subsig.drop 1).dropLast members
      | _ => (-1, msg)) fun msg =>
    andThen (bus.closeContainer msg) fun msg => (len, msg)
  else if charAt signature 0 = typeStructBegin ∨ charAt signature 0 = typeDictEntryBegin then
    let subsig := (signature.drop 1).take (len.toNat - 2)
    let type := if charAt signature 0 = typeStructBegin then typeStruct else typeDictEntry
    andThen (bus.openContainer msg type subsig) fun msg =>
    andThen (packlist msg subsig item) fun msg =>
    andThen (bus.closeContainer msg) fun msg => (len, msg)
  else
    match basicAny json (charAt signature 0) item with
    | none => (-1, msg)
    | some any => andThen (bus.appendBasic msg (charAt signature 0) any) fun msg => (len, msg)
termination_by (sizeOf item, rank signature, 0)
decreasing_by
  · have hvariantRank : rank signature = signature.length + 1 := if_pos (by simp [‹charAt signature 0 = typeVariant›])
    rw [rank_signatureForJson hsignature, hvariantRank]
    exact .right _ (.left _ _ (Nat.succ_pos _))
  · apply Prod.Lex.left
    rw [Json.array.sizeOf_spec]
    omega
  · apply Prod.Lex.left
    rw [Json.object.sizeOf_spec]
    omega
  · exact .right _ (.left _ _ (rank_struct ‹_› _))

/-- The loop over the elements of an array. -/
def packelements (msg : M) (subsig : Bytes) (elements : List Json) : Int × M :=
  match elements with
  | [] => (0, msg)
  | element :: elements =>
      andThen (packsingle msg subsig element) fun msg => packelements msg subsig elements
termination_by (sizeOf elements, 0, 0)
decreasing_by
  all_goals
    apply Prod.Lex.left
    rw [List.cons.sizeOf_spec]
    omega

/-- The loop over the members of an object, as the entries of a dictionary. -/
def packmembers (msg : M) (subsig : Bytes) (members : List (Bytes × Json)) : Int × M :=
  match members with
  | [] => (0, msg)
  | (name, value) :: members =>
      andThen (bus.openContainer msg typeDictEntry subsig) fun msg =>
      andThen (bus.appendBasic msg (charAt subsig 0) (.cstr (some name))) fun msg =>
      andThen (packsingle msg (subsig.drop 1) value) fun msg =>
      andThen (bus.closeContainer msg) fun msg => packmembers msg subsig members
termination_by (sizeOf members, 0, 0)
decreasing_by
  all_goals
    apply Prod.Lex.left
    rw [List.cons.sizeOf_spec, Prod.mk.sizeOf_spec]
    omega

/-- The loop of `packlist` over the elements of a list. -/
def packitems (msg : M) (signature : Bytes) (scan : Nat) (items : List Json) : Int × M :=
  match items with
  | [] => if charAt signature scan = 0 then (scan, msg) else (-(scan + 1), msg)
  | item :: items =>
      if charAt signature scan = 0 then (-(scan + 1), msg)
      else if item.isNull then (-(scan + 1), msg)
      else
        let packed := packsingle msg (signature.drop scan) item
        if packed.1 < 0 then (-(scan + 1), packed.2)
        else packitems packed.2 signature (scan + packed.1.toNat) items
termination_by (sizeOf items, 0, 0)
decreasing_by
  all_goals
    apply Prod.Lex.left
    rw [List.cons.sizeOf_spec]
    omega

/-- `packlist` -/
def packlist (msg : M) (signature : Bytes) (list : Json) : Int × M :=
  match list with
  | .null => if charAt signature 0 ≠ 0 then (-1, msg) else (0, msg)
  | .array items => packitems msg signature 0 items
  | item =>
      let packed := packsingle msg signature item
      if packed.1 < 0 then (-1, packed.2)
      else if charAt signature packed.1.toNat ≠ 0 then (-(packed.1 + 1), packed.2)
      else packed
termination_by (sizeOf list, signature.length + 1, 1)
decreasing_by
  · apply Prod.Lex.left
    rw [Json.array.sizeOf_spec]
    omega
  · exact .right _ (rank_packed signature)

end

end Pack

/-! ## The types of a list -/

/-- A call that, when it succeeds, returns the length given. -/
def Returns {M : Type} (len : Int) (call : Int × M) : Prop := 0 ≤ call.1 → call.1 = len

theorem Returns.error {M : Type} (len : Int) (msg : M) : Returns len (-1, msg) :=
  fun h => absurd h not_nonneg_error

theorem Returns.andThen {M : Type} {len : Int} {next : M → Int × M} (call : Int × M)
    (h : ∀ msg, Returns len (next msg)) : Returns len (andThen call next) := by
  unfold Dbus.andThen
  split
  · exact .error len _
  · exact h _

section Types

variable {M : Type} (bus : Bus M) (json : JsonC)

theorem packsingle_returns (msg : M) (signature : Bytes) (item : Json) :
    Returns (lentype signature false true) (packsingle bus json msg signature item) := by
  have hlen : ∀ msg : M, Returns (lentype signature false true) (lentype signature false true, msg) :=
    fun _ _ => rfl
  rw [packsingle]
  dsimp only
  split
  · exact .error _ _
  · split
    · split
      · exact .andThen _ fun _ => .andThen _ fun _ => .andThen _ hlen
      · exact .error _ _
    · split
      · exact .andThen _ fun _ => .andThen _ fun _ => .andThen _ hlen
      · split
        · exact .andThen _ fun _ => .andThen _ fun _ => .andThen _ hlen
        · split
          · exact .error _ _
          · exact .andThen _ hlen

theorem packsingle_nil (msg : M) (item : Json) : packsingle bus json msg [] item = (-1, msg) := by
  rw [packsingle]
  rfl

theorem packsingle_length {t : Bytes} (ht : Complete t) (hstruct : typeStructBegin ∉ t) {msg : M}
    {item : Json} (h : 0 ≤ (packsingle bus json msg t item).1) :
    (packsingle bus json msg t item).1 = t.length := by
  have halone := lentype_complete ht []
  rw [List.append_nil, if_neg hstruct] at halone
  rw [← halone]
  exact packsingle_returns bus json msg t item h

/-- `packsingle` reads no more than the type at the start of its signature. -/
theorem packsingle_append {t : Bytes} (ht : Complete t) (hstruct : typeStructBegin ∉ t)
    (rest : Bytes) (msg : M) (item : Json) :
    packsingle bus json msg (t ++ rest) item = packsingle bus json msg t item := by
  have hlen : lentype (t ++ rest) false true = t.length := by
    rw [lentype_complete ht, if_neg hstruct]
  have halone : lentype t false true = t.length := by
    have := lentype_complete ht []
    rwa [List.append_nil, if_neg hstruct] at this
  cases t with
  | nil => exact absurd rfl ht.ne_nil
  | cons c inner =>
      have hfirst : charAt (c :: inner ++ rest) 0 = charAt (c :: inner) 0 := rfl
      have hinner : ∀ n ≤ inner.length, ((c :: inner ++ rest).drop 1).take n =
          ((c :: inner).drop 1).take n := by
        intro n hn
        exact List.take_append_of_le_length hn
      have harray := hinner (((c :: inner).length : Int).toNat - 1) (Nat.le_refl _)
      have hentry := hinner (((c :: inner).length : Int).toNat - 2) (Nat.sub_le inner.length 1)
      conv =>
        lhs
        rw [packsingle]
      conv =>
        rhs
        rw [packsingle]
      dsimp only
      rw [hlen, halone, hfirst, harray, hentry]

/-- The loop of `packlist`, the types being given one by one. -/
def packEach (msg : M) (scan : Nat) (ts : List Bytes) (items : List Json) : Int × M :=
  match ts, items with
  | [], [] => (scan, msg)
  | t :: ts, item :: items =>
      if item.isNull then (-(scan + 1), msg)
      else
        let packed := packsingle bus json msg t item
        if packed.1 < 0 then (-(scan + 1), packed.2)
        else packEach packed.2 (scan + t.length) ts items
  | _, _ => (-(scan + 1), msg)

/-- `packlist`, the types being given one by one: one item for each type, and any item but
a list for a type alone. -/
def packTypes (msg : M) (ts : List Bytes) (list : Json) : Int × M :=
  match list, ts with
  | .null, [] => (0, msg)
  | .null, _ :: _ => (-1, msg)
  | .array items, ts => packEach bus json msg 0 ts items
  | _, [] => (-1, msg)
  | item, t :: ts =>
      let packed := packsingle bus json msg t item
      if packed.1 < 0 then (-1, packed.2)
      else if ts ≠ [] then (-(packed.1 + 1), packed.2)
      else packed

theorem Complete.head_ne_nul {t : Bytes} (ht : Complete t) (rest : Bytes) :
    charAt (t ++ rest) 0 ≠ 0 := by
  cases ht with
  | basic hc =>
      intro hnul
      exact hc (List.mem_cons.mpr (.inl hnul))
  | array => exact (by decide : typeArray ≠ 0)
  | dict => exact (by decide : typeArray ≠ 0)
  | struct => exact (by decide : typeStructBegin ≠ 0)

/-- The NUL of a text of complete types stands after the last one. -/
theorem charAt_flatten {ts : List Bytes} (hts : ∀ t ∈ ts, Complete t) (front : Bytes) :
    charAt (front ++ ts.flatten) front.length = 0 ↔ ts = [] := by
  have hat : charAt (front ++ ts.flatten) front.length = charAt ts.flatten 0 := by
    simp [charAt, List.getElem?_append_right]
  rw [hat]
  cases ts with
  | nil => exact iff_of_true rfl rfl
  | cons t ts =>
      have ht := hts t List.mem_cons_self
      exact iff_of_false (ht.head_ne_nul ts.flatten) (List.cons_ne_nil _ _)

theorem packitems_each {ts : List Bytes} (hts : ∀ t ∈ ts, Complete t ∧ typeStructBegin ∉ t)
    (items : List Json) (msg : M) (front : Bytes) :
    packitems bus json msg (front ++ ts.flatten) front.length items =
      packEach bus json msg front.length ts items := by
  induction items generalizing ts msg front with
  | nil =>
      have hnul := charAt_flatten (fun t ht => (hts t ht).1) front
      rw [packitems]
      cases ts with
      | nil =>
          rw [if_pos (hnul.mpr rfl)]
          rfl
      | cons t ts =>
          rw [if_neg (mt hnul.mp (List.cons_ne_nil _ _))]
          rfl
  | cons item items ih =>
      have hnul := charAt_flatten (fun t ht => (hts t ht).1) front
      rw [packitems]
      cases ts with
      | nil =>
          rw [if_pos (hnul.mpr rfl)]
          rfl
      | cons t ts =>
          rcases hts t List.mem_cons_self with ⟨ht, hstruct⟩
          have hfront : front ++ (t :: ts).flatten = (front ++ t) ++ ts.flatten := by simp
          have hnext : front.length + t.length = (front ++ t).length := List.length_append.symm
          rw [if_neg (mt hnul.mp (List.cons_ne_nil _ _)), packEach]
          by_cases hnull : item.isNull = true
          · rw [if_pos hnull, if_pos hnull]
          · rw [if_neg hnull, if_neg hnull, List.drop_left, List.flatten_cons,
              packsingle_append bus json ht hstruct]
            by_cases herror : (packsingle bus json msg t item).1 < 0
            · simp only [if_pos herror]
            · have hlen := packsingle_length bus json ht hstruct (Int.not_lt.mp herror)
              simp only [if_neg herror]
              rw [hlen, Int.toNat_natCast, ← List.flatten_cons, hfront, hnext]
              exact ih (fun t ht => hts t (List.mem_cons_of_mem _ ht)) _ (front ++ t)

/-- An item that is no list. -/
theorem packlist_one {ts : List Bytes} (hts : ∀ t ∈ ts, Complete t ∧ typeStructBegin ∉ t)
    (msg : M) (item : Json) (hnull : item ≠ .null) (hlist : ∀ items, item ≠ .array items) :
    packlist bus json msg ts.flatten item = packTypes bus json msg ts item := by
  cases ts with
  | nil =>
      rw [packTypes.eq_4 _ _ _ _ hnull hlist, packlist.eq_3 _ _ _ _ _ hnull hlist, List.flatten_nil,
        packsingle_nil]
      rfl
  | cons t ts =>
      rcases hts t List.mem_cons_self with ⟨ht, hstruct⟩
      rw [packTypes.eq_5 _ _ _ _ _ _ hnull hlist, packlist.eq_3 _ _ _ _ _ hnull hlist,
        List.flatten_cons, packsingle_append bus json ht hstruct]
      by_cases herror : (packsingle bus json msg t item).1 < 0
      · rw [if_pos herror, if_pos herror]
      · have hlen := packsingle_length bus json ht hstruct (Int.not_lt.mp herror)
        have hnul := charAt_flatten (fun t' ht' => (hts t' (List.mem_cons_of_mem _ ht')).1) t
        rw [if_neg herror, if_neg herror, hlen, Int.toNat_natCast]
        simp only [ne_eq, hnul]

theorem packlist_types {ts : List Bytes} (hts : ∀ t ∈ ts, Complete t ∧ typeStructBegin ∉ t)
    (msg : M) (list : Json) :
    packlist bus json msg ts.flatten list = packTypes bus json msg ts list := by
  have hone := packlist_one bus json hts msg
  cases list with
  | null =>
      have hnul := charAt_flatten (fun t ht => (hts t ht).1) []
      rw [packlist]
      cases ts with
      | nil => rfl
      | cons t ts => exact if_pos (mt hnul.mp (List.cons_ne_nil _ _))
  | array items =>
      rw [packlist]
      exact packitems_each bus json hts items msg []
  | boolean => exact hone _ (fun h => nomatch h) fun _ h => nomatch h
  | double => exact hone _ (fun h => nomatch h) fun _ h => nomatch h
  | int => exact hone _ (fun h => nomatch h) fun _ h => nomatch h
  | object => exact hone _ (fun h => nomatch h) fun _ h => nomatch h
  | string => exact hone _ (fun h => nomatch h) fun _ h => nomatch h

end Types

/-! ## The boundaries -/

/-- From the start of each type of a list, the scanner finds its end; and `packlist` packs
the items by these types. -/
structure PacklistSplits (ts : List Bytes) : Prop where
  next : ∀ front t back, ts = front ++ t :: back → lentype (t :: back).flatten false true = t.length
  packs : ∀ {M : Type} (bus : Bus M) (json : JsonC) (msg : M) (list : Json),
    packlist bus json msg ts.flatten list = packTypes bus json msg ts list

theorem packlistSplits_iff {ts : List Bytes} (hts : ∀ t ∈ ts, Complete t) :
    PacklistSplits ts ↔ ∀ t ∈ ts, typeStructBegin ∉ t := by
  constructor
  · intro hsplits t ht hstruct
    rcases List.append_of_mem ht with ⟨front, back, rfl⟩
    have hfound := hsplits.next front t back rfl
    rw [List.flatten_cons, lentype_complete (hts t ht), if_pos hstruct] at hfound
    omega
  · intro hnone
    constructor
    · rintro front t back rfl
      have ht : t ∈ front ++ t :: back := List.mem_append_right _ List.mem_cons_self
      rw [List.flatten_cons, lentype_complete (hts t ht), if_neg (hnone t ht)]
    · intro M bus json msg list
      exact packlist_types bus json (fun t ht => ⟨hts t ht, hnone t ht⟩) msg list

/-- The scanner meets its grammar on the texts whose first type has no struct, and
`packlist` splits the lists of types without a struct. -/
theorem signature_scanned_iff (signature : Bytes) (ts : List Bytes) :
    (Scans signature ↔ ∀ n ≤ signature.length, Complete (signature.take n) →
      typeStructBegin ∉ signature.take n) ∧
    ((∀ t ∈ ts, Complete t) → (PacklistSplits ts ↔ ∀ t ∈ ts, typeStructBegin ∉ t)) :=
  ⟨scans_iff signature, packlistSplits_iff⟩

theorem signature_scanned_variants :
    Scans [typeArray, typeVariant] ∧ PacklistSplits [[105], [typeArray, typeVariant]] := by
  have hvariants : Complete [typeArray, typeVariant] := .array (.basic (by decide))
  have hts : ∀ t ∈ [[105], [typeArray, typeVariant]], Complete t :=
    List.forall_mem_cons.mpr ⟨.basic (by decide), List.forall_mem_singleton.mpr hvariants⟩
  rcases signature_scanned_iff [typeArray, typeVariant] [[105], [typeArray, typeVariant]] with
    ⟨hscans, hsplits⟩
  constructor
  · exact hscans.mpr fun n _ _ h => absurd (List.mem_of_mem_take h) (by decide)
  · exact (hsplits hts).mpr (List.forall_mem_cons.mpr
      ⟨by decide, List.forall_mem_singleton.mpr (by decide)⟩)

/-- `(i)` is a complete type, and it is not found. -/
theorem signature_scanned_fails :
    Complete [typeStructBegin, 105, typeStructEnd] ∧
      lentype [typeStructBegin, 105, typeStructEnd] false true = -1 ∧
      ¬ Scans [typeStructBegin, 105, typeStructEnd] := by
  have ht : Complete [typeStructBegin, 105, typeStructEnd] :=
    .struct (.last (.basic (by decide)))
  refine ⟨ht, by decide, fun hscans => ?_⟩
  exact (scans_iff _).mp hscans 3 (by decide) ht List.mem_cons_self

end AfbBinder.Dbus
