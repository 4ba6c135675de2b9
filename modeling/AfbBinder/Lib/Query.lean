import AfbBinder.Lib.Bytes

/-!
# The query of a URL

The query stands between the first `?` and the first `#`.  It is cut at the `&`, and each
argument at its first `=`; then a `+` is a space and `%XX` a byte.
-/

namespace AfbBinder.Lib.Query

def space : UInt8 := 32
def number : UInt8 := 35
def percent : UInt8 := 37
def ampersand : UInt8 := 38
def plus : UInt8 := 43
def equal : UInt8 := 61
def question : UInt8 := 63

/-! ## The bytes -/

/-- The value of a hexadecimal digit. -/
def hexValue (c : UInt8) : Option UInt8 :=
  if 48 ≤ c ∧ c ≤ 57 then some (c - 48)
  else if 65 ≤ c ∧ c ≤ 70 then some (c - 55)
  else if 97 ≤ c ∧ c ≤ 102 then some (c - 87)
  else none

/-- Decodes the `%XX`.  A `%` that fewer than two bytes follow ends the text. -/
def unescape : Bytes → Bytes
  | [] => []
  | c :: rest =>
      if c = percent then
        match rest with
        | high :: low :: rest =>
            match hexValue high, hexValue low with
            | some high, some low => (high * 16 + low) :: unescape rest
            | _, _ => c :: unescape (high :: low :: rest)
        | _ => []
      else c :: unescape rest

def unplus (c : UInt8) : UInt8 := if c = plus then space else c

/-- A key or a value. -/
def component (text : Bytes) : Bytes := unescape (text.map unplus)

theorem unescape_cons {c : UInt8} (h : c ≠ percent) (rest : Bytes) :
    unescape (c :: rest) = c :: unescape rest := by
  conv => lhs; rw [unescape.eq_def]
  exact if_neg h

theorem unescape_percent {high low a b : UInt8} (hhigh : hexValue high = some a)
    (hlow : hexValue low = some b) (rest : Bytes) :
    unescape (percent :: high :: low :: rest) = (a * 16 + b) :: unescape rest := by
  rw [unescape, if_pos rfl, hhigh, hlow]

theorem map_unplus_eq_iff (text : Bytes) : text.map unplus = text ↔ plus ∉ text := by
  induction text with
  | nil => simp
  | cons c text ih =>
      have hc : unplus c = c ↔ ¬plus = c := by
        unfold unplus
        split
        case isTrue hplus =>
          rw [hplus]
          decide
        case isFalse hplus => simpa using Ne.symm hplus
      rw [List.map_cons, List.cons.injEq, ih, hc, List.mem_cons, not_or]

/-! ## The arguments -/

/-- The pieces between the `&`, but an empty last one. -/
def pieces : Bytes → List Bytes
  | [] => []
  | c :: rest =>
      if c = ampersand then [] :: pieces rest
      else
        match pieces rest with
        | [] => [[c]]
        | piece :: more => (c :: piece) :: more

/-- The key and the value of a piece. -/
def argument (piece : Bytes) : Bytes × Option Bytes :=
  (component (piece.takeWhile (· ≠ equal)),
    match piece.dropWhile (· ≠ equal) with
    | [] => none
    | _ :: value => some (component value))

/-- What stands between the first `?` and the first `#`. -/
def query (url : Bytes) : Bytes := ((url.takeWhile (· ≠ number)).dropWhile (· ≠ question)).tail

/-- The arguments of a URL. -/
def arguments (url : Bytes) : List (Bytes × Option Bytes) := (pieces (query url)).map argument

theorem takeWhile_ne {c : UInt8} {front : Bytes} (hfront : c ∉ front) (back : Bytes) :
    (front ++ back).takeWhile (· ≠ c) = front ++ back.takeWhile (· ≠ c) := by
  apply List.takeWhile_append_of_pos
  intro b hb
  simpa using fun h : b = c => hfront (h ▸ hb)

theorem dropWhile_ne {c : UInt8} {front : Bytes} (hfront : c ∉ front) (back : Bytes) :
    (front ++ back).dropWhile (· ≠ c) = back.dropWhile (· ≠ c) := by
  apply List.dropWhile_append_of_pos
  intro b hb
  simpa using fun h : b = c => hfront (h ▸ hb)

theorem pieces_cons {front : Bytes} (hfront : ampersand ∉ front) (rest : Bytes) :
    pieces (front ++ ampersand :: rest) = front :: pieces rest := by
  induction front with
  | nil => simp [pieces]
  | cons c front ih =>
      rw [List.mem_cons, not_or] at hfront
      rw [List.cons_append, pieces, if_neg (Ne.symm hfront.1), ih hfront.2]

theorem pieces_single {piece : Bytes} (hpiece : ampersand ∉ piece) (hne : piece ≠ []) :
    pieces piece = [piece] := by
  induction piece with
  | nil => exact absurd rfl hne
  | cons c piece ih =>
      rw [List.mem_cons, not_or] at hpiece
      rw [pieces, if_neg (Ne.symm hpiece.1)]
      cases piece with
      | nil => rfl
      | cons d piece => rw [ih hpiece.2 (List.cons_ne_nil d piece)]

theorem argument_key {key : Bytes} (hkey : equal ∉ key) : argument key = (component key, none) := by
  have htake := takeWhile_ne hkey []
  have hdrop := dropWhile_ne hkey []
  rw [List.append_nil, List.takeWhile_nil, List.append_nil] at htake
  rw [List.append_nil, List.dropWhile_nil] at hdrop
  unfold argument
  rw [htake, hdrop]

theorem argument_value {key : Bytes} (hkey : equal ∉ key) (value : Bytes) :
    argument (key ++ equal :: value) = (component key, some (component value)) := by
  have htake := takeWhile_ne hkey (equal :: value)
  have hdrop := dropWhile_ne hkey (equal :: value)
  rw [List.takeWhile_cons_of_neg (by simp), List.append_nil] at htake
  rw [List.dropWhile_cons_of_neg (by simp)] at hdrop
  unfold argument
  rw [htake, hdrop]

/-- The query that follows a path. -/
theorem query_append {path : Bytes} (hquestion : question ∉ path) (hnumber : number ∉ path)
    (text : Bytes) : query (path ++ question :: text) = text.takeWhile (· ≠ number) := by
  unfold query
  rw [takeWhile_ne hnumber, List.takeWhile_cons_of_pos (by decide), dropWhile_ne hquestion,
    List.dropWhile_cons_of_neg (by simp), List.tail_cons]

theorem query_path {path : Bytes} (hquestion : question ∉ path) (hnumber : number ∉ path) :
    query path = [] := by
  have htake := takeWhile_ne hnumber []
  have hdrop := dropWhile_ne hquestion []
  rw [List.append_nil, List.takeWhile_nil, List.append_nil] at htake
  rw [List.append_nil, List.dropWhile_nil] at hdrop
  unfold query
  rw [htake, hdrop, List.tail_nil]

end AfbBinder.Lib.Query
