import AfbBinder.Lib.Path

/-!
# The two checks of relative paths

`locale-root.c` and `afb-hreq.c` have each their copy of `validsubpath`.  Both scan
the text with the same switch, one turn of it being `scanTurn`; they differ in the
test of a leading slash and in what they do when the level becomes negative.  A
text is the bytes before its NUL, so the end of the list is the test `!subpath[i]`.
The index and the level are unbounded.
-/

namespace AfbBinder.Locale

open Lib Lib.Path

/-- `while(subpath[i] && subpath[i] != '/') i++;` -/
def skipName : Bytes → Bytes
  | [] => []
  | c :: rest => if c = slash then c :: rest else skipName rest

inductive Turn where
  | neutral
  | up
  | down
deriving DecidableEq, Repr

/-- One turn of the switch on the character `c`, and where it leaves the scan. -/
def scanTurn (c : UInt8) (rest : Bytes) : Turn × Bytes :=
  if c = dot then
    match rest with
    | [] => (.neutral, [])
    | c₁ :: rest₁ =>
        if c₁ = slash then (.neutral, rest₁)
        else if c₁ = dot then
          match rest₁ with
          | [] => (.up, [])
          | c₂ :: rest₂ => if c₂ = slash then (.up, rest₂) else (.down, skipName rest₂)
        else (.down, skipName rest₁)
  else if c = slash then (.neutral, rest)
  else (.down, skipName rest)

theorem skipName_length (s : Bytes) : (skipName s).length ≤ s.length := by
  induction s with
  | nil => simp [skipName]
  | cons c rest ih =>
      unfold skipName
      split
      · exact Nat.le_refl _
      · simp only [List.length_cons]
        omega

theorem scanTurn_length (c : UInt8) (rest : Bytes) :
    (scanTurn c rest).2.length ≤ rest.length := by
  unfold scanTurn
  split
  · split
    · simp
    · rename_i c₁ rest₁
      have h₁ := skipName_length rest₁
      split
      · simp
      · split
        · split
          · simp
          · rename_i c₂ rest₂
            have h₂ := skipName_length rest₂
            split <;> simp only [List.length_cons] <;> omega
        · simp only [List.length_cons]
          omega
  · split
    · exact Nat.le_refl _
    · exact skipName_length rest

namespace Root

/-- The loop of `validsubpath` in `locale-root.c`: a negative level stays negative. -/
def scan (l : Int) (s : Bytes) : Bool :=
  match s with
  | [] => l ≥ 0
  | c :: rest =>
      match h : scanTurn c rest with
      | (.neutral, rest') => scan l rest'
      | (.up, rest') => scan (l - 1) rest'
      | (.down, rest') => scan (if l ≥ 0 then l + 1 else l) rest'
termination_by s.length
decreasing_by
  all_goals
    have hlen := scanTurn_length c rest
    simp only [h] at hlen
    simp only [List.length_cons]
    omega

/-- `validsubpath` of `locale-root.c`. -/
def validsubpath (subpath : Bytes) : Bool :=
  if subpath.head? = some slash then false else scan 0 subpath

/-- `normalsubpath`: drops the leading slashes and checks the rest. -/
def normalsubpath (subpath : Bytes) : Option Bytes :=
  let relative := subpath.dropWhile (· = slash)
  if validsubpath relative then some relative else none

end Root

namespace Hreq

/-- The loop of `validsubpath` in `afb-hreq.c`: it ends at the first negative level. -/
def scan (l : Int) (s : Bytes) : Bool :=
  match s with
  | [] => true
  | c :: rest =>
      match h : scanTurn c rest with
      | (.neutral, rest') => scan l rest'
      | (.up, rest') => if l - 1 < 0 then false else scan (l - 1) rest'
      | (.down, rest') => scan (l + 1) rest'
termination_by s.length
decreasing_by
  all_goals
    have hlen := scanTurn_length c rest
    simp only [h] at hlen
    simp only [List.length_cons]
    omega

/-- `validsubpath` of `afb-hreq.c`. -/
def validsubpath (subpath : Bytes) : Bool := scan 0 subpath

end Hreq

/-! ## One turn of the switch -/

def Turn.delta : Turn → Int
  | .neutral => 0
  | .up => -1
  | .down => 1

theorem skipName_split (s : Bytes) :
    ∃ name, s = name ++ skipName s ∧ slash ∉ name ∧
      (skipName s = [] ∨ ∃ rest, skipName s = slash :: rest) := by
  induction s with
  | nil => exact ⟨[], rfl, by simp, Or.inl rfl⟩
  | cons c rest ih =>
      by_cases hc : c = slash
      · exact ⟨[], by simp [skipName, hc], by simp, Or.inr ⟨rest, by simp [skipName, hc]⟩⟩
      · obtain ⟨name, hsplit, hname, hend⟩ := ih
        refine ⟨c :: name, ?_, ?_, ?_⟩
        · simp only [skipName, hc, if_false, List.cons_append]
          rw [← hsplit]
        · simp [Ne.symm hc, hname]
        · simpa [skipName, hc] using hend

/-- A component that goes down, up to the slash that ends it. -/
theorem neverNegative_name (front : Bytes) {rest : Bytes} (hfront : slash ∉ front)
    (hlevel : ∀ name, slash ∉ name → level (front ++ name) = 1) (depth : Int) :
    NeverNegative depth (components (front ++ rest)) ↔
      0 ≤ depth + 1 ∧ NeverNegative (depth + 1) (components (skipName rest)) := by
  obtain ⟨name, hsplit, hname, hend⟩ := skipName_split rest
  have hnot : slash ∉ front ++ name := by simp [hfront, hname]
  rcases hend with hend | ⟨tail, hend⟩
  · have hrest : front ++ rest = front ++ name := by rw [hsplit, hend, List.append_nil]
    rw [hrest, components_of_not_mem _ hnot, hend]
    simp only [NeverNegative, hlevel name hname, components_nil, level_nil, Int.add_zero, and_true,
      and_self]
  · have hrest : front ++ rest = (front ++ name) ++ slash :: tail := by
      rw [hsplit, hend, List.append_assoc]
    have hempty : components (slash :: tail) = [] :: components tail :=
      components_slash [] (by simp) tail
    rw [hrest, components_slash _ hnot, hend, hempty]
    simp only [NeverNegative, hlevel name hname, level_nil, Int.add_zero]
    constructor
    · exact fun h => ⟨h.1, h.1, h.2⟩
    · exact fun h => ⟨h.1, h.2.2⟩

theorem neverNegative_turn (depth : Int) (c : UInt8) (rest : Bytes) :
    NeverNegative depth (components (c :: rest)) ↔
      0 ≤ depth + (scanTurn c rest).1.delta ∧
        NeverNegative (depth + (scanTurn c rest).1.delta) (components (scanTurn c rest).2) := by
  have hds : dot ≠ slash := by decide
  unfold scanTurn
  by_cases hdot : c = dot
  · subst hdot
    rw [if_pos rfl]
    cases rest with
    | nil => simp [components_of_not_mem [dot] (by simp [hds.symm]), NeverNegative, level,
        Turn.delta]
    | cons c₁ rest₁ =>
        dsimp only
        by_cases hs₁ : c₁ = slash
        · subst hs₁
          have hcomp : components (dot :: slash :: rest₁) = [dot] :: components rest₁ :=
            components_slash [dot] (by simp [hds.symm]) rest₁
          rw [if_pos rfl, hcomp]
          simp [NeverNegative, level, Turn.delta]
        · rw [if_neg hs₁]
          by_cases hd₁ : c₁ = dot
          · subst hd₁
            rw [if_pos rfl]
            cases rest₁ with
            | nil =>
                rw [components_of_not_mem [dot, dot] (by simp [hds.symm])]
                simp [NeverNegative, level, Turn.delta]
            | cons c₂ rest₂ =>
                dsimp only
                by_cases hs₂ : c₂ = slash
                · subst hs₂
                  have hcomp : components (dot :: dot :: slash :: rest₂) =
                      [dot, dot] :: components rest₂ :=
                    components_slash [dot, dot] (by simp [hds.symm]) rest₂
                  rw [if_pos rfl, hcomp]
                  simp [NeverNegative, level, Turn.delta]
                · rw [if_neg hs₂]
                  exact neverNegative_name [dot, dot, c₂]
                    (by simp [hds.symm, Ne.symm hs₂]) (fun name _ => by simp [level]) depth
          · rw [if_neg hd₁]
            exact neverNegative_name [dot, c₁] (by simp [hds.symm, Ne.symm hs₁])
              (fun name _ => by simp [level, hd₁]) depth
  · rw [if_neg hdot]
    by_cases hslash : c = slash
    · subst hslash
      have hcomp : components (slash :: rest) = [] :: components rest :=
        components_slash [] (by simp) rest
      rw [if_pos rfl, hcomp]
      simp [NeverNegative, Turn.delta]
    · rw [if_neg hslash]
      exact neverNegative_name [c] (by simp [Ne.symm hslash])
        (fun name _ => by simp [level, hdot]) depth

/-! ## What the two checks accept -/

theorem Root.scan_turn (l : Int) (c : UInt8) (rest : Bytes) :
    Root.scan l (c :: rest) =
      Root.scan (if l < 0 ∧ (scanTurn c rest).1 = .down then l
        else l + (scanTurn c rest).1.delta) (scanTurn c rest).2 := by
  rw [Root.scan]
  split <;> rename_i rest' h <;> simp only [h, Turn.delta]
  · simp
  · simp [Int.sub_eq_add_neg]
  · by_cases hl : 0 ≤ l
    · simp [hl, Int.not_lt.mpr hl]
    · simp [hl, Int.not_le.mp hl]

theorem Hreq.scan_turn (l : Int) (c : UInt8) (rest : Bytes) :
    Hreq.scan l (c :: rest) =
      if (scanTurn c rest).1 = .up ∧ l + (scanTurn c rest).1.delta < 0 then false
      else Hreq.scan (l + (scanTurn c rest).1.delta) (scanTurn c rest).2 := by
  rw [Hreq.scan]
  split <;> rename_i rest' h <;> simp only [h, Turn.delta]
  · simp
  · simp [Int.sub_eq_add_neg]
  · simp

theorem Turn.delta_cases (t : Turn) :
    (t = .neutral ∧ t.delta = 0) ∨ (t = .up ∧ t.delta = -1) ∨ (t = .down ∧ t.delta = 1) := by
  cases t <;> simp [Turn.delta]

/-- The level sticks once it is negative. -/
theorem Root.scan_negative {l : Int} (hl : l < 0) (s : Bytes) : Root.scan l s = false := by
  match s with
  | [] =>
      rw [Root.scan]
      simpa using hl
  | c :: rest =>
      have hlen := scanTurn_length c rest
      rw [Root.scan_turn]
      refine Root.scan_negative ?_ (scanTurn c rest).2
      rcases Turn.delta_cases (scanTurn c rest).1 with ⟨ht, -⟩ | ⟨ht, -⟩ | ⟨ht, -⟩
      · simp [ht, hl, Turn.delta]
      · simp only [ht, Turn.delta, reduceCtorEq, and_false, if_false]
        omega
      -- a name does not take the level up again
      · simp [ht, hl]
termination_by s.length

theorem Root.scan_iff {l : Int} (hl : 0 ≤ l) (s : Bytes) :
    Root.scan l s = true ↔ NeverNegative l (components s) := by
  match s with
  | [] =>
      rw [Root.scan]
      simp [NeverNegative, hl]
  | c :: rest =>
      have hlen := scanTurn_length c rest
      have hsticky : ¬ (l < 0 ∧ (scanTurn c rest).1 = .down) := fun h => by omega
      rw [Root.scan_turn, if_neg hsticky, neverNegative_turn]
      by_cases hnext : 0 ≤ l + (scanTurn c rest).1.delta
      · rw [Root.scan_iff hnext (scanTurn c rest).2]
        simp [hnext]
      · rw [Root.scan_negative (by omega)]
        simp [hnext]
termination_by s.length

theorem Hreq.scan_iff {l : Int} (hl : 0 ≤ l) (s : Bytes) :
    Hreq.scan l s = true ↔ NeverNegative l (components s) := by
  match s with
  | [] =>
      rw [Hreq.scan]
      simp [NeverNegative, hl]
  | c :: rest =>
      have hlen := scanTurn_length c rest
      rw [Hreq.scan_turn, neverNegative_turn]
      by_cases hnext : 0 ≤ l + (scanTurn c rest).1.delta
      · have hgo : ¬ ((scanTurn c rest).1 = .up ∧ l + (scanTurn c rest).1.delta < 0) :=
          fun h => by omega
        rw [if_neg hgo, Hreq.scan_iff hnext (scanTurn c rest).2]
        simp [hnext]
      · have hup : (scanTurn c rest).1 = .up := by
          rcases Turn.delta_cases (scanTurn c rest).1 with ⟨_, hd⟩ | ⟨ht, _⟩ | ⟨_, hd⟩
          · omega
          · exact ht
          · omega
        rw [if_pos ⟨hup, by omega⟩]
        simp [hnext]
termination_by s.length

theorem Root.validsubpath_iff (s : Bytes) :
    Root.validsubpath s = true ↔ s.head? ≠ some slash ∧ NeverNegative 0 (components s) := by
  unfold Root.validsubpath
  by_cases hslash : s.head? = some slash
  · simp [hslash]
  · rw [if_neg hslash, Root.scan_iff (Int.le_refl 0)]
    simp [hslash]

theorem Hreq.validsubpath_eq {s : Bytes} (hslash : s.head? ≠ some slash) :
    Hreq.validsubpath s = Root.validsubpath s := by
  have hhreq := Hreq.scan_iff (Int.le_refl 0) s
  have hroot := Root.validsubpath_iff s
  rw [Bool.eq_iff_iff, hroot, Hreq.validsubpath, hhreq]
  simp [hslash]

end AfbBinder.Locale
