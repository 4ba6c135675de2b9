import AfbBinder.Lib.Bytes

/-!
# The texts of JSON values

The grammar of RFC 8259, on bytes, and what a reader that only counts brackets and skips
strings makes of the texts it derives: they leave the depth as it was.
-/

namespace AfbBinder.Lib.JsonText

def space : UInt8 := 32
def quote : UInt8 := 34
def comma : UInt8 := 44
def colon : UInt8 := 58
def openBracket : UInt8 := 91
def backslash : UInt8 := 92
def closeBracket : UInt8 := 93
def openBrace : UInt8 := 123
def closeBrace : UInt8 := 125

/-! ## The grammar -/

/-- `ws` -/
def White (s : Bytes) : Prop := ∀ c ∈ s, c = space ∨ c = 9 ∨ c = 10 ∨ c = 13

/-- `1*DIGIT` -/
def Digits (s : Bytes) : Prop := s ≠ [] ∧ ∀ c ∈ s, 48 ≤ c ∧ c ≤ 57

/-- `int` -/
def Integer (s : Bytes) : Prop := Digits s ∧ (s.head? = some 48 → s = [48])

/-- `[ frac ]` -/
def Fraction (s : Bytes) : Prop := s = [] ∨ ∃ digits, Digits digits ∧ s = 46 :: digits

/-- `[ exp ]` -/
def Exponent (s : Bytes) : Prop :=
  s = [] ∨ ∃ e sign digits, (e = 101 ∨ e = 69) ∧ (sign = [] ∨ sign = [43] ∨ sign = [45]) ∧
    Digits digits ∧ s = e :: (sign ++ digits)

/-- `number` -/
def Number (s : Bytes) : Prop :=
  ∃ minus int frac exp, (minus = [] ∨ minus = [45]) ∧ Integer int ∧ Fraction frac ∧
    Exponent exp ∧ s = minus ++ int ++ frac ++ exp

/-- `HEXDIG` -/
def HexDigit (c : UInt8) : Prop :=
  (48 ≤ c ∧ c ≤ 57) ∨ (65 ≤ c ∧ c ≤ 70) ∨ (97 ≤ c ∧ c ≤ 102)

/-- `*char` -/
inductive Chars : Bytes → Prop
  | nil : Chars []
  | unescaped {c : UInt8} {rest : Bytes} :
      32 ≤ c → c ≠ quote → c ≠ backslash → Chars rest → Chars (c :: rest)
  | escape {c : UInt8} {rest : Bytes} :
      c ∈ [quote, backslash, 47, 98, 102, 110, 114, 116] → Chars rest →
        Chars (backslash :: c :: rest)
  | unicode {a b c d : UInt8} {rest : Bytes} :
      HexDigit a → HexDigit b → HexDigit c → HexDigit d → Chars rest →
        Chars (backslash :: 117 :: a :: b :: c :: d :: rest)

/-- What a text is the text of.  A `padded` value has white space around it. -/
inductive Part where
  | value
  | padded
  | elements
  | member
  | members
deriving DecidableEq

/-- The texts of each part. -/
inductive Derives : Part → Bytes → Prop
  | null : Derives .value [110, 117, 108, 108]
  | true : Derives .value [116, 114, 117, 101]
  | false : Derives .value [102, 97, 108, 115, 101]
  | number {s : Bytes} : Number s → Derives .value s
  | string {s : Bytes} : Chars s → Derives .value (quote :: (s ++ [quote]))
  | emptyArray {w : Bytes} : White w → Derives .value (openBracket :: (w ++ [closeBracket]))
  | array {s : Bytes} : Derives .elements s → Derives .value (openBracket :: (s ++ [closeBracket]))
  | emptyObject {w : Bytes} : White w → Derives .value (openBrace :: (w ++ [closeBrace]))
  | object {s : Bytes} : Derives .members s → Derives .value (openBrace :: (s ++ [closeBrace]))
  | padded {w v w' : Bytes} : White w → Derives .value v → White w' → Derives .padded (w ++ v ++ w')
  | element {s : Bytes} : Derives .padded s → Derives .elements s
  | elements {s t : Bytes} : Derives .padded s → Derives .elements t →
      Derives .elements (s ++ comma :: t)
  | member {w s w' v : Bytes} : White w → Chars s → White w' → Derives .padded v →
      Derives .member (w ++ quote :: (s ++ quote :: (w' ++ colon :: v)))
  | oneMember {s : Bytes} : Derives .member s → Derives .members s
  | members {s t : Bytes} : Derives .member s → Derives .members t →
      Derives .members (s ++ comma :: t)

/-! ## Counting brackets -/

/-- The inside of a string, for a reader that only looks for its end. -/
inductive Quoted : Bytes → Prop
  | nil : Quoted []
  | char {c : UInt8} {rest : Bytes} :
      c ≠ backslash → c ≠ 0 → c ≠ quote → Quoted rest → Quoted (c :: rest)
  | escape {c : UInt8} {rest : Bytes} : c ≠ 0 → Quoted rest → Quoted (backslash :: c :: rest)

/-- The bytes that the reader passes over outside of strings. -/
def Plain (c : UInt8) : Prop :=
  c ≠ openBrace ∧ c ≠ openBracket ∧ c ≠ closeBrace ∧ c ≠ closeBracket ∧ c ≠ 0 ∧ c ≠ quote

/-- The reader goes over the bytes from the depth `n` to the depth `m`, and meets no comma
at the depth 0. -/
inductive Passes : Nat → Bytes → Nat → Prop
  | nil {n : Nat} : Passes n [] n
  | opening {n m : Nat} {c : UInt8} {rest : Bytes} :
      c = openBrace ∨ c = openBracket → Passes (n + 1) rest m → Passes n (c :: rest) m
  | closing {n m : Nat} {c : UInt8} {rest : Bytes} :
      c = closeBrace ∨ c = closeBracket → Passes n rest m → Passes (n + 1) (c :: rest) m
  | string {n m : Nat} {inside rest : Bytes} :
      Quoted inside → Passes n rest m → Passes n (quote :: (inside ++ quote :: rest)) m
  | other {n m : Nat} {c : UInt8} {rest : Bytes} :
      Plain c → (n = 0 → c ≠ comma) → Passes n rest m → Passes n (c :: rest) m

theorem Passes.append {n m k : Nat} {s t : Bytes} (h : Passes n s m) (h' : Passes m t k) :
    Passes n (s ++ t) k := by
  induction h with
  | nil => exact h'
  | opening hc _ ih => exact .opening hc (ih h')
  | closing hc _ ih => exact .closing hc (ih h')
  | string hin _ ih =>
      rw [List.cons_append, List.append_assoc, List.cons_append]
      exact .string hin (ih h')
  | other hc hcomma _ ih => exact .other hc hcomma (ih h')

theorem Passes.of_plain {n : Nat} {s : Bytes} (h : ∀ c ∈ s, Plain c ∧ (n = 0 → c ≠ comma)) :
    Passes n s n := by
  induction s with
  | nil => exact .nil
  | cons c rest ih =>
      have hc := h c List.mem_cons_self
      exact .other hc.1 hc.2 (ih fun d hd => h d (List.mem_cons_of_mem c hd))

/-- What stands in brackets. -/
theorem Passes.bracketed {n : Nat} {s : Bytes} {c d : UInt8} (hc : c = openBrace ∨ c = openBracket)
    (hd : d = closeBrace ∨ d = closeBracket) (h : Passes (n + 1) s (n + 1)) :
    Passes n (c :: (s ++ [d])) n :=
  .opening hc (h.append (.closing hd .nil))

theorem Quoted.of_plain {s : Bytes} (h : ∀ c ∈ s, c ≠ backslash ∧ c ≠ 0 ∧ c ≠ quote) : Quoted s := by
  induction s with
  | nil => exact .nil
  | cons c rest ih =>
      have hc := h c List.mem_cons_self
      exact .char hc.1 hc.2.1 hc.2.2 (ih fun d hd => h d (List.mem_cons_of_mem c hd))

theorem Quoted.nulFree {s : Bytes} (h : Quoted s) : (0 : UInt8) ∉ s := by
  induction h with
  | nil => exact List.not_mem_nil
  | char _ hnul _ _ ih => simp [Ne.symm hnul, ih]
  | escape hnul _ ih => simp [Ne.symm hnul, ih, backslash]

theorem Passes.nulFree {n m : Nat} {s : Bytes} (h : Passes n s m) : (0 : UInt8) ∉ s := by
  induction h with
  | nil => exact List.not_mem_nil
  | opening hc _ ih =>
      rcases hc with rfl | rfl
      · simp [ih, openBrace]
      · simp [ih, openBracket]
  | closing hc _ ih =>
      rcases hc with rfl | rfl
      · simp [ih, closeBrace]
      · simp [ih, closeBracket]
  | string hin _ ih => simp [hin.nulFree, ih, quote]
  | other hc _ _ ih => simp [Ne.symm hc.2.2.2.2.1, ih]

/-! ## JSON values keep the depth -/

theorem white_plain {c : UInt8} (h : c = space ∨ c = 9 ∨ c = 10 ∨ c = 13) :
    Plain c ∧ c ≠ comma := by
  rcases h with rfl | rfl | rfl | rfl
  all_goals exact ⟨⟨by decide, by decide, by decide, by decide, by decide, by decide⟩, by decide⟩

theorem White.passes {w : Bytes} (h : White w) (n : Nat) : Passes n w n :=
  .of_plain fun c hc => ⟨(white_plain (h c hc)).1, fun _ => (white_plain (h c hc)).2⟩

/-- The bytes of numbers. -/
def NumberByte (c : UInt8) : Prop :=
  (48 ≤ c ∧ c ≤ 57) ∨ c = 43 ∨ c = 45 ∨ c = 46 ∨ c = 69 ∨ c = 101

theorem numberByte_plain {c : UInt8} (h : NumberByte c) : Plain c ∧ c ≠ comma ∧ c ≠ space := by
  simp only [NumberByte, Plain, openBrace, openBracket, closeBrace, closeBracket, quote, comma,
    space, UInt8.le_iff_toNat_le, ne_eq, ← UInt8.toNat_inj] at h ⊢
  simp at h ⊢
  omega

theorem Digits.numberByte {s : Bytes} (h : Digits s) {c : UInt8} (hc : c ∈ s) : NumberByte c :=
  .inl (h.2 c hc)

theorem Number.numberByte {s : Bytes} (h : Number s) : s ≠ [] ∧ ∀ c ∈ s, NumberByte c := by
  obtain ⟨minus, int, frac, exp, hminus, hint, hfrac, hexp, rfl⟩ := h
  have hnonempty := hint.1.1
  refine ⟨by simp [hnonempty], fun c hc => ?_⟩
  simp only [List.mem_append] at hc
  rcases hc with ((hc | hc) | hc) | hc
  · rcases hminus with rfl | rfl
    · cases hc
    · rw [List.mem_singleton] at hc
      exact .inr (.inr (.inl hc))
  · exact hint.1.numberByte hc
  · rcases hfrac with rfl | ⟨digits, hdigits, rfl⟩
    · cases hc
    · rcases List.mem_cons.mp hc with rfl | hc
      · exact .inr (.inr (.inr (.inl rfl)))
      · exact hdigits.numberByte hc
  · rcases hexp with rfl | ⟨e, sign, digits, he, hsign, hdigits, rfl⟩
    · cases hc
    · rcases List.mem_cons.mp hc with rfl | hc
      · rcases he with rfl | rfl
        · exact .inr (.inr (.inr (.inr (.inr rfl))))
        · exact .inr (.inr (.inr (.inr (.inl rfl))))
      · rcases List.mem_append.mp hc with hc | hc
        · rcases hsign with rfl | rfl | rfl
          · cases hc
          · rw [List.mem_singleton] at hc
            exact .inr (.inl hc)
          · rw [List.mem_singleton] at hc
            exact .inr (.inr (.inl hc))
        · exact hdigits.numberByte hc

theorem HexDigit.quotable {c : UInt8} (h : HexDigit c) : c ≠ backslash ∧ c ≠ 0 ∧ c ≠ quote := by
  simp only [HexDigit, backslash, quote, UInt8.le_iff_toNat_le, ne_eq, ← UInt8.toNat_inj] at h ⊢
  simp at h ⊢
  omega

theorem Chars.quoted {s : Bytes} (h : Chars s) : Quoted s := by
  induction h with
  | nil => exact .nil
  | @unescaped c rest hle hquote hback _ ih =>
      have hnul : c ≠ 0 := by
        intro hc
        subst hc
        exact absurd hle (by decide)
      exact .char hback hnul hquote ih
  | @escape c rest hc _ ih =>
      have hnul : c ≠ 0 := by
        intro h
        subst h
        exact absurd hc (by decide)
      exact .escape hnul ih
  | unicode ha hb hc hd _ ih =>
      refine .escape (by decide) ?_
      refine .char ha.quotable.1 ha.quotable.2.1 ha.quotable.2.2 ?_
      refine .char hb.quotable.1 hb.quotable.2.1 hb.quotable.2.2 ?_
      refine .char hc.quotable.1 hc.quotable.2.1 hc.quotable.2.2 ?_
      exact .char hd.quotable.1 hd.quotable.2.1 hd.quotable.2.2 ih

/-- The parts that stand in brackets only, because of their commas. -/
def Part.listed : Part → Bool
  | .value => false
  | .padded => false
  | _ => true

theorem comma_passes (n : Nat) : Passes (n + 1) [comma] (n + 1) :=
  .other ⟨by decide, by decide, by decide, by decide, by decide, by decide⟩ (fun h => by cases h)
    .nil

theorem colon_passes (n : Nat) : Passes n [colon] n :=
  .other ⟨by decide, by decide, by decide, by decide, by decide, by decide⟩ (fun _ => by decide) .nil

theorem literal_passes (n : Nat) {s : Bytes} (h : ∀ c ∈ s, 97 ≤ c ∧ c ≤ 122) : Passes n s n := by
  apply Passes.of_plain
  intro c hc
  have hletter := h c hc
  simp only [Plain, openBrace, openBracket, closeBrace, closeBracket, quote, comma,
    UInt8.le_iff_toNat_le, ne_eq, ← UInt8.toNat_inj] at hletter ⊢
  simp at hletter ⊢
  omega

/-- Every text of the grammar leaves the depth as it was. -/
theorem Derives.passes {part : Part} {s : Bytes} (h : Derives part s) :
    ∀ n, (part.listed = Bool.true → n ≠ 0) → Passes n s n := by
  induction h with
  | null => exact fun n _ => literal_passes n (by simp)
  | true => exact fun n _ => literal_passes n (by simp)
  | false => exact fun n _ => literal_passes n (by simp)
  | number hs =>
      intro n _
      apply Passes.of_plain
      intro c hc
      have hplain := numberByte_plain (hs.numberByte.2 c hc)
      exact ⟨hplain.1, fun _ => hplain.2.1⟩
  | string hs => exact fun n _ => .string hs.quoted .nil
  | emptyArray hw => exact fun n _ => .bracketed (.inr rfl) (.inr rfl) (hw.passes (n + 1))
  | array _ ih => exact fun n _ => .bracketed (.inr rfl) (.inr rfl) (ih (n + 1) fun _ => by omega)
  | emptyObject hw => exact fun n _ => .bracketed (.inl rfl) (.inl rfl) (hw.passes (n + 1))
  | object _ ih => exact fun n _ => .bracketed (.inl rfl) (.inl rfl) (ih (n + 1) fun _ => by omega)
  | padded hw _ hw' ih =>
      intro n _
      exact ((hw.passes n).append (ih n nofun)).append (hw'.passes n)
  | element _ ih => exact fun n _ => ih n nofun
  | elements _ _ ih ih' =>
      intro n hn
      cases n with
      | zero => exact absurd rfl (hn rfl)
      | succ n => exact (ih (n + 1) nofun).append ((comma_passes n).append (ih' (n + 1) hn))
  | member hw hs hw' _ ih =>
      intro n _
      apply (hw.passes n).append
      apply Passes.string hs.quoted
      exact (hw'.passes n).append ((colon_passes n).append (ih n nofun))
  | oneMember _ ih => exact fun n hn => ih n hn
  | members _ _ ih ih' =>
      intro n hn
      cases n with
      | zero => exact absurd rfl (hn rfl)
      | succ n => exact (ih (n + 1) hn).append ((comma_passes n).append (ih' (n + 1) hn))

/-! ## Ends -/

/-- No blank stands at an end of the text. -/
def Trimmed (s : Bytes) : Prop := s.head? ≠ some space ∧ s.getLast? ≠ some space

theorem Trimmed.enclosed {c d : UInt8} (s : Bytes) (hc : c ≠ space) (hd : d ≠ space) :
    Trimmed (c :: (s ++ [d])) := by
  refine ⟨by simpa using hc, ?_⟩
  rw [← List.cons_append, List.getLast?_append]
  simpa using hd

/-- The text of a value has no white space around it. -/
theorem Derives.trimmed {s : Bytes} (h : Derives .value s) : Trimmed s := by
  cases h with
  | null => exact ⟨by decide, by decide⟩
  | true => exact ⟨by decide, by decide⟩
  | false => exact ⟨by decide, by decide⟩
  | number hs =>
      have hbytes := hs.numberByte.2
      refine ⟨fun hhead => ?_, fun hlast => ?_⟩
      · exact (numberByte_plain (hbytes space (List.mem_of_mem_head? hhead))).2.2 rfl
      · exact (numberByte_plain (hbytes space (List.mem_of_getLast? hlast))).2.2 rfl
  | string hs => exact .enclosed _ (by decide) (by decide)
  | emptyArray hw => exact .enclosed _ (by decide) (by decide)
  | array hs => exact .enclosed _ (by decide) (by decide)
  | emptyObject hw => exact .enclosed _ (by decide) (by decide)
  | object hs => exact .enclosed _ (by decide) (by decide)

end AfbBinder.Lib.JsonText
