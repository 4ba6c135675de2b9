import AfbBinder.Lib.Bytes

/-!
# Lines

Texts without a CR LF inside, each followed by a CR LF.  The lines that a text is made of
are determined, up to an empty line or to the end of the text.
-/

namespace AfbBinder.Lib

/-- No CR is followed by a LF. -/
def CrlfFree (text : Bytes) : Prop := ¬ [13, 10] <:+: text

theorem crlfFree_of_no_cr {text : Bytes} (h : (13 : UInt8) ∉ text) : CrlfFree text :=
  fun hin => h (hin.subset List.mem_cons_self)

theorem crlfFree_nil : CrlfFree [] := crlfFree_of_no_cr List.not_mem_nil

/-- One byte more ends no line unless it is the LF after a CR. -/
theorem CrlfFree.snoc {text : Bytes} (htext : CrlfFree text) {c : UInt8}
    (h : ¬ (c = 10 ∧ text.getLast? = some 13)) : CrlfFree (text ++ [c]) := by
  intro hin
  rcases List.infix_concat_iff.mp hin with hsuffix | hinside
  · rcases List.suffix_concat_iff.mp hsuffix with hnil | ⟨front, heq, hfront⟩
    · cases hnil
    · have hends : front = [13] ∧ c = 10 := by
        have hlast : [13] ++ [10] = front ++ [c] := heq
        rcases List.append_inj' hlast rfl with ⟨hcr, hlf⟩
        exact ⟨hcr.symm, (List.singleton_inj.mp hlf).symm⟩
      rcases hfront with ⟨start, hstart⟩
      apply h
      rw [← hstart, hends.1, List.getLast?_append]
      exact ⟨hends.2, rfl⟩
  · exact htext hinside

theorem CrlfFree.front {text more : Bytes} (h : CrlfFree (text ++ more)) : CrlfFree text :=
  fun hin => h (hin.trans ⟨[], more, rfl⟩)

theorem CrlfFree.unique {text text' rest rest' : Bytes} (h : CrlfFree text) (h' : CrlfFree text')
    (heq : text ++ 13 :: 10 :: rest = text' ++ 13 :: 10 :: rest') : text = text' ∧ rest = rest' := by
  have hnone : ∀ {text text' rest rest' : Bytes}, CrlfFree text →
      text ++ 13 :: 10 :: rest = text' ++ 13 :: 10 :: rest' → text'.length ≤ text.length →
      text = text' ∧ rest = rest' := by
    intro text text' rest rest' h heq hle
    rcases append_split heq hle with ⟨middle, rfl, hback⟩
    cases middle with
    | nil =>
        simp only [List.nil_append, List.cons.injEq, true_and] at hback
        exact ⟨List.append_nil _, hback.symm⟩
    | cons c middle =>
        simp only [List.cons_append, List.cons.injEq] at hback
        rcases hback with ⟨rfl, hback⟩
        cases middle with
        | nil =>
            simp only [List.nil_append, List.cons.injEq] at hback
            exact absurd hback.1 (by decide)
        | cons d middle =>
            simp only [List.cons_append, List.cons.injEq] at hback
            rcases hback with ⟨rfl, -⟩
            exact absurd ⟨text', middle, by simp⟩ h
  rcases Nat.le_total text'.length text.length with hle | hle
  · exact hnone h heq hle
  · rcases hnone h' heq.symm hle with ⟨htext, hrest⟩
    exact ⟨htext.symm, hrest.symm⟩

/-- The lines, each one ended. -/
def crlfLines (lines : List Bytes) : Bytes := lines.flatMap (· ++ [13, 10])

@[simp] theorem crlfLines_nil : crlfLines [] = [] := rfl

@[simp] theorem crlfLines_cons (line : Bytes) (lines : List Bytes) :
    crlfLines (line :: lines) = line ++ 13 :: 10 :: crlfLines lines := by
  simp [crlfLines]

/-- An empty line, of which the LF may be missing at the end. -/
def EmptyLine (text : Bytes) : Prop := text = [13] ∨ ∃ rest, text = 13 :: 10 :: rest

theorem EmptyLine.not_line {text : Bytes} (h : EmptyLine text) {line rest : Bytes} (hline : CrlfFree line)
    (hne : line ≠ []) : text ≠ line ++ 13 :: 10 :: rest := by
  rintro rfl
  cases line with
  | nil => exact hne rfl
  | cons c line =>
      rcases h with hlast | ⟨after, hempty⟩
      · have hlen := congrArg List.length hlast
        simp at hlen
      · simp only [List.cons_append, List.cons.injEq] at hempty
        rcases hempty with ⟨rfl, hempty⟩
        cases line with
        | nil =>
            simp only [List.nil_append, List.cons.injEq] at hempty
            exact absurd hempty.1 (by decide)
        | cons d line =>
            simp only [List.cons_append, List.cons.injEq] at hempty
            rcases hempty with ⟨rfl, -⟩
            exact hline ⟨[], line, rfl⟩

theorem crlfLines_unique {lines lines' : List Bytes} {rest rest' : Bytes}
    (hfree : ∀ line ∈ lines, CrlfFree line ∧ line ≠ []) (hrest : EmptyLine rest)
    (hfree' : ∀ line ∈ lines', CrlfFree line ∧ line ≠ []) (hrest' : EmptyLine rest')
    (heq : crlfLines lines ++ rest = crlfLines lines' ++ rest') : lines = lines' := by
  induction lines generalizing lines' with
  | nil =>
      cases lines' with
      | nil => rfl
      | cons line' lines' =>
          rcases hfree' line' List.mem_cons_self with ⟨hline', hne'⟩
          rw [crlfLines_cons, List.append_assoc] at heq
          exact absurd heq (hrest.not_line hline' hne')
  | cons line lines ih =>
      rcases hfree line List.mem_cons_self with ⟨hline, hne⟩
      cases lines' with
      | nil =>
          rw [crlfLines_cons, List.append_assoc] at heq
          exact absurd heq.symm (hrest'.not_line hline hne)
      | cons line' lines' =>
          rcases hfree' line' List.mem_cons_self with ⟨hline', -⟩
          rw [crlfLines_cons, crlfLines_cons, List.append_assoc, List.append_assoc] at heq
          rcases hline.unique hline' heq with ⟨rfl, hmore⟩
          rw [ih (fun l hl => hfree l (List.mem_cons_of_mem _ hl))
            (fun l hl => hfree' l (List.mem_cons_of_mem _ hl)) hmore]

end AfbBinder.Lib
