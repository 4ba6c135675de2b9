import Mathlib.Data.List.DropRight
import AfbBinder.Locale.Parents
import AfbBinder.Locale.Root

/-!
# White space in a definition

`locale_root_search` drops the separators at the two ends of a definition and `create_search`
the blanks after a comma.  For the blanks before a comma or a semicolon, `create_search`
tests the separator itself, so that the name of the folder keeps them; at the end of the
definition it tests the first byte that was dropped, and takes the last byte of the name off.
-/

namespace AfbBinder.Locale

open Lib

/-! ## Definitions -/

/-- An element of a definition: a language tag and its parameter. -/
structure Element where
  tag : Bytes
  param : Option Bytes
  tagBytes : ∀ c ∈ tag, c ≠ 0 ∧ isBlank c = false ∧ c ≠ comma ∧ c ≠ semicolon
  paramBytes : ∀ p, param = some p → ∀ c ∈ p, c ≠ 0 ∧ c ≠ comma

/-- The white space of an element: before its tag, after it, and after its parameter. -/
structure Spacing where
  before : Bytes
  after : Bytes
  last : Bytes
  blanks : ∀ c ∈ before ++ after ++ last, isBlank c = true

def Spacing.none : Spacing := ⟨[], [], [], fun _ h => by cases h⟩

/-- What follows the tag and its white space. -/
def Element.options (element : Element) (spacing : Spacing) : Bytes :=
  element.param.elim [] fun param => semicolon :: (param ++ spacing.last)

/-- The elements with their white space, separated by commas. -/
def written : List Spacing → List Element → Bytes
  | spacing :: spacings, element :: elements =>
      spacing.before ++ (element.tag ++ spacing.after ++ (element.options spacing ++
        if elements = [] then [] else comma :: written spacings elements))
  | _, _ => []

/-- The folders of the search that `locale_root_search` gives on a root that made none. -/
def freshFolders (container : LocaleContainer) (definition : CString) (immediate : Bool) :
    Option (List Nat) :=
  let (search, root) := localeRootSearch true (some definition) immediate (localeRootCreate container)
  (search.bind root.search).map SearchCell.head

/-! ## Blanks and separators -/

theorem isBlank_ne {c d : UInt8} (hc : isBlank c = true) (hd : isBlank d = false) : c ≠ d := by
  intro heq
  rw [heq, hd] at hc
  cases hc

theorem isSeparator_blank {c : UInt8} (hblank : isBlank c = true) : isSeparator c = true := by
  simp [isSeparator, hblank]

theorem isSeparator_false {c : UInt8} (hblank : isBlank c = false) (hcomma : c ≠ comma) :
    isSeparator c = false := by
  simp [isSeparator, hblank, hcomma]

theorem all_separators {text : Bytes} (h : ¬∃ c ∈ text, isSeparator c = false) :
    ∀ c ∈ text, isSeparator c = true := by
  intro c hc
  by_contra hsep
  exact h ⟨c, hc, Bool.not_eq_true _ ▸ hsep⟩

theorem Spacing.before_separator (spacing : Spacing) : ∀ c ∈ spacing.before, isSeparator c = true :=
  fun c hc => isSeparator_blank
    (spacing.blanks c (List.mem_append_left _ (List.mem_append_left _ hc)))

theorem Spacing.after_blank (spacing : Spacing) : ∀ c ∈ spacing.after, isBlank c = true :=
  fun c hc => spacing.blanks c (List.mem_append_left _ (List.mem_append_right _ hc))

/-! ## The loops over the bytes -/

/-- An index advances over the bytes that pass the test, up to one that does not. -/
theorem advance_run {test : UInt8 → Bool} {run : Bytes} (hrun : ∀ c ∈ run, test c = true)
    {front back : Bytes} {left i : Nat} (hi : i = front.length) (hleft : run.length ≤ left)
    (hstop : left = run.length ∨ ∃ c tail, back = c :: tail ∧ test c = false) :
    advance test (front ++ (run ++ back)) left i = i + run.length := by
  subst hi
  induction run generalizing front left with
  | nil =>
      rcases hstop with hzero | ⟨c, tail, rfl, hc⟩
      · rw [hzero]
        rfl
      · cases left with
        | zero => rfl
        | succ left =>
            have hat : charAt (front ++ ([] ++ c :: tail)) front.length = c := by simp [charAt]
            rw [advance, hat, if_neg (by simp [hc])]
            rfl
  | cons c run ih =>
      cases left with
      | zero => cases hleft
      | succ left =>
          have hat : charAt (front ++ (c :: run ++ back)) front.length = c := by simp [charAt]
          have hsplit : front ++ (c :: run ++ back) = (front ++ [c]) ++ (run ++ back) := by simp
          have hlength : front.length + 1 = (front ++ [c]).length := by simp
          rw [advance, hat, if_pos (hrun c List.mem_cons_self), hsplit, hlength,
            ih (fun d hd => hrun d (List.mem_cons_of_mem c hd)) (Nat.le_of_succ_le_succ hleft)
              (hstop.imp_left fun h => Nat.succ.inj h)]
          simp only [List.length_append, List.length_cons, List.length_nil]
          omega

/-- The length of a text without its last separators. -/
def trimmedLength (text : Bytes) : Nat := trimEnd text text.length

theorem trimEnd_congr {text text' : Bytes} {n : Nat} (h : text.take n = text'.take n)
    (hn : n ≤ text.length) (hn' : n ≤ text'.length) : trimEnd text n = trimEnd text' n := by
  induction n with
  | zero => rfl
  | succ n ih =>
      have hshort : text.take n = text'.take n := by
        have htake := congrArg (List.take n) h
        rwa [List.take_take, List.take_take, Nat.min_eq_left (Nat.le_succ n)] at htake
      have hat : charAt text n = charAt text' n := by
        have hget := congrArg (fun text : Bytes => text[n]?) h
        simp only [List.getElem?_take, Nat.lt_succ_self, if_true] at hget
        simp only [charAt, List.getD, hget]
      rw [trimEnd, trimEnd, hat, ih hshort (by omega) (by omega)]

theorem trimmedLength_snoc (text : Bytes) (c : UInt8) :
    trimmedLength (text ++ [c]) =
      if isSeparator c then trimmedLength text else text.length + 1 := by
  have hat : charAt (text ++ [c]) text.length = c := by simp [charAt]
  have hshort : trimEnd (text ++ [c]) text.length = trimEnd text text.length := by
    apply trimEnd_congr
    · rw [List.take_left, List.take_length]
    · simp
    · exact Nat.le_refl _
  rw [trimmedLength, List.length_append, List.length_singleton, trimEnd, hat, hshort]
  rfl

theorem trimmedLength_separators (front : Bytes) {back : Bytes}
    (h : ∀ c ∈ back, isSeparator c = true) : trimmedLength (front ++ back) = trimmedLength front := by
  induction back using List.reverseRecOn with
  | nil => rw [List.append_nil]
  | append_singleton back c ih =>
      rw [← List.append_assoc, trimmedLength_snoc, if_pos (h c (by simp))]
      exact ih fun d hd => h d (List.mem_append_left _ hd)

theorem trimmedLength_append (front : Bytes) {back : Bytes} (h : ∃ c ∈ back, isSeparator c = false) :
    trimmedLength (front ++ back) = front.length + trimmedLength back := by
  induction back using List.reverseRecOn with
  | nil =>
      rcases h with ⟨c, hc, -⟩
      cases hc
  | append_singleton back c ih =>
      rw [← List.append_assoc, trimmedLength_snoc, trimmedLength_snoc]
      by_cases hc : isSeparator c
      · rw [if_pos hc, if_pos hc]
        apply ih
        rcases h with ⟨d, hd, hsep⟩
        rcases List.mem_append.mp hd with hd | hd
        · exact ⟨d, hd, hsep⟩
        · rw [List.mem_singleton.mp hd] at hsep
          rw [hc] at hsep
          cases hsep
      · rw [if_neg hc, if_neg hc, List.length_append, Nat.add_assoc]

theorem trimmedLength_le (text : Bytes) : trimmedLength text ≤ text.length := trimEnd_le _ _

theorem trimmedLength_pos {text : Bytes} (h : ∃ c ∈ text, isSeparator c = false) :
    0 < trimmedLength text := by
  induction text using List.reverseRecOn with
  | nil =>
      rcases h with ⟨c, hc, -⟩
      cases hc
  | append_singleton text c ih =>
      rw [trimmedLength_snoc]
      by_cases hc : isSeparator c
      · rw [if_pos hc]
        apply ih
        rcases h with ⟨d, hd, hsep⟩
        rcases List.mem_append.mp hd with hd | hd
        · exact ⟨d, hd, hsep⟩
        · rw [List.mem_singleton.mp hd, hc] at hsep
          cases hsep
      · rw [if_neg hc]
        exact Nat.succ_pos _

/-- A text that has other bytes than separators, after its first separators. -/
theorem dropWhile_start {text : Bytes} (h : ∃ c ∈ text, isSeparator c = false) :
    ∃ c tail, text.dropWhile isSeparator = c :: tail ∧ isSeparator c = false := by
  induction text with
  | nil =>
      rcases h with ⟨c, hc, -⟩
      cases hc
  | cons c text ih =>
      cases hc : isSeparator c with
      | true =>
          rw [List.dropWhile_cons_of_pos hc]
          apply ih
          rcases h with ⟨d, hd, hsep⟩
          rcases List.mem_cons.mp hd with rfl | hd
          · rw [hc] at hsep
            cases hsep
          · exact ⟨d, hd, hsep⟩
      | false => exact ⟨c, text, List.dropWhile_cons_of_neg (by simp [hc]), hc⟩

theorem trimmedLength_dropWhile {text : Bytes} (h : ∃ c ∈ text, isSeparator c = false) :
    trimmedLength text =
      (text.takeWhile isSeparator).length + trimmedLength (text.dropWhile isSeparator) := by
  rcases dropWhile_start h with ⟨c, tail, hdrop, hc⟩
  calc trimmedLength text
      = trimmedLength (text.takeWhile isSeparator ++ text.dropWhile isSeparator) := by
        rw [List.takeWhile_append_dropWhile]
    _ = _ := trimmedLength_append _ ⟨c, by rw [hdrop]; exact List.mem_cons_self, hc⟩

/-! ## An element of a definition -/

/-- The folders selected by a definition that is still to be normalized. -/
def elementNodes (container : LocaleContainer) (immediate : Bool) (text : Bytes)
    (nodes : List Nat) : List Nat :=
  let text := text.dropWhile isSeparator
  (whileDo (fun s => decide (0 < s.length)) (Elements.turn container immediate)
    (trimmedLength text) ⟨text, trimmedLength text, nodes⟩).nodes

/-- The name and the options of an element, and the elements after it. -/
structure Head (name options rest : Bytes) : Prop where
  nameBytes : ∀ c ∈ name, c ≠ comma ∧ c ≠ semicolon
  optionsBytes : options = [] ∨ ∃ param, options = semicolon :: param ∧ ∀ c ∈ param, c ≠ comma
  restBytes : rest = [] ∨ ∃ more, rest = comma :: more
  start : ∃ c tail, name ++ (options ++ rest) = c :: tail ∧ isSeparator c = false

section Head

variable {name options rest : Bytes}

theorem Head.body (h : Head name options rest) : ∀ c ∈ name ++ options, c ≠ comma := by
  intro c hc
  rcases List.mem_append.mp hc with hc | hc
  · exact (h.nameBytes c hc).1
  · rcases h.optionsBytes with rfl | ⟨param, rfl, hparam⟩
    · cases hc
    · rcases List.mem_cons.mp hc with rfl | hc
      · decide
      · exact hparam c hc

/-- What follows the name starts with a comma or a semicolon. -/
theorem Head.after (h : Head name options rest) (hne : options ++ rest ≠ []) :
    ∃ c tail, options ++ rest = c :: tail ∧ (c = comma ∨ c = semicolon) := by
  rcases h.optionsBytes with rfl | ⟨param, rfl, -⟩
  · rcases h.restBytes with rfl | ⟨more, rfl⟩
    · exact absurd rfl hne
    · exact ⟨comma, more, rfl, .inl rfl⟩
  · exact ⟨semicolon, param ++ rest, rfl, .inr rfl⟩

theorem Head.elementStop (h : Head name options rest) {length : Nat}
    (hlength : length ≤ (name ++ (options ++ rest)).length) :
    elementStop (name ++ (options ++ rest)) length = min name.length length := by
  unfold Locale.elementStop
  rcases Nat.lt_or_ge name.length length with hlong | hshort
  · have hne : options ++ rest ≠ [] := by
      intro hnil
      rw [hnil, List.append_nil] at hlength
      omega
    rcases h.after hne with ⟨c, tail, hafter, hc⟩
    rw [Nat.min_eq_left (Nat.le_of_lt hlong), hafter, ← Nat.zero_add name.length]
    apply @advance_run _ name _ [] _ _ _ rfl (Nat.le_of_lt hlong)
    · refine .inr ⟨c, tail, rfl, ?_⟩
      rcases hc with rfl | rfl <;> decide
    · intro d hd
      simpa using h.nameBytes d hd
  · have hsplit : name ++ (options ++ rest) =
        [] ++ (name.take length ++ (name.drop length ++ (options ++ rest))) := by
      rw [List.nil_append, ← List.append_assoc (name.take length), List.take_append_drop]
    have hrun : (name.take length).length = length := by
      rw [List.length_take]
      omega
    rw [Nat.min_eq_right hshort, hsplit]
    refine (advance_run ?_ rfl (Nat.le_of_eq hrun) (.inl hrun.symm)).trans ?_
    · intro d hd
      simpa using h.nameBytes d (List.mem_of_mem_take hd)
    · rw [hrun]
      exact Nat.zero_add length

/-- When only separators follow, the next element starts at the end. -/
theorem Head.nextElement_end (h : Head name options rest) {length : Nat}
    (hlength : length ≤ (name ++ options).length) :
    nextElement (name ++ (options ++ rest)) length = length := by
  have hall : length ≤ (name ++ (options ++ rest)).length := by
    rw [← List.append_assoc, List.length_append]
    omega
  unfold Locale.nextElement
  rw [h.elementStop hall]
  have hcomma : advance (fun c => c ≠ comma) (name ++ (options ++ rest))
      (length - min name.length length) (min name.length length) = length := by
    have hfront : ((name ++ options).take (min name.length length)).length =
        min name.length length := by
      rw [List.length_take]
      omega
    have hrun : (((name ++ options).take length).drop (min name.length length)).length =
        length - min name.length length := by
      rw [List.length_drop, List.length_take]
      omega
    have hsplit : name ++ (options ++ rest) = (name ++ options).take (min name.length length) ++
        (((name ++ options).take length).drop (min name.length length) ++
          ((name ++ options).drop length ++ rest)) := by
      have htake : (name ++ options).take (min name.length length) =
          ((name ++ options).take length).take (min name.length length) := by
        rw [List.take_take, Nat.min_eq_left (Nat.min_le_right _ _)]
      rw [htake, ← List.append_assoc _ _ ((name ++ options).drop length ++ rest),
        List.take_append_drop, ← List.append_assoc name options,
        ← List.append_assoc ((name ++ options).take length), List.take_append_drop]
    rw [hsplit]
    refine (advance_run ?_ hfront.symm (Nat.le_of_eq hrun) (.inl hrun.symm)).trans ?_
    · intro d hd
      simpa using h.body d (List.mem_of_mem_take (List.mem_of_mem_drop hd))
    · rw [hrun]
      omega
  dsimp only
  rw [hcomma, Nat.sub_self]
  rfl

/-- Otherwise the next element starts after the separators. -/
theorem Head.nextElement_more (h : Head name options rest)
    (hmore : ∃ c ∈ rest, isSeparator c = false) :
    nextElement (name ++ (options ++ rest)) (trimmedLength (name ++ (options ++ rest))) =
      (name ++ options).length + (rest.takeWhile isSeparator).length := by
  rcases dropWhile_start hmore with ⟨c, tail, hdrop, hc⟩
  have hlengthRest := trimmedLength_dropWhile hmore
  have hlength : trimmedLength (name ++ (options ++ rest)) =
      (name ++ options).length + trimmedLength rest := by
    rw [← List.append_assoc]
    exact trimmedLength_append _ hmore
  have hpos := trimmedLength_pos hmore
  have hstop : Locale.elementStop (name ++ (options ++ rest))
      (trimmedLength (name ++ (options ++ rest))) = name.length := by
    rw [h.elementStop (trimmedLength_le _), hlength, List.length_append]
    omega
  have hcomma : advance (fun c => c ≠ comma) (name ++ (options ++ rest))
      (trimmedLength (name ++ (options ++ rest)) - name.length) name.length =
        (name ++ options).length := by
    rcases h.restBytes with rfl | ⟨more, hrest⟩
    · cases hpos
    · rw [List.length_append]
      apply advance_run _ rfl
      · rw [hlength, List.length_append]
        omega
      · exact .inr ⟨comma, more, hrest, by decide⟩
      · intro d hd
        simpa using h.body d (List.mem_append_right _ hd)
  unfold Locale.nextElement
  dsimp only
  rw [hstop, hcomma, hlength, Nat.add_sub_cancel_left]
  have hwhole : name ++ (options ++ rest) = (name ++ options) ++
      (rest.takeWhile isSeparator ++ rest.dropWhile isSeparator) := by
    rw [List.takeWhile_append_dropWhile, List.append_assoc]
  rw [hwhole]
  apply advance_run _ rfl
  · omega
  · refine .inr ⟨c, tail, hdrop, ?_⟩
    simpa [isSeparator, Bool.or_comm] using hc
  · intro d hd
    have hsep := List.mem_takeWhile_imp hd
    simpa [isSeparator, or_comm] using hsep

/-- What is left after the element, when more than separators follow. -/
theorem Head.drop_more (h : Head name options rest) (hmore : ∃ c ∈ rest, isSeparator c = false) :
    let text := name ++ (options ++ rest)
    text.drop (nextElement text (trimmedLength text)) = rest.dropWhile isSeparator ∧
      trimmedLength text - nextElement text (trimmedLength text) =
        trimmedLength (rest.dropWhile isSeparator) := by
  intro text
  have hnext : nextElement text (trimmedLength text) = _ := h.nextElement_more hmore
  have hlength : trimmedLength text = (name ++ options).length + trimmedLength rest := by
    change trimmedLength (name ++ (options ++ rest)) = _
    rw [← List.append_assoc]
    exact trimmedLength_append _ hmore
  constructor
  · have hwhole : text = (name ++ options ++ rest.takeWhile isSeparator) ++
        rest.dropWhile isSeparator := by
      rw [List.append_assoc (name ++ options), List.takeWhile_append_dropWhile,
        List.append_assoc]
    rw [hnext, ← List.length_append]
    conv =>
      lhs
      rw [hwhole]
    exact List.drop_left
  · rw [hnext, hlength, trimmedLength_dropWhile hmore]
    omega

theorem Head.next_end (h : Head name options rest) (hall : ∀ c ∈ rest, isSeparator c = true) :
    let text := name ++ (options ++ rest)
    nextElement text (trimmedLength text) = trimmedLength text := by
  intro text
  apply h.nextElement_end
  change trimmedLength (name ++ (options ++ rest)) ≤ _
  rw [← List.append_assoc, trimmedLength_separators _ hall]
  exact trimmedLength_le _

end Head

section Elements

variable (container : LocaleContainer) (immediate : Bool)

theorem elementNodes_separators {front text : Bytes} (h : ∀ c ∈ front, isSeparator c = true)
    (nodes : List Nat) :
    elementNodes container immediate (front ++ text) nodes =
      elementNodes container immediate text nodes := by
  unfold elementNodes
  rw [List.dropWhile_append_of_pos h]

theorem elementNodes_blank {text : Bytes} (h : ∀ c ∈ text, isSeparator c = true)
    (nodes : List Nat) : elementNodes container immediate text nodes = nodes := by
  have hnil := @elementNodes_separators container immediate text [] h nodes
  rw [List.append_nil] at hnil
  exact hnil

theorem whileDo_elements {s : Elements} {turns : Nat} (h : s.length ≤ turns) :
    whileDo (fun s => decide (0 < s.length)) (Elements.turn container immediate) turns s =
      whileDo (fun s => decide (0 < s.length)) (Elements.turn container immediate) s.length s := by
  apply whileDo_stable Elements.length
  · intro s hpos
    have hnext := nextElement_pos s.definition (of_decide_eq_true hpos)
    show s.length - nextElement s.definition s.length < s.length
    have hlength : 0 < s.length := of_decide_eq_true hpos
    omega
  · exact h
  · exact Nat.le_refl _

/-- The turn of the loop for an element that has a name or options. -/
theorem elementNodes_turn {name options rest : Bytes} (h : Head name options rest)
    (nodes : List Nat) :
    let text := name ++ (options ++ rest)
    elementNodes container immediate text nodes =
      elementNodes container immediate rest (downgrade container text immediate
        (trimBack text (min name.length (trimmedLength text))) nodes) := by
  intro text
  rcases h.start with ⟨c, tail, htext, hc⟩
  have hdrop : text.dropWhile isSeparator = text := by
    change text = c :: tail at htext
    rw [htext, List.dropWhile_cons_of_neg (by simp [hc])]
  have hpos : 0 < trimmedLength text := by
    apply trimmedLength_pos
    change text = c :: tail at htext
    exact ⟨c, by rw [htext]; exact List.mem_cons_self, hc⟩
  have hstop := h.elementStop (trimmedLength_le text)
  rcases Nat.exists_eq_succ_of_ne_zero (Nat.pos_iff_ne_zero.mp hpos) with ⟨turns, hturns⟩
  have hlt := nextElement_pos text hpos
  generalize hnodes : downgrade container text immediate
    (trimBack text (min name.length (trimmedLength text))) nodes = nodes'
  have hturn : Elements.turn container immediate ⟨text, trimmedLength text, nodes⟩ =
      ⟨text.drop (nextElement text (trimmedLength text)),
        trimmedLength text - nextElement text (trimmedLength text), nodes'⟩ := by
    rw [← hnodes, ← hstop]
    rfl
  have hloop : elementNodes container immediate text nodes =
      (whileDo (fun s => decide (0 < s.length)) (Elements.turn container immediate)
        (trimmedLength text - nextElement text (trimmedLength text))
        ⟨text.drop (nextElement text (trimmedLength text)),
          trimmedLength text - nextElement text (trimmedLength text), nodes'⟩).nodes := by
    unfold elementNodes
    rw [hdrop]
    dsimp only
    rw [hturns, whileDo, ← hturns, if_pos (decide_eq_true hpos), hturn]
    rw [whileDo_elements container immediate (by dsimp only; omega)]
  rw [hloop]
  by_cases hmore : ∃ c ∈ rest, isSeparator c = false
  · rcases h.drop_more hmore with ⟨hdropped, hleft⟩
    rw [hleft, hdropped]
    rfl
  · have hall := all_separators hmore
    have hnext : nextElement text (trimmedLength text) = trimmedLength text := h.next_end hall
    rw [hnext, Nat.sub_self, elementNodes_blank container immediate hall]
    rfl

/-! ## Definitions without white space after their tags -/

theorem Element.tag_name (element : Element) : ∀ c ∈ element.tag, c ≠ comma ∧ c ≠ semicolon :=
  fun c hc => (element.tagBytes c hc).2.2

end Elements

theorem trimmedLength_plain {text : Bytes} (h : ∀ c ∈ text, isSeparator c = false) :
    trimmedLength text = text.length := by
  rcases List.eq_nil_or_concat text with rfl | ⟨front, c, rfl⟩
  · rfl
  · rw [List.concat_eq_append] at h ⊢
    rw [trimmedLength_snoc, h c (by simp), List.length_append]
    rfl

theorem charAt_end (text : Bytes) : charAt text text.length = 0 := by simp [charAt, List.getD]

theorem trimBack_stay {definition : Bytes} {back : Nat} (h : isBlank (charAt definition back) = false) :
    trimBack definition back = back := by
  cases back with
  | zero => rfl
  | succ back =>
      rw [trimBack, h]
      rfl

/-- The folders that an element adds to a search. -/
def Element.select (container : LocaleContainer) (immediate : Bool) (element : Element)
    (nodes : List Nat) : List Nat :=
  downgrade container element.tag immediate element.tag.length nodes

/-- The elements that follow an element, with their comma. -/
def following (spacings : List Spacing) (elements : List Element) : Bytes :=
  if elements = [] then [] else comma :: written spacings elements

theorem following_rest (spacings : List Spacing) (elements : List Element) :
    following spacings elements = [] ∨ ∃ more, following spacings elements = comma :: more := by
  unfold following
  split
  · exact .inl rfl
  · exact .inr ⟨_, rfl⟩

theorem elementNodes_following (container : LocaleContainer) (immediate : Bool)
    (spacings : List Spacing) (elements : List Element) (nodes : List Nat) :
    elementNodes container immediate (following spacings elements) nodes =
      elementNodes container immediate (written spacings elements) nodes := by
  unfold following
  split
  case isTrue hnil =>
    rw [hnil, written.eq_def]
    cases spacings <;> rfl
  case isFalse =>
    exact @elementNodes_separators container immediate [comma] _
      (List.forall_mem_singleton.mpr rfl) nodes

theorem Element.options_form (element : Element) (spacing : Spacing) :
    element.options spacing = [] ∨
      ∃ param, element.options spacing = semicolon :: param ∧ ∀ c ∈ param, c ≠ comma := by
  unfold Element.options
  cases hparam : element.param with
  | none => exact .inl rfl
  | some p =>
      refine .inr ⟨p ++ spacing.last, rfl, ?_⟩
      intro c hc
      rcases List.mem_append.mp hc with hc | hc
      · exact (element.paramBytes p hparam c hc).2
      · exact isBlank_ne (spacing.blanks c (List.mem_append_right _ hc)) rfl

theorem Element.head (element : Element) (spacing : Spacing) {rest : Bytes}
    (hne : ¬ (element.tag = [] ∧ element.param = none))
    (hrest : rest = [] ∨ ∃ more, rest = comma :: more) :
    Head element.tag (element.options spacing) rest where
  nameBytes := element.tag_name
  optionsBytes := element.options_form spacing
  restBytes := hrest
  start := by
    cases htag : element.tag with
    | cons c tail =>
        have hc := element.tagBytes c (by rw [htag]; exact List.mem_cons_self)
        exact ⟨c, _, rfl, isSeparator_false hc.2.1 hc.2.2.1⟩
    | nil =>
        cases hparam : element.param with
        | none => exact absurd ⟨htag, hparam⟩ hne
        | some p =>
            refine ⟨semicolon, p ++ spacing.last ++ rest, ?_, by decide⟩
            rw [Element.options, hparam]
            rfl

/-- Without white space after the tag, the name of the element is the tag. -/
theorem Head.select {element : Element} {options rest : Bytes}
    (h : Head element.tag options rest) (container : LocaleContainer) (immediate : Bool)
    (nodes : List Nat) :
    let text := element.tag ++ (options ++ rest)
    downgrade container text immediate
        (trimBack text (min element.tag.length (trimmedLength text))) nodes =
      element.select container immediate nodes := by
  intro text
  have htag : ∀ c ∈ element.tag, isSeparator c = false := fun c hc =>
    isSeparator_false (element.tagBytes c hc).2.1 (element.tagBytes c hc).2.2.1
  have hlong : element.tag.length ≤ trimmedLength text := by
    by_cases hmore : ∃ c ∈ options ++ rest, isSeparator c = false
    · rw [trimmedLength_append _ hmore]
      exact Nat.le_add_right _ _
    · rw [trimmedLength_separators _ (all_separators hmore), trimmedLength_plain htag]
  have hnext : isBlank (charAt text element.tag.length) = false := by
    by_cases hnil : options ++ rest = []
    · have htext : text = element.tag := by
        change element.tag ++ (options ++ rest) = _
        rw [hnil, List.append_nil]
      rw [htext, charAt_end]
      rfl
    · rcases h.after hnil with ⟨c, tail, hafter, hc⟩
      have hat : charAt text element.tag.length = c := by
        change charAt (element.tag ++ (options ++ rest)) _ = c
        rw [hafter]
        simp [charAt]
      rw [hat]
      rcases hc with rfl | rfl <;> rfl
  rw [Nat.min_eq_left hlong, trimBack_stay hnext, Element.select]
  have halike : Alike element.tag.length text element.tag := by
    constructor
    · exact Nat.le_trans hlong (trimmedLength_le text)
    · exact Nat.le_refl _
    · change (((element.tag ++ (options ++ rest)).take _).map tolower) = _
      rw [List.take_left, List.take_length]
    · rw [hnext, charAt_end]
      rfl
  exact halike.downgrade container immediate (Nat.le_refl _) nodes

/-- Without white space after the tags, the elements add their folders one after the other. -/
theorem elementNodes_written (container : LocaleContainer) (immediate : Bool)
    {spacings : List Spacing} {elements : List Element} (hlength : elements.length = spacings.length)
    (hafter : ∀ spacing ∈ spacings, spacing.after = []) (nodes : List Nat) :
    elementNodes container immediate (written spacings elements) nodes =
      elements.foldl (fun nodes element => element.select container immediate nodes) nodes := by
  induction spacings generalizing elements nodes with
  | nil =>
      rw [List.eq_nil_of_length_eq_zero hlength]
      rfl
  | cons spacing spacings ih =>
      cases elements with
      | nil => cases hlength
      | cons element elements =>
          have hrest := fun nodes => (elementNodes_following container immediate spacings elements
            nodes).trans (ih (Nat.succ.inj hlength)
              (fun s hs => hafter s (List.mem_cons_of_mem _ hs)) nodes)
          have htext : written (spacing :: spacings) (element :: elements) = spacing.before ++
              (element.tag ++ (element.options spacing ++ following spacings elements)) := by
            rw [written, hafter spacing List.mem_cons_self, List.append_nil]
            rfl
          rw [htext, elementNodes_separators container immediate spacing.before_separator,
            List.foldl_cons]
          by_cases hempty : element.tag = [] ∧ element.param = none
          · have hoptions : element.options spacing = [] := by
              rw [Element.options, hempty.2]
              rfl
            have hselect : element.select container immediate nodes = nodes := by
              rw [Element.select, hempty.1]
              rfl
            rw [hempty.1, hoptions, hselect]
            exact hrest nodes
          · have hhead := element.head spacing hempty (following_rest spacings elements)
            rw [elementNodes_turn container immediate hhead, hhead.select container immediate]
            exact hrest _

/-! ## White space after a tag -/

theorem downgrade_none {container : LocaleContainer} {definition : Bytes} {immediate : Bool}
    {back : Nat} (h : ∀ b ≤ back, 0 < b → (b = back ∨ charAt definition b = dash) →
      searchFolder container definition b = none) (nodes : List Nat) :
    downgrade container definition immediate back nodes = nodes := by
  induction back using Nat.strongRecOn with
  | ind back ih =>
      rcases Nat.eq_zero_or_pos back with rfl | hpos
      · rfl
      · have hlt := shorterName_lt definition hpos
        rw [downgrade_pos container definition immediate hpos, h back (Nat.le_refl _) hpos (.inl rfl)]
        apply ih _ hlt
        intro b hb hbpos hcut
        apply h b (by omega) hbpos
        rcases hcut with rfl | hdash
        · have hnext := shorterName_dash definition back
          exact .inr (hnext.resolve_left (Nat.pos_iff_ne_zero.mp hbpos))
        · exact .inr hdash

/-- A folder named by one letter. -/
def letterDirents : List Dirent := [⟨⟨⟨[97], by decide⟩, by decide, by decide⟩, true⟩]

def letterContainer : LocaleContainer :=
  linkParents (readFolders LocaleContainer.empty letterDirents)

theorem letterContainer_init : InitContainer letterDirents letterContainer :=
  ⟨_, ⟨List.Perm.refl _, by decide, rfl⟩, rfl⟩

/-- The tag of that folder, and another one. -/
def tagHere : Element where
  tag := [97]
  param := none
  tagBytes := List.forall_mem_singleton.mpr (by decide)
  paramBytes := fun _ h => by cases h

def tagAbsent : Element where
  tag := [98]
  param := none
  tagBytes := List.forall_mem_singleton.mpr (by decide)
  paramBytes := fun _ h => by cases h

theorem searchFolder_letter {name : CString} {length found : Nat}
    (hlength : length ≤ name.bytes.length)
    (h : searchFolder letterContainer name.bytes length = some found) :
    length = 1 ∧ tolower (charAt name.bytes 0) = 97 := by
  rcases searchFolder_some hlength h with ⟨f, hf, hlen, hname⟩
  have hbytes : f.name.bytes = [97] := by
    have hall : ∀ g ∈ letterContainer.folders, g.name.bytes = [97] := by decide
    exact hall f (List.mem_of_getElem? hf)
  have hone : length = 1 := by
    rw [← hlen, LocaleFolder.length, hbytes]
    rfl
  subst hone
  refine ⟨rfl, ?_⟩
  rw [hbytes] at hname
  cases hall : name.bytes with
  | nil =>
      rw [hall] at hlength
      cases hlength
  | cons c tail =>
      rw [hall] at hname
      exact (List.cons_eq_cons.mp hname).1.symm

/-- The element does not find the folder. -/
def Lost (spacing : Spacing) (element : Element) : Prop :=
  element = tagAbsent ∨ (element = tagHere ∧ spacing.after ≠ [])

theorem Lost.form {spacing : Spacing} {element : Element} (h : Lost spacing element) :
    element.param = none ∧ ∃ c, element.tag = [c] ∧ (c = 98 ∨ (c = 97 ∧ spacing.after ≠ [])) := by
  rcases h with rfl | ⟨rfl, hafter⟩
  · exact ⟨rfl, 98, rfl, .inl rfl⟩
  · exact ⟨rfl, 97, rfl, .inr ⟨rfl, hafter⟩⟩

/-- The name that is looked up for a letter with white space after it is longer than the letter,
or empty. -/
theorem trimBack_letter {after rest : Bytes} (hblank : ∀ c ∈ after, isBlank c = true)
    (hne : after ≠ []) (hrest : rest = [] ∨ ∃ more, rest = comma :: more) :
    trimBack (97 :: after ++ rest)
      (min (97 :: after).length (trimmedLength (97 :: after ++ rest))) ≠ 1 := by
  rcases List.exists_cons_of_ne_nil hne with ⟨w, ws, rfl⟩
  have hw := hblank w List.mem_cons_self
  intro hback
  by_cases hmore : ∃ d ∈ rest, isSeparator d = false
  · -- the name goes to the comma, with its blanks
    rcases hrest with rfl | ⟨more, rfl⟩
    · rcases hmore with ⟨d, hd, -⟩
      cases hd
    · have hat : charAt (97 :: w :: ws ++ comma :: more) (97 :: w :: ws).length = comma := by
        simp [charAt]
      rw [trimmedLength_append _ hmore, Nat.min_eq_left (Nat.le_add_right _ _),
        trimBack_stay (by rw [hat]; rfl)] at hback
      simp at hback
  · -- the definition ends with the letter, that the loop takes off
    have hall : ∀ d ∈ w :: ws ++ rest, isSeparator d = true := by
      intro d hd
      rcases List.mem_append.mp hd with hd | hd
      · exact isSeparator_blank (hblank d hd)
      · exact all_separators hmore d hd
    have hshort : trimmedLength (97 :: w :: ws ++ rest) = 1 := trimmedLength_separators [97] hall
    have hsecond : charAt (97 :: w :: ws ++ rest) 1 = w := rfl
    rw [hshort, Nat.min_eq_right (by simp), trimBack, hsecond, hw, if_pos rfl] at hback
    cases hback

/-- An element that keeps the white space after its tag finds nothing. -/
theorem Lost.nodes {spacing : Spacing} {element : Element} (h : Lost spacing element)
    (immediate : Bool) {rest : Bytes} (hrest : rest = [] ∨ ∃ more, rest = comma :: more)
    (hnul : (0 : UInt8) ∉ rest) (nodes : List Nat) :
    elementNodes letterContainer immediate (element.tag ++ spacing.after ++ rest) nodes =
      elementNodes letterContainer immediate rest nodes := by
  rcases h.form with ⟨-, c, htag, hc⟩
  have hsep : isSeparator c = false := by
    rcases hc with rfl | ⟨rfl, -⟩ <;> decide
  have hblank := spacing.after_blank
  have hhead : Head (c :: spacing.after) [] rest := by
    constructor
    · intro d hd
      rcases List.mem_cons.mp hd with rfl | hd
      · rcases hc with rfl | ⟨rfl, -⟩ <;> decide
      · exact ⟨isBlank_ne (hblank d hd) rfl, isBlank_ne (hblank d hd) rfl⟩
    · exact .inl rfl
    · exact hrest
    · exact ⟨c, _, rfl, hsep⟩
  rw [htag]
  change elementNodes letterContainer immediate (c :: spacing.after ++ ([] ++ rest)) nodes = _
  rw [elementNodes_turn letterContainer immediate hhead, List.nil_append]
  congr 1
  have hzero : (0 : UInt8) ∉ c :: spacing.after ++ rest := by
    intro hmem
    rcases List.mem_append.mp hmem with hmem | hmem
    · rcases List.mem_cons.mp hmem with heq | hmem
      · subst heq
        rcases hc with hc | ⟨hc, -⟩ <;> cases hc
      · cases hblank 0 hmem
    · exact hnul hmem
  apply downgrade_none
  intro b hb hpos hcut
  have hle := trimBack_le (c :: spacing.after ++ rest)
    (min (c :: spacing.after).length (trimmedLength (c :: spacing.after ++ rest)))
  have hlength := trimmedLength_le (c :: spacing.after ++ rest)
  cases hfound : searchFolder letterContainer (c :: spacing.after ++ rest) b with
  | none => rfl
  | some found =>
      rcases @searchFolder_letter ⟨_, hzero⟩ b found (by dsimp only; omega) hfound with
        ⟨rfl, hletter⟩
      rcases hc with rfl | ⟨rfl, hafter⟩
      · cases hletter
      · rcases hcut with hback | hdash
        · exact absurd hback.symm (trimBack_letter hblank hafter hrest)
        · -- the byte after the letter is a blank, not a dash
          rcases List.exists_cons_of_ne_nil hafter with ⟨w, ws, hw⟩
          rw [hw] at hdash
          have hw' : isBlank w = true := hblank w (by rw [hw]; exact List.mem_cons_self)
          exact absurd hdash (isBlank_ne hw' rfl)

theorem written_nulFree (spacings : List Spacing) (elements : List Element) :
    (0 : UInt8) ∉ written spacings elements := by
  have hblank : ∀ (spacing : Spacing) (c : UInt8),
      c ∈ spacing.before ++ spacing.after ++ spacing.last → c ≠ 0 :=
    fun spacing c hc => isBlank_ne (spacing.blanks c hc) rfl
  induction spacings generalizing elements with
  | nil => exact List.not_mem_nil
  | cons spacing spacings ih =>
      cases elements with
      | nil => exact List.not_mem_nil
      | cons element elements =>
          intro hmem
          rw [written] at hmem
          simp only [List.mem_append] at hmem
          rcases hmem with hmem | (hmem | hmem) | hmem | hmem
          · exact hblank spacing 0 (by simp [hmem]) rfl
          · exact (element.tagBytes 0 hmem).1 rfl
          · exact hblank spacing 0 (by simp [hmem]) rfl
          · unfold Element.options at hmem
            cases hparam : element.param with
            | none =>
                rw [hparam] at hmem
                cases hmem
            | some p =>
                rw [hparam] at hmem
                rcases List.mem_cons.mp hmem with heq | hmem
                · cases heq
                · rcases List.mem_append.mp hmem with hmem | hmem
                  · exact (element.paramBytes p hparam 0 hmem).1 rfl
                  · exact hblank spacing 0 (by simp [hmem]) rfl
          · split at hmem
            · cases hmem
            · rcases List.mem_cons.mp hmem with heq | hmem
              · cases heq
              · exact ih elements hmem

theorem following_nulFree (spacings : List Spacing) (elements : List Element) :
    (0 : UInt8) ∉ following spacings elements := by
  unfold following
  split
  · exact List.not_mem_nil
  · intro hmem
    rcases List.mem_cons.mp hmem with heq | hmem
    · cases heq
    · exact written_nulFree spacings elements hmem

/-- The definition that a caller gives. -/
def definition (spacings : List Spacing) (elements : List Element) : CString :=
  ⟨written spacings elements, written_nulFree spacings elements⟩

theorem freshFolders_written (container : LocaleContainer) (immediate : Bool)
    (spacings : List Spacing) (elements : List Element) :
    freshFolders container (definition spacings elements) immediate =
      some (fulfil container (elementNodes container immediate (written spacings elements) [])) :=
  rfl

theorem elementNodes_lost (immediate : Bool) {spacings : List Spacing} {elements : List Element}
    (h : List.Forall₂ Lost spacings elements) (nodes : List Nat) :
    elementNodes letterContainer immediate (written spacings elements) nodes = nodes := by
  induction h with
  | nil => rfl
  | @cons spacing element spacings elements hlost _ ih =>
      have hoptions : element.options spacing = [] := by
        rw [Element.options, hlost.form.1]
        rfl
      have htext : written (spacing :: spacings) (element :: elements) = spacing.before ++
          (element.tag ++ spacing.after ++ following spacings elements) := by
        rw [written, hoptions, List.nil_append]
        rfl
      rw [htext, elementNodes_separators letterContainer immediate spacing.before_separator,
        hlost.nodes immediate (following_rest spacings elements)
          (following_nulFree spacings elements), elementNodes_following]
      exact ih

/-! ## The white space that counts -/

/-- Whatever the folders, the tags and their parameters are, a definition with the white space
gives the search of the one without. -/
def Insignificant (spacings : List Spacing) : Prop :=
  ∀ entries container, InitContainer entries container → ∀ immediate elements,
    elements.length = spacings.length →
      freshFolders container (definition spacings elements) immediate =
        freshFolders container (definition (spacings.map fun _ => Spacing.none) elements) immediate

/-- For each element, the tag that is lost when white space follows it. -/
def telltale (spacing : Spacing) : Element :=
  if spacing.after = [] then tagAbsent else tagHere

theorem lost_telltale (spacing : Spacing) : Lost spacing (telltale spacing) := by
  unfold telltale
  split
  case isTrue => exact .inl rfl
  case isFalse hafter => exact .inr ⟨rfl, hafter⟩

theorem telltale_found (spacings : List Spacing) (nodes : List Nat)
    (hnodes : nodes = [0] ∨ nodes = [] ∧ ∃ spacing ∈ spacings, spacing.after ≠ []) :
    (spacings.map telltale).foldl
      (fun nodes element => element.select letterContainer false nodes) nodes = [0] := by
  induction spacings generalizing nodes with
  | nil =>
      rcases hnodes with hnodes | ⟨-, spacing, hmem, -⟩
      · exact hnodes
      · cases hmem
  | cons spacing spacings ih =>
      rw [List.map_cons, List.foldl_cons]
      apply ih
      unfold telltale
      split
      case isTrue hafter =>
        rcases hnodes with rfl | ⟨rfl, other, hmem, hother⟩
        · exact .inl rfl
        · rcases List.mem_cons.mp hmem with rfl | hmem
          · exact absurd hafter hother
          · exact .inr ⟨rfl, other, hmem, hother⟩
      case isFalse =>
        rcases hnodes with rfl | ⟨rfl, -⟩
        · exact .inl rfl
        · exact .inl rfl

/-- The white space is insignificant if and only if none follows a tag. -/
theorem spacing_insignificant_iff (spacings : List Spacing) :
    Insignificant spacings ↔ ∀ spacing ∈ spacings, spacing.after = [] := by
  have hnone : ∀ spacing ∈ spacings.map fun _ => Spacing.none, spacing.after = [] := by
    intro spacing hmem
    rcases List.mem_map.mp hmem with ⟨_, -, rfl⟩
    rfl
  constructor
  · intro hsame
    by_contra hafter
    have hfound : ∃ spacing ∈ spacings, spacing.after ≠ [] := by
      by_contra hall
      exact hafter fun spacing hmem => by_contra fun hne => hall ⟨spacing, hmem, hne⟩
    have hlist := hsame letterDirents letterContainer letterContainer_init false
      (spacings.map telltale) (List.length_map _)
    have hlost : List.Forall₂ Lost spacings (spacings.map telltale) := by
      rw [List.forall₂_map_right_iff, List.forall₂_same]
      exact fun spacing _ => lost_telltale spacing
    rw [freshFolders_written, freshFolders_written, elementNodes_lost false hlost,
      elementNodes_written letterContainer false (by simp) hnone,
      telltale_found spacings [] (.inr ⟨rfl, hfound⟩)] at hlist
    have hempty : fulfil letterContainer [] = [] := rfl
    have hone : fulfil letterContainer [0] = [0] := rfl
    rw [hempty, hone] at hlist
    cases hlist
  · intro hafter entries container _ immediate elements hlength
    rw [freshFolders_written, freshFolders_written,
      elementNodes_written container immediate hlength hafter,
      elementNodes_written container immediate (by simpa using hlength) hnone]

/-- "fr ,en" and "fr,en", for the only folder fr. -/
theorem spacing_significant : ¬ ∀ spacings, Insignificant spacings := by
  intro h
  have hinit : InitContainer [⟨⟨⟨[102, 114], by decide⟩, by decide, by decide⟩, true⟩] _ :=
    ⟨_, ⟨List.Perm.refl _, by decide, rfl⟩, rfl⟩
  have hsame := h [⟨[], [32], [], List.forall_mem_singleton.mpr rfl⟩, Spacing.none] _ _ hinit false
    [⟨[102, 114], none, List.forall_mem_cons.mpr ⟨by decide, List.forall_mem_singleton.mpr (by decide)⟩,
        fun _ hnone => by cases hnone⟩,
      ⟨[101, 110], none, List.forall_mem_cons.mpr ⟨by decide, List.forall_mem_singleton.mpr (by decide)⟩,
        fun _ hnone => by cases hnone⟩] rfl
  revert hsame
  decide

end AfbBinder.Locale
