import AfbBinder.Lib.Bytes

/-!
# Lexical paths

A path is the list of its components between the slashes.  Empty components and
"." stand still, ".." goes up and any other component goes down.
-/

namespace AfbBinder.Lib.Path

def slash : UInt8 := 47
def dot : UInt8 := 46

def components (path : Bytes) : List Bytes := path.splitOn slash

/-- How many levels down a component leads. -/
def level (component : Bytes) : Int :=
  if component = [] ∨ component = [dot] then 0
  else if component = [dot, dot] then -1
  else 1

/-- Walking the components from the given depth never leads above depth zero. -/
def NeverNegative : Int → List Bytes → Prop
  | _, [] => True
  | depth, component :: rest =>
      0 ≤ depth + level component ∧ NeverNegative (depth + level component) rest

/-- One component from the directory reached, given from the root down. -/
def walk (reached : List Bytes) (component : Bytes) : Option (List Bytes) :=
  if level component = 0 then some reached
  else if level component = -1 then
    if reached = [] then none else some reached.dropLast
  else some (reached ++ [component])

def resolve (reached : List Bytes) (walked : List Bytes) : Option (List Bytes) :=
  walked.foldlM walk reached

/-- The path is relative, starts with the components of `base`, and at no component
after them leads out of the directory `base`. -/
def StaysInside (base : List Bytes) (path : Bytes) : Prop :=
  path.head? ≠ some slash ∧
    ∃ rest, components path = base ++ rest ∧
      ∀ walked, walked <+: rest → ∃ below, resolve [] (base ++ walked) = some (base ++ below)

theorem components_of_not_mem (name : Bytes) (h : slash ∉ name) : components name = [name] :=
  List.splitOn_eq_singleton h

theorem components_slash (name : Bytes) (h : slash ∉ name) (rest : Bytes) :
    components (name ++ slash :: rest) = name :: components rest :=
  List.splitOn_append_cons_self_of_not_mem h rest

@[simp] theorem components_nil : components [] = [[]] := rfl

@[simp] theorem level_nil : level [] = 0 := rfl

theorem level_cases (component : Bytes) :
    level component = 0 ∨ level component = -1 ∨ level component = 1 := by
  unfold level
  split
  · simp
  · split <;> simp

theorem resolve_names (reached : List Bytes) {names : List Bytes}
    (h : ∀ name ∈ names, level name = 1) : resolve reached names = some (reached ++ names) := by
  induction names generalizing reached with
  | nil => simp [resolve]
  | cons name rest ih =>
      have hname := h name (by simp)
      have hrest := ih (reached ++ [name]) (fun n hn => h n (by simp [hn]))
      unfold resolve at hrest ⊢
      simpa [walk, hname] using hrest

/-- Walking below a directory without leading above it. -/
theorem resolve_below (base : List Bytes) (below : List Bytes) {walked : List Bytes}
    (h : NeverNegative below.length walked) :
    ∃ below', resolve (base ++ below) walked = some (base ++ below') := by
  induction walked generalizing below with
  | nil => exact ⟨below, by simp [resolve]⟩
  | cons component rest ih =>
      obtain ⟨hle, hrest⟩ := h
      unfold resolve at ih ⊢
      rw [List.foldlM_cons]
      rcases level_cases component with hzero | hup | hdown
      · rw [hzero, Int.add_zero] at hrest
        simpa [walk, hzero] using ih below hrest
      · rw [hup] at hle hrest
        have hne : below ≠ [] := by
          rintro rfl
          simp at hle
        have hlen : (below.dropLast.length : Int) = below.length + -1 := by
          rw [List.length_dropLast]
          have := List.length_pos_iff.mpr hne
          omega
        rw [← hlen] at hrest
        have hdrop : (base ++ below).dropLast = base ++ below.dropLast :=
          List.dropLast_append_of_ne_nil hne
        simpa [walk, hup, hne, hdrop] using ih below.dropLast hrest
      · have hlen : ((below ++ [component]).length : Int) = below.length + 1 := by simp
        rw [hdown, ← hlen] at hrest
        simpa [walk, hdown] using ih (below ++ [component]) hrest

theorem neverNegative_walked {depth : Int} {walked rest : List Bytes} (hp : walked <+: rest)
    (h : NeverNegative depth rest) : NeverNegative depth walked := by
  induction walked generalizing depth rest with
  | nil => trivial
  | cons component walked ih =>
      obtain ⟨tail, rfl⟩ := hp
      exact ⟨h.1, ih (List.prefix_append _ _) h.2⟩

/-- A relative path below a directory of proper names stays inside it. -/
theorem staysInside_of_neverNegative {base : List Bytes} {path : Bytes} {rest : List Bytes}
    (hrel : path.head? ≠ some slash) (hcomp : components path = base ++ rest)
    (hbase : ∀ name ∈ base, level name = 1) (h : NeverNegative 0 rest) :
    StaysInside base path := by
  refine ⟨hrel, rest, hcomp, fun walked hw => ?_⟩
  obtain ⟨below, hbelow⟩ := resolve_below base [] (neverNegative_walked hw h)
  refine ⟨below, ?_⟩
  have hnames := resolve_names [] hbase
  unfold resolve at hnames hbelow ⊢
  rw [List.foldlM_append, hnames]
  simpa using hbelow

end AfbBinder.Lib.Path
