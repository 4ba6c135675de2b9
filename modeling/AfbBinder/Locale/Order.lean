import AfbBinder.Locale.Lookup

/-!
# The order of a lookup

A lookup is to try the folders of its search, those of the default search and the root.
The loop over the folders of the search passes to the default search at its end: when the
search has no folder there is no loop, and the default search is not tried.
-/

namespace AfbBinder.Locale

open Lib Lib.Path

/-! ## File systems -/

/-- What the system calls answer.  A path is opened, unless for its creation, exactly when
it is accessible. -/
structure FileSystem where
  openat : Bytes → Nat → Except Errno Nat
  accessible : Bytes → Bool
  openable : ∀ path flags, flags &&& oCreat = 0 →
    (openat path flags).toOption.isSome = accessible path

def FileSystem.kernel (fs : FileSystem) : Kernel :=
  ⟨fun _ => fs.openat, fun _ => fs.accessible⟩

/-! ## The paths to try -/

/-- The folders of the default search, if it is another one. -/
def defaultNodes (root : LocaleRoot) (search : LocaleSearch root.container) : List LocaleFolder :=
  match root.defaultSearch with
  | none => []
  | some default => if search.id ≠ default.id then default.head else []

/-- The paths of the folders, then the file of the root. -/
def pathsOf (nodes : List LocaleFolder) (filename : Bytes) : List Bytes :=
  nodes.map (fun folder => folderPath folder filename) ++ [filename]

/-- The paths tried: up to the first one that is accessible. -/
def tried (accessible : Bytes → Bool) : List Bytes → List Bytes
  | [] => []
  | path :: paths => if accessible path then [path] else path :: tried accessible paths

/-- The two lookups try the paths in order and give the first that exists. -/
structure FirstFound (fs : FileSystem) (paths : List Bytes) (flags : Nat) (opened : Lookup Nat)
    (resolved : Lookup Bytes) : Prop where
  openHanded : opened.handed = tried fs.accessible paths
  openResult : opened.result.toOption =
    (paths.find? fs.accessible).bind fun path => (fs.openat path flags).toOption
  resolveHanded : resolved.handed = tried fs.accessible paths
  resolveResult : resolved.result.toOption = paths.find? fs.accessible

section Tried

variable {accessible : Bytes → Bool} {front back : List Bytes}

theorem tried_none (h : ∀ path ∈ front, accessible path = false) :
    tried accessible (front ++ back) = front ++ tried accessible back := by
  induction front with
  | nil => rfl
  | cons path front ih =>
      rw [List.cons_append, tried, h path List.mem_cons_self, if_neg Bool.false_ne_true,
        ih fun p hp => h p (List.mem_cons_of_mem path hp)]
      rfl

theorem tried_found (h : ∃ path ∈ front, accessible path = true) :
    tried accessible (front ++ back) = tried accessible front := by
  induction front with
  | nil =>
      rcases h with ⟨path, hpath, -⟩
      cases hpath
  | cons path front ih =>
      rw [List.cons_append, tried, tried]
      split
      case isTrue => rfl
      case isFalse hnot =>
        rw [ih]
        rcases h with ⟨found, hfound, hyes⟩
        rcases List.mem_cons.mp hfound with rfl | hfound
        · exact absurd hyes hnot
        · exact ⟨found, hfound, hyes⟩

theorem tried_head (accessible : Bytes → Bool) (path : Bytes) (paths : List Bytes) :
    (tried accessible (path :: paths)).head? = some path := by
  rw [tried]
  split <;> rfl

end Tried

/-! ## The loops -/

section Lookup

variable {α : Type}

/-- The first answer, with its path. -/
def firstAnswer (answer : Bytes → Option α) (paths : List Bytes) : Option (α × Bytes) :=
  paths.findSome? fun path => (answer path).map fun a => (a, path)

theorem firstAnswer_cons (answer : Bytes → Option α) (path : Bytes) (paths : List Bytes) :
    firstAnswer answer (path :: paths) =
      match answer path with
      | some a => some (a, path)
      | none => firstAnswer answer paths := by
  rw [firstAnswer, List.findSome?_cons]
  cases answer path <;> rfl

theorem firstAnswer_none {answer : Bytes → Option α} {paths : List Bytes}
    (h : firstAnswer answer paths = none) : ∀ path ∈ paths, answer path = none := by
  intro path hpath
  have hnone := List.findSome?_eq_none_iff.mp h path hpath
  exact Option.map_eq_none_iff.mp hnone

theorem firstAnswer_some {answer : Bytes → Option α} {paths : List Bytes} {a : α} {path : Bytes}
    (h : firstAnswer answer paths = some (a, path)) :
    answer path = some a ∧ paths.find? (fun path => (answer path).isSome) = some path := by
  rcases List.findSome?_eq_some_iff.mp h with ⟨front, found, back, rfl, hfound, hfront⟩
  rcases Option.map_eq_some_iff.mp hfound with ⟨b, hanswer, hpair⟩
  rcases Prod.mk.inj hpair with ⟨rfl, rfl⟩
  constructor
  · exact hanswer
  · rw [List.find?_eq_some_iff_append]
    refine ⟨by simp [hanswer], front, back, rfl, ?_⟩
    intro p hp
    have hnone := Option.map_eq_none_iff.mp (hfront p hp)
    simp [hnone]

theorem iterateFolders_first {answer : Bytes → Option α} {container : LocaleContainer}
    {filename : CString} {nodes : List LocaleFolder}
    (hnodes : ∀ folder ∈ nodes, folder ∈ container.folders) {buffer : Bytes}
    (hbuffer : BufferEnd container.maxlength filename.bytes buffer) (handed : List Bytes) :
    iterateFolders (fun _ path => answer path) container.maxlength nodes buffer handed =
      (firstAnswer answer (nodes.map fun folder => folderPath folder filename.bytes),
        handed ++ tried (fun path => (answer path).isSome)
          (nodes.map fun folder => folderPath folder filename.bytes)) := by
  induction nodes generalizing buffer handed with
  | nil => simp [iterateFolders, firstAnswer, tried]
  | cons folder rest ih =>
      have hmax := container.bounded folder (hnodes folder List.mem_cons_self)
      have hp := bufferPath_eq hmax hbuffer
      simp only [iterateFolders, hp, List.map_cons, firstAnswer_cons, tried]
      cases hanswer : answer (folderPath folder filename.bytes) with
      | some a => simp
      | none =>
          dsimp only
          rw [ih (fun f hf => hnodes f (List.mem_cons_of_mem folder hf)) (writeFolder_end hmax hbuffer)]
          simp

/-- The folders that the loop goes over. -/
def visited (root : LocaleRoot) (search : LocaleSearch root.container) : List LocaleFolder :=
  if search.head = [] then [] else search.head ++ defaultNodes root search

theorem searchFolders_first (answer : Bytes → Option α) (garbage : Nat → UInt8) (root : LocaleRoot)
    (search : LocaleSearch root.container) {filename : CString}
    (hlength : filename.bytes.length ≤ pathMax) :
    searchFolders (fun _ path => answer path) garbage root (some search) filename.bytes =
      .ok (firstAnswer answer
          ((visited root search).map fun folder => folderPath folder filename.bytes),
        tried (fun path => (answer path).isSome)
          ((visited root search).map fun folder => folderPath folder filename.bytes)) := by
  unfold searchFolders visited
  dsimp only
  split
  · rfl
  · rw [if_neg (Nat.not_lt_of_le hlength)]
    have hloop := @iterateFolders_first α answer root.container filename _
      (searchNodes_inContainer root search) _
      (initBuffer_end garbage root.container.maxlength filename.bytes) []
    rw [hloop, List.nil_append]
    rfl

end Lookup

theorem normalsubpath_relative {filename : CString} (hrelative : filename.bytes.head? ≠ some slash)
    (hvalid : Root.validsubpath filename.bytes = true) :
    Root.normalsubpath filename.bytes = some filename.bytes := by
  have hdrop : filename.bytes.dropWhile (· = slash) = filename.bytes := by
    cases hbytes : filename.bytes with
    | nil => rfl
    | cons c rest =>
        rw [hbytes] at hrelative
        have hc : c ≠ slash := by simpa using hrelative
        rw [List.dropWhile_cons_of_neg (by simpa using hc)]
  unfold Root.normalsubpath
  simp only [hdrop, hvalid, if_true]

section Outcome

variable {accessible : Bytes → Bool} {paths : List Bytes} {filename : Bytes}

theorem tried_last (h : ∀ path ∈ paths, accessible path = false) :
    tried accessible (paths ++ [filename]) = tried accessible paths ++ [filename] := by
  have hall : tried accessible paths = paths := by
    simpa [tried] using @tried_none accessible paths [] h
  have hone : tried accessible [filename] = [filename] := by
    unfold tried
    split <;> rfl
  rw [tried_none h, hall, hone]

theorem find_last (h : ∀ path ∈ paths, accessible path = false) :
    (paths ++ [filename]).find? accessible = if accessible filename then some filename else none := by
  have hnone : paths.find? accessible = none := by
    rw [List.find?_eq_none]
    intro path hpath
    rw [h path hpath]
    exact Bool.false_ne_true
  rw [List.find?_append, hnone, Option.none_or, List.find?_singleton]

theorem find_front {path : Bytes} (filename : Bytes) (h : paths.find? accessible = some path) :
    tried accessible (paths ++ [filename]) = tried accessible paths ∧
      (paths ++ [filename]).find? accessible = some path := by
  constructor
  · exact tried_found ⟨path, List.mem_of_find?_eq_some h, List.find?_some h⟩
  · rw [List.find?_append, h, Option.some_or]

end Outcome

section Search

variable (fs : FileSystem) (garbage : Nat → UInt8) (root : LocaleRoot)
  (search : LocaleSearch root.container) {filename : CString} {flags : Nat}

theorem doOpen_first (hnormal : Root.normalsubpath filename.bytes = some filename.bytes)
    (hlength : filename.bytes.length ≤ pathMax) (hflags : flags &&& oCreat = 0) :
    let opened := doOpen fs.kernel garbage root (some search) filename flags
    opened.handed = tried fs.accessible (pathsOf (visited root search) filename.bytes) ∧
      opened.result.toOption =
        ((pathsOf (visited root search) filename.bytes).find? fs.accessible).bind
          fun path => (fs.openat path flags).toOption := by
  have hopenable : (fun path => (fs.openat path flags).toOption.isSome) = fs.accessible :=
    funext fun path => fs.openable path flags hflags
  have hfolders := searchFolders_first (fun path => (fs.openat path flags).toOption)
    garbage root search hlength
  rw [hopenable] at hfolders
  unfold doOpen
  simp only [hnormal, hflags, ne_eq, not_true_eq_false, if_false, FileSystem.kernel, hfolders,
    pathsOf]
  cases hfirst : firstAnswer (fun path => (fs.openat path flags).toOption)
      ((visited root search).map fun folder => folderPath folder filename.bytes) with
  | none =>
      have hfail : ∀ path ∈ (visited root search).map fun folder =>
          folderPath folder filename.bytes, fs.accessible path = false := by
        intro path hpath
        rw [← fs.openable path flags hflags, firstAnswer_none hfirst path hpath]
        rfl
      constructor
      · exact (tried_last hfail).symm
      · rw [find_last hfail]
        dsimp only
        split
        case isTrue => rfl
        case isFalse hno =>
          rw [← fs.openable filename.bytes flags hflags, Option.not_isSome_iff_eq_none] at hno
          exact hno
  | some answered =>
      rcases answered with ⟨fd, path⟩
      rcases firstAnswer_some hfirst with ⟨hanswer, hfind⟩
      rw [hopenable] at hfind
      rcases find_front filename.bytes hfind with ⟨htried, hfound⟩
      constructor
      · exact htried.symm
      · rw [hfound]
        exact hanswer.symm

theorem doResolve_first (hnormal : Root.normalsubpath filename.bytes = some filename.bytes)
    (hlength : filename.bytes.length ≤ pathMax) :
    let resolved := doResolve fs.kernel garbage root (some search) filename
    resolved.handed = tried fs.accessible (pathsOf (visited root search) filename.bytes) ∧
      resolved.result.toOption =
        (pathsOf (visited root search) filename.bytes).find? fs.accessible := by
  have hexists : (fun path => (if fs.accessible path then some () else none).isSome) =
      fs.accessible := by
    funext path
    cases fs.accessible path <;> rfl
  have hfolders := searchFolders_first
    (fun path => if fs.accessible path then some () else none) garbage root search hlength
  rw [hexists] at hfolders
  have hask : (fun handed path => if fs.kernel.faccessat handed path then some () else none) =
      fun _ path => if fs.accessible path then some () else none := rfl
  rw [← hask] at hfolders
  unfold doResolve
  simp only [hnormal, hfolders, pathsOf]
  cases hfirst : firstAnswer (fun path => if fs.accessible path then some () else none)
      ((visited root search).map fun folder => folderPath folder filename.bytes) with
  | none =>
      have hfail : ∀ path ∈ (visited root search).map fun folder =>
          folderPath folder filename.bytes, fs.accessible path = false := by
        intro path hpath
        simpa using firstAnswer_none hfirst path hpath
      rw [tried_last hfail, find_last hfail]
      have hkernel : ∀ handed path, fs.kernel.faccessat handed path = fs.accessible path :=
        fun _ _ => rfl
      cases hroot : fs.accessible filename.bytes with
      | false => simp [hkernel, hroot, Except.toOption]
      | true => simp [hkernel, hroot, Except.toOption]
  | some answered =>
      rcases answered with ⟨_, path⟩
      rcases firstAnswer_some hfirst with ⟨-, hfind⟩
      rw [hexists] at hfind
      rcases find_front filename.bytes hfind with ⟨htried, hfound⟩
      constructor
      · exact htried.symm
      · exact hfound.symm

/-- What the lookups do: the folders that the loop goes over come before the root. -/
theorem lookups_first (hrelative : filename.bytes.head? ≠ some slash)
    (hvalid : Root.validsubpath filename.bytes = true) (hlength : filename.bytes.length ≤ pathMax)
    (hflags : flags &&& oCreat = 0) :
    FirstFound fs (pathsOf (visited root search) filename.bytes) flags
      (doOpen fs.kernel garbage root (some search) filename flags)
      (doResolve fs.kernel garbage root (some search) filename) := by
  have hnormal := normalsubpath_relative hrelative hvalid
  have hopened := doOpen_first fs garbage root search hnormal hlength hflags
  have hresolved := doResolve_first fs garbage root search hnormal hlength
  exact ⟨hopened.1, hopened.2, hresolved.1, hresolved.2⟩

/-- The folders of the search, those of the default search and the root are tried in order
exactly when the search has a folder, or no other default search has one. -/
theorem lookup_order_iff (hrelative : filename.bytes.head? ≠ some slash)
    (hvalid : Root.validsubpath filename.bytes = true) (hlength : filename.bytes.length ≤ pathMax)
    (hflags : flags &&& oCreat = 0) :
    FirstFound fs (pathsOf (search.head ++ defaultNodes root search) filename.bytes) flags
        (doOpen fs.kernel garbage root (some search) filename flags)
        (doResolve fs.kernel garbage root (some search) filename) ↔
      search.head ≠ [] ∨ defaultNodes root search = [] := by
  have hdone := lookups_first fs garbage root search hrelative hvalid hlength hflags
  constructor
  · intro horder
    by_contra hneither
    rcases not_or.mp hneither with ⟨hhead, hdefault⟩
    have hempty : search.head = [] := not_not.mp hhead
    have hvisited : visited root search = [] := by
      unfold visited
      rw [if_pos hempty]
    rcases List.exists_cons_of_ne_nil hdefault with ⟨folder, rest, hnodes⟩
    -- the root is asked first, not the first folder of the default search
    have hfirst := horder.openHanded.symm.trans hdone.openHanded
    rw [hempty, List.nil_append, hnodes, hvisited] at hfirst
    have hsame : folderPath folder filename.bytes = filename.bytes := by
      have hheads := congrArg List.head? hfirst
      simp only [pathsOf, List.map_cons, List.cons_append, List.map_nil, List.nil_append] at hheads
      rw [tried_head, tried_head] at hheads
      exact Option.some.inj hheads
    have hlengths := congrArg List.length hsame
    simp only [folderPath, List.length_append, List.length_cons] at hlengths
    omega
  · intro hfolder
    have hvisited : visited root search = search.head ++ defaultNodes root search := by
      unfold visited
      split
      case isTrue hempty =>
        rcases hfolder with hhead | hdefault
        · exact absurd hempty hhead
        · rw [hempty, hdefault]
          rfl
      case isFalse => rfl
    rw [hvisited] at hdone
    exact hdone

end Search

/-- A file system with the file `x` and its translation. -/
def frenchFiles : FileSystem where
  openat path _ := if path = [120] ∨ path = folderPath french [120] then .ok 3 else .error .ENOENT
  accessible path := path = [120] ∨ path = folderPath french [120]
  openable path flags _ := by
    by_cases h : path = [120] ∨ path = folderPath french [120]
    · simp [h, Except.toOption]
    · simp [h, Except.toOption]

theorem validsubpath_x : Root.validsubpath [120] = true := by
  simp [Root.validsubpath, Root.scan_turn, scanTurn, skipName, Turn.delta, slash, dot, Root.scan]

/-- The search has a folder. -/
theorem lookup_order_french :
    (doOpen frenchFiles.kernel (fun _ => 1) frenchRoot (some frenchSearch)
      ⟨[120], by decide⟩ 0).handed = [folderPath french [120]] := by
  have hfolder : frenchSearch.head ≠ [] ∨ defaultNodes frenchRoot frenchSearch = [] :=
    Or.inl (by decide)
  have horder := (@lookup_order_iff frenchFiles (fun _ => 1) frenchRoot frenchSearch
    ⟨[120], by decide⟩ 0 (by decide) validsubpath_x (by decide) (by decide)).mpr hfolder
  rw [horder.openHanded]
  decide

/-- A root whose default search is that of `fr`, and a search without folder. -/
def defaultRoot : LocaleRoot where
  container := frenchRoot.container
  defaultSearch := some frenchSearch

def emptySearch : LocaleSearch defaultRoot.container := ⟨2, [], by simp⟩

/-- The search without folder gives `x` and not its translation. -/
theorem lookup_order_fails :
    defaultNodes defaultRoot emptySearch = [french] ∧
      (doResolve frenchFiles.kernel (fun _ => 1) defaultRoot (some emptySearch)
        ⟨[120], by decide⟩).result = .ok [120] ∧
      ¬FirstFound frenchFiles (pathsOf (emptySearch.head ++ defaultNodes defaultRoot emptySearch) [120])
        0 (doOpen frenchFiles.kernel (fun _ => 1) defaultRoot (some emptySearch)
          ⟨[120], by decide⟩ 0)
        (doResolve frenchFiles.kernel (fun _ => 1) defaultRoot (some emptySearch)
          ⟨[120], by decide⟩) := by
  have hnormal : Root.normalsubpath [120] = some [120] :=
    @normalsubpath_relative ⟨[120], by decide⟩ (by decide) validsubpath_x
  have hresolved : (doResolve frenchFiles.kernel (fun _ => 1) defaultRoot (some emptySearch)
      ⟨[120], by decide⟩).result = .ok [120] := by
    simp only [doResolve, hnormal]
    rfl
  have hdefault : defaultNodes defaultRoot emptySearch = [french] := rfl
  constructor
  · exact hdefault
  constructor
  · exact hresolved
  · intro horder
    have hfirst := horder.resolveResult
    rw [hresolved, hdefault] at hfirst
    revert hfirst
    decide

end AfbBinder.Locale
