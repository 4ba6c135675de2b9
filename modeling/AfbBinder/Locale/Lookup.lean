import AfbBinder.Locale.Container
import AfbBinder.Locale.Subpath

/-!
# Opening and resolving localised files

`do_open` and `do_resolve` try the folders of a search, then those of the default
search, then the root itself.  The path of a folder is assembled in a buffer
allocated on the stack, whose content before the first write is arbitrary.

The system calls are parameters.  Their answers may depend on all the paths asked
before, so that the files may come and go during a search.  The memory for the
result of `do_resolve` is always found.
-/

namespace AfbBinder.Locale

open Lib Lib.Path

/-- `static const char locales[]`, without its NUL. -/
def locales : Bytes := [108, 111, 99, 97, 108, 101, 115, 47]

/-- `sizeof locales` -/
def sizeofLocales : Nat := locales.length + 1

def pathMax : Nat := 4096

def oCreat : Nat := 64

inductive Errno where
  | EINVAL
  | ENOENT
  | other (code : Nat)
deriving DecidableEq, Repr

/-- `struct locale_search`: its folders belong to the container of its root.  The
identifier stands for its address. -/
structure LocaleSearch (container : LocaleContainer) where
  id : Nat
  head : List LocaleFolder
  inContainer : ∀ folder ∈ head, folder ∈ container.folders

/-- `struct locale_root`, as far as a lookup reads it. -/
structure LocaleRoot where
  container : LocaleContainer
  defaultSearch : Option (LocaleSearch container)

/-- The system calls, given the paths asked before and the path. -/
structure Kernel where
  openat : List Bytes → Bytes → Nat → Except Errno Nat
  faccessat : List Bytes → Bytes → Bool

/-- The result of a lookup and the paths handed to the kernel. -/
structure Lookup (α : Type) where
  result : Except Errno α
  handed : List Bytes

/-! ## The buffer -/

/-- Memory of `n` bytes from `alloca`. -/
def alloca (garbage : Nat → UInt8) (n : Nat) : Bytes := (List.range n).map garbage

/-- Initialises the end of the buffer: a slash, the file name and its NUL. -/
def initBuffer (garbage : Nat → UInt8) (maxlength : Nat) (filename : Bytes) : Bytes :=
  let buffer := alloca garbage (filename.length + maxlength + sizeofLocales + 1)
  let buffer := copyAt buffer (maxlength + sizeofLocales - 1) [slash]
  copyAt buffer (sizeofLocales + maxlength) (filename ++ [0])

/-- Writes `locales/` and the name of the folder before the slash. -/
def writeFolder (buffer : Bytes) (maxlength : Nat) (folder : LocaleFolder) : Bytes :=
  let p := maxlength - folder.length
  let buffer := copyAt buffer p locales
  copyAt buffer (p + sizeofLocales - 1) folder.name.bytes

/-- The C string at `p`. -/
def bufferPath (buffer : Bytes) (maxlength : Nat) (folder : LocaleFolder) : Bytes :=
  cstring (buffer.drop (maxlength - folder.length))

/-! ## The lookup -/

/-- The nodes in the order the loop takes them: at the end of those of `search` the
loop goes on with the default search, unless it is the same. -/
def searchNodes (root : LocaleRoot) (search : LocaleSearch root.container) : List LocaleFolder :=
  search.head ++
    match root.defaultSearch with
    | none => []
    | some default => if search.id ≠ default.id then default.head else []

/-- Tries the folders until the kernel answers; gives the answer with the path found. -/
def iterateFolders {α : Type} (ask : List Bytes → Bytes → Option α) (maxlength : Nat) :
    List LocaleFolder → Bytes → List Bytes → Option (α × Bytes) × List Bytes
  | [], _, handed => (none, handed)
  | folder :: rest, buffer, handed =>
      let buffer := writeFolder buffer maxlength folder
      let p := bufferPath buffer maxlength folder
      match ask handed p with
      | some answer => (some (answer, p), handed ++ [p])
      | none => iterateFolders ask maxlength rest buffer (handed ++ [p])

/-- The search in the folders, common to `do_open` and `do_resolve`. -/
def searchFolders {α : Type} (ask : List Bytes → Bytes → Option α) (garbage : Nat → UInt8)
    (root : LocaleRoot) (search : Option (LocaleSearch root.container)) (filename : Bytes) :
    Except Errno (Option (α × Bytes) × List Bytes) :=
  match search with
  | none => .ok (none, [])
  | some search =>
      if search.head = [] then .ok (none, [])
      else if filename.length > pathMax then .error .EINVAL
      else
        let maxlength := root.container.maxlength
        .ok (iterateFolders ask maxlength (searchNodes root search)
          (initBuffer garbage maxlength filename) [])

/-- `do_open` -/
def doOpen (kernel : Kernel) (garbage : Nat → UInt8) (root : LocaleRoot)
    (search : Option (LocaleSearch root.container)) (filename : CString) (flags : Nat) :
    Lookup Nat :=
  match Root.normalsubpath filename.bytes with
  | none => ⟨.error .EINVAL, []⟩
  | some filename =>
      if flags &&& oCreat ≠ 0 then ⟨.error .EINVAL, []⟩
      else
        let ask := fun handed path => (kernel.openat handed path flags).toOption
        match searchFolders ask garbage root search filename with
        | .error e => ⟨.error e, []⟩
        | .ok (some (fd, _), handed) => ⟨.ok fd, handed⟩
        | .ok (none, handed) => ⟨kernel.openat handed filename flags, handed ++ [filename]⟩

/-- `do_resolve` -/
def doResolve (kernel : Kernel) (garbage : Nat → UInt8) (root : LocaleRoot)
    (search : Option (LocaleSearch root.container)) (filename : CString) : Lookup Bytes :=
  match Root.normalsubpath filename.bytes with
  | none => ⟨.error .EINVAL, []⟩
  | some filename =>
      let ask := fun handed path => if kernel.faccessat handed path then some () else none
      match searchFolders ask garbage root search filename with
      | .error e => ⟨.error e, []⟩
      | .ok (some (_, p), handed) => ⟨.ok p, handed⟩
      | .ok (none, handed) =>
          if kernel.faccessat handed filename then ⟨.ok filename, handed ++ [filename]⟩
          else ⟨.error .ENOENT, handed ++ [filename]⟩

/-! ## The path of a folder -/

/-- `locales/`, the folder, a slash and the file name. -/
def folderPath (folder : LocaleFolder) (filename : Bytes) : Bytes :=
  locales ++ (folder.name.bytes ++ slash :: filename)

/-- The buffer has its size, and its end from the slash that follows the folder. -/
def BufferEnd (maxlength : Nat) (filename buffer : Bytes) : Prop :=
  buffer.length = filename.length + maxlength + 10 ∧
    buffer.drop (maxlength + 8) = slash :: (filename ++ [0])

theorem initBuffer_end (garbage : Nat → UInt8) (maxlength : Nat) (filename : Bytes) :
    BufferEnd maxlength filename (initBuffer garbage maxlength filename) := by
  have hsize : sizeofLocales = 9 := rfl
  have hlen : (alloca garbage (filename.length + maxlength + 9 + 1)).length =
      filename.length + maxlength + 10 := by simp [alloca]
  simp only [initBuffer, BufferEnd, hsize]
  generalize alloca garbage (filename.length + maxlength + 9 + 1) = buffer at hlen
  have hslash : (copyAt buffer (maxlength + 9 - 1) [slash]).length =
      filename.length + maxlength + 10 := by
    have hfits : maxlength + 9 - 1 + [slash].length ≤ buffer.length := by
      simp only [List.length_singleton]
      omega
    rw [length_copyAt hfits, hlen]
  constructor
  · rw [length_copyAt, hslash]
    simp only [List.length_append, List.length_singleton]
    omega
  · have hpos : maxlength + 9 - 1 = maxlength + 8 := by omega
    rw [drop_copyAt (by omega) (by omega), hpos, drop_copyAt (Nat.le_refl _) (by omega),
      Nat.sub_self]
    have hrest : (9 + maxlength) - (maxlength + 8) = [slash].length := by
      simp only [List.length_singleton]
      omega
    have hfront := copyAt_append [] (buffer.drop (maxlength + 8)) [slash]
    simp only [List.length_nil, List.nil_append] at hfront
    rw [hfront, hrest, copyAt_append]
    have hend : (List.drop [slash].length (buffer.drop (maxlength + 8))).drop
        (filename ++ [(0 : UInt8)]).length = [] := by
      apply List.drop_eq_nil_of_le
      simp only [List.length_drop, List.length_append, List.length_singleton]
      omega
    rw [hend]
    simp

theorem writeFolder_end {maxlength : Nat} {filename buffer : Bytes} {folder : LocaleFolder}
    (hmax : folder.length ≤ maxlength) (h : BufferEnd maxlength filename buffer) :
    BufferEnd maxlength filename (writeFolder buffer maxlength folder) := by
  have hsize : sizeofLocales = 9 := rfl
  have hloc : locales.length = 8 := rfl
  have hname : folder.name.bytes.length = folder.length := rfl
  obtain ⟨hlen, hend⟩ := h
  simp only [writeFolder, BufferEnd, hsize]
  have hfirst : (copyAt buffer (maxlength - folder.length) locales).length = buffer.length :=
    length_copyAt (by omega)
  constructor
  · rw [length_copyAt (by omega), hfirst, hlen]
  · rw [drop_copyAt_of_le (by omega) (by omega), drop_copyAt_of_le (by omega) (by omega), hend]

theorem bufferPath_eq {maxlength : Nat} {filename : CString} {buffer : Bytes}
    {folder : LocaleFolder} (hmax : folder.length ≤ maxlength)
    (h : BufferEnd maxlength filename.bytes buffer) :
    bufferPath (writeFolder buffer maxlength folder) maxlength folder =
      folderPath folder filename.bytes := by
  have hsize : sizeofLocales = 9 := rfl
  have hloc : locales.length = 8 := rfl
  have hname : folder.name.bytes.length = folder.length := rfl
  obtain ⟨hlen, hend⟩ := h
  have hfirst : (copyAt buffer (maxlength - folder.length) locales).length = buffer.length :=
    length_copyAt (by omega)
  have hpos : maxlength - folder.length + 9 - 1 - (maxlength - folder.length) = locales.length := by
    omega
  have hlocales := copyAt_append [] (buffer.drop (maxlength - folder.length)) locales
  simp only [List.length_nil, List.nil_append, List.drop_drop] at hlocales
  have hafter : maxlength - folder.length + locales.length + folder.name.bytes.length =
      maxlength + 8 := by omega
  simp only [bufferPath, writeFolder, hsize]
  rw [drop_copyAt (by omega) (by omega), drop_copyAt (Nat.le_refl _) (by omega), Nat.sub_self,
    hlocales, hpos, copyAt_append, List.drop_drop, hafter, hend]
  have hnul : (0 : UInt8) ∉ folderPath folder filename.bytes := by
    have hfixed : (0 : UInt8) ∉ locales := by decide
    have hslash : (0 : UInt8) ≠ slash := by decide
    simp [folderPath, hfixed, hslash, folder.name.nulFree, filename.nulFree]
  have hstring := cstring_append ⟨folderPath folder filename.bytes, hnul⟩ []
  simpa [folderPath] using hstring

/-! ## The paths handed to the kernel -/

/-- What the two lookups may hand to the kernel. -/
def Contained (container : LocaleContainer) (filename path : Bytes) : Prop :=
  (path = filename ∧ StaysInside [] path) ∨
    ∃ folder ∈ container.folders, path = folderPath folder filename ∧
      StaysInside [locales.dropLast, folder.name.bytes] path

theorem iterateFolders_handed {α : Type} (ask : List Bytes → Bytes → Option α)
    {container : LocaleContainer} {filename : CString} {nodes : List LocaleFolder}
    (hnodes : ∀ folder ∈ nodes, folder ∈ container.folders) {buffer : Bytes}
    (hbuffer : BufferEnd container.maxlength filename.bytes buffer) (handed : List Bytes) :
    ∀ path ∈ (iterateFolders ask container.maxlength nodes buffer handed).2,
      path ∈ handed ∨ ∃ folder ∈ container.folders, path = folderPath folder filename.bytes := by
  induction nodes generalizing buffer handed with
  | nil => exact fun path hpath => Or.inl hpath
  | cons folder rest ih =>
      have hfolder := hnodes folder (by simp)
      have hmax := container.bounded folder hfolder
      have hp := bufferPath_eq hmax hbuffer
      have hnew : ∀ path ∈ handed ++ [folderPath folder filename.bytes],
          path ∈ handed ∨ ∃ f ∈ container.folders, path = folderPath f filename.bytes := by
        intro path hpath
        simp only [List.mem_append, List.mem_singleton] at hpath
        exact hpath.imp_right fun heq => ⟨folder, hfolder, heq⟩
      intro path hpath
      unfold iterateFolders at hpath
      simp only [hp] at hpath
      cases hask : ask handed (folderPath folder filename.bytes) with
      | some answer =>
          rw [hask] at hpath
          exact hnew path hpath
      | none =>
          rw [hask] at hpath
          have hrest := ih (fun f hf => hnodes f (by simp [hf])) (writeFolder_end hmax hbuffer)
            _ path hpath
          rcases hrest with hold | hfound
          · exact hnew path hold
          · exact Or.inr hfound

theorem searchNodes_inContainer (root : LocaleRoot) (search : LocaleSearch root.container) :
    ∀ folder ∈ searchNodes root search, folder ∈ root.container.folders := by
  intro folder hfolder
  unfold searchNodes at hfolder
  rcases List.mem_append.mp hfolder with hsearch | hdefault
  · exact search.inContainer folder hsearch
  · cases hd : root.defaultSearch with
    | none => simp [hd] at hdefault
    | some default =>
        simp only [hd] at hdefault
        split at hdefault
        · exact default.inContainer folder hdefault
        · simp at hdefault

theorem searchFolders_handed {α : Type} {ask : List Bytes → Bytes → Option α}
    {garbage : Nat → UInt8} {root : LocaleRoot} {search : Option (LocaleSearch root.container)}
    {filename : CString} {found : Option (α × Bytes)} {handed : List Bytes}
    (h : searchFolders ask garbage root search filename.bytes = .ok (found, handed)) :
    ∀ path ∈ handed,
      ∃ folder ∈ root.container.folders, path = folderPath folder filename.bytes := by
  unfold searchFolders at h
  cases search with
  | none =>
      cases h
      simp
  | some search =>
      simp only at h
      split at h
      · cases h
        simp
      · split at h
        · cases h
        · have hhanded := iterateFolders_handed ask (searchNodes_inContainer root search)
            (initBuffer_end garbage root.container.maxlength filename.bytes) []
          simp only [Except.ok.injEq] at h
          rw [h] at hhanded
          simpa using hhanded

theorem components_folderPath (folder : LocaleFolder) (filename : Bytes) :
    components (folderPath folder filename) =
      [locales.dropLast, folder.name.bytes] ++ components filename := by
  have hsplit : folderPath folder filename =
      locales.dropLast ++ slash :: (folder.name.bytes ++ slash :: filename) := rfl
  rw [hsplit, components_slash _ (by decide), components_slash _ folder.name.noSlash]
  rfl

/-- A folder's path is contained in the folder when the file name never leads above. -/
theorem folderPath_contained {container : LocaleContainer} {folder : LocaleFolder}
    (hfolder : folder ∈ container.folders) {filename : Bytes}
    (h : NeverNegative 0 (components filename)) :
    Contained container filename (folderPath folder filename) := by
  refine Or.inr ⟨folder, hfolder, rfl, ?_⟩
  have hrel : (folderPath folder filename).head? ≠ some slash := by
    simp [folderPath, locales, slash]
  refine staysInside_of_neverNegative hrel (components_folderPath folder filename) ?_ h
  intro name hname
  simp only [List.mem_cons, List.not_mem_nil, or_false] at hname
  rcases hname with rfl | rfl
  · decide
  · exact folder.level_name

theorem filename_contained (container : LocaleContainer) {filename : Bytes}
    (hrel : filename.head? ≠ some slash) (h : NeverNegative 0 (components filename)) :
    Contained container filename filename :=
  Or.inl ⟨rfl, staysInside_of_neverNegative hrel (List.nil_append _).symm (by simp) h⟩

/-- The normalised name, as a C string. -/
def normalised (filename : CString) : CString where
  bytes := filename.bytes.dropWhile (· = slash)
  nulFree h := filename.nulFree ((List.dropWhile_sublist _).mem h)

theorem normalsubpath_normalised {filename : CString} {relative : Bytes}
    (h : Root.normalsubpath filename.bytes = some relative) :
    relative = (normalised filename).bytes ∧ relative.head? ≠ some slash ∧
      NeverNegative 0 (components relative) := by
  unfold Root.normalsubpath at h
  simp only [Option.ite_none_right_eq_some, Option.some.injEq] at h
  obtain ⟨hvalid, rfl⟩ := h
  exact ⟨rfl, (Root.validsubpath_iff _).mp hvalid⟩

theorem searchFolders_contained {α : Type} {ask : List Bytes → Bytes → Option α}
    {garbage : Nat → UInt8} {root : LocaleRoot} {search : Option (LocaleSearch root.container)}
    {filename : CString} {found : Option (α × Bytes)} {handed : List Bytes}
    (hnever : NeverNegative 0 (components filename.bytes))
    (h : searchFolders ask garbage root search filename.bytes = .ok (found, handed)) :
    ∀ path ∈ handed, Contained root.container filename.bytes path := by
  intro path hpath
  obtain ⟨folder, hfolder, rfl⟩ := searchFolders_handed h path hpath
  exact folderPath_contained hfolder hnever

/-- The file name itself, tried after the folders. -/
theorem searchFolders_root_contained {α : Type} {ask : List Bytes → Bytes → Option α}
    {garbage : Nat → UInt8} {root : LocaleRoot} {search : Option (LocaleSearch root.container)}
    {filename : CString} {found : Option (α × Bytes)} {handed : List Bytes}
    (hrel : filename.bytes.head? ≠ some slash)
    (hnever : NeverNegative 0 (components filename.bytes))
    (h : searchFolders ask garbage root search filename.bytes = .ok (found, handed)) :
    ∀ path ∈ handed ++ [filename.bytes], Contained root.container filename.bytes path := by
  intro path hpath
  rcases List.mem_append.mp hpath with hfolder | hroot
  · exact searchFolders_contained hnever h path hfolder
  · rw [List.mem_singleton.mp hroot]
    exact filename_contained root.container hrel hnever

theorem doOpen_contained (kernel : Kernel) (garbage : Nat → UInt8) (root : LocaleRoot)
    (search : Option (LocaleSearch root.container)) (filename : CString) (flags : Nat) :
    ∀ path ∈ (doOpen kernel garbage root search filename flags).handed,
      Contained root.container (normalised filename).bytes path := by
  intro path hpath
  unfold doOpen at hpath
  cases hnormal : Root.normalsubpath filename.bytes with
  | none => simp [hnormal] at hpath
  | some relative =>
      obtain ⟨rfl, hrel, hnever⟩ := normalsubpath_normalised hnormal
      simp only [hnormal] at hpath
      split at hpath
      · simp at hpath
      · split at hpath
        · simp at hpath
        · rename_i hfolders
          exact searchFolders_contained hnever hfolders path hpath
        · rename_i hfolders
          exact searchFolders_root_contained hrel hnever hfolders path hpath

theorem doResolve_contained (kernel : Kernel) (garbage : Nat → UInt8) (root : LocaleRoot)
    (search : Option (LocaleSearch root.container)) (filename : CString) :
    ∀ path ∈ (doResolve kernel garbage root search filename).handed,
      Contained root.container (normalised filename).bytes path := by
  intro path hpath
  unfold doResolve at hpath
  cases hnormal : Root.normalsubpath filename.bytes with
  | none => simp [hnormal] at hpath
  | some relative =>
      obtain ⟨rfl, hrel, hnever⟩ := normalsubpath_normalised hnormal
      simp only [hnormal] at hpath
      split at hpath
      · simp at hpath
      · rename_i hfolders
        exact searchFolders_contained hnever hfolders path hpath
      · rename_i handed hfolders
        have hmem : path ∈ handed ++ [(normalised filename).bytes] := by
          split at hpath <;> exact hpath
        exact searchFolders_root_contained hrel hnever hfolders path hmem

/-- Path containment: what the two checks accept, and that no lookup leaves the root
or the locale folder it looks in. -/
theorem path_containment :
    (∀ subpath : CString, Root.validsubpath subpath.bytes = true ↔
      subpath.bytes.head? ≠ some slash ∧ NeverNegative 0 (components subpath.bytes)) ∧
    (∀ subpath : CString, subpath.bytes.head? ≠ some slash →
      Hreq.validsubpath subpath.bytes = Root.validsubpath subpath.bytes) ∧
    ∀ (kernel : Kernel) (garbage : Nat → UInt8) (root : LocaleRoot)
      (search : Option (LocaleSearch root.container)) (filename : CString) (flags : Nat),
      (∀ path ∈ (doOpen kernel garbage root search filename flags).handed,
        Contained root.container (normalised filename).bytes path) ∧
      ∀ path ∈ (doResolve kernel garbage root search filename).handed,
        Contained root.container (normalised filename).bytes path := by
  refine ⟨fun subpath => Root.validsubpath_iff subpath.bytes, fun subpath hslash =>
    Hreq.validsubpath_eq hslash, fun kernel garbage root search filename flags => ⟨?_, ?_⟩⟩
  · exact doOpen_contained kernel garbage root search filename flags
  · exact doResolve_contained kernel garbage root search filename

/-- The folder `fr`, alone in its container. -/
def french : LocaleFolder where
  parent := none
  name := ⟨⟨[102, 114], by decide⟩, by decide, by decide⟩
  proper := by decide

def frenchRoot : LocaleRoot where
  container := ⟨2, [french], by simp [LocaleFolder.length, french]⟩
  defaultSearch := none

def frenchSearch : LocaleSearch frenchRoot.container := ⟨1, [french], by simp [frenchRoot]⟩

/-- A file system where nothing exists. -/
def emptyKernel : Kernel where
  openat _ _ _ := .error .ENOENT
  faccessat _ _ := false

/-- Opening `/a/../x` asks two paths. -/
theorem path_containment_french :
    let lookup := doOpen emptyKernel (fun _ => 1) frenchRoot (some frenchSearch)
      ⟨[47, 97, 47, 46, 46, 47, 120], by decide⟩ 0
    lookup.handed.length = 2 ∧
      (∀ path ∈ lookup.handed, Contained frenchRoot.container [97, 47, 46, 46, 47, 120] path) ∧
      Hreq.validsubpath [46, 46, 97] = Root.validsubpath [46, 46, 97] := by
  have hscan : Root.scan 0 [97, 47, 46, 46, 47, 120] = true := by
    simp [Root.scan_turn, scanTurn, skipName, Turn.delta, slash, dot, Root.scan]
  refine ⟨?_, (path_containment.2.2 emptyKernel (fun _ => 1) frenchRoot (some frenchSearch) _ 0).1,
    path_containment.2.1 ⟨[46, 46, 97], by decide⟩ (by decide)⟩
  have hnormal : Root.normalsubpath [47, 97, 47, 46, 46, 47, 120] =
      some [97, 47, 46, 46, 47, 120] := by
    simp [Root.normalsubpath, Root.validsubpath, slash, hscan]
  simp only [doOpen, hnormal]
  decide

end AfbBinder.Locale
