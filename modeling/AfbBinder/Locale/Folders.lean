import Mathlib.Order.Bounds.Basic
import AfbBinder.Locale.Parents

/-!
# The folder of a name

`search_folder` compares the first bytes of a name with folders that are sorted by their
whole names: a folder whose name goes on after these bytes compares equal to them and is
not the one that is searched.  The parents are searched from the longest name to the
shortest.
-/

namespace AfbBinder.Locale

open Lib

/-- The name of the folder is the first bytes of a text, but for the case. -/
def LocaleFolder.Bears (folder : LocaleFolder) (name : Bytes) (length : Nat) : Prop :=
  folder.name.bytes.map tolower = (name.take length).map tolower

/-- A folder bears the first bytes of the text. -/
def LocaleContainer.Has (container : LocaleContainer) (name : Bytes) (length : Nat) : Prop :=
  ∃ folder ∈ container.folders, folder.Bears name length

/-- The order that `compare_folders_for_qsort` asks for. -/
def LocaleContainer.Sorted (container : LocaleContainer) : Prop :=
  container.folders.Pairwise fun f g => strcasecmp f.name.bytes g.name.bytes ≤ 0

/-- The lengths of the proper prefixes of a name that end before a dash and that a folder
bears. -/
def LocaleContainer.prefixes (container : LocaleContainer) (name : Bytes) : Set Nat :=
  fun j => j < name.length ∧ charAt name j = dash ∧ container.Has name j

/-! ## The search in a sorted container -/

theorem strncasecmp_self (n : Nat) (s : Bytes) : strncasecmp n s s = 0 := by
  induction n generalizing s with
  | zero => rfl
  | succ n ih =>
      rw [strncasecmp_succ]
      split
      · exact ih s.tail
      · exact Int.sub_self _

theorem strncasecmp_same {n : Nat} {s t : Bytes} (h : SameUpTo n s t) : strncasecmp n s t = 0 := by
  rw [← strncasecmp_congr s h]
  exact strncasecmp_self n s

theorem LocaleContainer.Sorted.at {container : LocaleContainer} (h : container.Sorted) {i j : Nat}
    (hij : i < j) {f g : LocaleFolder} (hf : container.folders[i]? = some f)
    (hg : container.folders[j]? = some g) : strcasecmp f.name.bytes g.name.bytes ≤ 0 := by
  rcases List.getElem?_eq_some_iff.mp hf with ⟨hi, rfl⟩
  rcases List.getElem?_eq_some_iff.mp hg with ⟨hj, rfl⟩
  exact List.pairwise_iff_getElem.mp h i j hi hj hij

theorem LocaleFolder.length_lt_of_charAt {folder : LocaleFolder} {n : Nat}
    (h : charAt folder.name.bytes n ≠ 0) : n < folder.name.bytes.length := by
  rcases Nat.lt_or_ge n folder.name.bytes.length with hlt | hge
  · exact hlt
  · exact absurd (by simp [charAt, List.getD, List.getElem?_eq_none hge]) h

section Found

variable {container : LocaleContainer} {name : Bytes} {f g : LocaleFolder} {k mid : Nat}

/-- The folder of the name is at an index lower than a folder that compares greater than the
name, or that goes on after it. -/
theorem LocaleContainer.Sorted.lower (h : container.Sorted) (hnul : (0 : UInt8) ∉ name)
    (hf : container.folders[k]? = some f) (hbears : f.name.bytes.map tolower = name.map tolower)
    (hg : container.folders[mid]? = some g) (hc : 0 ≤ strncasecmp name.length g.name.bytes name)
    (hother : ¬ (strncasecmp name.length g.name.bytes name = 0 ∧
      charAt g.name.bytes name.length = 0)) : k < mid := by
  have hlength : f.name.bytes.length = name.length := by simpa using congrArg List.length hbears
  have hsame : SameUpTo name.length f.name.bytes name := by
    rw [SameUpTo, List.take_of_length_le (Nat.le_of_eq hlength), List.take_length]
    exact hbears
  have hzero := strncasecmp_same hsame
  rcases Nat.lt_trichotomy k mid with hlt | rfl | hgt
  · exact hlt
  · rw [hf] at hg
    cases hg
    have hend : charAt f.name.bytes name.length = 0 := by
      simp [charAt, List.getD, List.getElem?_eq_none (Nat.le_of_eq hlength)]
    exact absurd ⟨hzero, hend⟩ hother
  · have horder := h.at hgt hg hf
    rcases Int.lt_or_eq_of_le hc with hafter | hequal
    · have hbound : name.length ≤ max g.name.bytes.length f.name.bytes.length + 1 := by omega
      have := strncasecmp_after hbound horder hafter
      omega
    · -- the folder in the middle goes on after the name, so that it is after the one searched
      have hmore := LocaleFolder.length_lt_of_charAt fun hend => hother ⟨hequal.symm, hend⟩
      have hfront := (strncasecmp_zero (Nat.le_refl _) hnul hequal.symm).2
      rw [List.take_length, ← hbears, ← hlength] at hfront
      rw [← hlength] at hmore
      have hbound : f.name.bytes.length < max g.name.bytes.length f.name.bytes.length + 1 := by omega
      have hlonger : 0 < strcasecmp g.name.bytes f.name.bytes :=
        strncasecmp_longer hbound g.name.nulFree hmore hfront
      omega

/-- It is at an index greater than a folder that compares lower than the name. -/
theorem LocaleContainer.Sorted.upper (h : container.Sorted)
    (hf : container.folders[k]? = some f) (hbears : f.name.bytes.map tolower = name.map tolower)
    (hg : container.folders[mid]? = some g) (hc : strncasecmp name.length g.name.bytes name < 0) :
    mid < k := by
  have hlength : f.name.bytes.length = name.length := by simpa using congrArg List.length hbears
  have hsame : SameUpTo name.length f.name.bytes name := by
    rw [SameUpTo, List.take_of_length_le (Nat.le_of_eq hlength), List.take_length]
    exact hbears
  have hzero := strncasecmp_same hsame
  rcases Nat.lt_trichotomy mid k with hlt | rfl | hgt
  · exact hlt
  · rw [hf] at hg
    cases hg
    omega
  · have hbound : name.length ≤ max f.name.bytes.length g.name.bytes.length + 1 := by omega
    have := strncasecmp_before hbound (h.at hgt hf hg) hc
    omega

/-- The interval keeps the folder of the name until the search returns one. -/
theorem bisect_finds (h : container.Sorted) (hnul : (0 : UInt8) ∉ name)
    (hf : container.folders[k]? = some f) (hbears : f.name.bytes.map tolower = name.map tolower)
    {turns low high : Nat} (hlow : low ≤ k) (hhigh : k < high) (hturns : high - low ≤ turns)
    (hbound : high ≤ container.folders.length) :
    ∃ found, bisect container name name.length turns low high = some found := by
  induction turns generalizing low high with
  | zero => omega
  | succ turns ih =>
      have hmid : (low + high) / 2 < container.folders.length := by omega
      have hg := List.getElem?_eq_getElem hmid
      rw [bisect, if_pos (by omega)]
      dsimp only
      rw [hg]
      dsimp only
      split
      case isTrue => exact ⟨_, rfl⟩
      case isFalse hother =>
        split
        case isTrue hc =>
          have hlt := h.lower hnul hf hbears hg hc hother
          exact ih hlow hlt (by omega) (by omega)
        case isFalse hc =>
          have hlt := h.upper hf hbears hg (by omega)
          exact ih hlt hhigh (by omega) hbound

/-- A search by the first bytes of a text is a search by these bytes. -/
theorem searchFolder_take (container : LocaleContainer) (name : Bytes) (length : Nat) :
    searchFolder container name length = searchFolder container (name.take length) length := by
  apply searchFolder_congr
  rw [SameUpTo, List.take_take, Nat.min_self]

variable {length : Nat}

theorem searchFolder_bears (hlength : length ≤ name.length) (hnul : (0 : UInt8) ∉ name.take length)
    {found : Nat} (h : searchFolder container name length = some found) :
    ∃ folder, container.folders[found]? = some folder ∧ folder.Bears name length := by
  rw [searchFolder_take] at h
  have hall : length ≤ (name.take length).length := by
    rw [List.length_take]
    omega
  rcases @searchFolder_some container ⟨name.take length, hnul⟩ length found hall h with
    ⟨folder, hfolder, -, hname⟩
  rw [List.take_take, Nat.min_self] at hname
  exact ⟨folder, hfolder, hname⟩

theorem searchFolder_iff (h : container.Sorted) (hlength : length ≤ name.length)
    (hnul : (0 : UInt8) ∉ name.take length) :
    (∃ found, searchFolder container name length = some found) ↔ container.Has name length := by
  constructor
  · intro hfound
    rcases hfound with ⟨found, hfound⟩
    rcases searchFolder_bears hlength hnul hfound with ⟨folder, hfolder, hbears⟩
    exact ⟨folder, List.mem_of_getElem? hfolder, hbears⟩
  · intro hhas
    rcases hhas with ⟨folder, hmem, hbears⟩
    rcases List.getElem?_of_mem hmem with ⟨k, hk⟩
    have hk' := (List.getElem?_eq_some_iff.mp hk).1
    have hfound := bisect_finds h hnul hk hbears (Nat.zero_le k) hk' (Nat.sub_le _ _)
      (Nat.le_refl _)
    rw [List.length_take, Nat.min_eq_left hlength] at hfound
    rw [searchFolder_take]
    exact hfound

end Found

/-! ## The parents -/

theorem searchParent_some {container : LocaleContainer} {name : Bytes} {length parent : Nat}
    (h : searchParent container name length = some parent) :
    ∃ j < length, charAt name j = dash ∧ searchFolder container name j = some parent ∧
      ∀ k, j < k → k < length → charAt name k = dash → searchFolder container name k = none := by
  induction length with
  | zero => cases h
  | succ length ih =>
      have hlater : ∀ j, (charAt name length = dash → searchFolder container name length = none) →
          (∀ k, j < k → k < length → charAt name k = dash → searchFolder container name k = none) →
          ∀ k, j < k → k < length + 1 → charAt name k = dash →
            searchFolder container name k = none := by
        intro j hlast hrest k hjk hk hdash
        rcases Nat.lt_or_eq_of_le (Nat.le_of_lt_succ hk) with hlt | rfl
        · exact hrest k hjk hlt hdash
        · exact hlast hdash
      rw [searchParent] at h
      split at h
      case isTrue hdash =>
        cases hfound : searchFolder container name length with
        | some found =>
            rw [hfound] at h
            cases h
            exact ⟨length, Nat.lt_succ_self _, hdash, hfound, fun k hjk hk => by omega⟩
        | none =>
            rw [hfound] at h
            rcases ih h with ⟨j, hj, hjdash, hjfound, hrest⟩
            exact ⟨j, Nat.lt_succ_of_lt hj, hjdash, hjfound, hlater j (fun _ => hfound) hrest⟩
      case isFalse hdash =>
        rcases ih h with ⟨j, hj, hjdash, hjfound, hrest⟩
        exact ⟨j, Nat.lt_succ_of_lt hj, hjdash, hjfound,
          hlater j (fun hdash' => absurd hdash' hdash) hrest⟩

theorem searchParent_none {container : LocaleContainer} {name : Bytes} {length : Nat}
    (h : searchParent container name length = none) {k : Nat} (hk : k < length)
    (hdash : charAt name k = dash) : searchFolder container name k = none := by
  cases hfound : searchFolder container name k with
  | none => rfl
  | some folder =>
      rcases searchParent_found hk hdash hfound with ⟨j, parent, -, -, -, hparent⟩
      rw [hparent] at h
      cases h

/-- What `init_container` makes of the entries of the directory. -/
structure FolderLaw (entries : List Dirent) (container : LocaleContainer) : Prop where
  names : (container.folders.map LocaleFolder.name).Perm
    ((entries.filter fun dent => dent.isDirectory && !dent.name.isSpecial).map Dirent.name)
  found_iff : ∀ (name : Bytes) (length : Nat), length ≤ name.length → (0 : UInt8) ∉ name.take length →
    ((∃ found, searchFolder container name length = some found) ↔ container.Has name length)
  found_bears : ∀ (name : Bytes) (length found : Nat), length ≤ name.length →
    (0 : UInt8) ∉ name.take length → searchFolder container name length = some found →
    ∃ folder, container.folders[found]? = some folder ∧ folder.Bears name length
  parent_longest : ∀ folder ∈ container.folders, ∀ index, folder.parent = some index →
    ∃ parent j, container.folders[index]? = some parent ∧ parent.Bears folder.name.bytes j ∧
      IsGreatest (container.prefixes folder.name.bytes) j
  parent_none : ∀ folder ∈ container.folders, folder.parent = none →
    container.prefixes folder.name.bytes = ∅
  parent_shorter : ∀ folder ∈ container.folders, ∀ index, folder.parent = some index →
    ∃ parent, container.folders[index]? = some parent ∧ parent.length < folder.length
  chain_ends : ∀ folder, ∃ last, Leads (parentOf container) folder last ∧
    parentOf container last = none

theorem LocaleFolder.take_nulFree (folder : LocaleFolder) (j : Nat) :
    (0 : UInt8) ∉ folder.name.bytes.take j :=
  fun hmem => folder.name.nulFree (List.mem_of_mem_take hmem)

theorem LocaleFolder.Bears.length_eq {parent : LocaleFolder} {name : Bytes} {j : Nat}
    (h : parent.Bears name j) (hj : j ≤ name.length) : parent.length = j := by
  have hlength : parent.name.bytes.length = (name.take j).length := by
    simpa using congrArg List.length h
  rw [List.length_take, Nat.min_eq_left hj] at hlength
  exact hlength

section Links

variable {container : LocaleContainer} (hlinked : ParentLinked container)
  (hsorted : container.Sorted)

include hlinked

/-- The parent of a folder bears a proper prefix of its name. -/
theorem parent_bears {folder : LocaleFolder} (hfolder : folder ∈ container.folders) {index : Nat}
    (h : folder.parent = some index) :
    ∃ parent, ∃ j < folder.length, container.folders[index]? = some parent ∧
      charAt folder.name.bytes j = dash ∧ parent.Bears folder.name.bytes j ∧
      ∀ k, j < k → k < folder.length → charAt folder.name.bytes k = dash →
        searchFolder container folder.name.bytes k = none := by
  rw [hlinked.parent folder hfolder] at h
  rcases searchParent_some h with ⟨j, hj, hdash, hfound, hlater⟩
  rcases searchFolder_bears (Nat.le_of_lt hj) (folder.take_nulFree j) hfound with
    ⟨parent, hparent, hbears⟩
  exact ⟨parent, j, hj, hparent, hdash, hbears, hlater⟩

theorem parent_shorter {folder : LocaleFolder} (hfolder : folder ∈ container.folders) {index : Nat}
    (h : folder.parent = some index) :
    ∃ parent, container.folders[index]? = some parent ∧ parent.length < folder.length := by
  rcases parent_bears hlinked hfolder h with ⟨parent, j, hj, hparent, -, hbears, -⟩
  have hlength := hbears.length_eq (Nat.le_of_lt hj)
  exact ⟨parent, hparent, hlength ▸ hj⟩

theorem parents_end (folder : Nat) :
    ∃ last, Leads (parentOf container) folder last ∧ parentOf container last = none := by
  apply Leads.ends fun i => (container.folders[i]?.map LocaleFolder.length).getD 0
  intro i index hstep
  rcases Option.bind_eq_some_iff.mp hstep with ⟨f, hf, hparent⟩
  rcases parent_shorter hlinked (List.mem_of_getElem? hf) hparent with ⟨parent, hindex, hlt⟩
  simpa [hf, hindex] using hlt

include hsorted

theorem parent_longest {folder : LocaleFolder} (hfolder : folder ∈ container.folders) {index : Nat}
    (h : folder.parent = some index) :
    ∃ parent j, container.folders[index]? = some parent ∧ parent.Bears folder.name.bytes j ∧
      IsGreatest (container.prefixes folder.name.bytes) j := by
  rcases parent_bears hlinked hfolder h with ⟨parent, j, hj, hparent, hdash, hbears, hlater⟩
  refine ⟨parent, j, hparent, hbears, ?_, ?_⟩
  · exact ⟨hj, hdash, parent, List.mem_of_getElem? hparent, hbears⟩
  · intro k hk
    rcases hk with ⟨hlt, hkdash, hhas⟩
    rcases Nat.lt_or_ge j k with hjk | hge
    · rcases (searchFolder_iff hsorted (Nat.le_of_lt hlt) (folder.take_nulFree k)).mpr hhas with
        ⟨found, hfound⟩
      rw [hlater k hjk hlt hkdash] at hfound
      cases hfound
    · exact hge

theorem parent_none {folder : LocaleFolder} (hfolder : folder ∈ container.folders)
    (h : folder.parent = none) : container.prefixes folder.name.bytes = ∅ := by
  rw [hlinked.parent folder hfolder] at h
  apply Set.eq_empty_iff_forall_notMem.mpr
  intro k hk
  rcases hk with ⟨hlt, hdash, hhas⟩
  rcases (searchFolder_iff hsorted (Nat.le_of_lt hlt) (folder.take_nulFree k)).mpr hhas with
    ⟨found, hfound⟩
  rw [searchParent_none h hlt hdash] at hfound
  cases hfound

end Links

theorem SortedFrom.linked_sorted {read sorted : LocaleContainer} (h : SortedFrom read sorted) :
    (linkParents sorted).Sorted :=
  List.pairwise_map.mpr h.order

/-- The folders are those of the entries, they are found by their names, and each one has as
its parent the folder of the longest name that its own goes on from a dash. -/
theorem folders_lawful {entries : List Dirent} {container : LocaleContainer}
    (hinit : InitContainer entries container) : FolderLaw entries container := by
  rcases hinit with ⟨sorted, hsort, rfl⟩
  have hlinked := linkParents_linked sorted
  have hsorted := hsort.linked_sorted
  constructor
  · have hread := readFolders_names LocaleContainer.empty entries
    rw [linkParents_names, ← List.nil_append (List.map _ (List.filter _ _))]
    exact (hsort.perm.map _).trans (.of_eq hread)
  · exact fun name length hlength hnul => searchFolder_iff hsorted hlength hnul
  · exact fun name length found hlength hnul h => searchFolder_bears hlength hnul h
  · exact fun folder hfolder index h => parent_longest hlinked hsorted hfolder h
  · exact fun folder hfolder h => parent_none hlinked hsorted hfolder h
  · exact fun folder hfolder index h => parent_shorter hlinked hfolder h
  · exact parents_end hlinked

/-- The folders fr, fr-CA and fr-FR: the second one is found, and the first one is its
parent. -/
theorem folders_lawful_french :
    ∃ container, InitContainer frenchDirents container ∧ FolderLaw frenchDirents container ∧
      searchFolder container [70, 82, 45, 99, 97, 59] 5 = some 1 ∧ parentOf container 1 = some 0 := by
  have hsorted : SortedFrom (readFolders LocaleContainer.empty frenchDirents)
      (readFolders LocaleContainer.empty frenchDirents) :=
    ⟨List.Perm.refl _, by decide, rfl⟩
  have hinit : InitContainer frenchDirents _ := ⟨_, hsorted, rfl⟩
  exact ⟨_, hinit, folders_lawful hinit, by decide, by decide⟩

end AfbBinder.Locale
