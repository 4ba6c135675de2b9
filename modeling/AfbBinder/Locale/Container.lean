import AfbBinder.Lib.Path

/-!
# The folders of a locale root

The directories found under `locales/` when a root is created.  A directory entry
has the name the file system gave it; `init_container` adds the entries that are
directories, the special ones excepted, and keeps the greatest length of a name.
-/

namespace AfbBinder.Locale

open Lib Lib.Path

/-- The name of a directory entry: a file system has no empty name and none with a slash. -/
structure EntryName extends CString where
  nonempty : bytes ≠ []
  noSlash : slash ∉ bytes

structure Dirent where
  name : EntryName
  isDirectory : Bool

/-- `"."` and `".."` -/
def EntryName.isSpecial (name : EntryName) : Bool :=
  name.bytes = [dot] || name.bytes = [dot, dot]

/-- `struct locale_folder`, `parent` being a position in the container. -/
structure LocaleFolder where
  parent : Option Nat
  name : EntryName
  proper : name.isSpecial = false

def LocaleFolder.length (folder : LocaleFolder) : Nat := folder.name.bytes.length

/-- `struct locale_container`.  The count is the length of `folders`. -/
structure LocaleContainer where
  maxlength : Nat
  folders : List LocaleFolder
  bounded : ∀ folder ∈ folders, folder.length ≤ maxlength

def LocaleContainer.empty : LocaleContainer := ⟨0, [], by simp⟩

/-- `add_folder` -/
def addFolder (container : LocaleContainer) (name : EntryName) (proper : name.isSpecial = false) :
    LocaleContainer where
  maxlength := max name.bytes.length container.maxlength
  folders := container.folders ++ [⟨none, name, proper⟩]
  bounded := by
    intro folder hfolder
    simp only [List.mem_append, List.mem_singleton] at hfolder
    rcases hfolder with hold | rfl
    · have := container.bounded folder hold
      omega
    · simp only [LocaleFolder.length]
      omega

/-- The loop of `init_container` over the entries of the directory `locales/`. -/
def readFolders (container : LocaleContainer) : List Dirent → LocaleContainer
  | [] => container
  | dent :: rest =>
      if h : dent.isDirectory = true ∧ dent.name.isSpecial = false then
        readFolders (addFolder container dent.name h.2) rest
      else readFolders container rest

/-- The entries that are added, in their order. -/
theorem readFolders_names (container : LocaleContainer) (entries : List Dirent) :
    (readFolders container entries).folders.map LocaleFolder.name =
      container.folders.map LocaleFolder.name ++
        (entries.filter fun dent => dent.isDirectory && !dent.name.isSpecial).map Dirent.name := by
  induction entries generalizing container with
  | nil => simp [readFolders]
  | cons dent rest ih =>
      rw [readFolders]
      split
      case isTrue h => simp [ih, addFolder, h]
      case isFalse h =>
        have hleft : (dent.isDirectory && !dent.name.isSpecial) = false := by
          simpa using h
        rw [ih, List.filter_cons_of_neg (by simp [hleft])]

theorem LocaleFolder.level_name (folder : LocaleFolder) : level folder.name.bytes = 1 := by
  have hproper := folder.proper
  simp only [EntryName.isSpecial, Bool.or_eq_false_iff, decide_eq_false_iff_not] at hproper
  simp [level, folder.name.nonempty, hproper.1, hproper.2]

end AfbBinder.Locale
