import AfbBinder.Locale.Lifetime
import AfbBinder.Locale.Lookup

/-!
# The cache of the searches

`locale_root_search` looks among the last three searches of the root for one of the same
definition, whatever its case, before it builds one.  The text that it compares neither has
the flag `immediate` nor the bytes that follow the normal form of the definition, which
`create_search` reads: a search may be found that was built otherwise.
-/

namespace AfbBinder.Locale

open Lib

/-- The folders of the search that `create_search` builds for the request. -/
def Request.built (request : Request) (container : LocaleContainer) : List Nat :=
  (newSearch container (normalize request.definition).1 (normalize request.definition).2
    request.immediate).head

/-- A space or a tabulation follows the normal form of the definition. -/
def Request.endsBlank (request : Request) : Bool :=
  isBlank (charAt (normalize request.definition).1 (normalize request.definition).2)

/-! ## The normal forms -/

theorem normalize_le (definition : Option CString) :
    (normalize definition).2 ≤ (normalize definition).1.length :=
  trimEnd_le _ _

theorem normalize_nulFree (definition : Option CString) :
    (0 : UInt8) ∉ (normalize definition).1 := by
  cases definition with
  | none => exact List.not_mem_nil
  | some text =>
      intro hzero
      exact text.nulFree ((List.dropWhile_sublist isSeparator).subset hzero)

/-- A text that `search_matches` finds has the same length and the same bytes, but for the
case. -/
theorem match_same {stored text : Bytes} {length : Nat} (hnul : (0 : UInt8) ∉ stored)
    (hlength : length ≤ text.length) (hmatch : strncaseeq length stored text = true)
    (hend : charAt stored length = 0) :
    stored.length = length ∧ stored.map tolower = (text.take length).map tolower := by
  rw [strncaseeq_iff] at hmatch
  have hsize := congrArg List.length hmatch
  simp only [List.length_map, List.length_take] at hsize
  have hshort : stored.length ≤ length := by
    by_contra hlong
    have hin : length < stored.length := by omega
    apply hnul
    have hget : charAt stored length = stored[length] := by simp [charAt, List.getD, hin]
    rw [← hend, hget]
    exact List.getElem_mem hin
  have hsame : stored.length = length := by omega
  refine ⟨hsame, ?_⟩
  rwa [List.take_of_length_le (by omega)] at hmatch

/-! ## What the searches hold -/

/-- The text by which a request is found. -/
def Request.key (request : Request) : Bytes :=
  (normalize request.definition).1.take (normalize request.definition).2

/-- Each search has the text and the folders of the request it was created for. -/
def Holds (s : RootHeap) (made : Nat → Request) : Prop :=
  ∀ id cell, s.search id = some cell →
    cell.head = (made id).built s.container ∧ cell.definition = (made id).key

theorem cellsKept_rootUnref (s : RootHeap) : CellsKept s (localeRootUnref s) := by
  unfold localeRootUnref
  dsimp only
  have hstart : CellsKept s { s with refcount := s.refcount - 1 } :=
    ⟨rfl, (CellsKept.refl s).cells⟩
  split
  · exact hstart.trans ((kept_unrefAll _ _).trans (kept_internalUnref _)).toCellsKept
  · exact hstart

theorem cellsKept_setDefault (s : RootHeap) (search : Option Nat) :
    CellsKept s (localeRootSetDefaultSearch search s) := by
  unfold localeRootSetDefaultSearch
  dsimp only
  have hset : ∀ {s' : RootHeap}, CellsKept s s' → CellsKept s { s' with defaultSearch := search } :=
    fun h => ⟨h.container, h.cells⟩
  cases search with
  | none => exact (hset (CellsKept.refl s)).trans (kept_unref _ _).toCellsKept
  | some id => exact (hset (kept_addref s id).toCellsKept).trans (kept_unref _ _).toCellsKept

section Holds

variable {s s' : RootHeap} {made : Nat → Request}

theorem Holds.kept (h : Holds s made) (hcells : CellsKept s s') : Holds s' made := by
  intro id cell' hcell'
  obtain ⟨cell, hcell, hhead, hdefinition⟩ := hcells.cells id cell' hcell'
  rw [hhead, hdefinition, hcells.container]
  exact h id cell hcell

/-- The request of the next search is recorded before it is made. -/
theorem Holds.request (h : Holds s made) (request : Request) :
    Holds s (Function.update made s.searches.length request) := by
  intro id cell hcell
  rw [Function.update_of_ne (Nat.ne_of_lt (RootHeap.lt_of_search hcell))]
  exact h id cell hcell

theorem Holds.push (h : Holds s made) (request : Request) :
    Holds (s.push (newSearch s.container (normalize request.definition).1
      (normalize request.definition).2 request.immediate))
      (Function.update made s.searches.length request) := by
  intro id cell hcell
  rw [RootHeap.search_push] at hcell
  split at hcell
  case isTrue heq =>
    cases hcell
    rw [heq, Function.update_self]
    exact ⟨rfl, rfl⟩
  case isFalse => exact h.request request id cell hcell

end Holds

theorem holds_step {w w' : Clients} {act : Action} (hw : Clients.Inv w)
    (h : Holds w.heap w.made) (hstep : Clients.Step w act w') : Holds w'.heap w'.made := by
  obtain ⟨-, rfl⟩ := hstep
  cases act with
  | addref => exact h
  | unref => exact h.kept (cellsKept_rootUnref w.heap)
  | searchAddref id => exact h.kept (kept_addref w.heap id).toCellsKept
  | searchUnref id => exact h.kept (kept_unref w.heap (some id)).toCellsKept
  | setDefaultSearch search => exact h.kept (cellsKept_setDefault w.heap search)
  | search allocated request =>
      simp only [Clients.exec]
      rcases localeRootSearch_cases hw.lru allocated request.definition request.immediate with
        ⟨i, id, -, -, -, -, hresult⟩ | ⟨-, ⟨-, hresult⟩ | ⟨-, hresult⟩⟩
      · rw [hresult]
        exact (h.request request).kept
          ((cellsKept_manageLru w.heap id i).trans (kept_addref _ id).toCellsKept)
      · rw [hresult]
        exact h.request request
      · rw [hresult]
        exact (h.push request).kept (withSearch_kept hw.lru _).1

theorem runs_holds {container : LocaleContainer} {w : Clients}
    {ts : List (Transition Clients Action)}
    (hrun : Runs Clients.Step (Clients.init container) w ts) :
    Clients.Inv w ∧ Holds w.heap w.made := by
  apply hrun.invariant (fun w => Clients.Inv w ∧ Holds w.heap w.made)
  · intro w act w' h hstep
    exact ⟨Clients.inv_step h.1 hstep, holds_step h.1 h.2 hstep⟩
  · refine ⟨Clients.inv_init container, ?_⟩
    intro id cell hcell
    cases hcell

/-! ## The cache -/

/-- Requests with the same flag, and with a definition that a blank follows both or none. -/
def Request.SameKind (request request' : Request) : Prop :=
  request.immediate = request'.immediate ∧ request.endsBlank = request'.endsBlank

theorem built_of_match {request request' : Request} (container : LocaleContainer)
    (hkind : request.SameKind request')
    (hmatch : strncaseeq (normalize request'.definition).2 request.key
      (normalize request'.definition).1 = true)
    (hend : charAt request.key (normalize request'.definition).2 = 0) :
    request.built container = request'.built container := by
  have hnul : (0 : UInt8) ∉ request.key := fun hzero =>
    normalize_nulFree request.definition (List.mem_of_mem_take hzero)
  obtain ⟨hlength, hsame⟩ := match_same hnul (normalize_le request'.definition) hmatch hend
  have hkey : request.key.length = (normalize request.definition).2 := by
    have hle := normalize_le request.definition
    rw [Request.key, List.length_take]
    omega
  have hlengths : (normalize request.definition).2 = (normalize request'.definition).2 :=
    hkey.symm.trans hlength
  have halike : Alike (normalize request'.definition).2 (normalize request.definition).1
      (normalize request'.definition).1 := by
    refine ⟨?_, normalize_le request'.definition, ?_, ?_⟩
    · rw [← hlengths]
      exact normalize_le request.definition
    · rw [← hlengths]
      rw [← hlengths] at hsame
      exact hsame
    · have hblank := hkind.2
      unfold Request.endsBlank at hblank
      rwa [hlengths] at hblank
  show searchedFolders container _ _ _ = searchedFolders container _ _ _
  rw [hlengths, hkind.1]
  exact searchedFolders_congr halike container request'.immediate

/-- The call gives a search with the folders that its own request selects, unless it lacks
the memory to build one. -/
def Transparent (t : Transition Clients Action) : Prop :=
  ∀ allocated request, t.action = .search allocated request →
    let result := localeRootSearch allocated request.definition request.immediate t.before.heap
    (result.1 = none → allocated = false) ∧
      ∀ id, result.1 = some id → ∃ cell, t.after.heap.search id = some cell ∧
        cell.head = request.built t.before.heap.container

/-- A recent search that matches the definition of the call was created for a request of the
same kind. -/
def FoundSameKind (t : Transition Clients Action) : Prop :=
  ∀ allocated request, t.action = .search allocated request →
    ∀ id, some id ∈ t.before.heap.lru →
      searchMatches t.before.heap (normalize request.definition).1
        (normalize request.definition).2 (some id) = true →
      (t.before.made id).SameKind request

/-- The search that a call gives was made for the call, or is a recent one. -/
theorem made_of_search {w : Clients} (hw : Clients.Inv w) (hholds : Holds w.heap w.made)
    {allocated : Bool} {request : Request} {id : Nat}
    (hresult : (localeRootSearch allocated request.definition request.immediate w.heap).1 = some id)
    (hkind : ∀ id, some id ∈ w.heap.lru →
      searchMatches w.heap (normalize request.definition).1 (normalize request.definition).2
        (some id) = true → (w.made id).SameKind request) :
    ((w.exec (.search allocated request)).made id).built w.heap.container =
      request.built w.heap.container := by
  show (Function.update w.made w.heap.searches.length request id).built _ = _
  rcases localeRootSearch_cases hw.lru allocated request.definition request.immediate with
    ⟨i, id', -, -, hmem, hmatch, heq⟩ | ⟨-, ⟨-, heq⟩ | ⟨-, heq⟩⟩
  · rw [heq] at hresult
    cases hresult
    have hsame := hkind id hmem hmatch
    unfold searchMatches at hmatch
    split at hmatch
    case h_1 => cases hmatch
    case h_2 cell hcell =>
      obtain ⟨htext, hend⟩ := Bool.and_eq_true_iff.mp hmatch
      rw [(hholds id cell hcell).2] at htext hend
      rw [Function.update_of_ne (Nat.ne_of_lt (RootHeap.lt_of_search hcell))]
      exact built_of_match _ hsame htext (by simpa using hend)
  · rw [heq] at hresult
    cases hresult
  · rw [heq] at hresult
    cases hresult
    rw [Function.update_self]

theorem localeRootSearch_container {s : RootHeap} (hlength : s.lru.length = lruCount)
    (allocated : Bool) (definition : Option CString) (immediate : Bool) :
    (localeRootSearch allocated definition immediate s).2.container = s.container := by
  rcases localeRootSearch_cases hlength allocated definition immediate with
    ⟨i, id, -, -, -, -, heq⟩ | ⟨-, ⟨-, heq⟩ | ⟨-, heq⟩⟩
  · rw [heq]
    exact (kept_addref _ id).container
  · rw [heq]
  · rw [heq]
    exact (withSearch_kept hlength _).1.container

theorem localeRootSearch_none {s : RootHeap} (hlength : s.lru.length = lruCount)
    {allocated : Bool} {definition : Option CString} {immediate : Bool}
    (h : (localeRootSearch allocated definition immediate s).1 = none) : allocated = false := by
  rcases localeRootSearch_cases hlength allocated definition immediate with
    ⟨i, id, -, -, -, -, heq⟩ | ⟨-, ⟨hlacks, -⟩ | ⟨-, heq⟩⟩
  · rw [heq] at h
    cases h
  · exact hlacks
  · rw [heq] at h
    cases h

theorem transparent_step {t : Transition Clients Action} (hbefore : Clients.Inv t.before)
    (hholds : Holds t.before.heap t.before.made)
    (hstep : Clients.Step t.before t.action t.after) (hkind : FoundSameKind t) :
    Transparent t := by
  intro allocated request haction
  have hinv := Clients.inv_step hbefore hstep
  have hafter := holds_step hbefore hholds hstep
  have hexec : t.after = t.before.exec (.search allocated request) := by
    rw [← haction]
    exact hstep.2
  refine ⟨localeRootSearch_none hbefore.lru, ?_⟩
  intro id hresult
  -- the caller has a reference on the search
  have hheld : 0 < t.after.held id := by
    rw [hexec]
    show 0 < granted t.before.held
      (localeRootSearch allocated request.definition request.immediate t.before.heap).1 id
    rw [hresult, granted, Function.update_self]
    exact Nat.succ_pos _
  obtain ⟨cell, hcell⟩ := hinv.balanced.exists_cell
    (Nat.lt_of_lt_of_le hheld (Clients.held_le_owned t.after id))
  refine ⟨cell, hcell, ?_⟩
  have hcontainer : t.after.heap.container = t.before.heap.container := by
    rw [hexec]
    exact localeRootSearch_container hbefore.lru _ _ _
  rw [(hafter id cell hcell).1, hcontainer, hexec]
  exact made_of_search hbefore hholds hresult (hkind allocated request haction)

/-- Over every run of the callers: each call whose definition matches no recent search made
for a request of another kind gives a search with the folders of its own request. -/
theorem search_cache_transparent {container : LocaleContainer} {w : Clients}
    {ts : List (Transition Clients Action)}
    (hrun : Runs Clients.Step (Clients.init container) w ts) :
    ∀ t ∈ ts, FoundSameKind t → Transparent t := by
  intro t ht hkind
  obtain ⟨hstep, us, -, hbefore⟩ := hrun.mem_spec ht
  have h := runs_holds hbefore
  exact transparent_step h.1 h.2 hstep hkind

/-! ## Two calls -/

theorem runs_once (container : LocaleContainer) (request : Request) :
    let w := (Clients.init container).exec (.search true request)
    Runs Clients.Step (Clients.init container) w
      [⟨Clients.init container, .search true request, w⟩] :=
  Runs.single (Clients.step_exec (w := Clients.init container) (.search true request) Nat.one_pos)

theorem first_search (container : LocaleContainer) (request : Request) :
    let w := (Clients.init container).exec (.search true request)
    w.heap.searches.length = 1 ∧ w.heap.lru = [some 0, none, none] ∧ w.made 0 = request ∧
      w.rootHeld = 1 ∧ w.heap.container = container :=
  ⟨rfl, rfl, rfl, rfl, rfl⟩

/-- A second call that finds the search of a request with other folders. -/
theorem not_transparent (container : LocaleContainer) (request request' : Request)
    (hfound : (localeRootSearch true request'.definition request'.immediate
      ((Clients.init container).exec (.search true request)).heap).1 = some 0)
    (hother : request.built container ≠ request'.built container) :
    ∃ (w : Clients) (ts : List (Transition Clients Action)),
      Runs Clients.Step (Clients.init container) w ts ∧ ¬ ∀ t ∈ ts, Transparent t := by
  have hfirst := first_search container request
  have hinv := (runs_holds (runs_once container request)).1
  have honce := runs_once container request
  generalize (Clients.init container).exec (.search true request) = w at *
  obtain ⟨hlength, -, hmade, hroot, hcontainer⟩ := hfirst
  have hrun := honce.snoc (Clients.step_exec (w := w) (.search true request')
    (show 0 < w.rootHeld by omega))
  refine ⟨_, _, hrun, ?_⟩
  intro hall
  have hlast := hall _ (List.mem_append_right _ (List.mem_singleton_self _)) true request' rfl
  obtain ⟨cell, hcell, hhead⟩ := hlast.2 0 hfound
  have hkept := ((runs_holds hrun).2 0 cell hcell).1
  have hmade' : (w.exec (.search true request')).made 0 = request := by
    show Function.update w.made w.heap.searches.length request' 0 = request
    rw [hlength]
    exact hmade
  have hcontainer' : (w.exec (.search true request')).heap.container = w.heap.container :=
    localeRootSearch_container hinv.lru _ _ _
  rw [hmade', hcontainer', hhead, hcontainer] at hkept
  exact hother hkept.symm

theorem foundSameKind_twice (container : LocaleContainer) {request request' : Request}
    (hkind : request.SameKind request') :
    let w := (Clients.init container).exec (.search true request)
    FoundSameKind ⟨Clients.init container, .search true request, w⟩ ∧
      FoundSameKind ⟨w, .search true request', w.exec (.search true request')⟩ := by
  constructor
  · rintro allocated sought ⟨⟩ id hid
    have hnone : some id ∈ List.replicate lruCount none := hid
    simp at hnone
  · rintro allocated sought ⟨⟩ id hid
    have hzero : some id ∈ [some 0, none, none] := hid
    simp only [List.mem_cons, Option.some.injEq, reduceCtorEq, List.not_mem_nil, or_false] at hzero
    rw [hzero]
    exact fun _ => hkind

/-- The container of the folders `en`, `en-GB` and `en-US`. -/
def englishFolders : LocaleContainer where
  maxlength := 5
  folders :=
    [⟨none, ⟨⟨[101, 110], by decide⟩, by decide, by decide⟩, by decide⟩,
      ⟨some 0, ⟨⟨[101, 110, 45, 71, 66], by decide⟩, by decide, by decide⟩, by decide⟩,
      ⟨some 0, ⟨⟨[101, 110, 45, 85, 83], by decide⟩, by decide, by decide⟩, by decide⟩]
  bounded := by
    intro folder hfolder
    simp only [List.mem_cons, List.not_mem_nil, or_false] at hfolder
    rcases hfolder with rfl | rfl | rfl <;> decide

/-- The container of the folders `f` and `fr`. -/
def frenchFolders : LocaleContainer where
  maxlength := 2
  folders := [⟨none, ⟨⟨[102], by decide⟩, by decide, by decide⟩, by decide⟩, french]
  bounded := by
    intro folder hfolder
    simp only [List.mem_cons, List.not_mem_nil, or_false] at hfolder
    rcases hfolder with rfl | rfl <;> decide

/-- `"en-US,en-GB,en"` with the given flag. -/
def americanFirst (immediate : Bool) : Request :=
  ⟨some ⟨[101, 110, 45, 85, 83, 44, 101, 110, 45, 71, 66, 44, 101, 110], by decide⟩, immediate⟩

/-- `"en-US"` and `"EN-us"` -/
def american : Request := ⟨some ⟨[101, 110, 45, 85, 83], by decide⟩, false⟩

def americanUpper : Request := ⟨some ⟨[69, 78, 45, 117, 115], by decide⟩, false⟩

/-- `"fr "` and `"fr"` -/
def frenchBlank : Request := ⟨some ⟨[102, 114, 32], by decide⟩, false⟩

def frenchOnly : Request := ⟨some french.name.toCString, false⟩

/-- A definition finds the search of the same one in another case. -/
theorem search_cache_transparent_case :
    ∃ (w : Clients) (ts : List (Transition Clients Action)),
      Runs Clients.Step (Clients.init englishFolders) w ts ∧ ts.length = 2 ∧ w.held 0 = 2 ∧
        (∀ t ∈ ts, FoundSameKind t) ∧ ∀ t ∈ ts, Transparent t := by
  have hrun := (runs_once englishFolders american).snoc
    (Clients.step_exec (.search true americanUpper) Nat.one_pos)
  have hkind : american.SameKind americanUpper := ⟨rfl, by decide +kernel⟩
  have hall : ∀ t ∈ _, FoundSameKind t := List.forall_mem_append.mpr
    ⟨List.forall_mem_singleton.mpr (foundSameKind_twice englishFolders hkind).1,
      List.forall_mem_singleton.mpr (foundSameKind_twice englishFolders hkind).2⟩
  refine ⟨_, _, hrun, rfl, by decide +kernel, hall, ?_⟩
  intro t ht
  exact search_cache_transparent hrun t ht (hall t ht)

/-- The search that is built first is given to the calls with the other flag, and to those
with the same definition that no blank follows. -/
theorem search_cache_forgets :
    (∃ (w : Clients) (ts : List (Transition Clients Action)),
      Runs Clients.Step (Clients.init englishFolders) w ts ∧ ¬ ∀ t ∈ ts, Transparent t) ∧
    ∃ (w : Clients) (ts : List (Transition Clients Action)),
      Runs Clients.Step (Clients.init frenchFolders) w ts ∧ ¬ ∀ t ∈ ts, Transparent t := by
  constructor
  · apply not_transparent englishFolders (americanFirst false) (americanFirst true)
    · decide +kernel
    · decide +kernel
  · apply not_transparent frenchFolders frenchBlank frenchOnly
    · decide +kernel
    · decide +kernel

end AfbBinder.Locale
