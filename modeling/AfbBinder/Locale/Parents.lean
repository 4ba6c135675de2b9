import Mathlib.Data.List.Perm.Basic
import AfbBinder.Lib.Closure
import AfbBinder.Locale.Lookup
import AfbBinder.Locale.Search

/-!
# The parents of the folders

`init_container` sorts the folders it has read and gives each one a parent: the folder of
the longest name that the name of this one goes on from a dash.  A search without the flag
`immediate` keeps the first folder of an element and leaves the shorter names to the
parents; a search with the flag looks for them itself.
-/

namespace AfbBinder.Locale

open Lib

/-! ## The container of a root -/

/-- `strcasecmp` -/
def strcasecmp (s t : Bytes) : Int := strncasecmp (max s.length t.length + 1) s t

/-- What `qsort` may make of the folders. -/
structure SortedFrom (read sorted : LocaleContainer) : Prop where
  perm : sorted.folders.Perm read.folders
  order : sorted.folders.Pairwise fun f g => strcasecmp f.name.bytes g.name.bytes ≤ 0
  maxlength : sorted.maxlength = read.maxlength

/-- The loop over the dashes of a name, from its end. -/
def searchParent (container : LocaleContainer) (name : Bytes) : Nat → Option Nat
  | 0 => none
  | j + 1 =>
      if charAt name j = dash then
        match searchFolder container name j with
        | some parent => some parent
        | none => searchParent container name j
      else searchParent container name j

/-- The links.  `search_folder` reads the names, that the links leave as they are. -/
def linkParents (container : LocaleContainer) : LocaleContainer where
  maxlength := container.maxlength
  folders := container.folders.map fun folder =>
    { folder with parent := searchParent container folder.name.bytes folder.length }
  bounded := by
    intro folder hfolder
    rcases List.mem_map.mp hfolder with ⟨source, hsource, rfl⟩
    exact container.bounded source hsource

/-- `init_container`, on the entries of the directory `locales/`. -/
def InitContainer (entries : List Dirent) (container : LocaleContainer) : Prop :=
  ∃ sorted, SortedFrom (readFolders LocaleContainer.empty entries) sorted ∧
    container = linkParents sorted

/-- The parent of a folder, both known by their positions. -/
def parentOf (container : LocaleContainer) (folder : Nat) : Option Nat :=
  container.folders[folder]?.bind LocaleFolder.parent

/-! ## Searches by names -/

theorem bisect_names {container container' : LocaleContainer}
    (h : container.folders.map LocaleFolder.name = container'.folders.map LocaleFolder.name)
    (name : Bytes) (length turns low high : Nat) :
    bisect container name length turns low high =
      bisect container' name length turns low high := by
  induction turns generalizing low high with
  | zero => rfl
  | succ turns ih =>
      have hat := congrArg (fun names => names[(low + high) / 2]?) h
      simp only [List.getElem?_map] at hat
      simp only [bisect]
      cases hf : container.folders[(low + high) / 2]? with
      | none =>
          rw [hf] at hat
          rw [Option.map_eq_none_iff.mp hat.symm]
      | some f =>
          rw [hf, Option.map_some] at hat
          rcases Option.map_eq_some_iff.mp hat.symm with ⟨g, hg, hname⟩
          rw [hg]
          simp only [hname, ih]

theorem linkParents_names (container : LocaleContainer) :
    (linkParents container).folders.map LocaleFolder.name =
      container.folders.map LocaleFolder.name := by
  simp [linkParents]

theorem searchFolder_linkParents (container : LocaleContainer) (name : Bytes) (length : Nat) :
    searchFolder (linkParents container) name length = searchFolder container name length := by
  have hlength : (linkParents container).folders.length = container.folders.length :=
    List.length_map _
  unfold searchFolder
  rw [hlength]
  exact bisect_names (linkParents_names container) _ _ _ _ _

theorem searchParent_linkParents (container : LocaleContainer) (name : Bytes) (length : Nat) :
    searchParent (linkParents container) name length = searchParent container name length := by
  induction length with
  | zero => rfl
  | succ length ih => simp only [searchParent, searchFolder_linkParents, ih]

/-- Each folder has the parent that is searched from its name. -/
structure ParentLinked (container : LocaleContainer) : Prop where
  parent : ∀ folder ∈ container.folders,
    folder.parent = searchParent container folder.name.bytes folder.length

theorem linkParents_linked (container : LocaleContainer) : ParentLinked (linkParents container) where
  parent := by
    intro folder hfolder
    rcases List.mem_map.mp hfolder with ⟨source, hsource, rfl⟩
    exact (searchParent_linkParents container _ _).symm

/-! ## What a search finds -/

theorem charAt_mem {text : Bytes} {i : Nat} (h : i < text.length) : charAt text i ∈ text := by
  have hat : charAt text i = text[i] := by simp [charAt, List.getD, h]
  rw [hat]
  exact List.getElem_mem h

theorem strncasecmp_zero {n : Nat} {s t : Bytes} (hn : n ≤ t.length) (ht : (0 : UInt8) ∉ t)
    (h : strncasecmp n s t = 0) :
    n ≤ s.length ∧ (s.take n).map tolower = (t.take n).map tolower := by
  induction n generalizing s t with
  | zero => exact ⟨Nat.zero_le _, rfl⟩
  | succ n ih =>
      cases t with
      | nil => cases hn
      | cons d t =>
          rw [List.mem_cons, not_or] at ht
          have hd : tolower d ≠ 0 := fun hzero =>
            ht.1 ((tolower_eq_iff (by decide) d).mp hzero).symm
          have hzero : tolower 0 = 0 := rfl
          cases s with
          | nil =>
              simp only [strncasecmp, List.headD_nil, List.headD_cons, hzero] at h
              rw [if_neg (fun hboth => hboth.2 rfl)] at h
              have hnat : (tolower d).toNat = 0 := by
                simp only [UInt8.toNat_zero] at h
                omega
              exact absurd (UInt8.toNat_inj.mp hnat) hd
          | cons c s =>
              change (if tolower c = tolower d ∧ tolower c ≠ 0 then strncasecmp n s t
                else (tolower c).toNat - (tolower d).toNat : Int) = 0 at h
              by_cases hboth : tolower c = tolower d ∧ tolower c ≠ 0
              · rw [if_pos hboth] at h
                have hrest := ih (Nat.le_of_succ_le_succ hn) ht.2 h
                refine ⟨Nat.succ_le_succ hrest.1, ?_⟩
                rw [List.take_succ_cons, List.take_succ_cons, List.map_cons, List.map_cons,
                  hboth.1, hrest.2]
              · rw [if_neg hboth] at h
                have hnat : (tolower c).toNat = (tolower d).toNat := by omega
                have hsame := UInt8.toNat_inj.mp hnat
                exact absurd ⟨hsame, hsame ▸ hd⟩ hboth

theorem bisect_some {container : LocaleContainer} {name : Bytes} {length turns low high found : Nat}
    (h : bisect container name length turns low high = some found) :
    ∃ f, container.folders[found]? = some f ∧ strncasecmp length f.name.bytes name = 0 ∧
      charAt f.name.bytes length = 0 := by
  induction turns generalizing low high with
  | zero => cases h
  | succ turns ih =>
      rw [bisect] at h
      split at h
      case isFalse => cases h
      case isTrue =>
        dsimp only at h
        cases hf : container.folders[(low + high) / 2]? with
        | none =>
            rw [hf] at h
            cases h
        | some f =>
            rw [hf] at h
            dsimp only at h
            split at h
            case isTrue hmatch =>
              cases h
              exact ⟨f, hf, hmatch⟩
            case isFalse =>
              split at h
              · exact ih h
              · exact ih h

theorem searchFolder_some {container : LocaleContainer} {name : CString} {length found : Nat}
    (hlength : length ≤ name.bytes.length) (h : searchFolder container name.bytes length = some found) :
    ∃ f, container.folders[found]? = some f ∧ f.length = length ∧
      f.name.bytes.map tolower = (name.bytes.take length).map tolower := by
  rcases bisect_some h with ⟨f, hf, hcompare, hend⟩
  rcases strncasecmp_zero hlength name.nulFree hcompare with ⟨hle, hsame⟩
  have heq : f.name.bytes.length = length := by
    rcases Nat.lt_or_eq_of_le hle with hlt | heq
    · have hmem := charAt_mem hlt
      rw [hend] at hmem
      exact absurd hmem f.name.nulFree
    · exact heq.symm
  rw [List.take_of_length_le (Nat.le_of_eq heq)] at hsame
  exact ⟨f, hf, heq, hsame⟩

theorem searchFolder_bound {container : LocaleContainer} {name : Bytes} {length found : Nat}
    (h : searchFolder container name length = some found) : found < container.folders.length := by
  rcases bisect_some h with ⟨f, hf, -⟩
  exact (List.getElem?_eq_some_iff.mp hf).1

/-! ## The chain of the parents -/

/-- Texts with the same bytes up to a length, but for the case. -/
abbrev SameUpTo (length : Nat) (s t : Bytes) : Prop :=
  (s.take length).map tolower = (t.take length).map tolower

theorem SameUpTo.shorter {length n : Nat} {s t : Bytes} (h : SameUpTo length s t)
    (hn : n ≤ length) : SameUpTo n s t := by
  have htake := congrArg (List.take n) h
  rwa [← List.map_take, ← List.map_take, List.take_take, List.take_take,
    Nat.min_eq_left hn] at htake

theorem SameUpTo.dash_iff {length i : Nat} {s t : Bytes} (h : SameUpTo length s t) (hi : i < length) :
    charAt s i = dash ↔ charAt t i = dash := by
  have hget := congrArg (fun text : Bytes => text[i]?) h
  simp only [List.getElem?_map, List.getElem?_take, hi, if_true] at hget
  have hlower : tolower (charAt s i) = tolower (charAt t i) := by
    unfold charAt List.getD
    cases hs : s[i]? with
    | none =>
        rw [hs] at hget
        rw [Option.map_eq_none_iff.mp hget.symm]
    | some c =>
        rw [hs, Option.map_some] at hget
        rcases Option.map_eq_some_iff.mp hget.symm with ⟨d, hd, hsame⟩
        rw [hd]
        exact hsame.symm
  have hb : dash < 65 := by decide
  rw [← tolower_eq_iff hb (charAt s i), hlower, tolower_eq_iff hb]

theorem searchFolder_congr {container : LocaleContainer} {length : Nat} {s t : Bytes}
    (h : SameUpTo length s t) : searchFolder container s length = searchFolder container t length :=
  bisect_congr h _ _ _

theorem searchParent_congr {container : LocaleContainer} {length : Nat} {s t : Bytes}
    (h : SameUpTo length s t) : searchParent container s length = searchParent container t length := by
  induction length with
  | zero => rfl
  | succ length ih =>
      have hshorter := h.shorter (Nat.le_succ length)
      have hfound : searchFolder container s length = searchFolder container t length :=
        searchFolder_congr hshorter
      simp only [searchParent, h.dash_iff (Nat.lt_succ_self length), hfound, ih hshorter]

/-- When a name up to a dash is found, so is a parent, of this name or a longer one. -/
theorem searchParent_found {container : LocaleContainer} {name : Bytes} {length c folder : Nat}
    (hc : c < length) (hdash : charAt name c = dash) (h : searchFolder container name c = some folder) :
    ∃ j parent, c ≤ j ∧ j < length ∧ searchFolder container name j = some parent ∧
      searchParent container name length = some parent := by
  induction length with
  | zero => cases hc
  | succ length ih =>
      rw [searchParent]
      rcases Nat.lt_or_eq_of_le (Nat.le_of_lt_succ hc) with hlt | rfl
      · rcases ih hlt with ⟨j, parent, hj, hjlt, hfound, hparent⟩
        split
        case isTrue =>
          cases hhere : searchFolder container name length with
          | some parent' => exact ⟨length, parent', Nat.le_of_lt hlt, Nat.lt_succ_self _, hhere, rfl⟩
          | none => exact ⟨j, parent, hj, Nat.lt_succ_of_lt hjlt, hfound, hparent⟩
        case isFalse => exact ⟨j, parent, hj, Nat.lt_succ_of_lt hjlt, hfound, hparent⟩
      · rw [if_pos hdash, h]
        exact ⟨c, folder, Nat.le_refl c, Nat.lt_succ_self c, h, rfl⟩

theorem parentOf_found {container : LocaleContainer} (hlinked : ParentLinked container)
    {name : CString} {length folder : Nat} (hlength : length ≤ name.bytes.length)
    (h : searchFolder container name.bytes length = some folder) :
    parentOf container folder = searchParent container name.bytes length := by
  rcases searchFolder_some hlength h with ⟨f, hf, hlen, hname⟩
  have hsame : SameUpTo length f.name.bytes name.bytes := by
    have hall : f.name.bytes.take length = f.name.bytes := List.take_of_length_le (Nat.le_of_eq hlen)
    rw [SameUpTo, hall]
    exact hname
  rw [parentOf, hf, Option.bind_some, hlinked.parent f (List.mem_of_getElem? hf), hlen]
  exact searchParent_congr hsame

/-- A folder found for a name leads to the folders found for the name up to a dash. -/
theorem leads_shorter {container : LocaleContainer} (hlinked : ParentLinked container)
    {name : CString} {length c folder folder' : Nat} (hlength : length ≤ name.bytes.length)
    (h : searchFolder container name.bytes length = some folder) (hc : c < length)
    (hdash : charAt name.bytes c = dash) (h' : searchFolder container name.bytes c = some folder') :
    Leads (parentOf container) folder folder' := by
  induction length using Nat.strongRecOn generalizing folder with
  | ind length ih =>
      rcases searchParent_found hc hdash h' with ⟨j, parent, hj, hjlt, hfound, hparent⟩
      have hstep : parentOf container folder = some parent :=
        (parentOf_found hlinked hlength h).trans hparent
      apply Leads.head hstep
      rcases Nat.lt_or_eq_of_le hj with hlt | rfl
      · exact ih j hjlt (by omega) hfound hlt
      · rw [hfound] at h'
        cases h'
        exact .refl

/-! ## Closing the search -/

theorem searchAppendFolder_mem {nodes : List Nat} {folder x : Nat} :
    x ∈ searchAppendFolder nodes folder ↔ x ∈ nodes ∨ x = folder := by
  unfold searchAppendFolder
  split
  case isTrue hmem =>
    constructor
    · exact .inl
    · intro hx
      rcases hx with hx | rfl
      · exact hx
      · exact hmem
  case isFalse => simp

theorem searchAppendFolder_front (nodes : List Nat) (folder : Nat) :
    nodes <+: searchAppendFolder nodes folder := by
  unfold searchAppendFolder
  split
  · exact List.prefix_rfl
  · exact List.prefix_append _ _

theorem linkParents_bound {container : LocaleContainer} (h : ParentLinked container) :
    container.Linked := by
  intro folder hfolder parent hparent
  rw [h.parent folder hfolder] at hparent
  generalize folder.name.bytes = name at hparent
  generalize folder.length = length at hparent
  induction length with
  | zero => cases hparent
  | succ length ih =>
      rw [searchParent] at hparent
      split at hparent
      case isTrue =>
        cases hfound : searchFolder container name length with
        | none =>
            rw [hfound] at hparent
            exact ih hparent
        | some parent' =>
            rw [hfound] at hparent
            cases hparent
            exact searchFolder_bound hfound
      case isFalse => exact ih hparent

theorem Fulfil.turn_eq {container : LocaleContainer} {s : Fulfil} (hlt : s.node < s.nodes.length) :
    s.turn container = match parentOf container s.nodes[s.node] with
      | some parent => ⟨s.node + 1, searchAppendFolder s.nodes parent⟩
      | none => { s with node := s.node + 1 } := by
  unfold Fulfil.turn
  rw [List.getElem?_eq_getElem hlt]
  rfl

theorem Fulfil.turn_closing {container : LocaleContainer} {start : List Nat} {s : Fulfil}
    (h : Closing (parentOf container) start s.node s.nodes) (hlt : s.node < s.nodes.length) :
    Closing (parentOf container) start (s.turn container).node (s.turn container).nodes := by
  have hat : s.nodes[s.node]? = some s.nodes[s.node] := List.getElem?_eq_getElem hlt
  rw [Fulfil.turn_eq hlt]
  cases hparent : parentOf container s.nodes[s.node] with
  | none =>
      apply h.turn hat List.prefix_rfl
      · exact fun b hb => .inl hb
      · intro b hb
        rw [hparent] at hb
        cases hb
  | some parent =>
      apply h.turn hat (searchAppendFolder_front _ _)
      · intro b hb
        rcases searchAppendFolder_mem.mp hb with hb | rfl
        · exact .inl hb
        · exact .inr hparent
      · intro b hb
        rw [hparent] at hb
        cases hb
        exact searchAppendFolder_mem.mpr (.inr rfl)

/-- What the loop that adds the parents leaves. -/
theorem fulfil_closing {container : LocaleContainer} (hlinked : ParentLinked container)
    {nodes : List Nat} (hnodes : Selected container nodes) :
    Selected container (fulfil container nodes) ∧
      ∃ node, (fulfil container nodes).length ≤ node ∧
        Closing (parentOf container) nodes node (fulfil container nodes) := by
  have hbody : ∀ s : Fulfil,
      Selected container s.nodes ∧ Closing (parentOf container) nodes s.node s.nodes →
      decide (s.node < s.nodes.length) = true →
      (Selected container (s.turn container).nodes ∧
        Closing (parentOf container) nodes (s.turn container).node (s.turn container).nodes) ∧
      container.folders.length - (s.turn container).node < container.folders.length - s.node := by
    intro s hs htest
    have hlt : s.node < s.nodes.length := of_decide_eq_true htest
    have hturn := Fulfil.turn_selected (linkParents_bound hlinked) hs.1 hlt
    exact ⟨⟨hturn.1, Fulfil.turn_closing hs.2 hlt⟩, hturn.2⟩
  have hended := whileDo_spec (s := ⟨0, nodes⟩)
    (fun s : Fulfil => Selected container s.nodes ∧
      Closing (parentOf container) nodes s.node s.nodes)
    (fun s => container.folders.length - s.node) hbody ⟨hnodes, .init _ _⟩ (Nat.sub_le _ _)
  exact ⟨hended.1.1, _, Nat.le_of_not_lt (of_decide_eq_false hended.2), hended.1.2⟩

/-! ## The folders of an element -/

/-- The end of the next shorter name of an element. -/
def shorterName (definition : Bytes) (back : Nat) : Nat :=
  dropDashes definition (dropSubtag definition back)

theorem shorterName_lt (definition : Bytes) {back : Nat} (h : 0 < back) :
    shorterName definition back < back :=
  Nat.lt_of_le_of_lt (dropDashes_le _ _) (dropSubtag_lt definition h)

/-- A shorter name ends before a dash. -/
theorem shorterName_dash (definition : Bytes) (back : Nat) :
    shorterName definition back = 0 ∨ charAt definition (shorterName definition back) = dash := by
  have hsubtag : dropSubtag definition back = 0 ∨
      charAt definition (dropSubtag definition back) = dash := by
    induction back with
    | zero => exact .inl rfl
    | succ back ih =>
        rw [dropSubtag]
        split
        case isTrue => exact ih
        case isFalse hdash => exact .inr (Decidable.not_not.mp hdash)
  unfold shorterName
  generalize dropSubtag definition back = i at hsubtag
  induction i with
  | zero => exact .inl rfl
  | succ i ih =>
      rw [dropDashes]
      split
      case isTrue hdashes => exact ih (.inr hdashes.2)
      case isFalse => exact .inr (hsubtag.resolve_left (Nat.succ_ne_zero i))

/-- One turn of the loop over the names of an element. -/
theorem downgrade_pos (container : LocaleContainer) (definition : Bytes) (immediate : Bool)
    {back : Nat} (h : 0 < back) (nodes : List Nat) :
    downgrade container definition immediate back nodes =
      match searchFolder container definition back with
      | none => downgrade container definition immediate (shorterName definition back) nodes
      | some folder =>
          if immediate then
            downgrade container definition immediate (shorterName definition back)
              (searchAppendFolder nodes folder)
          else searchAppendFolder nodes folder := by
  have hstable : ∀ (s : Downgrade) {turns turns' : Nat}, s.size ≤ turns → s.size ≤ turns' →
      whileDo Downgrade.again (Downgrade.turn container definition immediate) turns s =
        whileDo Downgrade.again (Downgrade.turn container definition immediate) turns' s :=
    fun s _ _ => whileDo_stable Downgrade.size
      fun _ hagain => Downgrade.turn_lt container definition immediate hagain
  have hlt := shorterName_lt definition h
  rcases Nat.exists_eq_succ_of_ne_zero (Nat.pos_iff_ne_zero.mp h) with ⟨turns, rfl⟩
  have hagain : Downgrade.again ⟨turns + 1, nodes, false⟩ = true := by simp [Downgrade.again]
  rw [downgrade, whileDo, if_pos hagain]
  cases hfound : searchFolder container definition (turns + 1) with
  | none =>
      have hturn : Downgrade.turn container definition immediate ⟨turns + 1, nodes, false⟩ =
          ⟨shorterName definition (turns + 1), nodes, false⟩ := by
        simp only [Downgrade.turn, hfound]
        rfl
      rw [hturn]
      exact congrArg Downgrade.nodes (hstable _ (Nat.le_of_lt_succ hlt) (Nat.le_refl _))
  | some folder =>
      cases immediate with
      | true =>
          have hturn : Downgrade.turn container definition true ⟨turns + 1, nodes, false⟩ =
              ⟨shorterName definition (turns + 1), searchAppendFolder nodes folder, false⟩ := by
            simp only [Downgrade.turn, hfound]
            rfl
          rw [hturn]
          exact congrArg Downgrade.nodes (hstable _ (Nat.le_of_lt_succ hlt) (Nat.le_refl _))
      | false =>
          have hturn : Downgrade.turn container definition false ⟨turns + 1, nodes, false⟩ =
              ⟨turns + 1, searchAppendFolder nodes folder, true⟩ := by
            simp only [Downgrade.turn, hfound]
            rfl
          have hstop := hstable ⟨turns + 1, searchAppendFolder nodes folder, true⟩
            (Nat.zero_le turns) (Nat.zero_le 0)
          rw [hturn]
          exact congrArg Downgrade.nodes hstop

theorem downgrade_selected {container : LocaleContainer} {definition : Bytes} {immediate : Bool}
    {back : Nat} {nodes : List Nat} (h : Selected container nodes) :
    Selected container (downgrade container definition immediate back nodes) := by
  induction back using Nat.strongRecOn generalizing nodes with
  | ind back ih =>
      rcases Nat.eq_zero_or_pos back with rfl | hpos
      · exact h
      · have hlt := shorterName_lt definition hpos
        rw [downgrade_pos container definition immediate hpos]
        cases hfound : searchFolder container definition back with
        | none => exact ih _ hlt h
        | some folder =>
            have hmore := h.append (searchFolder_bound hfound)
            cases immediate with
            | true => exact ih _ hlt hmore
            | false => exact hmore

theorem downgrade_kept {container : LocaleContainer} {definition : Bytes} {immediate : Bool}
    {back : Nat} {nodes : List Nat} :
    nodes ⊆ downgrade container definition immediate back nodes := by
  induction back using Nat.strongRecOn generalizing nodes with
  | ind back ih =>
      rcases Nat.eq_zero_or_pos back with rfl | hpos
      · exact fun _ h => h
      · have hlt := shorterName_lt definition hpos
        rw [downgrade_pos container definition immediate hpos]
        cases searchFolder container definition back with
        | none => exact ih _ hlt
        | some folder =>
            have hmore := (searchAppendFolder_front nodes folder).subset
            cases immediate with
            | true => exact List.Subset.trans hmore (ih _ hlt)
            | false => exact hmore

/-- Once a folder is found, the shorter names add folders that it leads to. -/
theorem downgrade_leads {container : LocaleContainer} (hlinked : ParentLinked container)
    {definition : CString} {length back folder : Nat} (hlength : length ≤ definition.bytes.length)
    (h : searchFolder container definition.bytes length = some folder) (hback : back < length)
    (hdash : back = 0 ∨ charAt definition.bytes back = dash) {nodes : List Nat} {x : Nat}
    (hx : x ∈ downgrade container definition.bytes true back nodes) :
    x ∈ nodes ∨ Leads (parentOf container) folder x := by
  induction back using Nat.strongRecOn generalizing nodes with
  | ind back ih =>
      rcases Nat.eq_zero_or_pos back with rfl | hpos
      · exact .inl hx
      · have hlt := shorterName_lt definition.bytes hpos
        have hnext := shorterName_dash definition.bytes back
        rw [downgrade_pos container definition.bytes true hpos] at hx
        cases hfound : searchFolder container definition.bytes back with
        | none =>
            rw [hfound] at hx
            exact ih _ hlt (Nat.lt_trans hlt hback) hnext hx
        | some folder' =>
            rw [hfound] at hx
            rcases ih _ hlt (Nat.lt_trans hlt hback) hnext hx with hmem | hleads
            · rcases searchAppendFolder_mem.mp hmem with hmem | rfl
              · exact .inl hmem
              · have hcut := hdash.resolve_left (Nat.pos_iff_ne_zero.mp hpos)
                exact .inr (leads_shorter hlinked hlength h hback hcut hfound)
            · exact .inr hleads

/-- The folders that two lists lead to are the same. -/
def SameReach (container : LocaleContainer) (nodes nodes' : List Nat) : Prop :=
  ∀ x, Reached (parentOf container) nodes x ↔ Reached (parentOf container) nodes' x

/-- An element adds the same folders with the flag and without it. -/
theorem downgrade_sameReach {container : LocaleContainer} (hlinked : ParentLinked container)
    {definition : CString} {back : Nat} (hback : back ≤ definition.bytes.length)
    {nodes nodes' : List Nat} (h : SameReach container nodes nodes') :
    SameReach container (downgrade container definition.bytes true back nodes)
      (downgrade container definition.bytes false back nodes') := by
  induction back using Nat.strongRecOn with
  | ind back ih =>
      rcases Nat.eq_zero_or_pos back with rfl | hpos
      · exact h
      · have hlt := shorterName_lt definition.bytes hpos
        have hnext := shorterName_dash definition.bytes back
        rw [downgrade_pos container definition.bytes true hpos,
          downgrade_pos container definition.bytes false hpos]
        cases hfound : searchFolder container definition.bytes back with
        | none => exact ih _ hlt (by omega)
        | some folder =>
            intro x
            constructor
            · apply Reached.trans
              intro y hy
              rcases downgrade_leads hlinked hback hfound hlt hnext hy with hmem | hleads
              · rcases searchAppendFolder_mem.mp hmem with hmem | rfl
                · exact ((h y).mp (.of_mem hmem)).mono (searchAppendFolder_front _ _).subset
                · exact .of_mem (searchAppendFolder_mem.mpr (.inr rfl))
              · exact ⟨folder, searchAppendFolder_mem.mpr (.inr rfl), hleads⟩
            · apply Reached.trans
              intro y hy
              have hmore := (searchAppendFolder_front nodes folder).subset
              rcases searchAppendFolder_mem.mp hy with hmem | rfl
              · exact ((h y).mpr (.of_mem hmem)).mono (List.Subset.trans hmore downgrade_kept)
              · exact .of_mem (downgrade_kept (searchAppendFolder_mem.mpr (.inr rfl)))

/-! ## The folders of a definition -/

/-- The loops over the elements, with the flag and without it. -/
structure Elements.SameReach (container : LocaleContainer) (s s' : Elements) : Prop where
  definition : s.definition = s'.definition
  length : s.length = s'.length
  nulFree : (0 : UInt8) ∉ s.definition
  within : s.length ≤ s.definition.length
  selected : Selected container s.nodes
  selected' : Selected container s'.nodes
  reach : Locale.SameReach container s.nodes s'.nodes

theorem Elements.SameReach.turn {container : LocaleContainer} (hlinked : ParentLinked container)
    {s s' : Elements} (h : Elements.SameReach container s s') :
    Elements.SameReach container (s.turn container true) (s'.turn container false) := by
  rcases s with ⟨definition, length, nodes⟩
  rcases s' with ⟨definition', length', nodes'⟩
  rcases h with ⟨hdefinition, hlength, hnul, hwithin, hselected, hselected', hreach⟩
  dsimp only at hdefinition hlength hnul hwithin hselected hselected' hreach
  subst hdefinition hlength
  have hback : trimBack definition (elementStop definition length) ≤ definition.length := by
    have hstop := elementStop_le definition length
    have htrim := trimBack_le definition (elementStop definition length)
    omega
  constructor
  · rfl
  · rfl
  · exact fun hmem => hnul (List.mem_of_mem_drop hmem)
  · simp only [Elements.turn, List.length_drop]
    omega
  · exact downgrade_selected hselected
  · exact downgrade_selected hselected'
  · exact @downgrade_sameReach container hlinked ⟨definition, hnul⟩ _ hback nodes nodes' hreach

/-- Two lists of the same folders, both without duplicate and with the parents. -/
structure SearchLaw (container : LocaleContainer) (nodes nodes' : List Nat) : Prop where
  nodup : nodes.Nodup
  nodup' : nodes'.Nodup
  closed : ∀ folder ∈ nodes, ∀ parent, parentOf container folder = some parent → parent ∈ nodes
  closed' : ∀ folder ∈ nodes', ∀ parent, parentOf container folder = some parent → parent ∈ nodes'
  same : ∀ folder, folder ∈ nodes ↔ folder ∈ nodes'

/-- The flag `immediate` changes the order of a search, and nothing else. -/
theorem immediate_reorders {entries : List Dirent} {container : LocaleContainer}
    (hinit : InitContainer entries container) (definition : CString) {length : Nat}
    (hlength : length ≤ definition.bytes.length) :
    SearchLaw container (searchedFolders container definition.bytes length true)
      (searchedFolders container definition.bytes length false) := by
  rcases hinit with ⟨sorted, -, rfl⟩
  have hlinked := linkParents_linked sorted
  have hempty : Selected (linkParents sorted) [] := ⟨List.nodup_nil, fun _ h => by cases h⟩
  have hstart : Elements.SameReach (linkParents sorted) ⟨definition.bytes, length, []⟩
      ⟨definition.bytes, length, []⟩ :=
    ⟨rfl, rfl, definition.nulFree, hlength, hempty, hempty, fun _ => Iff.rfl⟩
  have htest : ∀ s s' : Elements, Elements.SameReach (linkParents sorted) s s' →
      decide (0 < s.length) = decide (0 < s'.length) := by
    intro s s' hs
    rw [hs.length]
  have hloops : Elements.SameReach (linkParents sorted)
      (whileDo (fun s => decide (0 < s.length)) (Elements.turn (linkParents sorted) true) length
        ⟨definition.bytes, length, []⟩)
      (whileDo (fun s => decide (0 < s.length)) (Elements.turn (linkParents sorted) false) length
        ⟨definition.bytes, length, []⟩) :=
    whileDo_related _ htest (fun s s' hs _ => hs.turn hlinked) hstart
  rcases fulfil_closing hlinked hloops.selected with ⟨hselected, node, hend, hclosing⟩
  rcases fulfil_closing hlinked hloops.selected' with ⟨hselected', node', hend', hclosing'⟩
  constructor
  · exact hselected.nodup
  · exact hselected'.nodup
  · exact fun folder hmem parent hparent => hclosing.end_closed hend hmem hparent
  · exact fun folder hmem parent hparent => hclosing'.end_closed hend' hmem hparent
  · intro folder
    exact (hclosing.mem_iff hend).trans ((hloops.reach folder).trans (hclosing'.mem_iff hend').symm)

def frenchDirents : List Dirent :=
  [⟨french.name, true⟩,
    ⟨⟨⟨[102, 114, 45, 67, 65], by decide⟩, by decide, by decide⟩, true⟩,
    ⟨⟨⟨[102, 114, 45, 70, 82], by decide⟩, by decide, by decide⟩, true⟩]

/-- The folders fr, fr-CA and fr-FR, searched for fr-CA and fr-FR. -/
theorem immediate_reorders_french :
    ∃ container, InitContainer frenchDirents container ∧
      searchedFolders container [102, 114, 45, 67, 65, 44, 102, 114, 45, 70, 82] 11 true = [1, 0, 2] ∧
      searchedFolders container [102, 114, 45, 67, 65, 44, 102, 114, 45, 70, 82] 11 false = [1, 2, 0] ∧
      SearchLaw container [1, 0, 2] [1, 2, 0] := by
  have hsorted : SortedFrom (readFolders LocaleContainer.empty frenchDirents)
      (readFolders LocaleContainer.empty frenchDirents) :=
    ⟨List.Perm.refl _, by decide, rfl⟩
  have hinit : InitContainer frenchDirents _ := ⟨_, hsorted, rfl⟩
  have hlaw := immediate_reorders hinit ⟨[102, 114, 45, 67, 65, 44, 102, 114, 45, 70, 82], by decide⟩
    (Nat.le_refl 11)
  exact ⟨_, hinit, by decide, by decide, hlaw⟩

end AfbBinder.Locale
