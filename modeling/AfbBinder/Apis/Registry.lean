import AfbBinder.Lib.Bytes
import AfbBinder.Session.Context

/-!
# The registered APIs

The model of `afb-apis.c`: the array of the APIs, whose names differ by more than the case,
and the search that gives to the context of a call the index of the API called.
-/

namespace AfbBinder.Apis

open Lib Session

/-! ## Names -/

/-- `afb_apis_is_valid_api_name` -/
def afbApisIsValidApiName (name : Bytes) : Bool :=
  name ≠ [] && name.all fun c =>
    0x80 ≤ c || (32 < c && !([34, 35, 37, 38, 39, 47, 63, 96, 92, 0x7f].contains c))

/-- `struct api_desc`; `api` stands for its `struct afb_api`. -/
structure ApiDesc where
  api : Nat
  name : Bytes
  namelen : Nat
deriving DecidableEq

/-- The array `apis_array`, as `afb_apis_add` fills it. -/
structure Registry where
  array : List ApiDesc
  valid : ∀ a ∈ array, afbApisIsValidApiName a.name = true
  named : ∀ a ∈ array, a.namelen = a.name.length
  distinct : array.Pairwise fun a b => strcaseeq a.name b.name = false

def Registry.empty : Registry where
  array := []
  valid := fun _ h => absurd h List.not_mem_nil
  named := fun _ h => absurd h List.not_mem_nil
  distinct := List.Pairwise.nil

/-- `afb_apis_count` -/
def afbApisCount (apis : Registry) : Nat := apis.array.length

theorem named_append {apis : Registry} {desc : ApiDesc} (h : desc.namelen = desc.name.length) :
    ∀ a ∈ apis.array ++ [desc], a.namelen = a.name.length := by
  intro a ha
  rcases List.mem_append.mp ha with ha | ha
  · exact apis.named a ha
  · rw [List.mem_singleton.mp ha, h]

theorem valid_append {apis : Registry} {desc : ApiDesc}
    (h : afbApisIsValidApiName desc.name = true) :
    ∀ a ∈ apis.array ++ [desc], afbApisIsValidApiName a.name = true := by
  intro a ha
  rcases List.mem_append.mp ha with ha | ha
  · exact apis.valid a ha
  · rw [List.mem_singleton.mp ha, h]

theorem distinct_append {apis : Registry} {desc : ApiDesc}
    (h : ¬ (apis.array.any fun a => strcaseeq a.name desc.name) = true) :
    (apis.array ++ [desc]).Pairwise fun a b => strcaseeq a.name b.name = false := by
  rw [List.pairwise_append]
  refine ⟨apis.distinct, List.pairwise_singleton _ _, ?_⟩
  intro a ha b hb
  rw [List.mem_singleton.mp hb]
  have hnone := List.any_eq_false.mp (Bool.eq_false_iff.mpr h) a ha
  exact Bool.eq_false_iff.mpr hnone

/-- `afb_apis_add`; `allocated` is the result of `realloc`, and `none` the result -1. -/
def afbApisAdd (allocated : Bool) (name : Bytes) (api : Nat) (apis : Registry) :
    Option Registry :=
  if hvalid : afbApisIsValidApiName name = true then
    if hexists : (apis.array.any fun a => strcaseeq a.name name) = true then none
    else if allocated then
      some
        { array := apis.array ++ [⟨api, name, name.length⟩]
          valid := valid_append hvalid
          named := named_append rfl
          distinct := distinct_append hexists }
    else none
  else none

/-! ## Calls -/

/-- The test of one API by the loop of `afb_apis_call`. -/
def apiMatches (api : Bytes) (a : ApiDesc) : Bool :=
  a.namelen = api.length && strncaseeq api.length a.name api

/-- The loop of `afb_apis_call` from the index `i`. -/
def findApi (api : Bytes) (i : Nat) : List ApiDesc → Option (Nat × ApiDesc)
  | [] => none
  | a :: rest => if apiMatches api a then some (i, a) else findApi api (i + 1) rest

/-- `afb_apis_call`: the API whose `call` is called and the context that it receives, or the
status and the info of the failure. -/
def afbApisCall (apis : Registry) (context : Context) (api : Bytes) :
    Except (String × String) (ApiDesc × Context) :=
  match findApi api 0 apis.array with
  | none => .error ("fail", "api not found")
  | some (i, a) => .ok (a, { context with apiIndex := i })

variable {apis : Registry} {a b : ApiDesc} {context context' : Context} {api : Bytes}

theorem apiMatches_iff (ha : a ∈ apis.array) :
    apiMatches api a = true ↔ strcaseeq a.name api = true := by
  rw [apiMatches, Bool.and_eq_true, decide_eq_true_eq, strncaseeq_iff, strcaseeq,
    decide_eq_true_eq, apis.named a ha, List.take_length]
  constructor
  · rintro ⟨hlength, hsame⟩
    rwa [← hlength, List.take_length] at hsame
  · intro hsame
    have hlength : a.name.length = api.length := by
      simpa using congrArg List.length hsame
    exact ⟨hlength, by rwa [← hlength, List.take_length]⟩

theorem findApi_some {i j : Nat} {array : List ApiDesc} (h : findApi api i array = some (j, a)) :
    ∃ k, j = i + k ∧ array[k]? = some a ∧ apiMatches api a = true := by
  induction array generalizing i with
  | nil => cases h
  | cons b rest ih =>
      rw [findApi] at h
      split at h
      case isTrue hmatch =>
        cases h
        exact ⟨0, rfl, rfl, hmatch⟩
      case isFalse =>
        obtain ⟨k, hj, hk, hmatch⟩ := ih h
        exact ⟨k + 1, by omega, hk, hmatch⟩

/-- The context of a call has the index of the API called, whose name is the one asked for up
to the case. -/
theorem afbApisCall_ok (h : afbApisCall apis context api = .ok (a, context')) :
    ∃ i : Nat, apis.array[i]? = some a ∧ context' = { context with apiIndex := i } ∧
      strcaseeq a.name api = true := by
  rw [afbApisCall] at h
  cases hfind : findApi api 0 apis.array with
  | none =>
      rw [hfind] at h
      cases h
  | some found =>
      rw [hfind] at h
      cases h
      obtain ⟨k, hj, hk, hmatch⟩ := findApi_some hfind
      rw [Nat.zero_add] at hj
      subst hj
      exact ⟨_, hk, rfl, (apiMatches_iff (List.mem_of_getElem? hk)).mp hmatch⟩

theorem name_ne {i j : Nat} (hi : apis.array[i]? = some a) (hj : apis.array[j]? = some b)
    (hlt : i < j) : strcaseeq a.name b.name = false := by
  obtain ⟨hilt, rfl⟩ := List.getElem?_eq_some_iff.mp hi
  obtain ⟨hjlt, rfl⟩ := List.getElem?_eq_some_iff.mp hj
  exact List.pairwise_iff_getElem.mp apis.distinct i j hilt hjlt hlt

theorem index_unique {i j : Nat} (hi : apis.array[i]? = some a) (hj : apis.array[j]? = some b)
    (hname : strcaseeq a.name b.name = true) : i = j := by
  have hname' : strcaseeq b.name a.name = true := by
    rw [strcaseeq, decide_eq_true_eq] at hname ⊢
    exact hname.symm
  rcases Nat.lt_trichotomy i j with hlt | heq | hlt
  · exact absurd (name_ne hi hj hlt) (by rw [hname]; decide)
  · exact heq
  · exact absurd (name_ne hj hi hlt) (by rw [hname']; decide)

end AfbBinder.Apis
