import NavigatorEventbus.Webhook.Machine

/-!
# The registry of endpoints

`normalize_path` strips the spaces of a path once and its slashes once.  What the slashes hid can be a space
again: `/github /` becomes the path of an endpoint with a space at its end, and a second normalization takes the
space away.  The path of a request is only stripped of slashes, so every endpoint is found by the requests to it;
`get_endpoint` and `unregister_endpoint` normalize a path that is already normal, and they find an endpoint if
and only if no space ends its path (`paths_found_iff`).
-/

namespace NavigatorEventbus.Webhook

open Trim

/-- `str.strip("/")`. -/
def stripSlashes (s : Text) : Text := trim (· = '/') s

section Paths

/-- The segments that `normalize_path` accepts. -/
def Segments (inner : Text) : Prop := ∀ segment ∈ inner.splitOn '/', segment ≠ [] ∧ segment ≠ ['.'] ∧ segment ≠ ['.', '.']

instance (inner : Text) : Decidable (Segments inner) := inferInstanceAs (Decidable (∀ _ ∈ _, _))

theorem normalizePath_eq (value : Text) :
    normalizePath value =
      if strip value = [] ∨ '\\' ∈ strip value then none
      else if stripSlashes (strip value) = [] then some ['/']
      else if Segments (stripSlashes (strip value)) then some ('/' :: stripSlashes (strip value))
      else none := rfl

/-- What a normal path is made of. -/
theorem normalizePath_spec {value path : Text} (h : normalizePath value = some path) :
    path = '/' :: stripSlashes (strip value) ∧ '\\' ∉ stripSlashes (strip value) ∧
      (stripSlashes (strip value) = [] ∨ Segments (stripSlashes (strip value))) := by
  rw [normalizePath_eq] at h
  by_cases refused : strip value = [] ∨ '\\' ∈ strip value
  · rw [if_pos refused] at h
    cases h
  · rw [if_neg refused] at h
    rw [not_or] at refused
    have clean : '\\' ∉ stripSlashes (strip value) := fun mem => refused.2 ((trim_sublist _).subset mem)
    by_cases root : stripSlashes (strip value) = []
    · rw [if_pos root, Option.some_inj] at h
      rw [root]
      exact ⟨h.symm, by simp, .inl rfl⟩
    · rw [if_neg root, Option.ite_none_right_eq_some, Option.some_inj] at h
      exact ⟨h.2.symm, clean, .inr h.1⟩

theorem stripSlashes_cons (s : Text) : stripSlashes ('/' :: s) = stripSlashes s := rfl

theorem strip_cons_slash (s : Text) : strip ('/' :: s) = ('/' :: s).rdropWhile isStripped :=
  trim_cons (by decide) s

/-- A normal path with no space at its end is its own normal form. -/
theorem normalizePath_of_trimmedEnd {value path : Text} (h : normalizePath value = some path)
    (trimmed : TrimmedEnd isStripped path) : normalizePath path = some path := by
  obtain ⟨rfl, clean, segments⟩ := normalizePath_spec h
  have same : strip ('/' :: stripSlashes (strip value)) = '/' :: stripSlashes (strip value) := by
    rw [strip_cons_slash]
    exact rdropWhile_eq_self_of_trimmedEnd trimmed
  have inner : stripSlashes ('/' :: stripSlashes (strip value)) = stripSlashes (strip value) := by
    rw [stripSlashes_cons]
    exact trim_trim _
  rw [normalizePath_eq, same, inner, if_neg (by simp [clean])]
  by_cases root : stripSlashes (strip value) = []
  · rw [if_pos root, root]
  · rw [if_neg root, if_pos (segments.resolve_left root)]

/-- A normal path that a space ends has another normal form, or none. -/
theorem normalizePath_ne {value path : Text} (h : normalizePath value = some path)
    (loose : ¬TrimmedEnd isStripped path) : normalizePath path ≠ some path := by
  intro again
  obtain ⟨eq, -⟩ := normalizePath_spec h
  obtain ⟨fixed, -⟩ := normalizePath_spec again
  rw [eq] at loose fixed
  generalize stripSlashes (strip value) = inner at loose fixed
  have before : ('/' :: inner).rdropWhile isStripped <+: '/' :: inner := List.rdropWhile_prefix _ _
  have shorter : (('/' :: inner).rdropWhile isStripped).length < ('/' :: inner).length := by
    apply lt_of_le_of_ne before.length_le
    intro same
    have whole := before.eq_of_length same
    rw [← whole] at loose
    exact loose (trimmedEnd_rdropWhile _)
  rw [strip_cons_slash] at fixed
  have length := congrArg List.length fixed
  cases stripped : ('/' :: inner).rdropWhile isStripped with
  | nil =>
    have all := List.rdropWhile_eq_nil_iff.1 stripped '/' (List.mem_cons_self ..)
    cases all
  | cons c rest =>
    rw [stripped] at length shorter before
    obtain ⟨rfl, -⟩ := List.cons_prefix_cons.1 before
    have le : (stripSlashes rest).length ≤ rest.length := (trim_sublist _).length_le
    rw [stripSlashes_cons] at length
    simp only [List.length_cons] at length shorter
    omega

theorem normalizePath_idempotent_iff {value path : Text} (h : normalizePath value = some path) :
    normalizePath path = some path ↔ TrimmedEnd isStripped path := by
  by_cases trimmed : TrimmedEnd isStripped path
  · exact iff_of_true (normalizePath_of_trimmedEnd h trimmed) trimmed
  · exact iff_of_false (normalizePath_ne h trimmed) trimmed

/-- The end of a path is the end of what its slashes enclose. -/
theorem trimmedEnd_cons (inner : Text) : TrimmedEnd isStripped ('/' :: inner) ↔ TrimmedEnd isStripped inner := by
  cases inner with
  | nil => exact iff_of_true (fun c h => by cases h; decide) (fun c h => by cases h)
  | cons c rest =>
    unfold TrimmedEnd
    rw [List.getLast?_cons_cons]

end Paths

/-- The endpoints of a listener by their paths. -/
structure Registry where
  entries : List (Text × WebhookEndpointConfig) := []
  paths : ∀ entry ∈ entries, entry.1 = entry.2.path := by simp
  nodup : (entries.map Prod.fst).Nodup := by simp

namespace Registry

variable (registry : Registry)

/-- The entries whose key is not `key`. -/
def without (key : Text) : Registry where
  entries := registry.entries.filter fun entry => entry.1 ≠ key
  paths entry h := registry.paths entry (List.mem_of_mem_filter h)
  nodup := registry.nodup.sublist (List.filter_sublist.map _)

/-- `_install`, with which `register_endpoint` ends: an entry of the same path is replaced. -/
def install (endpoint : WebhookEndpointConfig) : Registry where
  entries := (endpoint.path, endpoint) :: (registry.without endpoint.path).entries
  paths entry h := by
    rcases List.mem_cons.1 h with rfl | old
    · rfl
    · exact (registry.without endpoint.path).paths entry old
  nodup := by
    refine List.nodup_cons.2 ⟨fun mem => ?_, (registry.without endpoint.path).nodup⟩
    obtain ⟨entry, kept, same⟩ := List.mem_map.1 mem
    exact of_decide_eq_true (List.mem_filter.1 kept).2 same

/-- `get_endpoint`; `none` when `normalize_path` raises. -/
def getEndpoint (path : Text) : Option (Option WebhookEndpointConfig) :=
  (normalizePath path).map fun key => registry.entries.lookup key

/-- `unregister_endpoint`: the removed endpoint and the registry without it. -/
def unregisterEndpoint (path : Text) : Option (Option WebhookEndpointConfig × Registry) :=
  (normalizePath path).map fun key => (registry.entries.lookup key, registry.without key)

/-- The endpoint that `_handle_webhook` resolves. -/
def route (request : Request) : Option WebhookEndpointConfig := registry.entries.lookup request.endpointKey

variable {registry} {endpoint : WebhookEndpointConfig}

/-- The listener's steps on its endpoints are those of the receiver's model. -/
theorem disturb_install (σ : State) (h : σ.endpoints = registry.entries) :
    (σ.disturb (.install endpoint)).endpoints = (registry.install endpoint).entries := by
  rw [State.disturb, h]
  rfl

theorem disturb_unregister (σ : State) (h : σ.endpoints = registry.entries) {path key : Text}
    (normal : normalizePath path = some key) :
    (σ.disturb (.unregister path)).endpoints = (registry.without key).entries := by
  rw [State.disturb, h, normal]
  simp [without]

theorem lookup_eq_some_iff {key : Text} :
    registry.entries.lookup key = some endpoint ↔ (key, endpoint) ∈ registry.entries := by
  have nodup := registry.nodup
  generalize registry.entries = entries at nodup
  induction entries with
  | nil => simp
  | cons entry rest ih =>
    rw [List.map_cons, List.nodup_cons] at nodup
    by_cases same : key = entry.1
    · subst same
      rw [List.lookup_cons_self, Option.some_inj, List.mem_cons]
      constructor
      · rintro rfl
        exact .inl rfl
      · rintro (eq | later)
        · rw [← eq]
        · exact absurd (List.mem_map.2 ⟨_, later, rfl⟩) nodup.1
    · have other : (key == entry.1) = false := by simpa using same
      rw [List.lookup_cons, other]
      refine (ih nodup.2).trans ?_
      rw [List.mem_cons]
      refine (or_iff_right fun eq => same ?_).symm
      rw [← eq]

/-- The entry of an endpoint is the one with its path. -/
theorem entry_of_lookup {key : Text} (h : registry.entries.lookup key = some endpoint) : key = endpoint.path :=
  registry.paths _ (lookup_eq_some_iff.1 h)

/-- The endpoint, and no other, is found and unregistered by its own path and answers the requests to it. -/
def Found (registry : Registry) (endpoint : WebhookEndpointConfig) : Prop :=
  registry.getEndpoint endpoint.path = some (some endpoint) ∧
    (∃ rest, registry.unregisterEndpoint endpoint.path = some (some endpoint, rest) ∧
      ∀ entry, entry ∈ rest.entries ↔ entry ∈ registry.entries ∧ entry ≠ (endpoint.path, endpoint)) ∧
    ∀ request : Request, '/' :: request.webhookId = endpoint.path → registry.route request = some endpoint

/-- Requests are routed to the endpoint with their path. -/
theorem route_eq (mem : (endpoint.path, endpoint) ∈ registry.entries) {request : Request}
    (below : '/' :: request.webhookId = endpoint.path) : registry.route request = some endpoint := by
  obtain ⟨value, normal⟩ := endpoint.path_eq
  obtain ⟨eq, -⟩ := normalizePath_spec normal
  have inner : request.webhookId = stripSlashes (strip value) := by
    rw [eq] at below
    exact (List.cons.inj below).2
  have key : request.endpointKey = endpoint.path := by
    have same : request.endpointKey = '/' :: stripSlashes request.webhookId := rfl
    rw [same, inner, eq]
    exact congrArg _ (trim_trim _)
  rw [route, key]
  exact lookup_eq_some_iff.2 mem

theorem mem_without_iff (mem : (endpoint.path, endpoint) ∈ registry.entries)
    (entry : Text × WebhookEndpointConfig) :
    entry ∈ (registry.without endpoint.path).entries ↔
      entry ∈ registry.entries ∧ entry ≠ (endpoint.path, endpoint) := by
  rw [without, List.mem_filter, decide_eq_true_eq]
  constructor
  · rintro ⟨old, other⟩
    refine ⟨old, ?_⟩
    rintro rfl
    exact other rfl
  · rintro ⟨old, other⟩
    refine ⟨old, fun same => other ?_⟩
    have here := lookup_eq_some_iff.2 mem
    rw [← same, lookup_eq_some_iff.2 (show (entry.1, entry.2) ∈ registry.entries from old)] at here
    rw [← same, ← Option.some_inj.1 here]

theorem found_iff (mem : (endpoint.path, endpoint) ∈ registry.entries) :
    registry.Found endpoint ↔ TrimmedEnd isStripped endpoint.path := by
  obtain ⟨value, normal⟩ := endpoint.path_eq
  by_cases trimmed : TrimmedEnd isStripped endpoint.path
  · have same := normalizePath_of_trimmedEnd normal trimmed
    have found : registry.entries.lookup endpoint.path = some endpoint := lookup_eq_some_iff.2 mem
    refine iff_of_true ⟨?_, ⟨_, ?_, mem_without_iff mem⟩, fun _ below => route_eq mem below⟩ trimmed
    · rw [getEndpoint, same, Option.map_some, found]
    · rw [unregisterEndpoint, same, Option.map_some, found]
  · refine iff_of_false ?_ trimmed
    rintro ⟨found, -⟩
    rw [getEndpoint, Option.map_eq_some_iff] at found
    obtain ⟨key, again, here⟩ := found
    rw [entry_of_lookup here] at again
    exact normalizePath_ne normal trimmed again

end Registry

/-- A path is its own normal form, and its endpoint is found by it, if and only if no space ends it: no space is
left at the end of the value when its spaces and then its slashes are stripped. -/
theorem paths_found_iff {value path : Text} (normal : normalizePath value = some path) {registry : Registry}
    {endpoint : WebhookEndpointConfig} (mem : (endpoint.path, endpoint) ∈ registry.entries) :
    (normalizePath path = some path ↔ TrimmedEnd isStripped (stripSlashes (strip value))) ∧
      (registry.Found endpoint ↔ TrimmedEnd isStripped endpoint.path) := by
  refine ⟨?_, Registry.found_iff mem⟩
  rw [normalizePath_idempotent_iff normal, (normalizePath_spec normal).1, trimmedEnd_cons]

/-- An endpoint that was registered under `/github /`. -/
def spacedEndpoint : WebhookEndpointConfig where
  path := "/github ".toList
  requireSignature := false
  path_eq := ⟨"/github /".toList, by decide⟩
  signed := unsigned_ok
  parsed := rfl
  maxBodyBytes_pos := unlimited_pos

theorem paths_found_spaced :
    (normalizePath "/github".toList = some "/github".toList ↔
        TrimmedEnd isStripped (stripSlashes (strip "/github".toList))) ∧
      ((Registry.install {} spacedEndpoint).Found spacedEndpoint ↔
        TrimmedEnd isStripped spacedEndpoint.path) :=
  paths_found_iff (by decide) (List.mem_singleton.2 rfl)

/-- Its path is no normal form, and the endpoint is not found by it. -/
theorem path_spaced :
    normalizePath "/github /".toList = some "/github ".toList ∧
      normalizePath "/github ".toList = some "/github".toList ∧
      (Registry.install {} spacedEndpoint).getEndpoint spacedEndpoint.path = some none := by
  refine ⟨by decide, by decide, ?_⟩
  have normal : normalizePath spacedEndpoint.path = some "/github".toList := by decide
  rw [Registry.getEndpoint, normal]
  rfl

end NavigatorEventbus.Webhook
