import NavigatorEventbus.Lib.Accounting
import NavigatorEventbus.Webhook.Machine

/-!
# The gate in front of the pipeline

The stages of a delivery that use its body or act for it, from the cache of delivery ids to the dispatch,
come after the checks: whatever the request, the endpoint and the rest of the receiver do, the endpoint was
found and enabled, the address allowed, the body complete and within its cap, and its signature verified
(`gated`).
-/

namespace NavigatorEventbus.Webhook

open Interleave

open Bus (Exc Outcome)

/-- The commands that use the body of a delivery or act for it. -/
def Cmd.Uses : Cmd → Prop
  | .duplicate _ _ _ | .parse _ _ _ _ | .preprocess _ _ _ _ | .classify _ _ _ _ | .normalize _ _ _ _ _
  | .task _ _ _ _ | .build _ _ _ | .dispatch _ _ | .spawn _ _ => True
  | _ => False

section Gate

variable {hook : Hook} {request : Request} {endpoint : WebhookEndpointConfig} {delivery : ℕ}

/-- The client address is in a network of the allow-list, or there is none. -/
def AddressListed (request : Request) (endpoint : WebhookEndpointConfig) : Prop :=
  endpoint.allowedIps = [] ∨ ∃ ip address network, clientIp request endpoint.trustForwardedFor = some ip ∧
    IpAddress.parse ip = some address ∧ network ∈ endpoint.parsedNetworks ∧ network.Contains address

/-- The scheme of the endpoint verified the signature over the raw body. -/
def Verified (request : Request) (endpoint : WebhookEndpointConfig) (secret : Text)
    (s : Issued (machine hook)) : Prop :=
  (∃ delivery, s.cmd = .verify delivery request endpoint request.body) ∧
    ∃ scheme detail, s.before.schemes endpoint.signatureScheme = some scheme ∧
      scheme.verify secret request.body request.headers endpoint.signatureHeader endpoint.toleranceSeconds
        s.input.time = .ok { verdict := .ok, detail }

/-- The checks that a delivery has passed when its task has executed `t`. -/
structure Passed (hook : Hook) (request : Request) (endpoint : WebhookEndpointConfig)
    (t : List (Issued (machine hook))) : Prop where
  enabled : endpoint.enabled = true
  address : AddressListed request endpoint
  declared : ∀ n, request.contentLength = some n → n ≤ hook.limit endpoint
  complete : request.broken = none
  capped : request.body.length ≤ hook.limit endpoint
  verified : ∀ secret, endpoint.key = some secret → ∃ s ∈ t, Verified request endpoint secret s

theorem Passed.append {t : List (Issued (machine hook))} (passed : Passed hook request endpoint t)
    (first rest : List (Issued (machine hook))) : Passed hook request endpoint (first ++ t ++ rest) where
  enabled := passed.enabled
  address := passed.address
  declared := passed.declared
  complete := passed.complete
  capped := passed.capped
  verified secret hsecret := by
    obtain ⟨s, hs, verified⟩ := passed.verified secret hsecret
    exact ⟨s, by simp [hs], verified⟩

/-- The endpoint that a request is for: the one that the registry holds under its key, or the one endpoint
of the hook. -/
def Addressed {hook : Hook} (t : List (Issued (machine hook))) (endpoint : WebhookEndpointConfig) :
    Call → Prop
  | .webhook request => ∃ s ∈ t, s.cmd = .endpoint request.endpointKey ∧
      s.before.endpoints.lookup request.endpointKey = some endpoint
  | .post _ own => endpoint = own
  | .background => False

/-- The request of a call. -/
def Call.req : Call → Option Request
  | .webhook request | .post request _ => some request
  | .background => none

/-! ## What the checks leave -/

theorem allowedIps_eq_nil (h : endpoint.parsedNetworks = []) : endpoint.allowedIps = [] := by
  have parsed := endpoint.parsed
  cases hips : endpoint.allowedIps with
  | nil => rfl
  | cons ip ips =>
    rw [hips, h, List.mapM_cons] at parsed
    simp [Option.bind_eq_some_iff] at parsed

theorem exists_contains {ip : Option Text} {network : IpAddress.Network} {networks : List IpAddress.Network}
    (h : ipAllowed ip (network :: networks) = true) : ∃ text address found, ip = some text ∧
      IpAddress.parse text = some address ∧ found ∈ network :: networks ∧ found.Contains address := by
  match ip with
  | none => cases h
  | some [] => cases h
  | some (c :: text) =>
    simp only [ipAllowed] at h
    split at h
    · cases h
    · rename_i address parsed
      obtain ⟨found, mem, contains⟩ := List.any_eq_true.1 h
      exact ⟨_, address, found, rfl, parsed, mem, IpAddress.Network.contains_iff.1 contains⟩

theorem listed_of_allowed (h : addressAllowed request endpoint = true) : AddressListed request endpoint := by
  cases hn : endpoint.parsedNetworks with
  | nil => exact .inl (allowedIps_eq_nil hn)
  | cons network networks =>
    rw [addressAllowed, hn] at h
    obtain ⟨ip, address, found, hip, parsed, mem, contains⟩ := exists_contains h
    exact .inr ⟨ip, address, found, hip, parsed, hn ▸ mem, contains⟩

section Checks

variable {p : ℕ} {E : State → State → Prop} {σ σ' : State} {t : List (Issued (machine hook))}

/-- A body that was read is the whole body, and within its cap. -/
theorem readChunks_spec {limit : ℕ} {broken : Option Exc} {buffer body : Bytes} {chunks : List Bytes}
    (small : buffer.length ≤ limit)
    (h : Trace (machine hook) p E (readChunks limit broken buffer chunks) σ t (.pure (.ok (.bytes body))) σ') :
    body = buffer ++ chunks.flatten ∧ body.length ≤ limit ∧ broken = none := by
  induction chunks generalizing buffer σ t with
  | nil =>
    obtain ⟨i, σ₁, t', -, h'⟩ := h.op_pure_inv
    cases hw : i.wait with
    | error exc =>
      simp only [State.exec, hw] at h'
      cases h'.pure_inv.2
    | ok =>
      simp only [State.exec, hw] at h'
      cases broken with
      | some exc => cases h'.pure_inv.2
      | none =>
        cases h'.pure_inv.2
        exact ⟨by simp, small, rfl⟩
  | cons chunk chunks ih =>
    obtain ⟨i, σ₁, t', -, h'⟩ := h.op_pure_inv
    cases hw : i.wait with
    | error exc =>
      simp only [State.exec, hw] at h'
      cases h'.pure_inv.2
    | ok =>
      simp only [State.exec, hw] at h'
      split_ifs at h' with large
      · cases h'.pure_inv.2
      · obtain ⟨rfl, rest⟩ := ih (Nat.le_of_not_lt large) h'
        exact ⟨by simp, rest⟩

theorem readCapped_spec {limit : ℕ} {body : Bytes}
    (h : Trace (machine hook) p E (readCapped request limit) σ t (.pure (.ok (.bytes body))) σ') :
    body = request.body ∧ body.length ≤ limit ∧ request.broken = none ∧
      ∀ n, request.contentLength = some n → n ≤ limit := by
  unfold readCapped at h
  split at h
  · rename_i declared hdeclared
    split_ifs at h with large
    · cases h.pure_inv.2
    · obtain ⟨hbody, small, whole⟩ := readChunks_spec (Nat.zero_le _) h
      refine ⟨hbody, small, whole, fun n hn => ?_⟩
      rw [hdeclared] at hn
      cases hn
      exact Nat.le_of_not_lt large
  · rename_i undeclared
    obtain ⟨hbody, small, whole⟩ := readChunks_spec (Nat.zero_le _) h
    exact ⟨hbody, small, whole, fun n hn => by rw [undeclared] at hn; cases hn⟩

/-- A signature passes when the registered scheme verified it. -/
theorem verify_ok {body : Bytes} {i : Input} {check : SignatureCheck}
    (h : (σ.verify p delivery request endpoint body i).1 = .ok check) (ok : check.verdict = .ok) :
    ∃ secret scheme detail, endpoint.secret = some secret ∧ σ.schemes endpoint.signatureScheme = some scheme ∧
      scheme.verify secret body request.headers endpoint.signatureHeader endpoint.toleranceSeconds i.time =
        .ok { verdict := .ok, detail } := by
  rw [State.verify] at h
  split at h
  · rename_i secret scheme hsecret hscheme
    obtain ⟨verdict, detail⟩ := check
    cases ok
    exact ⟨secret, scheme, detail, hsecret, hscheme, h⟩
  · cases h

theorem secret_of_key {secret : Text} (h : endpoint.key = some secret) : endpoint.secret = some secret := by
  rw [WebhookEndpointConfig.key] at h
  split_ifs at h
  exact h

/-- A delivery is admitted only with its whole body, and when it has passed the checks. -/
theorem checkRequest_spec {body : Bytes}
    (h : Trace (machine hook) p E (hook.checkRequest delivery request endpoint) σ t (.pure (.ok (.admitted body))) σ') :
    body = request.body ∧ Passed hook request endpoint t := by
  unfold Hook.checkRequest at h
  split_ifs at h with enabled allowed unsigned
  · obtain ⟨t₁, t₂, r, σ₁, rfl, h₁, h₂⟩ := h.bind_pure_inv
    match r with
    | .error exc => cases h₂.pure_inv.2
    | .ok (.tooLarge size limit) => cases h₂.pure_inv.2
    | .ok (.bytes body') =>
      obtain ⟨hbody, small, whole, declared⟩ := readCapped_spec h₁
      cases h₂.pure_inv.2
      subst hbody
      refine ⟨rfl, enabled, listed_of_allowed allowed, declared, whole, small, fun secret hsecret => ?_⟩
      rw [unsigned] at hsecret
      cases hsecret
  · obtain ⟨t₁, t₂, r, σ₁, rfl, h₁, h₂⟩ := h.bind_pure_inv
    match r with
    | .error exc => cases h₂.pure_inv.2
    | .ok (.tooLarge size limit) => cases h₂.pure_inv.2
    | .ok (.bytes body') =>
      obtain ⟨hbody, small, whole, declared⟩ := readCapped_spec h₁
      subst hbody
      obtain ⟨i, σ₂, t', rfl, h₃⟩ := h₂.op_pure_inv
      cases hr : (σ₂.verify p delivery request endpoint request.body i).1 with
      | error exc =>
        simp only [State.exec, hr] at h₃
        cases h₃.pure_inv.2
      | ok check =>
        simp only [State.exec, hr, Prog.bind] at h₃
        split_ifs at h₃ with ok
        · cases h₃.pure_inv.2
          obtain ⟨secret', scheme, detail, hsecret', hscheme, hverify⟩ := verify_ok hr ok
          refine ⟨rfl, enabled, listed_of_allowed allowed, declared, whole, small, fun secret hsecret => ?_⟩
          cases (secret_of_key hsecret).symm.trans hsecret'
          exact ⟨_, List.mem_append_right _ (List.mem_cons_self ..), ⟨delivery, rfl⟩, scheme, detail, hscheme, hverify⟩
        · cases h₃.pure_inv.2
  · cases h.pure_inv.2
  · cases h.pure_inv.2

/-! ## Stages that use nothing -/

theorem unused_readChunks (limit : ℕ) (broken : Option Exc) (buffer : Bytes) (chunks : List Bytes) :
    (readChunks limit broken buffer chunks).All fun c => ¬ Cmd.Uses c := by
  induction chunks generalizing buffer with
  | nil =>
    refine .cmd_bind not_false fun r => ?_
    match r, broken with
    | .error _, _ => trivial
    | .ok (), some _ => trivial
    | .ok (), none => trivial
  | cons chunk chunks ih =>
    refine .cmd_bind not_false fun r => ?_
    cases r with
    | error exc => trivial
    | ok =>
      dsimp only
      split_ifs
      · trivial
      · exact ih _

theorem unused_readCapped (limit : ℕ) : (readCapped request limit).All fun c => ¬ Cmd.Uses c := by
  unfold readCapped
  split
  · split_ifs
    · trivial
    · exact unused_readChunks ..
  · exact unused_readChunks ..

/-- The checks use nothing of the delivery. -/
theorem unused_checkRequest : (hook.checkRequest delivery request endpoint).All fun c => ¬ Cmd.Uses c := by
  have reads := @unused_readCapped request (hook.limit endpoint)
  unfold Hook.checkRequest
  split_ifs
  · refine reads.bind fun r => ?_
    match r with
    | .error exc => trivial
    | .ok (.tooLarge size limit) => trivial
    | .ok (.bytes body) => trivial
  · refine reads.bind fun r => ?_
    match r with
    | .error exc => trivial
    | .ok (.tooLarge size limit) => trivial
    | .ok (.bytes body) =>
      refine .cmd_bind not_false fun r => ?_
      cases r with
      | error exc => trivial
      | ok check =>
        dsimp only
        split_ifs <;> trivial
  · trivial
  · trivial

/-- A delivery that is used has passed the checks before. -/
theorem guardedIngest_gated {before after : List (Issued (machine hook))} {s : Issued (machine hook)}
    {y : Coro (Outcome Response)}
    (h : Trace (machine hook) p E (hook.guardedIngest delivery request endpoint) σ (before ++ s :: after) y σ')
    (uses : s.cmd.Uses) : Passed hook request endpoint before := by
  unfold Hook.guardedIngest Hook.ingest at h
  rw [Prog.bind_assoc'] at h
  obtain ⟨t₁, t₂, r, σ₁, rfl, h₁, h₂⟩ := h.bind_past unused_checkRequest uses
  match r with
  | .error exc =>
    refine absurd uses (h₂.not_past ?_)
    by_cases isException : exc.isException = true <;> simp only [Prog.pure_eq, Prog.pure_bind'] <;> trivial
  | .ok (.refused r) => exact absurd uses (h₂.not_past trivial)
  | .ok (.admitted body) => exact (checkRequest_spec h₁).2.append [] t₂

theorem handleWebhook_gated {before after : List (Issued (machine hook))} {s : Issued (machine hook)}
    {y : Coro (Outcome Response)}
    (h : Trace (machine hook) p E (hook.handleWebhook delivery request) σ (before ++ s :: after) y σ')
    (uses : s.cmd.Uses) :
    ∃ endpoint, Addressed before endpoint (.webhook request) ∧ Passed hook request endpoint before := by
  obtain ⟨i, σ₁, before, rfl, h₁⟩ := Trace.cmd_past h not_false uses
  cases found : σ₁.endpoints.lookup request.endpointKey with
  | none =>
    simp only [State.exec, found] at h₁
    exact absurd uses (h₁.not_past trivial)
  | some endpoint =>
    simp only [State.exec, found] at h₁
    obtain ⟨j, σ₂, before, rfl, h₂⟩ := Trace.cmd_past h₁ not_false uses
    have entered : ∃ f : Outcome Response → Coro (Outcome Response), (∀ r, (f r).All fun c => ¬ Cmd.Uses c) ∧
        Trace (machine hook) p E (hook.guardedIngest delivery request endpoint >>= f)
          (σ₂.exec hook p .enter j).2 (before ++ s :: after) y σ' := by
      cases free : (σ₂.exec hook p .enter j).1 with
      | false =>
        simp only [free] at h₂
        exact absurd uses (h₂.not_past trivial)
      | true =>
        simp only [free] at h₂
        exact ⟨fun r => Cmd.leave.await >>= fun _ => Prog.pure r, fun _ => .cmd_bind not_false fun _ => trivial, h₂⟩
    obtain ⟨f, hf, h₃⟩ := entered
    obtain ⟨after', y', σ₃, h₄⟩ := h₃.bind_first hf uses
    refine ⟨endpoint, ⟨_, List.mem_cons_self .., rfl, found⟩, ?_⟩
    simpa using (guardedIngest_gated h₄ uses).append [_, _] []

/-- A task uses a delivery only after its checks; a background task uses what was handed to it. -/
theorem code_gated {o : Call} {before after : List (Issued (machine hook))} {s : Issued (machine hook)}
    {y : Coro (Option ℕ × Outcome (Option Response))}
    (h : Trace (machine hook) p E (o.code hook) σ (before ++ s :: after) y σ') (uses : s.cmd.Uses) :
    (∃ request endpoint, o.req = some request ∧ Addressed before endpoint o ∧
      Passed hook request endpoint before) ∨
    (o.req = none ∧ ∃ s' ∈ before, ∃ delivery event, s'.cmd = .boot ∧
      s'.before.spawned.head? = some (delivery, event) ∧ s.cmd = .dispatch delivery event) := by
  cases o with
  | webhook request =>
    obtain ⟨i, σ₁, before, rfl, h₁⟩ := Trace.cmd_past h not_false uses
    obtain ⟨after', y', σ₂, h₂⟩ := h₁.bind_first (U := Cmd.Uses) (fun _ => trivial) uses
    obtain ⟨endpoint, ⟨s', hs', addressed⟩, passed⟩ := handleWebhook_gated h₂ uses
    refine .inl ⟨request, endpoint, rfl, ⟨s', List.mem_cons_of_mem _ hs', addressed⟩, ?_⟩
    simpa using passed.append [_] []
  | post request endpoint =>
    obtain ⟨i, σ₁, before, rfl, h₁⟩ := Trace.cmd_past h not_false uses
    obtain ⟨after', y', σ₂, h₂⟩ := h₁.bind_first (U := Cmd.Uses) (fun _ => trivial) uses
    refine .inl ⟨request, endpoint, rfl, rfl, ?_⟩
    simpa using (guardedIngest_gated h₂ uses).append [_] []
  | background =>
    obtain ⟨i, σ₁, before, rfl, h₁⟩ := Trace.cmd_past h not_false uses
    cases hs : σ₁.spawned with
    | nil =>
      simp only [State.exec, hs, Prog.bind] at h₁
      exact absurd uses (h₁.not_past trivial)
    | cons first rest =>
      obtain ⟨delivery, event⟩ := first
      simp only [State.exec, hs] at h₁
      have booted : ∃ s' ∈ (⟨.boot, i, σ₁⟩ : Issued (machine hook)) :: before, ∃ delivery event, s'.cmd = .boot ∧
          s'.before.spawned.head? = some (delivery, event) ∧ s.cmd = .dispatch delivery event := by
        refine ⟨_, List.mem_cons_self .., delivery, event, rfl, by simp [hs], ?_⟩
        rcases Trace.op_inv h₁ with ⟨none, -⟩ | ⟨j, σ₂, t', ht, h₂⟩
        · simp at none
        · cases before with
          | nil =>
            obtain ⟨rfl, -⟩ := List.cons.inj ht
            rfl
          | cons s'' before =>
            obtain ⟨-, rfl⟩ := List.cons.inj ht
            exact absurd uses (h₂.not_past (U := Cmd.Uses) trivial)
      exact .inr ⟨rfl, booted⟩

end Checks

/-! ## Background tasks -/

/-- Only a `spawn` adds to the dispatches that wait for their background task. -/
theorem mem_spawned_exec {σ : State} {p : ℕ} {c : Cmd} {i : Input} {x : ℕ × HookEvent}
    (h : x ∈ (σ.exec hook p c i).2.spawned) : x ∈ σ.spawned ∨ c = .spawn x.1 x.2 := by
  cases c with
  | spawn delivery event =>
    rcases List.mem_append.1 h with h | h
    · exact .inl h
    · cases List.mem_singleton.1 h
      exact .inr rfl
  | boot =>
    simp only [State.exec] at h
    split at h
    · exact .inl h
    · rename_i first rest hs
      rw [hs]
      exact .inl (List.mem_cons_of_mem _ h)
  | enter =>
    simp only [State.exec] at h
    split_ifs at h <;> exact .inl h
  | leave =>
    simp only [State.exec] at h
    split_ifs at h <;> exact .inl h
  | dispatch =>
    simp only [State.exec] at h
    split_ifs at h <;> exact .inl h
  | verify =>
    simp only [State.exec, State.verify] at h
    split at h
    · dsimp only at h
      split at h <;> exact .inl h
    · exact .inl h
  | _ => exact .inl h

/-- The dispatches that wait for their background task were handed over by a delivery. -/
theorem spawned_of_recorded {A : Pool (receiver hook) → Act (receiver hook) → Prop} {P : Pool (receiver hook)}
    {h : History (Pool.Entry (receiver hook))} (hr : Pool.Recorded A Pool.journal hook.new [] P h)
    {delivery : ℕ} {event : HookEvent} (mem : (delivery, event) ∈ P.shared.spawned) :
    ∃ q, (q, .replied (Cmd.spawn delivery event) ()) ∈ h := by
  induction hr with
  | refl => cases mem
  | @step Q Q' h a _ _ hs ih =>
    cases Pool.acted hs with
    | call =>
      obtain ⟨q, hq⟩ := ih mem
      exact ⟨q, List.mem_cons_of_mem _ hq⟩
    | @exec p i o c k hp =>
      simp only [Pool.journal, hp]
      rcases mem_spawned_exec mem with mem | rfl
      · obtain ⟨q, hq⟩ := ih mem
        exact ⟨q, List.mem_cons_of_mem _ hq⟩
      · exact ⟨p, List.mem_cons_self ..⟩
    | @ret p o r hp =>
      refine ih ?_
      obtain ⟨n, r⟩ := r
      rcases n with _ | n <;> rcases r with exc | (_ | r) <;> exact mem
    | crash => exact ih mem
    | @disturb d =>
      cases d with
      | drain => cases mem
      | _ => exact ih mem

/-- Whatever the request, the configuration of the endpoints and the other tasks: a task of the receiver
uses a delivery, from the cache of delivery ids and the parser to the dispatch, only after it has found the
endpoint and the delivery has passed its checks. A background task dispatches only what was handed to it,
and in every run only deliveries hand dispatches over. -/
theorem gated (hook : Hook) :
    (∀ (o : Call) (p : ℕ) (E : State → State → Prop) (σ σ' : State) (before after : List (Issued (machine hook)))
      (s : Issued (machine hook)) (y : Coro (Option ℕ × Outcome (Option Response))),
      Trace (machine hook) p E (o.code hook) σ (before ++ s :: after) y σ' → s.cmd.Uses →
        (∃ request endpoint, o.req = some request ∧ Addressed before endpoint o ∧
          Passed hook request endpoint before) ∨
        (o.req = none ∧ ∃ s' ∈ before, ∃ delivery event, s'.cmd = .boot ∧
          s'.before.spawned.head? = some (delivery, event) ∧ s.cmd = .dispatch delivery event)) ∧
    ∀ (A : Pool (receiver hook) → Act (receiver hook) → Prop) (P : Pool (receiver hook))
      (h : History (Pool.Entry (receiver hook))), Pool.Recorded A Pool.journal hook.new [] P h →
        ∀ delivery event, (delivery, event) ∈ P.shared.spawned →
          ∃ q, (q, .replied (Cmd.spawn delivery event) ()) ∈ h :=
  ⟨fun _ _ _ _ _ _ _ _ _ => code_gated, fun _ _ _ hr _ _ => spawned_of_recorded hr⟩

end Gate

/-! ## A signed delivery -/

namespace Signed

/-- A receiver with the default override points. -/
def hook : Hook where
  hookId := "h".toList
  classifyEvent := Webhook.classifyEvent
  normalizePayload := Webhook.normalizePayload
  buildTask := Webhook.buildTask
  dedupCacheSize_pos := by decide

/-- The digest of the body `{}` under the secret `k`. -/
def digest : Text := "sha256=add853b103fbcc936a194f9eb15e29c4ff08af6e47d5d1bca4f20218e31e4fff".toList

/-- A scheme that knows the signature of this one body. -/
def scheme : SignatureScheme where
  verify secret body headers _ _ _ :=
    if secret = ['k'] ∧ body = [123, 125] ∧ getHeader headers "X-Webhook-Signature".toList = some digest then
      .ok { verdict := .ok }
    else .ok { verdict := .mismatch }

/-- An endpoint with a secret and an allow-list. -/
def endpoint : WebhookEndpointConfig where
  path := "/a".toList
  secret := some ['k']
  allowedIps := ["10.0.0.0/8".toList]
  parsedNetworks := [⟨.v4 0x0a000000, 8⟩]
  path_eq := ⟨"a".toList, by decide⟩
  signed := by decide
  parsed := by decide
  maxBodyBytes_pos := unlimited_pos

/-- A request from an address on the list, with its signature. -/
def request : Request where
  webhookId := "a".toList
  headers := [("x-webhook-signature".toList, digest)]
  remote := some "10.1.2.3".toList
  contentLength := some 2
  chunks := [[123], [125]]

/-- A receiver with the endpoint. -/
def state : State where
  endpoints := [(endpoint.path, endpoint)]
  schemes name := if name = "generic".toList then some scheme else none
  semaphore := { value := 64 }

end Signed

/-- A signed delivery is parsed after its checks. -/
theorem gated_witness :
    ∃ before s after y σ', Trace (machine Signed.hook) 0 (fun _ _ => False)
        ((Call.webhook Signed.request).code Signed.hook) Signed.state (before ++ s :: after) y σ' ∧
      s.cmd.Uses ∧ ∃ request endpoint, (Call.webhook Signed.request).req = some request ∧
        Addressed before endpoint (.webhook Signed.request) ∧ Passed Signed.hook request endpoint before := by
  have run := Trace.of_follow (M := machine Signed.hook) (p := 0) (E := fun _ _ => False)
    ((Call.webhook Signed.request).code Signed.hook) Signed.state (List.replicate 9 {})
  have used : ∃ s ∈ (Prog.follow (machine Signed.hook) 0 (List.replicate 9 {})
      ((Call.webhook Signed.request).code Signed.hook) Signed.state).1, s.cmd.Uses :=
    ⟨_, .tail _ (.tail _ (.tail _ (.tail _ (.tail _ (.tail _ (.tail _ (.head _))))))), trivial⟩
  obtain ⟨s, mem, uses⟩ := used
  obtain ⟨before, after, split⟩ := List.append_of_mem mem
  rw [split] at run
  refine ⟨before, s, after, _, _, run, uses, ?_⟩
  rcases (gated Signed.hook).1 _ _ _ _ _ _ _ _ _ run uses with checked | ⟨none, -⟩
  · exact checked
  · cases none

end NavigatorEventbus.Webhook
