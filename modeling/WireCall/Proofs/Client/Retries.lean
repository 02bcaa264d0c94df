import Mathlib.Algebra.GroupWithZero.Nat
import WireCall.Proofs.Client.Acceptance

namespace WireCall.Proxy

/-!
# Retries

An attempt of a proxy stands for itself: it resolves the service, connects, draws an id and makes
one call (`Trial`, `Tries`).  Hanging up comes after the call, which has used the connection up
however it ended, so hanging up has nothing to do and cannot fail (`Tries.perform_session`).

Attempts follow one another, each in the surroundings that the one before it left behind
(`Attempts`).  They end with the first success, or when there are as many as the settings allow; one
induction on the attempts carries each of the two cases (`tryTimes_of_success`,
`tryTimes_of_failures`), and one of them always applies (`exists_attempts`).

Main statement: what a call returns is determined by its attempts (`call_of_attempts`).
-/

variable {ω κ α : Type}

/-! ### One attempt -/

/-- What an attempt came to: the service was not found, it was not reached, or a request with the
id was sent to it, with this outcome. -/
inductive Trial (κ : Type) where
  | unresolved (fault : Fault)
  | unreached (address : String) (fault : Fault)
  | called (address : String) (channel : κ) (id : UInt64) (outcome : Except Fault Response)

namespace Trial

/-- What the attempt returns. -/
def outcome : Trial κ → Except Fault Value
  | unresolved fault => .error fault
  | unreached _ fault => .error fault
  | called _ _ _ (.error fault) => .error fault
  | called _ _ _ (.ok r) =>
    if r.code = StatusCode.ok then .ok r.data else .error (.remote r.code r.text)

/-- The id that the attempt has drawn, if it was connected. -/
def id? : Trial κ → Option UInt64
  | unresolved _ => none
  | unreached _ _ => none
  | called _ _ id _ => some id

/-- The attempt has failed. -/
def Fails (t : Trial κ) : Prop := ∃ fault, t.outcome = .error fault

/-- A trial that reached the service ends as its response says. -/
theorem outcome_called (address : String) (channel : κ) (id : UInt64)
    (result : Except Fault Response) :
    (called address channel id result).outcome = result >>= dataOf := by
  cases result with
  | error fault => rfl
  | ok r =>
    show (if r.code = StatusCode.ok then _ else _) = dataOf r
    unfold dataOf Response.isOk
    simp only [beq_iff_eq]

end Trial

section Attempts

variable (p : Proxy ω κ) (context : CallContext) (service method : String) (args : List Value)

/-- How an attempt changes the origin from which it is made.  An id is drawn only on a
connection. -/
inductive Tries : Origin ω → Trial κ → Origin ω → Prop
  | unresolved {o : Origin ω} {fault : Fault} {w : ω}
      (hresolve : (p.client.resolve service).perform o.world = (.error fault, w)) :
      Tries o (.unresolved fault) ⟨o.nextId, w⟩
  | unreached {o : Origin ω} {address : String} {fault : Fault} {w w' : ω}
      (hresolve : (p.client.resolve service).perform o.world = (.ok address, w))
      (hdial : (p.network.dialText address p.settings.dialPatience).perform w =
        (.error fault, w')) :
      Tries o (.unreached address fault) ⟨o.nextId, w'⟩
  | called {o : Origin ω} {address : String} {channel : κ} {arrival : Except Fault Arrival}
      {w w' w'' : ω}
      (hresolve : (p.client.resolve service).perform o.world = (.ok address, w))
      (hdial : (p.network.dialText address p.settings.dialPatience).perform w = (.ok channel, w'))
      (hexchange : (p.network.exchange channel
        (p.settings.requestBytes ⟨o.nextId, service, method, args⟩) context.deadline).perform w' =
          (arrival, w'')) :
      Tries o (.called address channel o.nextId
        (arrival >>= Client.receive p.settings.maximum o.nextId)) ⟨o.nextId + 1, w''⟩

/-- Attempts one after the other, each from the origin that the one before it has left. -/
inductive Attempts : Origin ω → List (Trial κ) → Origin ω → Prop
  | none {o : Origin ω} : Attempts o [] o
  | more {o o' o'' : Origin ω} {t : Trial κ} {trials : List (Trial κ)}
      (htry : p.Tries context service method args o t o') (hrest : Attempts o' trials o'') :
      Attempts o (t :: trials) o''

end Attempts

variable {p : Proxy ω κ} {context : CallContext} {service method : String} {args : List Value}
  {o o' : Origin ω}

/-- Whatever a session comes to, it ends with a client that is not connected. -/
theorem Tries.perform_session {t : Trial κ} (h : p.Tries context service method args o t o') :
    (session context service method args).perform (p.client, o) =
      (t.outcome, (p.client, o')) := by
  have hdial_eq : p.client.dial service = p.client.resolve service >>= fun address =>
      p.network.dialText address p.settings.dialPatience := rfl
  rw [Proxy.perform_session, hdial_eq, Action.perform_bind]
  -- By cases on how far the attempt got: each step that it took says where it left the world.
  cases h with
  | unresolved hresolve => rw [hresolve]; rfl
  | unreached hresolve hdial =>
    rw [hresolve]
    dsimp only
    rw [hdial]
    rfl
  | called hresolve hdial hexchange =>
    rw [hresolve]
    dsimp only
    rw [hdial]
    dsimp only
    rw [Client.perform_callOn_eq, client_network, client_settings, hexchange,
      Trial.outcome_called]

/-- An attempt performed ends as its trial does, in the state after it. -/
theorem Tries.perform_attempt {t : Trial κ} (h : p.Tries context service method args o t o') :
    (p.attempt context service method args).perform o = (t.outcome, o') := by
  show (((session context service method args).perform (p.client, o)).1,
    ((session context service method args).perform (p.client, o)).2.2) = _
  rw [h.perform_session]

/-- An attempt that resolves, dials and writes its request is a trial called with what arrived. -/
theorem Tries.of_arrival {address : String} {channel : κ} {a : Arrival}
    {result : Except Fault Response} {w w' w'' : ω}
    (hresolve : (p.client.resolve service).perform o.world = (.ok address, w))
    (hdial : (p.network.dialText address p.settings.dialPatience).perform w = (.ok channel, w'))
    (hexchange : (p.network.exchange channel
      (p.settings.requestBytes ⟨o.nextId, service, method, args⟩) context.deadline).perform w' =
        (.ok a, w''))
    (hreceive : Client.receive p.settings.maximum o.nextId a = result) :
    p.Tries context service method args o (.called address channel o.nextId result)
      ⟨o.nextId + 1, w''⟩ := by
  subst hreceive
  exact .called hresolve hdial hexchange

/-- The surroundings always make something of an attempt. -/
theorem exists_tries (p : Proxy ω κ) (context : CallContext) (service method : String)
    (args : List Value) (o : Origin ω) :
    ∃ t o', p.Tries context service method args o t o' := by
  cases hresolve : (p.client.resolve service).perform o.world with
  | mk found w =>
    cases found with
    | error fault => exact ⟨_, _, .unresolved hresolve⟩
    | ok address =>
      cases hdial : (p.network.dialText address p.settings.dialPatience).perform w with
      | mk dialled w' =>
        cases dialled with
        | error fault => exact ⟨_, _, .unreached hresolve hdial⟩
        | ok channel => exact ⟨_, _, .called hresolve hdial rfl⟩

/-! ### Attempts one after the other -/

/-- The first success is returned, and no other attempt is made. -/
theorem tryTimes_of_success {earlier : List (Trial κ)} {last : Trial κ} {n : Nat} {v : Value}
    (h : p.Attempts context service method args o (earlier ++ [last]) o')
    (hlength : earlier.length < n) (hfail : ∀ t ∈ earlier, t.Fails) (hlast : last.outcome = .ok v) :
    tryTimes (p.attempt context service method args) n o = (.ok v, o') := by
  induction earlier generalizing n o with
  | nil =>
    cases h with
    | more htry hrest =>
      cases hrest
      obtain ⟨n, rfl⟩ : ∃ k, n = k + 1 := ⟨n - 1, by simp at hlength; omega⟩
      rw [tryTimes, htry.perform_attempt, hlast]
  | cons first earlier ih =>
    cases h with
    | more htry hrest =>
      obtain ⟨n, rfl⟩ : ∃ k, n = k + 1 := ⟨n - 1, by simp at hlength; omega⟩
      -- The first attempt has failed, so the call goes on from where it ended.
      obtain ⟨fault, hfault⟩ := hfail first (by simp)
      have hothers := ih hrest (by simpa using hlength) fun t ht => hfail t (by simp [ht])
      rw [tryTimes, htry.perform_attempt, hfault]
      dsimp only
      rw [hothers]
      rfl

/-- If all of them fail, the faults are kept in the order of the attempts. -/
theorem tryTimes_of_failures {trials : List (Trial κ)} {faults : List Fault}
    (h : p.Attempts context service method args o trials o')
    (hfaults : trials.map (·.outcome) = faults.map .error) :
    tryTimes (p.attempt context service method args) trials.length o = (.error faults, o') := by
  -- By induction on the attempts: each of them leaves its fault in front of those of the others.
  induction h generalizing faults with
  | none =>
    obtain rfl : faults = [] := by simpa using hfaults.symm
    rfl
  | @more _ _ _ t trials htry hrest ih =>
    cases faults with
    | nil => cases hfaults
    | cons fault faults =>
      rw [List.map_cons, List.map_cons] at hfaults
      obtain ⟨hfault, hfaults⟩ := List.cons.inj hfaults
      rw [List.length_cons, tryTimes, htry.perform_attempt, hfault]
      dsimp only
      rw [ih hfaults]
      rfl

/-- The attempts of a call: up to the first success, or all that are allowed. -/
inductive Concludes (n : Nat) : List (Trial κ) → Outcome Fault Value → Prop
  | succeeds (earlier : List (Trial κ)) {last : Trial κ} {v : Value}
      (hlength : earlier.length < n) (hfail : ∀ t ∈ earlier, t.Fails)
      (hlast : last.outcome = .ok v) : Concludes n (earlier ++ [last]) (.returned v)
  | exhausted {trials : List (Trial κ)} (faults : List Fault) (hlength : trials.length = n)
      (hfaults : trials.map (·.outcome) = faults.map .error) :
      Concludes n trials (.failed (.retriesExhausted n faults))

/-- Some number of attempts, up to `n`, comes to an end in one of the two ways. -/
theorem exists_attempts (p : Proxy ω κ) (context : CallContext) (service method : String)
    (args : List Value) (n : Nat) (o : Origin ω) :
    ∃ trials outcome o', p.Attempts context service method args o trials o' ∧
      Concludes n trials outcome := by
  induction n generalizing o with
  | zero => exact ⟨[], _, o, .none, .exhausted [] rfl rfl⟩
  | succ n ih =>
    obtain ⟨t, o₁, htry⟩ := exists_tries p context service method args o
    cases houtcome : t.outcome with
    | ok v =>
      exact ⟨[t], _, o₁, .more htry .none,
        .succeeds [] (Nat.succ_pos n) nofun houtcome⟩
    | error fault =>
      -- The attempt has failed, so the others decide.
      obtain ⟨trials, outcome, o', hrest, hconcludes⟩ := ih o₁
      refine ⟨t :: trials, ?_⟩
      cases hconcludes with
      | succeeds earlier hlength hfail hlast =>
        refine ⟨_, o', .more htry hrest, .succeeds (t :: _) ?_ ?_ hlast⟩
        · exact Nat.succ_lt_succ hlength
        · intro t' ht'
          rcases List.mem_cons.mp ht' with rfl | ht'
          · exact ⟨fault, houtcome⟩
          · exact hfail t' ht'
      | exhausted faults hlength hfaults =>
        refine ⟨_, o', .more htry hrest, .exhausted (fault :: faults) ?_ ?_⟩
        · rw [List.length_cons, hlength]
        · rw [List.map_cons, List.map_cons, houtcome, hfaults]

/-! ### The ids of the attempts -/

/-- The ids that were drawn, in the order of the attempts. -/
def drawn (trials : List (Trial κ)) : List UInt64 := trials.filterMap (·.id?)

/-- The attempts that were connected draw the ids that follow one another. -/
theorem Attempts.drawn_eq {trials : List (Trial κ)}
    (h : p.Attempts context service method args o trials o') :
    drawn trials = (List.range (drawn trials).length).map (fun i => o.nextId + .ofNat i) ∧
      o'.nextId = o.nextId + .ofNat (drawn trials).length := by
  unfold drawn
  induction h with
  | none => exact ⟨rfl, (id_add_zero _).symm⟩
  | @more o o₁ o' t trials htry hrest ih =>
    obtain ⟨hids, hnext⟩ := ih
    cases htry with
    | unresolved hresolve => exact ⟨hids, hnext⟩
    | unreached hresolve hdial => exact ⟨hids, hnext⟩
    | @called address channel arrival w w' w'' hresolve hdial hexchange =>
      have hcons : (Trial.called address channel o.nextId
          (arrival >>= Client.receive p.settings.maximum o.nextId) :: trials).filterMap (·.id?) =
          o.nextId :: trials.filterMap (·.id?) := rfl
      -- This attempt draws the first id, and the ids of the others follow it.
      have hone : o.nextId + 1 = o.nextId + .ofNat 1 := rfl
      dsimp only at hids hnext
      rw [hcons, List.length_cons]
      constructor
      · rw [List.range_succ_eq_map, List.map_cons, List.map_map, id_add_zero]
        refine congrArg _ (hids.trans (List.map_congr_left fun i _ => ?_))
        show o.nextId + 1 + .ofNat i = o.nextId + .ofNat (i + 1)
        rw [hone, id_add_add, Nat.add_comm]
      · rw [hnext, hone, id_add_add, Nat.add_comm]

/-- Fewer than 2^64 ids in a row are distinct. -/
theorem id_add_injective (id : UInt64) {i j : Nat} (hi : i < 2 ^ 64) (hj : j < 2 ^ 64)
    (h : id + .ofNat i = id + .ofNat j) : i = j := by
  have hnat := congrArg UInt64.toNat ((UInt64.add_right_inj id).mp h)
  rwa [UInt64.toNat_ofNat', UInt64.toNat_ofNat', Nat.mod_eq_of_lt hi, Nat.mod_eq_of_lt hj] at hnat

/-- The ids of fewer than `2^64` attempts differ. -/
theorem Attempts.nodup_drawn {trials : List (Trial κ)}
    (h : p.Attempts context service method args o trials o') (hfew : trials.length < 2 ^ 64) :
    (drawn trials).Nodup := by
  -- The counter does not come round before it has counted all of them.
  have hlength : (drawn trials).length ≤ trials.length := List.length_filterMap_le _ _
  rw [h.drawn_eq.1]
  refine List.pairwise_map.mpr (List.nodup_range.imp_of_mem ?_)
  intro i j hi hj hne heq
  have hi := List.mem_range.mp hi
  have hj := List.mem_range.mp hj
  exact hne (id_add_injective o.nextId (by omega) (by omega) heq)

/-- No conclusion takes more trials than there are attempts. -/
theorem Concludes.length_le {n : Nat} {trials : List (Trial κ)} {outcome : Outcome Fault Value}
    (h : Concludes n trials outcome) : trials.length ≤ n := by
  cases h with
  | succeeds earlier hlength hfail hlast =>
    rw [List.length_append, List.length_singleton]
    exact hlength
  | exhausted faults hlength hfaults => exact Nat.le_of_eq hlength

/-! ### Calls -/

/-- A call for whose failures there is room makes its attempts. -/
theorem call_eq (hroom : p.settings.attempts.toNat ≤ mostAttempts) :
    p.call context service method args o =
      match tryTimes (p.attempt context service method args) p.settings.attempts.toNat o with
      | (.ok v, o') => (.returned v, o')
      | (.error faults, o') =>
        (.failed (.retriesExhausted p.settings.attempts.toNat faults), o') := by
  unfold call
  rw [if_neg (Nat.not_lt_of_le hroom)]
  simp only [bind, StateT.bind]
  cases tryTimes (p.attempt context service method args) p.settings.attempts.toNat o with
  | mk outcome o' =>
    cases outcome <;> rfl

/-- The trials that conclude the attempts decide the call: its outcome is theirs, and so is its end.
-/
theorem Attempts.call_eq {trials : List (Trial κ)} {outcome : Outcome Fault Value}
    (h : p.Attempts context service method args o trials o')
    (hroom : p.settings.attempts.toNat ≤ mostAttempts)
    (hconcludes : Concludes p.settings.attempts.toNat trials outcome) :
    p.call context service method args o = (outcome, o') := by
  rw [Proxy.call_eq hroom]
  cases hconcludes with
  | succeeds earlier hlength hfail hlast => rw [tryTimes_of_success h hlength hfail hlast]
  | exhausted faults hlength hfaults => rw [← hlength, tryTimes_of_failures h hfaults]

/-- **Retries.**  A call makes attempts one after the other, each of which resolves the service,
connects, and draws an id of its own if it is connected.  The first success is returned, after
exactly the attempts up to it; if there is none among as many as the settings allow, the faults of
all of them are returned in their order, and a response that is no success is a fault with its code
and text.  Whatever a session comes to, it ends with a client that is not connected, and hanging up
after a call has nothing to do, so it neither fails nor changes what the call came to. -/
theorem call_of_attempts (p : Proxy ω κ) (hroom : p.settings.attempts.toNat ≤ mostAttempts)
    (context : CallContext) (service method : String) (args : List Value) (o : Origin ω) :
    (∀ trials outcome o', p.Attempts context service method args o trials o' →
      Concludes p.settings.attempts.toNat trials outcome →
        p.call context service method args o = (outcome, o')) ∧
    (∃ trials outcome o', p.Attempts context service method args o trials o' ∧
      Concludes p.settings.attempts.toNat trials outcome ∧
      drawn trials = (List.range (drawn trials).length).map (fun i => o.nextId + .ofNat i) ∧
      (drawn trials).Nodup ∧ o'.nextId = o.nextId + .ofNat (drawn trials).length) ∧
    (p.settings.attempts = 0 →
      p.call context service method args o = (.failed (.retriesExhausted 0 []), o)) ∧
    (∀ t o', p.Tries context service method args o t o' →
      (session context service method args).perform (p.client, o) =
        (t.outcome, (p.client, o')) ∧ p.client.channel = none) ∧
    ∀ (client : Client ω κ) (channel : κ), client.channel = some channel →
      Client.close.perform
          ((Client.invoke context service method args).perform (client, o)).2 =
        (.ok (), ((Client.invoke context service method args).perform (client, o)).2) := by
  refine ⟨?_, ?_, ?_, ?_, ?_⟩
  · intro trials outcome o' hattempts hconcludes
    exact hattempts.call_eq hroom hconcludes
  · obtain ⟨trials, outcome, o', hattempts, hconcludes⟩ :=
      exists_attempts p context service method args p.settings.attempts.toNat o
    have hfew : trials.length < 2 ^ 64 :=
      Nat.lt_of_le_of_lt hconcludes.length_le p.settings.attempts.toNat_lt
    exact ⟨trials, outcome, o', hattempts, hconcludes, hattempts.drawn_eq.1,
      hattempts.nodup_drawn hfew, hattempts.drawn_eq.2⟩
  · -- Without an attempt nobody is asked, so the origin is as it was.
    intro hzero
    have hnone : Concludes (κ := κ) p.settings.attempts.toNat []
        (.failed (.retriesExhausted p.settings.attempts.toNat [])) :=
      .exhausted [] (by rw [hzero]; rfl) rfl
    have hidle : p.Attempts context service method args o [] o := .none
    rw [hidle.call_eq hroom hnone, hzero]
    rfl
  · intro t o' htry
    exact ⟨htry.perform_session, rfl⟩
  · intro client channel hchannel
    rw [Client.perform_invoke_of_connected hchannel]
    exact Client.perform_close_of_disconnected rfl _

/-! ### A call with three failures -/

/-- Fails in the surroundings `n`, which makes them the next ones. -/
def hurdle (n : Nat) (fault : Fault) (x : α) : Action Nat α := do
  if (← get) = n then
    set (n + 1)
    throw fault
  return x

/-- What the hurdles say. -/
def hurdleFault : Fault := .transport .unreachable

/-- A discovery backend that fails first of all. -/
def hurdleBackend : Backend Nat where
  connect _ := pure ()
  publish _ _ _ := pure ()
  resolve _ := hurdle 0 hurdleFault ClientSettings.default.address
  close := pure ()

/-- A network that fails twice, and on which nobody can hang up. -/
def hurdleNetwork : Network Nat Unit where
  dial _ _ := hurdle 1 hurdleFault ()
  exchange _ _ _ := hurdle 2 hurdleFault ⟨Client.parrotReply, true⟩
  hangUp _ := throw hurdleFault

def hurdleProxy : Proxy Nat Unit :=
  ⟨ClientSettings.default.withAttempts 4, hurdleNetwork, some (hurdleBackend, .default)⟩

/-- Dialling over the network with one hurdle takes the hurdle. -/
theorem dialText_hurdleNetwork (n : Nat) (patience : Duration) :
    (hurdleNetwork.dialText ClientSettings.default.address patience).perform n =
      (hurdle 1 hurdleFault ()).perform n := by
  have hsome : (Address.ofText? ClientSettings.default.address).isSome = true := by decide +kernel
  obtain ⟨address, haddress⟩ := Option.isSome_iff_exists.mp hsome
  rw [Network.dialText, haddress]
  rfl

/-- The first attempt does not find the service, the second does not reach it and the third is not
answered; the fourth one is, and so the call succeeds. -/
theorem call_of_attempts_sample :
    hurdleProxy.call .background "calculator" "" Request.sample.args ⟨6, 0⟩ =
      (.returned (.list Request.sample.args), ⟨8, 3⟩) := by
  let p := hurdleProxy
  -- The first attempt finds nothing in the discovery, the second one cannot dial, and the third one
  -- has its connection broken; only this one and the last use an id.
  have hfirst : p.Tries .background "calculator" "" Request.sample.args ⟨6, 0⟩
      (.unresolved hurdleFault) ⟨6, 1⟩ := .unresolved rfl
  have hsecond : p.Tries .background "calculator" "" Request.sample.args ⟨6, 1⟩
      (.unreached ClientSettings.default.address hurdleFault) ⟨6, 2⟩ :=
    .unreached rfl (dialText_hurdleNetwork 1 _)
  have hthird : p.Tries .background "calculator" "" Request.sample.args ⟨6, 2⟩
      (.called ClientSettings.default.address () 6 (.error hurdleFault)) ⟨7, 3⟩ := by
    refine @Tries.called _ _ p _ _ _ _ _ _ _ (.error hurdleFault) _ _ _ rfl
      (dialText_hurdleNetwork 2 _) ?_
    rfl
  have hfourth : p.Tries .background "calculator" "" Request.sample.args ⟨7, 3⟩
      (.called ClientSettings.default.address () 7 (.ok (Responder.sampleResponse.withTags 0 0)))
      ⟨8, 3⟩ :=
    .of_arrival rfl (dialText_hurdleNetwork 3 _) rfl
      (Client.receive_eq_ok_iff.mpr Client.answers_parrotReply)
  have hconcludes : Concludes (κ := Unit) p.settings.attempts.toNat
      ([.unresolved hurdleFault, .unreached ClientSettings.default.address hurdleFault,
        .called ClientSettings.default.address () 6 (.error hurdleFault)] ++
        [.called ClientSettings.default.address () 7
          (.ok (Responder.sampleResponse.withTags 0 0))])
      (.returned (.list Request.sample.args)) := by
    -- The three trials before the last one each have their fault.
    refine .succeeds _ (by decide) ?_ rfl
    intro t ht
    simp only [List.mem_cons, List.not_mem_nil, or_false] at ht
    rcases ht with rfl | rfl | rfl <;> exact ⟨hurdleFault, rfl⟩
  exact (call_of_attempts p (by decide) .background "calculator" "" Request.sample.args ⟨6, 0⟩).1
    _ _ _ (.more hfirst (.more hsecond (.more hthird (.more hfourth .none)))) hconcludes

end WireCall.Proxy
