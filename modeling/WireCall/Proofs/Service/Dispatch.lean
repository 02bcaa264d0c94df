import WireCall.Proofs.Service.History
import WireCall.Service.Catalogue

namespace WireCall

/-!
# What a request is answered

A request is looked up, its arguments are converted, the method is run on its instance, and what the
method returns is converted.  The first of these stages that fails decides how the request ends, and
else the converted result does (`Ends`); a method that crashes gives nothing to answer with.

Only the body of a method touches a state.  A request has an effect if its method is found and its
arguments convert (`Runs`), and the effect is that of a single run of the body on the instance that
the service was built from.  A sequence of requests leaves each instance in the state that the
effects on it lead to, one after the other (`states_dispatchAll`), through whatever services of the
instance they came.

Main statement: what a request is answered, and what it does, by stages (`dispatch_by_stages`).
-/

variable {σ : Type}

namespace Instances

/-- A new state is found at its own instance, and every other instance as before. -/
theorem set_apply (states : Instances σ) (i : InstanceId) (s : σ) (j : InstanceId) :
    states.set i s j = if j = i then s else states j := rfl

@[simp] theorem set_self (states : Instances σ) (i : InstanceId) :
    states.set i (states i) = states := by
  funext j
  rw [set_apply]
  by_cases heq : j = i
  · rw [if_pos heq, heq]
  · exact if_neg heq

end Instances

namespace ServiceTable

/-! ### Stages -/

section Stages

variable (t : ServiceTable σ) (q : Request)

/-- The service exists and has the method, which is this one. -/
def Finds (h : Handler σ) : Prop :=
  ∃ handlers, t.handlers? q.service = some handlers ∧ handlers.lookup q.method = some h

/-- The method is found and its arguments convert, so that its body is run. -/
structure Runs (h : Handler σ) (a : h.method.params.Carrier) : Prop where
  finds : t.Finds q h
  arguments : h.method.params.decodeArguments q.args = .ok a

variable (states : Instances σ)

/-- The states after the body was run on its instance. -/
def after (h : Handler σ) (a : h.method.params.Carrier) : Instances σ :=
  states.set h.owner (h.method.body a (states h.owner)).2

/-- How a request ends, stage by stage, and the states that it leaves. -/
inductive Ends : Outcome Fault Value → Instances σ → Prop
  | noService (hservice : t.handlers? q.service = none) :
      Ends (.failed (.serviceNotFound q.service)) states
  | noMethod {handlers : List (String × Handler σ)}
      (hservice : t.handlers? q.service = some handlers)
      (hmethod : handlers.lookup q.method = none) :
      Ends (.failed (.methodNotFound q.service q.method)) states
  | mismatch {h : Handler σ} {cause : Mismatch} (hfinds : t.Finds q h)
      (harguments : h.method.params.decodeArguments q.args = .error cause) :
      Ends (.failed (.argumentConversion q.method cause)) states
  | refused {h : Handler σ} {a : h.method.params.Carrier} {text : String} (hruns : t.Runs q h a)
      (hbody : (h.method.body a (states h.owner)).1 = .failed text) :
      Ends (.failed (.application text)) (after states h a)
  | unsendable {h : Handler σ} {a : h.method.params.Carrier} {x : h.method.result.Carrier}
      {cause : Unsendable} (hruns : t.Runs q h a)
      (hbody : (h.method.body a (states h.owner)).1 = .returned x)
      (hresult : h.method.result.encode x = .error cause) :
      Ends (.failed (.codec (.unsendable cause))) (after states h a)
  | returned {h : Handler σ} {a : h.method.params.Carrier} {x : h.method.result.Carrier}
      {data : Value} (hruns : t.Runs q h a)
      (hbody : (h.method.body a (states h.owner)).1 = .returned x)
      (hresult : h.method.result.encode x = .ok data) : Ends (.returned data) (after states h a)
  | crashed {h : Handler σ} {a : h.method.params.Carrier} (hruns : t.Runs q h a)
      (hbody : (h.method.body a (states h.owner)).1 = .crashed) : Ends .crashed (after states h a)

end Stages

variable {t : ServiceTable σ} {q : Request} {states states' : Instances σ} {h : Handler σ}

/-- A handler is found exactly when its service has it under its name. -/
theorem find_eq_ok_iff {service method : String} : t.find service method = .ok h ↔
    ∃ handlers, t.handlers? service = some handlers ∧ handlers.lookup method = some h := by
  unfold find
  cases t.handlers? service with
  | none => simp
  | some handlers =>
    cases hlookup : handlers.lookup method with
    | none => simp [hlookup]
    | some h' => simp [hlookup]

/-- A method that is found is called on the state of its owner. -/
theorem Finds.call (hfinds : t.Finds q h) (states : Instances σ) :
    t.call q.service q.method q.args states =
      ((h.method.call q.method q.args (states h.owner)).1,
        states.set h.owner (h.method.call q.method q.args (states h.owner)).2) := by
  rw [ServiceTable.call, find_eq_ok_iff.mpr hfinds]

/-- A method that runs concludes with what its body makes of the state. -/
theorem Runs.call {a : h.method.params.Carrier} (hruns : t.Runs q h a) (states : Instances σ) :
    t.call q.service q.method q.args states =
      (h.method.conclude (h.method.body a (states h.owner)).1, after states h a) := by
  rw [hruns.finds.call, Method.call, hruns.arguments]
  rfl

/-! ### How a request ends -/

/-- A call ends as described. -/
theorem Ends.call {outcome : Outcome Fault Value} (hends : t.Ends q states outcome states') :
    t.call q.service q.method q.args states = (outcome, states') := by
  cases hends with
  | noService hservice => rw [ServiceTable.call, find, hservice]
  | noMethod hservice hmethod =>
    rw [ServiceTable.call, find, hservice]
    dsimp only
    rw [hmethod]
  | mismatch hfinds harguments =>
    -- The state of the instance is put back as it was.
    rw [hfinds.call, Method.call_of_mismatch harguments]
    dsimp only
    rw [Instances.set_self]
  | refused hruns hbody =>
    rw [hruns.call, hbody]
    rfl
  | unsendable hruns hbody hresult =>
    rw [hruns.call, hbody, Method.conclude, hresult]
    rfl
  | returned hruns hbody hresult =>
    rw [hruns.call, hbody, Method.conclude, hresult]
    rfl
  | crashed hruns hbody =>
    rw [hruns.call, hbody]
    rfl

/-- The stages in their order lead to an end. -/
theorem exists_ends (t : ServiceTable σ) (q : Request) (states : Instances σ) :
    ∃ outcome states', t.Ends q states outcome states' := by
  -- Stage by stage, the call ends here or goes on to the next.
  cases hservice : t.handlers? q.service with
  | none => exact ⟨_, _, .noService hservice⟩
  | some handlers =>
    cases hmethod : handlers.lookup q.method with
    | none => exact ⟨_, _, .noMethod hservice hmethod⟩
    | some h =>
      have hfinds : t.Finds q h := ⟨handlers, hservice, hmethod⟩
      cases harguments : h.method.params.decodeArguments q.args with
      | error cause => exact ⟨_, _, .mismatch hfinds harguments⟩
      | ok a =>
        have hruns : t.Runs q h a := ⟨hfinds, harguments⟩
        cases hbody : (h.method.body a (states h.owner)).1 with
        | crashed => exact ⟨_, _, .crashed hruns hbody⟩
        | failed text => exact ⟨_, _, .refused hruns hbody⟩
        | returned x =>
          cases hresult : h.method.result.encode x with
          | error cause => exact ⟨_, _, .unsendable hruns hbody hresult⟩
          | ok data => exact ⟨_, _, .returned hruns hbody hresult⟩

/-- A request ends in one way only, which is that of its call. -/
theorem ends_iff {outcome : Outcome Fault Value} : t.Ends q states outcome states' ↔
    t.call q.service q.method q.args states = (outcome, states') := by
  refine ⟨Ends.call, fun hcall => ?_⟩
  obtain ⟨outcome', states₁, hends⟩ := t.exists_ends q states
  obtain ⟨rfl, rfl⟩ := Prod.mk.inj (hends.call.symm.trans hcall)
  exact hends

/-- A request is answered by the way in which it ends. -/
theorem dispatch_eq_iff {response : Option Response} :
    t.dispatch q states = (response, states') ↔
      ∃ outcome, t.Ends q states outcome states' ∧ respond q.requestId outcome = response := by
  have hdispatch : t.dispatch q states =
      (respond q.requestId (t.call q.service q.method q.args states).1,
        (t.call q.service q.method q.args states).2) := rfl
  rw [hdispatch]
  constructor
  · intro h
    obtain ⟨hresponse, hstates⟩ := Prod.mk.inj h
    exact ⟨_, ends_iff.mpr (Prod.ext rfl hstates), hresponse⟩
  · rintro ⟨outcome, hends, rfl⟩
    rw [hends.call]

/-! ### Effects -/

/-- What a request does to the instance `i`: one run of the body of its method, if it is a method of
`i` whose arguments convert, and else nothing. -/
def effect (t : ServiceTable σ) (i : InstanceId) (q : Request) : Option (σ → σ) :=
  match t.find q.service q.method with
  | .error _ => none
  | .ok h =>
    match h.method.params.decodeArguments q.args with
    | .error _ => none
    | .ok a => if h.owner = i then some fun s => (h.method.body a s).2 else none

/-- Answers requests one after the other. -/
def dispatchAll (t : ServiceTable σ) : List Request → Instances σ →
    List (Option Response) × Instances σ
  | [], states => ([], states)
  | q :: qs, states =>
    let (r, states) := t.dispatch q states
    let (rs, states) := t.dispatchAll qs states
    (r :: rs, states)

theorem states_dispatch (t : ServiceTable σ) (q : Request) (states : Instances σ) :
    (t.dispatch q states).2 = (t.call q.service q.method q.args states).2 := rfl

/-- If no body is run, no state changes. -/
theorem states_call_of_idle (hidle : ∀ h a, ¬ t.Runs q h a) (states : Instances σ) :
    (t.call q.service q.method q.args states).2 = states := by
  obtain ⟨outcome, states', hends⟩ := t.exists_ends q states
  rw [hends.call]
  cases hends with
  | noService hservice => rfl
  | noMethod hservice hmethod => rfl
  | mismatch hfinds harguments => rfl
  | refused hruns hbody => exact absurd hruns (hidle _ _)
  | unsendable hruns hbody hresult => exact absurd hruns (hidle _ _)
  | returned hruns hbody hresult => exact absurd hruns (hidle _ _)
  | crashed hruns hbody => exact absurd hruns (hidle _ _)

/-- A request that runs has its effect on the owner alone. -/
theorem effect_of_runs {a : h.method.params.Carrier} (hruns : t.Runs q h a) (i : InstanceId) :
    t.effect i q = if h.owner = i then some (fun s => (h.method.body a s).2) else none := by
  unfold effect
  rw [find_eq_ok_iff.mpr hruns.finds]
  dsimp only
  rw [hruns.arguments]

/-- A request that runs nothing has no effect. -/
theorem effect_of_idle (hidle : ∀ h a, ¬ t.Runs q h a) (i : InstanceId) : t.effect i q = none := by
  unfold effect
  cases hfind : t.find q.service q.method with
  | error fault => rfl
  | ok h =>
    dsimp only
    cases harguments : h.method.params.decodeArguments q.args with
    | error cause => rfl
    | ok a => exact absurd ⟨find_eq_ok_iff.mp hfind, harguments⟩ (hidle h a)

/-- One request does to each instance what its effect on it says. -/
theorem states_dispatch_apply (t : ServiceTable σ) (q : Request) (states : Instances σ)
    (i : InstanceId) :
    (t.dispatch q states).2 i = (t.effect i q).elim (states i) fun change => change (states i) := by
  rw [states_dispatch]
  by_cases hruns : ∃ h a, t.Runs q h a
  · obtain ⟨h, a, hruns⟩ := hruns
    rw [hruns.call, effect_of_runs hruns]
    by_cases howner : h.owner = i
    · rw [if_pos howner, ← howner]
      exact if_pos rfl
    · rw [if_neg howner]
      exact if_neg fun heq => howner heq.symm
  · have hidle : ∀ h a, ¬ t.Runs q h a := fun h a hruns' => hruns ⟨h, a, hruns'⟩
    rw [states_call_of_idle hidle, effect_of_idle hidle]
    rfl

/-- Many requests make on each instance the runs that they have there, one after the other. -/
theorem states_dispatchAll (t : ServiceTable σ) (qs : List Request) (states : Instances σ)
    (i : InstanceId) :
    (t.dispatchAll qs states).2 i =
      (qs.filterMap (t.effect i)).foldl (fun s change => change s) (states i) := by
  induction qs generalizing states with
  | nil => rfl
  | cons q qs ih =>
    -- The other requests start from what the first one has left.
    have hfirst := t.states_dispatch_apply q states i
    have hrest := ih (t.dispatch q states).2
    rw [hfirst] at hrest
    refine hrest.trans ?_
    cases heffect : t.effect i q with
    | none => rw [List.filterMap_cons_none heffect]; rfl
    | some change => rw [List.filterMap_cons_some heffect]; rfl

/-! ### Where methods come from -/

/-- The method that is found was registered with its service, in which nothing of its name was added
after it, and its instance is the one that this service was built from. -/
theorem Finds.of_run {start : Instances σ} {deeds : List (Deed σ)}
    (hfinds : (History.run start deeds).table.Finds q h) :
    ∃ before addition after,
      Stands (History.run start deeds).log q.service h.owner
        (before ++ (q.method, addition) :: after) ∧
      q.method ∉ after.map (·.1) ∧ h.method = addition.settled := by
  obtain ⟨handlers, hhandlers, hlookup⟩ := hfinds
  obtain ⟨owner, additions, hstands, rfl⟩ :=
    ((History.faithful_run start deeds).handlers?_eq q.service handlers).mp hhandlers
  obtain ⟨before, addition, after, rfl, hlast, rfl⟩ := Service.exists_last_of_lookup_build hlookup
  exact ⟨before, addition, after, hstands, hlast, rfl⟩

/-- An asynchronous method is awaited, and its steps are made on the instance. -/
theorem Finds.call_async (hfinds : t.Finds q h) {m : AsyncMethod σ} (hmethod : h.method = m.settled)
    (states : Instances σ) :
    t.call q.service q.method q.args states =
      (((m.call q.method q.args).finish (states h.owner)).1,
        states.set h.owner ((m.call q.method q.args).finish (states h.owner)).2) := by
  rw [hfinds.call, hmethod, AsyncMethod.finish_call]

/-! ### Dispatch as a whole -/

/-- The response to a success: it has the code of one, and no text. -/
theorem dispatch_eq_ok_iff {data : Value} :
    t.dispatch q states = (some ⟨q.requestId, 200, "", 0, 0, data⟩, states') ↔
      t.Ends q states (.returned data) states' := by
  rw [dispatch_eq_iff]
  constructor
  · rintro ⟨outcome, hends, hresponse⟩
    cases outcome with
    | returned data' =>
      have hdata := congrArg Response.data (Option.some.inj hresponse)
      exact (show data' = data from hdata) ▸ hends
    | failed fault =>
      have hcode := congrArg Response.code (Option.some.inj hresponse)
      exact absurd hcode (show (500 : Int16) ≠ 200 by decide)
    | crashed => cases hresponse
  · intro hends
    exact ⟨_, hends, rfl⟩

/-- A call that fails is answered with code 500 and the message of its fault. -/
theorem Ends.dispatch_of_failed {fault : Fault} (hends : t.Ends q states (.failed fault) states') :
    t.dispatch q states = (some ⟨q.requestId, 500, fault.message, 0, 0, .null⟩, states') :=
  dispatch_eq_iff.mpr ⟨_, hends, rfl⟩

/-- No response is made exactly when the method crashes. -/
theorem dispatch_eq_none_iff :
    t.dispatch q states = (none, states') ↔ t.Ends q states .crashed states' := by
  rw [dispatch_eq_iff]
  constructor
  · rintro ⟨outcome, hends, hresponse⟩
    cases outcome with
    | returned data => cases hresponse
    | failed fault => cases hresponse
    | crashed => exact hends
  · intro hends
    exact ⟨_, hends, rfl⟩

/-- Each response is that of a success or that of a failure. -/
theorem response_of_dispatch {r : Response} (h : t.dispatch q states = (some r, states')) :
    (∃ data, t.Ends q states (.returned data) states' ∧
        r = ⟨q.requestId, 200, "", 0, 0, data⟩) ∨
      ∃ fault, t.Ends q states (.failed fault) states' ∧
        r = ⟨q.requestId, 500, fault.message, 0, 0, .null⟩ := by
  obtain ⟨outcome, hends, hresponse⟩ := dispatch_eq_iff.mp h
  cases outcome with
  | returned data => exact .inl ⟨data, hends, (Option.some.inj hresponse).symm⟩
  | failed fault => exact .inr ⟨fault, hends, (Option.some.inj hresponse).symm⟩
  | crashed => cases hresponse

/-- **Dispatch.**  The stages of a request are looking up the service, looking up the method,
converting the arguments, running the body, and converting the result.  If they all succeed the
response has the code 200, no text and the converted result; else it has the code 500, no data and
the words of the fault of the first stage that fails.  Either way it has the id of the request, and
no request has another response; only a body that crashes leaves it without one.

If one of the first three stages fails nothing changes.  Otherwise the body has been run once, on
the instance that the service was built from when it was registered, and no other instance has
changed; and so through any number of requests, whatever services they go to.  The method is the
last that was added to the service under its name.  One that waits is awaited, and this is all
there is to it. -/
theorem dispatch_by_stages (t : ServiceTable σ) (q : Request) (states : Instances σ) :
    -- What is answered.
    (∃ outcome states', t.Ends q states outcome states' ∧
      ∀ outcome' states'', t.Ends q states outcome' states'' →
        outcome' = outcome ∧ states'' = states') ∧
    (∀ data states', t.Ends q states (.returned data) states' ↔
      t.dispatch q states = (some ⟨q.requestId, 200, "", 0, 0, data⟩, states')) ∧
    (∀ fault states', t.Ends q states (.failed fault) states' →
      t.dispatch q states = (some ⟨q.requestId, 500, fault.message, 0, 0, .null⟩, states')) ∧
    (∀ states', t.Ends q states .crashed states' ↔ t.dispatch q states = (none, states')) ∧
    (∀ r states', t.dispatch q states = (some r, states') →
      r.requestId = q.requestId ∧ (r.code = 200 ∨ r.code = 500) ∧
      (r.code = 200 ↔ ∃ data, t.Ends q states (.returned data) states') ∧
      (r.code = 500 ↔ ∃ fault, t.Ends q states (.failed fault) states')) ∧
    -- What is done.
    ((∀ h a, ¬ t.Runs q h a) → (t.dispatch q states).2 = states) ∧
    (∀ h a, t.Runs q h a →
      (t.dispatch q states).2 = states.set h.owner (h.method.body a (states h.owner)).2) ∧
    (∀ qs i, (t.dispatchAll qs states).2 i =
      (qs.filterMap (t.effect i)).foldl (fun s change => change s) (states i)) ∧
    -- Where the method comes from.
    (∀ start deeds, t = (History.run start deeds).table → ∀ h, t.Finds q h →
      ∃ before addition after,
        Stands (History.run start deeds).log q.service h.owner
          (before ++ (q.method, addition) :: after) ∧
        q.method ∉ after.map (·.1) ∧ h.method = addition.settled) ∧
    ∀ h (m : AsyncMethod σ), t.Finds q h → h.method = m.settled →
      t.dispatch q states =
        (respond q.requestId ((m.call q.method q.args).finish (states h.owner)).1,
          states.set h.owner ((m.call q.method q.args).finish (states h.owner)).2) := by
  refine ⟨?_, fun _ _ => dispatch_eq_ok_iff.symm, fun _ _ => Ends.dispatch_of_failed,
    fun _ => dispatch_eq_none_iff.symm, ?_, fun hidle => states_call_of_idle hidle states, ?_,
    fun qs => t.states_dispatchAll qs states, ?_, ?_⟩
  · -- How a call ends is what the table computes, so it ends in one way only.
    obtain ⟨outcome, states', hends⟩ := t.exists_ends q states
    refine ⟨outcome, states', hends, fun outcome' states'' hends' => ?_⟩
    exact Prod.mk.inj (hends'.call.symm.trans hends.call)
  · intro r states' hdispatch
    have hdiffer : (200 : Int16) ≠ 500 := by decide
    rcases response_of_dispatch hdispatch with ⟨data, hends, rfl⟩ | ⟨fault, hends, rfl⟩
    · refine ⟨rfl, .inl rfl, iff_of_true rfl ⟨data, hends⟩, iff_of_false hdiffer ?_⟩
      rintro ⟨fault, hends'⟩
      cases hends.call.symm.trans hends'.call
    · refine ⟨rfl, .inr rfl, iff_of_false hdiffer.symm ?_, iff_of_true rfl ⟨fault, hends⟩⟩
      rintro ⟨data, hends'⟩
      cases hends.call.symm.trans hends'.call
  · intro h a hruns
    rw [states_dispatch, hruns.call]
    rfl
  · -- The table holds what stands by the log, and of one name the addition made last.
    rintro start deeds rfl h hfinds
    exact hfinds.of_run
  · intro h m hfinds hmethod
    rw [ServiceTable.dispatch, hfinds.call_async hmethod]

/-! ### A shared total and a keyed mapping -/

/-- A service that adds to the total, and waits before it does. -/
def adder : Service Catalogue.Total :=
  .build 0 [("incr", .asyncMethod (.waiting Catalogue.increase))]

/-- A service that tells the total, and returns mappings from integers to integers. -/
def teller : Service Catalogue.Total :=
  .build 0 [("get", .method Catalogue.read),
    ("keyed", .method (Catalogue.echo (.mapping Catalogue.integer Catalogue.integer)))]

/-- The two services, which are of one instance. -/
def sharedTotal : ServiceTable Catalogue.Total :=
  ⟨[("adder", adder.handlers), ("teller", teller.handlers)]⟩

/-- A total of five. -/
def five : Catalogue.Total := ⟨5, by decide, by decide⟩

/-- Adds five to the total. -/
def addFive : Request := ⟨8, "adder", "incr", [.int (.ofUInt64 5)]⟩

/-- An object with the key five. -/
def fiveByFive : Value := .object [("5", .int (.ofUInt64 5))]

/-- The total that one service has added to is told by the other, and an integer that is a key comes
back as a key. -/
theorem dispatch_by_stages_sample :
    let zeros : Instances Catalogue.Total := fun _ => IntKind.zero .i64
    (∃ states', sharedTotal.dispatch ⟨9, "teller", "get", []⟩
      (sharedTotal.dispatch addFive zeros).2 =
        (some ⟨9, 200, "", 0, 0, .int (.ofUInt64 5)⟩, states')) ∧
    ∃ states', sharedTotal.dispatch ⟨10, "teller", "keyed", [fiveByFive]⟩ zeros =
      (some ⟨10, 200, "", 0, 0, fiveByFive⟩, states') := by
  intro zeros
  constructor
  · -- The first request adds five to the state, which the second one then reads.
    have hadds : sharedTotal.Runs addFive ⟨0, (AsyncMethod.waiting Catalogue.increase).settled⟩
        (five, ()) := ⟨⟨_, rfl, rfl⟩, rfl⟩
    obtain ⟨-, -, -, -, -, -, hdone, -⟩ := dispatch_by_stages sharedTotal addFive zeros
    have hstates : (sharedTotal.dispatch addFive zeros).2 = zeros.set 0 five :=
      (hdone _ _ hadds).trans rfl
    rw [hstates]
    obtain ⟨-, hanswered, -⟩ :=
      dispatch_by_stages sharedTotal ⟨9, "teller", "get", []⟩ (zeros.set 0 five)
    have htells : sharedTotal.Runs ⟨9, "teller", "get", []⟩ ⟨0, Catalogue.read⟩ () :=
      ⟨⟨_, rfl, rfl⟩, rfl⟩
    exact ⟨_, (hanswered _ _).mp (.returned htells rfl rfl)⟩
  · -- The keys of the mapping are integers, sent as texts and read back.
    obtain ⟨-, hanswered, -⟩ :=
      dispatch_by_stages sharedTotal ⟨10, "teller", "keyed", [fiveByFive]⟩ zeros
    have hkeyed : sharedTotal.Runs ⟨10, "teller", "keyed", [fiveByFive]⟩
        ⟨0, Catalogue.echo (.mapping Catalogue.integer Catalogue.integer)⟩ ([(five, five)], ()) :=
      ⟨⟨_, rfl, rfl⟩, rfl⟩
    exact ⟨_, (hanswered _ _).mp (.returned hkeyed rfl rfl)⟩

end ServiceTable
end WireCall
