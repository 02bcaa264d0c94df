import Mathlib.Algebra.GroupWithZero.Nat
import WireCall.Proofs.Client.Retries
import WireCall.Proofs.Settings.Saved

namespace WireCall.Proxy

/-!
# Room for failures

A call reserves the room for the failures of all its attempts before it makes the first one
(`HasRoom`).  So whether it gets to its attempts at all depends on the settings alone, and not on
what the attempts would come to: without that room it crashes although the first attempt would have
succeeded, and with it the first success is returned, wherever it stands among the attempts that
the settings allow.  The settings are not looked at before: any number of attempts can be loaded.

Main statement: a call crashes exactly if there is no room for its failures, and returns the first
success if there is (`call_by_room`).
-/

variable {ω κ : Type}

/-- There is room for as many failures as these settings allow attempts: their bytes are counted in
63 bits. -/
def HasRoom (s : ClientSettings) : Prop := s.attempts.toNat * faultSize ≤ 2 ^ 63 - 1

theorem hasRoom_iff {s : ClientSettings} : HasRoom s ↔ s.attempts.toNat ≤ mostAttempts :=
  (Nat.le_div_iff_mul_le (by decide)).symm

/-- If there is no room for that many smaller things, there is none for the failures. -/
theorem not_hasRoom_of_size {s : ClientSettings} {size : Nat} (hsize : size ≤ faultSize)
    (h : 2 ^ 63 - 1 < s.attempts.toNat * size) : ¬ HasRoom s := by
  have hgrows := Nat.mul_le_mul_left s.attempts.toNat hsize
  unfold HasRoom
  omega

/-! ### The first success -/

/-- The data of the first attempt that has succeeded. -/
def firstSuccess? (trials : List (Trial κ)) : Option Value :=
  trials.findSome? fun t => t.outcome.toOption

/-- The first success stands behind trials that all fail. -/
theorem firstSuccess?_eq_some {trials : List (Trial κ)} {v : Value}
    (h : firstSuccess? trials = some v) :
    ∃ earlier last later, trials = (earlier ++ [last]) ++ later ∧ (∀ t ∈ earlier, t.Fails) ∧
      last.outcome = .ok v := by
  obtain ⟨earlier, last, later, hsplit, hlast, hearlier⟩ := List.findSome?_eq_some_iff.mp h
  refine ⟨earlier, last, later, by simpa using hsplit, fun t ht => ?_, ?_⟩
  · -- A trial passed over has no value, so it has a fault.
    cases houtcome : t.outcome with
    | ok w =>
      have hnone := hearlier t ht
      rw [houtcome] at hnone
      cases hnone
    | error fault => exact ⟨fault, houtcome⟩
  · cases houtcome : last.outcome with
    | ok w =>
      rw [houtcome] at hlast
      cases hlast
      rfl
    | error fault =>
      rw [houtcome] at hlast
      cases hlast

/-- Where one trial succeeds there is a first success. -/
theorem exists_firstSuccess? {trials : List (Trial κ)} {t : Trial κ} {v : Value} (ht : t ∈ trials)
    (h : t.outcome = .ok v) : ∃ w, firstSuccess? trials = some w := by
  apply Option.isSome_iff_exists.mp
  rw [firstSuccess?, List.findSome?_isSome_iff]
  exact ⟨t, ht, by rw [h]; rfl⟩

variable {p : Proxy ω κ} {context : CallContext} {service method : String} {args : List Value}
  {o o' : Origin ω}

/-- Attempts are cut after any of them. -/
theorem Attempts.of_append {first later : List (Trial κ)}
    (h : p.Attempts context service method args o (first ++ later) o') :
    ∃ o₁, p.Attempts context service method args o first o₁ := by
  induction first generalizing o with
  | nil => exact ⟨o, .none⟩
  | cons t first ih =>
    cases h with
    | more htry hrest =>
      obtain ⟨o₁, hfirst⟩ := ih hrest
      exact ⟨o₁, .more htry hfirst⟩

/-! ### Calls with and without room -/

/-- Without room for the faults a call crashes before its first attempt. -/
theorem call_of_not_hasRoom (h : ¬ HasRoom p.settings) :
    p.call context service method args o = (.crashed, o) := by
  rw [hasRoom_iff, Nat.not_le] at h
  exact call_of_mostAttempts_lt h context service method args o

/-- With room for the faults no call crashes. -/
theorem call_ne_crashed (h : HasRoom p.settings) :
    (p.call context service method args o).1 ≠ .crashed := by
  rw [call_eq (hasRoom_iff.mp h)]
  cases tryTimes (p.attempt context service method args) p.settings.attempts.toNat o with
  | mk outcome o' => cases outcome <;> nofun

/-- With room, a call returns what the first trial to succeed brought. -/
theorem Attempts.call_of_firstSuccess? {trials : List (Trial κ)} {v : Value}
    (h : p.Attempts context service method args o trials o') (hroom : HasRoom p.settings)
    (hlength : trials.length ≤ p.settings.attempts.toNat) (hfirst : firstSuccess? trials = some v) :
    ∃ o₁, p.call context service method args o = (.returned v, o₁) := by
  obtain ⟨earlier, last, later, rfl, hfail, hlast⟩ := firstSuccess?_eq_some hfirst
  obtain ⟨o₁, hattempts⟩ := h.of_append
  have hearlier : earlier.length < p.settings.attempts.toNat := by
    simp only [List.length_append, List.length_singleton] at hlength
    omega
  exact ⟨o₁, hattempts.call_eq (hasRoom_iff.mp hroom) (.succeeds earlier hearlier hfail hlast)⟩

/-- **Room for failures.**  Whatever the settings are, they can be loaded.  If they leave no room
for the failures of all attempts a call crashes before the first one, whatever it would have come
to; if they do, the call does not crash, and returns the first success if one of as many attempts
as the settings allow is a success. -/
theorem call_by_room (p : Proxy ω κ) (context : CallContext) (service method : String)
    (args : List Value) (o : Origin ω) :
    ClientSettings.form.load (ClientSettings.form.save p.settings) = some p.settings ∧
    ((p.call context service method args o).1 = .crashed ↔ ¬ HasRoom p.settings) ∧
    (¬ HasRoom p.settings → p.call context service method args o = (.crashed, o)) ∧
    (HasRoom p.settings → ∀ trials o', p.Attempts context service method args o trials o' →
      trials.length ≤ p.settings.attempts.toNat → (∃ t ∈ trials, ∃ w, t.outcome = .ok w) →
        ∃ v o₁, firstSuccess? trials = some v ∧
          p.call context service method args o = (.returned v, o₁)) := by
  refine ⟨ClientSettings.form_overlays.load_save ClientSettings.writes_form p.settings, ?_,
    call_of_not_hasRoom, ?_⟩
  · constructor
    · exact fun hcrashed hroom => call_ne_crashed hroom hcrashed
    · intro hnone
      rw [call_of_not_hasRoom hnone]
  · intro hroom trials o' hattempts hlength ⟨t, ht, w, hw⟩
    obtain ⟨v, hfirst⟩ := exists_firstSuccess? ht hw
    obtain ⟨o₁, hcall⟩ := hattempts.call_of_firstSuccess? hroom hlength hfirst
    exact ⟨v, o₁, hfirst, hcall⟩

/-! ### A call with as many attempts as there is room for, and one with more -/

/-- A proxy that may make so many attempts, in surroundings in which the first of them may fail. -/
def hurdles (attempts : UInt64) : Proxy Nat Unit :=
  ⟨ClientSettings.default.withAttempts attempts, hurdleNetwork, some (hurdleBackend, .default)⟩

/-- After the second hurdle an attempt is not answered, and the next one is. -/
def hurdleTrials : List (Trial Unit) :=
  [.called ClientSettings.default.address () 6 (.error hurdleFault),
    .called ClientSettings.default.address () 7 (.ok (Responder.sampleResponse.withTags 0 0))]

/-- Over the network with hurdles the attempts go as listed: one fails, and the next one is
answered. -/
theorem attempts_hurdles (attempts : UInt64) :
    (hurdles attempts).Attempts .background "calculator" "" Request.sample.args ⟨6, 2⟩ hurdleTrials
      ⟨8, 3⟩ := by
  have hfirst : (hurdles attempts).Tries .background "calculator" "" Request.sample.args ⟨6, 2⟩
      (.called ClientSettings.default.address () 6 (.error hurdleFault)) ⟨7, 3⟩ := by
    refine @Tries.called _ _ (hurdles attempts) _ _ _ _ _ _ _ (.error hurdleFault) _ _ _ rfl
      (dialText_hurdleNetwork 2 _) ?_
    rfl
  have hsecond : (hurdles attempts).Tries .background "calculator" "" Request.sample.args ⟨7, 3⟩
      (.called ClientSettings.default.address () 7 (.ok (Responder.sampleResponse.withTags 0 0)))
      ⟨8, 3⟩ :=
    .of_arrival rfl (dialText_hurdleNetwork 3 _) rfl
      (Client.receive_eq_ok_iff.mpr Client.answers_parrotReply)
  exact .more hfirst (.more hsecond .none)

/-- One of the listed trials succeeds. -/
theorem exists_success_hurdleTrials : ∃ t ∈ hurdleTrials, ∃ w, t.outcome = .ok w :=
  ⟨_, List.mem_cons_of_mem _ (List.mem_singleton.mpr rfl), .list Request.sample.args, rfl⟩

/-- With the most attempts for which there is room, the second one is returned. -/
theorem call_by_room_sample :
    HasRoom (hurdles 164703072086692425).settings ∧ ∃ o₁,
      (hurdles 164703072086692425).call .background "calculator" "" Request.sample.args ⟨6, 2⟩ =
        (.returned (.list Request.sample.args), o₁) := by
  have hroom : HasRoom (hurdles 164703072086692425).settings := by
    unfold HasRoom
    decide
  have hlength : hurdleTrials.length ≤
      (hurdles 164703072086692425).settings.attempts.toNat := by decide
  obtain ⟨v, o₁, hfirst, hcall⟩ := (call_by_room (hurdles 164703072086692425) .background
    "calculator" "" Request.sample.args ⟨6, 2⟩).2.2.2 hroom hurdleTrials _ (attempts_hurdles _)
      hlength exists_success_hurdleTrials
  obtain rfl : Value.list Request.sample.args = v := Option.some.inj hfirst
  exact ⟨hroom, o₁, hcall⟩

/-- With the greatest number of attempts that can be loaded, for which there would be no room even
if a failure took up sixteen bytes, the call crashes although the second attempt would succeed. -/
theorem call_crashes_without_room :
    ClientSettings.form.load "\x7b\x22retries\x22:18446744073709551615\x7d" =
        some (hurdles 18446744073709551615).settings ∧
      2 ^ 63 - 1 < (hurdles 18446744073709551615).settings.attempts.toNat * 16 ∧
      (∃ trials o', (hurdles 18446744073709551615).Attempts .background "calculator" ""
          Request.sample.args ⟨6, 2⟩ trials o' ∧
        trials.length ≤ (hurdles 18446744073709551615).settings.attempts.toNat ∧
        ∃ t ∈ trials, ∃ w, t.outcome = .ok w) ∧
      (hurdles 18446744073709551615).call .background "calculator" "" Request.sample.args ⟨6, 2⟩ =
        (.crashed, ⟨6, 2⟩) := by
  have hwide : 2 ^ 63 - 1 < (hurdles 18446744073709551615).settings.attempts.toNat * 16 := by decide
  refine ⟨by decide +kernel, hwide, ⟨hurdleTrials, _, attempts_hurdles _, by decide,
    exists_success_hurdleTrials⟩, ?_⟩
  exact call_of_not_hasRoom (not_hasRoom_of_size (by decide) hwide)

end WireCall.Proxy
