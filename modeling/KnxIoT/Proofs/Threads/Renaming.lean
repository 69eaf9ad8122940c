import KnxIoT.Proofs.Registry.Table
import KnxIoT.Proofs.Threads.System
import Mathlib.Data.List.DropRight

/-! # Renaming a device while others use the registry

A call that sets a display name enters the registry twice: it looks the device up, and then it
writes the name. Each of the two is one section under the lock, and so is whatever the other threads
do: registering a device, switching its protection, entering it from a discovery reply, giving it
the serial number that a handshake needs, and forgetting all devices, which a stop does too.

* `Desk.run` is a schedule of such sections, for any number of calls. `alone` is the call that
  nobody disturbs, which is `Bridge.setName`.
* `run_present` is what a schedule keeps: a call that goes on to write a name has found its device,
  and it is still there, unless the registry was cleared in the meantime.
* `renaming_outcome` says what comes of each section of such a call. Between its two sections
  nothing but a clearing can make a difference; then the call enters the device anew, without
  address or serial number, or finds the registry full (`renaming_creates`). -/

namespace KnxIoT.Threads.Renaming

variable {σ : Type}

/-! ## Sections -/

/-- Where a call that sets a name is. -/
inductive Stage where
  | unused
  | looking (identifier name : String)
  | writing (identifier name : String)
  | returned (identifier : String) (r : Except BridgeError Unit)

/-- **The next section of a call.** -/
def Stage.exec (b : Bridge σ) : Stage → Option (Bridge σ × Stage)
  | .looking i name =>
    some (b, if Bridge.mayRename i b.registry then .writing i name
      else .returned i (.error (.unknownDevice i)))
  | .writing i name => match Bridge.writeName i name b.registry with
    | .ok (_, registry) => some ({ b with registry }, .returned i (.ok ()))
    | .error e => some (b, .returned i (.error e))
  | .unused | .returned .. => none

/-- What other threads do to the registry, one section each. -/
inductive Other where
  | register (identifier address : String)
  | secure (identifier : String) (on : Bool)
  | announce (token : Token) (found : ℕ) (source : Endpoint) (text serial : String)
  | number (identifier : String)
  | clear
  deriving DecidableEq

def Other.exec (b : Bridge σ) : Other → Bridge σ
  | .register i address => (b.register i address).2
  | .secure i on => (b.setSecure i on).2
  | .announce t found source text serial =>
    (b.announce t found source text (.wait none) [serial]).1
  | .number i => { b with registry := b.registry.modify i Bridge.withSerial }
  | .clear => b.clearDevices

theorem stop_clears (eng : Engine σ) (k : Core σ) :
    StopPc.exec eng k .clear = some ({ k with bridge := Other.clear.exec k.bridge }, [],
      .stop .done) := rfl

/-- A bridge, and where each call that sets a name is. -/
structure Desk (σ : Type) where
  bridge : Bridge σ
  calls : ℕ → Stage := fun _ => .unused

/-- What the scheduler chooses. -/
inductive Move where
  | call (n : ℕ) (identifier name : String)
  | step (n : ℕ)
  | other (o : Other)
  deriving DecidableEq

namespace Desk

/-- The identifiers of the known devices. -/
def known (s : Desk σ) : List String := s.bridge.registry.identifiers

/-- **One move.** A call number is used once. -/
def move (s : Desk σ) : Move → Option (Desk σ)
  | .call n i name => match s.calls n with
    | .unused => some { s with calls := Function.update s.calls n (.looking i name) }
    | _ => none
  | .step n => match (s.calls n).exec s.bridge with
    | some (bridge, stage) => some { bridge, calls := Function.update s.calls n stage }
    | none => none
  | .other o => some { s with bridge := o.exec s.bridge }

/-- **A schedule:** one move after the other, each of which must be possible. -/
def run (s : Desk σ) : List Move → Option (Desk σ)
  | [] => some s
  | m :: ms => match s.move m with
    | none => none
    | some s => s.run ms

theorem run_concat {s s' : Desk σ} {ms : List Move} {m : Move} (h : s.run (ms ++ [m]) = some s') :
    ∃ t, s.run ms = some t ∧ t.move m = some s' := by
  induction ms generalizing s with
  | nil =>
    simp only [List.nil_append, run] at h
    split at h
    · cases h
    · next t ht =>
      cases h
      exact ⟨s, rfl, ht⟩
  | cons x ms ih =>
    simp only [List.cons_append, run] at h ⊢
    split at h
    · cases h
    · exact ih h

end Desk

/-- **A call that nobody disturbs** does what setting a name does. -/
theorem alone (b : Bridge σ) (n : ℕ) (i name : String) :
    ∃ k s, ({ bridge := b } : Desk σ).run (.call n i name :: List.replicate k (.step n)) = some s ∧
      s.bridge = (b.setName i name).2 ∧ s.calls n = .returned i (b.setName i name).1 := by
  unfold Bridge.setName
  split
  · next hk =>
    refine ⟨2, ?_⟩
    cases hw : Bridge.writeName i name b.registry with
    | ok x => simp [Desk.run, Desk.move, Stage.exec, hk, hw]
    | error e => simp [Desk.run, Desk.move, Stage.exec, hk, hw]
  · next hk =>
    refine ⟨1, ?_⟩
    simp [Desk.run, Desk.move, Stage.exec, hk]

/-! ## What one section does to the known devices -/

section Known
variable {r r' : Registry} {i j : String} {u : DeviceUpdate} {d : Device}

theorem mem_identifiers : i ∈ r.identifiers ↔ (r.find? i).isSome := by
  unfold Registry.identifiers Registry.find?
  rw [List.find?_isSome, List.mem_map]
  simp

theorem mayRename_iff : Bridge.mayRename i r = true ↔ i ∈ r.identifiers := mem_identifiers.symm

theorem upsert_keeps (h : r.upsert i u = .ok (d, r')) (hj : j ∈ r.identifiers) :
    j ∈ r'.identifiers := by
  rw [mem_identifiers] at hj ⊢
  rw [Registry.find?_upsert h]
  split_ifs
  · rfl
  · exact hj

/-- **A known device stays known,** unless the registry is cleared. -/
theorem Other.exec_keeps {o : Other} (hc : o ≠ .clear) (b : Bridge σ)
    (hj : j ∈ b.registry.identifiers) : j ∈ (o.exec b).registry.identifiers := by
  cases o with
  | register i address =>
    unfold Other.exec Bridge.register
    dsimp only
    split
    · next h => exact upsert_keeps h hj
    · exact hj
  | secure i on =>
    have hreg : ((Other.secure i on).exec b).registry = (b.registry.setSecure i on).2 := by
      unfold Other.exec Bridge.setSecure
      dsimp only
      split <;> next h => rw [h]
    rw [hreg, Registry.identifiers_setSecure]
    exact hj
  | announce t found source text serial =>
    unfold Other.exec Bridge.announce
    dsimp only
    split
    · next h => exact upsert_keeps h hj
    · exact hj
  | number i =>
    rw [show ((Other.number i).exec b).registry = b.registry.modify i Bridge.withSerial from rfl,
      Registry.identifiers_modify fun d => by unfold Bridge.withSerial; split <;> rfl]
    exact hj
  | clear => exact absurd rfl hc

theorem writeName_known (name : String) (hi : i ∈ r.identifiers) :
    ∃ d r', Bridge.writeName i name r = .ok (d, r') ∧ r'.identifiers = r.identifiers ∧
      ∀ j, r'.find? j = if j = i then
        (r.find? i).map fun d =>
          { d with name := String.ofList (name.toList.take Device.maxNameLength) }
        else r.find? j := by
  obtain ⟨d, hd⟩ := Option.isSome_iff_exists.mp (mem_identifiers.mp hi)
  have hw : Bridge.writeName i name r =
      .ok (DeviceUpdate.apply { name := some name } d, r.modify i
        (DeviceUpdate.apply { name := some name })) := by
    unfold Bridge.writeName Registry.upsert
    rw [hd]
  refine ⟨_, _, hw, Registry.identifiers_modify fun _ => rfl, fun j => ?_⟩
  rw [Registry.find?_upsert hw, hd]
  split_ifs <;> rfl

theorem writeName_unknown {name : String} (hi : i ∉ r.identifiers) :
    Bridge.writeName i name r = if r.isFull then .error (.registryFull r.capacity) else
      let d : Device :=
        { identifier := i, name := String.ofList (name.toList.take Device.maxNameLength) }
      .ok (d, { r with devices := r.devices ++ [d] }) := by
  have hf : r.find? i = none := by
    rw [mem_identifiers] at hi
    simpa using hi
  unfold Bridge.writeName Registry.upsert
  rw [hf]
  rfl

end Known

/-! ## What a schedule keeps -/

/-- The moves since the last section of a call. -/
def since (n : ℕ) (ms : List Move) : List Move := ms.rtakeWhile (· ≠ .step n)

/-- Somebody forgot all devices since the last section of a call. -/
def Cleared (n : ℕ) (ms : List Move) : Prop := .other .clear ∈ since n ms

theorem since_concat {n : ℕ} {ms : List Move} {m : Move} (h : m ≠ .step n) :
    since n (ms ++ [m]) = since n ms ++ [m] := by
  unfold since
  rw [List.rtakeWhile_concat, if_pos (by simpa using h)]

theorem Cleared.concat {n : ℕ} {ms : List Move} {m : Move} (h : Cleared n ms) (hm : m ≠ .step n) :
    Cleared n (ms ++ [m]) := by
  unfold Cleared
  rw [since_concat hm]
  exact List.mem_append_left _ h

/-- **Who goes on to write a name has found the device,** and it is still known unless the registry
was cleared since then. -/
def Present (ms : List Move) (s : Desk σ) : Prop :=
  ∀ n i name, s.calls n = .writing i name → Cleared n ms ∨ i ∈ s.known

section Run
variable {ms : List Move} {s s' : Desk σ} {n : ℕ}

/-- **What a section of a call can do.** -/
inductive Outcome (s s' : Desk σ) (n : ℕ) : Prop
  /-- The device is not known, and the call says so. -/
  | unknown {i name : String} (looking : s.calls n = .looking i name) (absent : i ∉ s.known)
      (bridge : s'.bridge = s.bridge)
      (returned : s'.calls n = .returned i (.error (.unknownDevice i)))
  /-- The device is known, and the call goes on. -/
  | found {i name : String} (looking : s.calls n = .looking i name) (present : i ∈ s.known)
      (bridge : s'.bridge = s.bridge) (goesOn : s'.calls n = .writing i name)
  /-- The device has a new name; all else is as before. -/
  | renamed {i name : String} (writing : s.calls n = .writing i name) (present : i ∈ s.known)
      (known : s'.known = s.known)
      (devices : ∀ j, s'.bridge.registry.find? j = if j = i then
        (s.bridge.registry.find? i).map fun d =>
          { d with name := String.ofList (name.toList.take Device.maxNameLength) }
        else s.bridge.registry.find? j)
      (returned : s'.calls n = .returned i (.ok ()))
  /-- The device was forgotten, and is entered with nothing but a name. -/
  | created {i name : String} (writing : s.calls n = .writing i name) (absent : i ∉ s.known)
      (devices : s'.bridge.registry.devices = s.bridge.registry.devices ++
        [{ identifier := i, name := String.ofList (name.toList.take Device.maxNameLength) }])
      (returned : s'.calls n = .returned i (.ok ()))
  /-- The device was forgotten, and there is no room for it any more. -/
  | refused {i name : String} (writing : s.calls n = .writing i name) (absent : i ∉ s.known)
      (full : s.bridge.registry.isFull = true) (bridge : s'.bridge = s.bridge)
      (returned : s'.calls n =
        .returned i (.error (.registryFull s.bridge.registry.capacity)))

/-- **Each section of a call has one of these outcomes.** -/
theorem step_outcome (h : s.move (.step n) = some s') : Outcome s s' n := by
  have hat : ∀ (b : Bridge σ) (stage : Stage),
      ({ bridge := b, calls := Function.update s.calls n stage } : Desk σ).calls n = stage :=
    fun _ _ => Function.update_self ..
  unfold Desk.move at h
  cases hs : s.calls n with
  | unused => simp [hs, Stage.exec] at h
  | returned i r => simp [hs, Stage.exec] at h
  | looking i name =>
    simp only [hs, Stage.exec, mayRename_iff] at h
    cases h
    by_cases hi : i ∈ s.known
    · exact .found hs hi rfl ((hat _ _).trans (if_pos hi))
    · exact .unknown hs hi rfl ((hat _ _).trans (if_neg hi))
  | writing i name =>
    simp only [hs, Stage.exec] at h
    by_cases hi : i ∈ s.known
    · obtain ⟨d, r', hw, hids, hfind⟩ := writeName_known name hi
      rw [hw] at h
      cases h
      exact .renamed hs hi hids hfind (hat _ _)
    · rw [writeName_unknown hi] at h
      by_cases hfull : s.bridge.registry.isFull = true
      · rw [if_pos hfull] at h
        cases h
        exact .refused hs hi hfull rfl (hat _ _)
      · rw [if_neg hfull] at h
        cases h
        exact .created hs hi rfl (hat _ _)

theorem Outcome.keeps (h : Outcome s s' n) {j : String} (hj : j ∈ s.known) : j ∈ s'.known := by
  cases h with
  | unknown _ _ bridge _ => rwa [Desk.known, bridge]
  | found _ _ bridge _ => rwa [Desk.known, bridge]
  | renamed _ _ known _ _ => rwa [known]
  | created _ _ devices _ =>
    unfold Desk.known Registry.identifiers at hj ⊢
    rw [devices, List.map_append]
    exact List.mem_append_left _ hj
  | refused _ _ _ bridge _ => rwa [Desk.known, bridge]

theorem calls_of_step {m : ℕ} (h : s.move (.step n) = some s') (hm : m ≠ n) :
    s'.calls m = s.calls m := by
  simp only [Desk.move] at h
  split at h
  · cases h
    exact Function.update_of_ne hm ..
  · cases h

/-- **One move keeps the law.** -/
theorem Present.move {m : Move} (hp : Present ms s) (h : s.move m = some s') :
    Present (ms ++ [m]) s' := by
  intro a i name ha
  cases m with
  | call n j name' =>
    have hs : s.calls a = .writing i name ∧ s'.bridge = s.bridge := by
      simp only [Desk.move] at h
      split at h
      · cases h
        by_cases hn : a = n
        · subst hn
          cases (Function.update_self ..).symm.trans ha
        · exact ⟨(Function.update_of_ne hn ..).symm.trans ha, rfl⟩
      · cases h
    rcases hp a i name hs.1 with hc | hi
    · exact Or.inl (hc.concat (by simp))
    · exact Or.inr (by unfold Desk.known; rw [hs.2]; exact hi)
  | step n =>
    have ho := step_outcome h
    by_cases hn : a = n
    · -- The call has just looked its device up.
      subst hn
      cases ho with
      | unknown _ _ _ returned => cases returned.symm.trans ha
      | found _ present bridge goesOn =>
        cases goesOn.symm.trans ha
        exact Or.inr (by unfold Desk.known; rw [bridge]; exact present)
      | renamed _ _ _ _ returned => cases returned.symm.trans ha
      | created _ _ _ returned => cases returned.symm.trans ha
      | refused _ _ _ _ returned => cases returned.symm.trans ha
    · rw [calls_of_step h hn] at ha
      rcases hp a i name ha with hc | hi
      · exact Or.inl (hc.concat (by simpa using Ne.symm hn))
      · exact Or.inr (ho.keeps hi)
  | other o =>
    cases h
    by_cases ho : o = .clear
    · refine Or.inl ?_
      unfold Cleared
      rw [since_concat (by simp), ho]
      simp
    · rcases hp a i name ha with hc | hi
      · exact Or.inl (hc.concat (by simp))
      · exact Or.inr (o.exec_keeps ho s.bridge hi)

/-- **A whole schedule keeps the law.** -/
theorem run_present {b : Bridge σ} (h : ({ bridge := b } : Desk σ).run ms = some s) :
    Present ms s := by
  induction ms using List.reverseRecOn generalizing s with
  | nil =>
    cases h
    intro n i name hn
    cases hn
  | append_singleton ms m ih =>
    obtain ⟨t, ht, hm⟩ := Desk.run_concat h
    exact (ih ht).move hm

/-! ## Renaming and creating -/

/-- **A section of a call creates no device:** it adds no identifier, and when the call returns, the
name was written into a device that was known, or the device was not known and the call says so. -/
structure CreatesNone (s s' : Desk σ) (n : ℕ) : Prop where
  adds : s'.known ⊆ s.known
  returns : ∀ i r, s'.calls n = .returned i r →
    r = if i ∈ s.known then .ok () else .error (.unknownDevice i)

/-- What is true of a section of a call that comes after some moves. -/
structure Renames (ms : List Move) (s s' : Desk σ) (n : ℕ) : Prop where
  outcome : Outcome s s' n
  /-- As long as nobody clears the registry between the two sections of the call, it creates no
  device. -/
  createsNone : ¬ Cleared n ms → CreatesNone s s' n

theorem Outcome.createsNone (h : Outcome s s' n)
    (hp : ∀ i name, s.calls n = .writing i name → i ∈ s.known) : CreatesNone s s' n := by
  cases h with
  | unknown looking absent bridge returned =>
    refine ⟨by unfold Desk.known; rw [bridge]; exact List.Subset.refl _, fun i r hr => ?_⟩
    cases returned.symm.trans hr
    rw [if_neg absent]
  | found looking present bridge goesOn =>
    refine ⟨by unfold Desk.known; rw [bridge]; exact List.Subset.refl _, fun i r hr => ?_⟩
    cases goesOn.symm.trans hr
  | renamed writing present known devices returned =>
    refine ⟨known ▸ List.Subset.refl _, fun i r hr => ?_⟩
    cases returned.symm.trans hr
    rw [if_pos present]
  | created writing absent devices returned => exact absurd (hp _ _ writing) absent
  | refused writing absent full bridge returned => exact absurd (hp _ _ writing) absent

/-- **What comes of a call that sets a name,** in any schedule: each of its sections has one of the
outcomes above, and it creates no device unless the registry is cleared between the two. -/
theorem renaming_outcome {b : Bridge σ} (run : ({ bridge := b } : Desk σ).run ms = some s)
    (step : s.move (.step n) = some s') : Renames ms s s' n where
  outcome := step_outcome step
  createsNone hc := (step_outcome step).createsNone fun i name hn =>
    (run_present run n i name hn).resolve_left hc

end Run

section Demo

/-- The name of a registered device is set while its protection is switched on, and nobody clears
the registry. -/
theorem renaming_outcome_secured : ∃ s s' : Desk Bench.ScriptedEngine,
    ({ bridge := usual } : Desk _).run [.other (.register "A" "fe80::1"), .call 0 "A" "Lamp",
      .step 0, .other (.secure "A" true)] = some s ∧
    s.move (.step 0) = some s' ∧ Outcome s s' 0 ∧ CreatesNone s s' 0 ∧
    s'.calls 0 = .returned "A" (.ok ()) := by
  have h : Renames [.other (.register "A" "fe80::1"), .call 0 "A" "Lamp", .step 0,
      .other (.secure "A" true)] _ _ 0 := renaming_outcome (b := usual) rfl rfl
  exact ⟨_, _, rfl, rfl, h.outcome, h.createsNone (by unfold Cleared since; decide), rfl⟩

/-- **Renaming can create a device.** The registry is cleared after the device was looked up; the
call then enters it anew and returns as if it had been there. If another device takes the last place
first, the call finds the registry full. -/
theorem renaming_creates :
    (∃ s s' : Desk Bench.ScriptedEngine,
      ({ bridge := usual } : Desk _).run [.other (.register "A" "fe80::1"), .call 0 "A" "Lamp",
        .step 0, .other .clear] = some s ∧
      s.move (.step 0) = some s' ∧ ¬ CreatesNone s s' 0 ∧ s.known = [] ∧ s'.known = ["A"] ∧
      s'.calls 0 = .returned "A" (.ok ())) ∧
    ∃ s s' : Desk Bench.ScriptedEngine,
      ({ bridge := { usual with registry := { capacity := 1 } } } : Desk _).run
        [.other (.register "A" "fe80::1"), .call 0 "A" "Lamp", .step 0, .other .clear,
          .other (.register "B" "fe80::2")] = some s ∧
      s.move (.step 0) = some s' ∧ ¬ CreatesNone s s' 0 ∧
      s'.calls 0 = .returned "A" (.error (.registryFull 1)) := by
  refine ⟨⟨_, _, rfl, rfl, fun h => ?_, rfl, rfl, rfl⟩, ⟨_, _, rfl, rfl, fun h => ?_, rfl⟩⟩
  · have := h.adds (List.mem_singleton_self "A")
    cases this
  · cases h.returns "A" (.error (.registryFull 1)) rfl

end Demo

end KnxIoT.Threads.Renaming
