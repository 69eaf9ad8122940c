import KnxIoT.Proofs.Bridge.Asking

/-! # Every device is in order

A device stores its address twice, in its own record and in its endpoint, and its identifier a
second time as the serial number of the endpoint. `Device.WellFormed` says that the copies agree,
and `wellFormed_kept` that whatever is done with a bridge keeps it.

`place_read` lists how an entry of a trace can change where the roster has a device. `LastEntered`
says in terms of positions which entry about a device is the last one; by `lastEntered_of_place` it
is the one from which the roster has the address. `devices_in_order` puts this together: each device
is where it was entered last, and the engine is handed just that. -/

namespace KnxIoT

/-- **A device whose copies agree.** -/
structure Device.WellFormed (d : Device) : Prop where
  address : d.address = some d.endpoint.address
  serial : d.endpoint.serial = some d.identifier
  name : d.name.length ≤ Device.maxNameLength

namespace Bridge

variable {σ : Type}

/-! ### Well-formed devices -/

section WellFormed

/-- An update that moves the device `i` to an endpoint with its own serial number. -/
def Relocates (i : String) (u : DeviceUpdate) : Prop :=
  ∃ e, u.endpoint = some e ∧ u.address = some e.address ∧ e.serial = some i

theorem name_length_apply {d : Device} (h : d.name.length ≤ Device.maxNameLength)
    (u : DeviceUpdate) : (u.apply d).name.length ≤ Device.maxNameLength := by
  rcases hn : u.name with _ | name
  · simpa [DeviceUpdate.apply, hn] using h
  · have hcut : (u.apply d).name.length = min Device.maxNameLength name.toList.length := by
      simp [DeviceUpdate.apply, hn]
    rw [hcut]
    exact Nat.min_le_left _ _

theorem wellFormed_relocate {i : String} {u : DeviceUpdate} {d : Device} (hu : Relocates i u)
    (hd : d.identifier = i) (hn : d.name.length ≤ Device.maxNameLength) :
    (u.apply d).WellFormed := by
  obtain ⟨e, he, ha, hs⟩ := hu
  have hend : (u.apply d).endpoint = e := by
    simp [DeviceUpdate.apply, DeviceUpdate.endpointOf, he]
  refine ⟨?_, ?_, name_length_apply hn u⟩
  · rw [hend]
    simp [DeviceUpdate.apply, ha]
  · rw [hend, hs, ← hd]
    rfl

theorem wellFormed_rename {d : Device} (h : d.WellFormed) (name : String) :
    (({ name := some name } : DeviceUpdate).apply d).WellFormed :=
  ⟨h.address, h.serial, name_length_apply h.name _⟩

theorem Touch.wellFormed {r r' : Registry} (h : Touch Relocates r r')
    (hr : ∀ d ∈ r.devices, d.WellFormed) : ∀ d ∈ r'.devices, d.WellFormed := by
  cases h with
  | enter allowed h =>
    exact Registry.forall_upsert h hr (fun d hd hi => wellFormed_relocate allowed hi (hr d hd).name)
      fun _ => wellFormed_relocate allowed rfl (Nat.zero_le _)
  | rename known h =>
    refine Registry.forall_upsert h hr (fun d hd _ => wellFormed_rename (hr d hd) _) fun hnone => ?_
    rw [hnone] at known
    cases known
  | secure i on =>
    refine Registry.forall_modify hr fun d hd _ => ?_
    obtain ⟨ha, hs, hn⟩ := hr d hd
    exact ⟨ha, hs, hn⟩
  | number i =>
    refine Registry.forall_modify hr fun d hd _ => ?_
    rw [withSerial_eq_self (by rw [(hr d hd).serial]; rfl)]
    exact hr d hd
  | clear => exact fun d hd => nomatch hd

/-- **Whatever is done with a bridge, its devices stay well formed.** -/
theorem wellFormed_kept (eng : Engine σ) :
    Kept eng Relocates fun b : Bridge σ => ∀ d ∈ b.registry.devices, d.WellFormed where
  free := ⟨fun _ _ => ⟨_, rfl, rfl, rfl⟩, fun _ _ _ => ⟨_, rfl, rfl, rfl⟩⟩
  move h hb := by
    rcases h.registry with h | h
    · rw [h]
      exact hb
    · exact h.wellFormed hb
  life {b} installed c hc hb := by
    rcases life_clears eng installed hc b with ⟨-, h⟩ | ⟨-, -, h⟩ <;> rw [h]
    · exact hb
    · exact fun d hd => nomatch hd
  takeDown hb := hb

end WellFormed

/-! ### The last entry about a device -/

section LastEntered
variable {s : Settings} {R : Roster} {tr : List (Entry σ)} {i : String} {e : Endpoint}

/-- The device that is entered at an entry which follows the roster, by hand or because it was
found, and where it is then. -/
def Roster.enters? (s : Settings) (R : Roster) : Entry σ → Option (String × Endpoint)
  | .returned (.register i a) (.device (.ok _)) =>
    some (i, { Endpoint.unicast a with serial := some i })
  | .notified (.stateChanged i _ _) _ =>
    some (i, { R.source with secure := s.secureByDefault, serial := some i })
  | _ => none

/-- At an entry that follows the roster all devices are forgotten: they are cleared, or the bridge
stops. -/
def Roster.Clears (R : Roster) : Entry σ → Prop
  | .called .clearDevices => True
  | x => abandons x = true ∧ R.stopped = false

/-- The protection of a device is set at an entry. -/
def Secures (i : String) (on : Bool) (x : Entry σ) : Prop :=
  ∃ u, x = .returned (.setSecure i on) (.unit (.ok u))

/-- **How the device `i` can come to be at `e`** after an entry. -/
inductive PlacedBy (s : Settings) (R : Roster) (i : String) (e : Endpoint) (x : Entry σ) : Prop
  | entered (h : R.enters? s x = some (i, e))
  | secured (on : Bool) (e' : Endpoint) (hx : Secures i on x) (h : R.place i = some e')
      (he : e = { e' with secure := on })
  | kept (h : R.place i = some e) (enters : ∀ e', R.enters? s x ≠ some (i, e'))
      (clears : ¬ R.Clears x) (secures : ∀ on, ¬ Secures i on x)

/-- A roster that has a device after it halts had it before, and has halted long since. -/
theorem place_of_halt (h : R.halt.place i = some e) : R.stopped = true ∧ R.place i = some e := by
  unfold Roster.halt at h
  split_ifs at h with hs
  · exact ⟨hs, h⟩
  · cases h

theorem place_of_enter {j : String} {e₀ : Endpoint} (h : (R.enter j e₀).place i = some e) :
    j = i ∧ e₀ = e ∨ j ≠ i ∧ R.place i = some e := by
  simp only [Roster.enter] at h
  split_ifs at h with hi
  · exact Or.inl ⟨hi.symm, Option.some.inj h⟩
  · exact Or.inr ⟨Ne.symm hi, h⟩

theorem placedBy_called {c : Command σ} (h : (R.read s (.called c)).place i = some e) :
    PlacedBy s R i e (.called c) := by
  have halted : R.halt.place i = some e → ∀ {x : Entry σ}, (R.Clears x → R.stopped = false) →
      R.place i = some e ∧ ¬ R.Clears x := by
    intro h x hx
    obtain ⟨hs, h⟩ := place_of_halt h
    exact ⟨h, fun hc => absurd (hs.symm.trans (hx hc)) nofun⟩
  cases c with
  | stop =>
    obtain ⟨h, hc⟩ := halted h (x := .called .stop) And.right
    exact .kept h nofun hc nofun
  | dispose =>
    obtain ⟨h, hc⟩ := halted h (x := .called .dispose) And.right
    exact .kept h nofun hc nofun
  | clearDevices => cases h
  | _ => exact .kept h nofun (fun hc => absurd hc.1 nofun) nofun

theorem placedBy_returned {c : Command σ} {r : Reply}
    (h : (R.read s (.returned c r)).place i = some e) : PlacedBy s R i e (.returned c r) := by
  have hclear : ¬ R.Clears (.returned c r : Entry σ) := fun hc => absurd hc.1 nofun
  by_cases hc : c.IsEdit
  · cases c with
    | register j a =>
      rcases r with _ | _ | (x | d) | _ | _ | _ | _ | _ | _ | _ | _ | _
      case device.ok =>
        rcases place_of_enter h with ⟨rfl, rfl⟩ | ⟨hne, h⟩
        · exact .entered rfl
        · refine .kept h (fun e' he => hne ?_) hclear nofun
          exact congrArg Prod.fst (Option.some.inj he)
      all_goals exact .kept h nofun hclear nofun
    | setSecure j on =>
      rcases r with (x | u) | _ | _ | _ | _ | _ | _ | _ | _ | _ | _ | _
      case unit.ok =>
        have hread : (if i = j then (R.place i).map fun e => { e with secure := on }
          else R.place i) = some e := h
        split_ifs at hread with hi
        · obtain ⟨e', he', rfl⟩ := Option.map_eq_some_iff.mp hread
          exact .secured on e' ⟨u, by rw [hi]⟩ he' rfl
        · refine .kept hread nofun hclear ?_
          rintro on' ⟨u', hx⟩
          cases hx
          exact hi rfl
      case unit.error =>
        refine .kept h nofun hclear ?_
        rintro on' ⟨u', hx⟩
        cases hx
      all_goals exact .kept h nofun hclear nofun
    | _ => exact hc.elim
  · rw [read_returned hc] at h
    refine .kept h (fun e' he => ?_) hclear ?_
    · cases c with
      | register j a => exact hc trivial
      | _ => cases he
    · rintro on ⟨u, hx⟩
      cases hx
      exact hc trivial

theorem placedBy_happened {x : Happening}
    (h : (R.read s (.happened x : Entry σ)).place i = some e) :
    PlacedBy s R i e (.happened x : Entry σ) := by
  by_cases hp : x.IsPlain
  · rw [read_plain hp] at h
    refine .kept h nofun (fun hc => ?_) nofun
    exact absurd ((abandons_of_isPlain hp).symm.trans hc.1) nofun
  · unfold Happening.IsPlain at hp
    split at hp
    · next ev =>
      refine .kept ?_ nofun (fun hc => absurd hc.1 nofun) nofun
      cases ev <;> exact h
    · obtain ⟨hs, h⟩ := place_of_halt h
      exact .kept h nofun (fun hc => absurd (hs.symm.trans hc.2) nofun) nofun
    · exact absurd trivial hp

/-- **Where the roster has a device after an entry.** -/
theorem place_read {x : Entry σ} (h : (R.read s x).place i = some e) : PlacedBy s R i e x := by
  cases x with
  | called c => exact placedBy_called h
  | returned c r => exact placedBy_returned h
  | happened y => exact placedBy_happened h
  | notified n k =>
    cases n with
    | stateChanged j a w =>
      rcases place_of_enter h with ⟨rfl, rfl⟩ | ⟨hne, h⟩
      · exact .entered rfl
      · refine .kept h (fun e' he => hne ?_) (fun hc => absurd hc.1 nofun) nofun
        exact congrArg Prod.fst (Option.some.inj he)
    | _ => exact .kept h nofun (fun hc => absurd hc.1 nofun) nofun
  | _ => exact .kept h nofun (fun hc => absurd hc.1 nofun) nofun

/-- **The device `i` was last entered at this address and with this handle,** and it was not
forgotten since. -/
def LastEntered (s : Settings) (tr : List (Entry σ)) (i address : String) (handle : UInt64) :
    Prop :=
  ∃ pre x post e, tr = pre ++ x :: post ∧ (roster s pre).enters? s x = some (i, e) ∧
    e.address = address ∧ e.handle = handle ∧ ∀ post₁ y post₂, post = post₁ ++ y :: post₂ →
      (∀ e', (roster s (pre ++ x :: post₁)).enters? s y ≠ some (i, e')) ∧
        ¬ (roster s (pre ++ x :: post₁)).Clears y

theorem LastEntered.concat {x : Entry σ} {a : String} {k : UInt64} (h : LastEntered s tr i a k)
    (hne : ∀ e, (roster s tr).enters? s x ≠ some (i, e)) (hnc : ¬ (roster s tr).Clears x) :
    LastEntered s (tr ++ [x]) i a k := by
  obtain ⟨pre, y, post, e, rfl, hy, ha, hk, hpost⟩ := h
  refine ⟨pre, y, post ++ [x], e, by simp, hy, ha, hk, fun post₁ z post₂ heq => ?_⟩
  rcases List.eq_nil_or_concat post₂ with rfl | ⟨post₂, w, rfl⟩
  · obtain ⟨rfl, hz⟩ := List.append_inj' heq rfl
    obtain rfl : x = z := by simpa using hz
    exact ⟨hne, hnc⟩
  · rw [List.concat_eq_append, ← List.cons_append, ← List.append_assoc] at heq
    obtain ⟨rfl, -⟩ := List.append_inj' heq rfl
    exact hpost post₁ z post₂ rfl

/-- **The roster has a device where it was last entered.** -/
theorem lastEntered_of_place (h : (roster s tr).place i = some e) :
    LastEntered s tr i e.address e.handle := by
  induction tr using List.reverseRecOn generalizing e with
  | nil => cases h
  | append_singleton tr x ih =>
    rw [roster_append] at h
    cases place_read h with
    | entered hx =>
      refine ⟨tr, x, [], e, rfl, hx, rfl, rfl, fun post₁ y post₂ heq => ?_⟩
      simp at heq
    | secured on e' hx h he =>
      rw [he]
      refine (ih h).concat ?_ ?_
      all_goals
        obtain ⟨u, rfl⟩ := hx
      · exact nofun
      · exact fun hc => absurd hc.1 nofun
    | kept h enters clears secures => exact (ih h).concat enters clears

end LastEntered

/-- What a trace tells about where a device is, and that it was last entered there. -/
def Located (s : Settings) (tr : List (Entry σ)) (i : String) (e : Endpoint) : Prop :=
  (roster s tr).place i = some e ∧ LastEntered s tr i e.address e.handle

/-! ### Bridges in use -/

/-- **The devices of a bridge are in order** at a point `m` of its use. -/
structure DevicesInOrder (s : Settings) (eng : Engine σ) (m : Machine σ) : Prop where
  wellFormed : ∀ d ∈ m.state.registry.devices, d.WellFormed
  /-- A device is reached where it was entered last. -/
  located : ∀ d ∈ m.state.registry.devices, Located s m.trace d.identifier d.endpoint
  /-- Whatever the engine was asked, it was asked at the beginning of a call, and it was handed what
  was known of the device then. -/
  handed : ∀ pre (c : EngineCall) (a : c.Answer) post,
    m.trace = pre ++ .happened (.engine c a) :: post → c.Asks →
      ∃ pre' k, pre = pre' ++ [.called k] ∧ Hands (Located s pre') k c
  /-- A request leaves the registry as it is, up to its reply or its notification. -/
  request : ∀ c next below, m.stack = .run (.command c next) :: below → c.IsRequest →
    (m.step (system eng)).state.registry = m.state.registry ∧
      Brief (m.state.perform eng m.table.isInstalled c)
  /-- After its notification nothing is left of it but its reply, which changes nothing. -/
  rest : ∀ r d below, m.stack = .rest (.reply r) d :: below →
    (m.step (system eng)).state = m.state
  /-- The serial number that a handshake writes into its device stands there already. -/
  number : ∀ i, m.state.registry.modify i withSerial = m.state.registry

section Use
variable {s : Settings} {eng : Engine σ} {m m' : Machine σ}

theorem Touch.nodup {E : String → DeviceUpdate → Prop} {r r' : Registry} (h : Touch E r r')
    (hr : r.identifiers.Nodup) : r'.identifiers.Nodup := by
  cases h with
  | enter allowed h => exact Registry.nodup_upsert h hr
  | rename known h => exact Registry.nodup_upsert h hr
  | secure i on => rw [Registry.identifiers_setSecure]; exact hr
  | number i =>
    rw [Registry.identifiers_modify fun d => by unfold withSerial; split_ifs <;> rfl]
    exact hr
  | clear => exact List.nodup_nil

/-- **No bridge in use has an identifier twice.** -/
theorem nodup_kept (eng : Engine σ) :
    Kept eng (fun _ _ => True) fun b : Bridge σ => b.registry.identifiers.Nodup where
  free := free_any
  move h hb := by
    rcases h.registry with h | h
    · rw [h]
      exact hb
    · exact h.nodup hb
  life {b} installed c hc hb := by
    rcases life_clears eng installed hc b with ⟨-, h⟩ | ⟨-, -, h⟩ <;> rw [h]
    · exact hb
    · exact List.nodup_nil
  takeDown hb := hb

/-- **What a use keeps** of which the order of the devices follows. -/
structure Kempt (s : Settings) (m : Machine σ) : Prop where
  settings : m.state.settings = s
  log : m.state.log = []
  stacked : Dispatch.Machine.Stacked m.stack
  wellFormed : ∀ d ∈ m.state.registry.devices, d.WellFormed
  nodup : m.state.registry.identifiers.Nodup
  rostered : Rostered s m
  handedOver : HandedOver s m.trace

theorem load_kempt {settings : Settings} {engine : σ} {b : Bridge σ}
    (h : make settings engine = .ok b) (p : Program σ) :
    Kempt settings (Dispatch.Machine.load { state := b } p : Machine σ) where
  settings := (load_coherent h p).settings
  log := (load_coherent h p).log
  stacked := trivial
  wellFormed := by
    rw [make_eq_ok h]
    exact fun d hd => nomatch hd
  nodup := by
    rw [make_eq_ok h]
    exact List.nodup_nil
  rostered := load_rostered h p
  handedOver := by
    rintro (_ | ⟨x, pre⟩) c a post heq <;> cases heq

theorem serial_of_wellFormed {r : Registry} (h : ∀ d ∈ r.devices, d.WellFormed) (i : String)
    (d : Device) (hd : r.find? i = some d) : d.endpoint.serial = some i := by
  rw [(h d (List.mem_of_find?_eq_some hd)).serial, Registry.identifier_of_find? hd]

theorem Kempt.use (hm : Kempt s m) (hu : Use eng m m') : Kempt s m' := by
  refine {
    settings := (settings_kept eng s).use hu hm.stacked hm.settings
    log := use_log hu hm.stacked hm.log
    stacked := use_stacked hu hm.stacked
    wellFormed := (wellFormed_kept eng).use hu hm.stacked hm.wellFormed
    nodup := (nodup_kept eng).use hu hm.stacked hm.nodup
    rostered := hm.rostered.use hu hm.stacked hm.log (fun d hd => by
      rw [(hm.wellFormed d hd).serial]; rfl) hm.settings
    handedOver := ?_ }
  induction hu with
  | refl => exact hm.handedOver
  | tail hu hturn ih =>
    have hlog := use_log hu hm.stacked hm.log
    cases hturn with
    | step =>
      exact ih.step (hm.rostered.use hu hm.stacked hm.log (fun d hd => by
        rw [(hm.wellFormed d hd).serial]; rfl) hm.settings) (use_stacked hu hm.stacked) hlog
        (serial_of_wellFormed ((wellFormed_kept eng).use hu hm.stacked hm.wellFormed))
    | push e => exact ih.push hlog e

theorem Kempt.inOrder (hm : Kempt s m) (eng : Engine σ) : DevicesInOrder s eng m := by
  have hnum : Numbered m.state := fun d hd => by rw [(hm.wellFormed d hd).serial]; rfl
  refine {
    wellFormed := hm.wellFormed
    located := fun d hd => ?_
    handed := fun pre c a post heq hc => ?_
    request := fun c next below hst hc => ⟨?_, request_brief _ hc⟩
    rest := fun r d below hst => ?_
    number := modify_withSerial hnum }
  · have hplace : (roster s m.trace).place d.identifier = some d.endpoint := by
      rw [hm.rostered.tracks.place, Registry.places, Registry.find?_of_mem hm.nodup hd]
      rfl
    exact ⟨hplace, lastEntered_of_place hplace⟩
  · obtain ⟨pre', k, rfl, hands⟩ := hm.handedOver pre c a post heq hc
    exact ⟨pre', k, rfl, hands.imp fun i e h => ⟨h, lastEntered_of_place h⟩⟩
  · rw [Dispatch.Machine.step_command _ hst, Dispatch.Machine.settle_state]
    have hatomic : Atomic m.state c (m.state.perform eng m.table.isInstalled c) :=
      request_atomic hm.log hnum m.table.isInstalled hc
    rcases hatomic with ⟨x, hf⟩ | hs
    · exact hf.registry
    · exact hs.registry
  · have hstacked := hm.stacked
    rw [hst] at hstacked
    obtain ⟨c, next, below, rfl, -⟩ := hstacked.exists_await
    exact (step_of_rest_reply hm.log hst).1

end Use

/-- **The devices of a bridge are in order** at every point of its use, whatever programs, handlers
and the outside do with it. -/
theorem devices_in_order {settings : Settings} {engine : σ} {b : Bridge σ} (eng : Engine σ)
    (hb : make settings engine = .ok b) (p : Program σ) {m : Machine σ}
    (hu : Use eng (Dispatch.Machine.load { state := b } p) m) : DevicesInOrder settings eng m :=
  ((load_kempt hb p).use hu).inOrder eng

section Demo

/-- A program with a handler that polls once more when it first hears of a device. In the end it
sends a request to one device and begins a handshake with the other. -/
def pollAmidReply : Program Bench.ScriptedEngine :=
  .install [.stateChanged]
      (.mk "poller" fun n _ => if n = 0 then .command .poll fun _ => .done else .done) fun _ =>
    .command (.start none) fun _ => .command .discoverDefault fun _ => .command .poll fun _ =>
      .command (.submit (.get "A" "/dev")) fun _ =>
        .command (.handshake "B" "secret") fun _ => .done

/-- Settings for an owner that drives the bridge and searches on and on. -/
def searching : Settings := { threading := .cooperative, discoveryMode := .continuous }

/-- An engine that reports two replies at once; the second one comes from elsewhere. -/
def repliesFromTwo : Bench.ScriptedEngine :=
  { batches := [[
      .discoveryReply (.after 0) (Utf8.encode "<>;ep=urn:knx:sn.A,<>;ep=urn:knx:sn.B")
        { Endpoint.unicast "fe80::1" with handle := 7 },
      .discoveryReply (.after 0) (Utf8.encode "<>;ep=urn:knx:sn.A")
        { Endpoint.unicast "fe80::2" with handle := 8 }]] }

/-- The run of the program with that engine, whose owner drives it. -/
def polledAmidReply (b : Bridge Bench.ScriptedEngine) : Machine Bench.ScriptedEngine :=
  (Dispatch.Machine.load { state := b } pollAmidReply : Machine _).run
    (system Bench.ScriptedEngine.engine) 30

/-- The device `A` is moved by the reply that is handled in between, the device `B` is entered where
the first reply came from. -/
theorem devices_in_order_amid_reply :
    ∃ b, make searching repliesFromTwo = .ok b ∧
      DevicesInOrder searching Bench.ScriptedEngine.engine (polledAmidReply b) ∧
      (polledAmidReply b).stack = [] ∧
      (polledAmidReply b).state.registry.devices.map (·.endpoint) =
        [⟨"fe80::2", 8, some "A", none, true⟩, ⟨"fe80::1", 7, some "B", none, true⟩] := by
  have hb : make searching repliesFromTwo = .ok _ := rfl
  exact ⟨_, hb, devices_in_order _ hb _ (use_run _ _ 30), List.isEmpty_iff.mp (by decide +kernel),
    by decide +kernel⟩

end Demo

end Bridge

end KnxIoT
