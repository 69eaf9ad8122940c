import KnxIoT.Bench.ScriptedHost
import KnxIoT.Host.Call
import KnxIoT.Host.Create
import KnxIoT.Proofs.Bridge.Devices
import KnxIoT.Proofs.Host.Text

/-! # The identifiers that a host is given

A host learns the identifier of a device in two ways: from the callback for changed states, and by
copying it into a buffer. It names the device by handing the identifier back.

`Bridge.Reaches` says what it means for a command to reach the device that it names, and
`reaches_of_device?` that it does. `identifiers_usable` follows: if the identifier has no zero
character, both ways give the same text, and whatever the host asks with it reaches that device and
no other. A device whose identifier has zero characters cannot be named by what the callback is
given (`identifier_lost`). -/

namespace KnxIoT

namespace Bridge

variable {σ : Type}

/-- The device that a command is about, for those by which a host asks for something. -/
def Command.device? : Command σ → Option String
  | .submit r => some r.identifier
  | .handshake identifier _ => some identifier
  | .setSecure identifier _ => some identifier
  | _ => none

/-- **The command `c` reaches the device `d` and no other.** -/
structure Reaches (eng : Engine σ) (b : Bridge σ) (c : Command σ) (d : Device) : Prop where
  named : ∃ i, c.device? = some i ∧ b.registry.find? i = some d
  alone : ∀ d' ∈ b.registry.devices, c.device? = some d'.identifier → d' = d
  /-- It does not fail for want of a device. -/
  known : ∀ installed i,
    (finalReply (b.perform eng installed c)).failure? ≠ some (.unknownDevice i)
  /-- What the engine is asked, it is asked for this device. -/
  asked : ∀ installed, AsksFirst (Hands (fun i e => i = d.identifier ∧ e = d.endpoint) c)
    (b.perform eng installed c).1.log
  /-- All other devices stay as they are. -/
  others : ∀ installed i, i ≠ d.identifier →
    (b.perform eng installed c).1.registry.find? i = b.registry.find? i

section Reaches
variable {eng : Engine σ} {b : Bridge σ} {c : Command σ} {d : Device} {i : String}

theorem Hands.imp_of_device? {K K' : String → Endpoint → Prop} {call : EngineCall}
    (hc : c.device? = some i) (h : ∀ e, K i e → K' i e) (hands : Hands K c call) :
    Hands K' c call := by
  cases c with
  | submit r =>
    cases hc
    cases call with
    | submit q =>
      obtain ⟨e, hK, he⟩ := hands
      exact ⟨e, h e hK, he⟩
    | _ => exact hands.elim
  | handshake j password =>
    cases hc
    cases call with
    | handshake e password' hint t => exact ⟨h e hands.1, hands.2⟩
    | _ => exact hands.elim
  | setSecure j on => cases call <;> exact hands.elim
  | _ => cases hc

theorem AsksFirst.imp {H H' : EngineCall → Prop} {hs : List Happening} (h : ∀ c, H c → H' c)
    (ha : AsksFirst H hs) : AsksFirst H' hs :=
  ha.imp_right fun ⟨c, a, es, heq, hc⟩ => ⟨c, a, es, heq, h c hc⟩

theorem IsSilent.ne_unknownDevice {e : BridgeError} (h : IsSilent e) (i : String) :
    e ≠ .unknownDevice i := by
  rintro rfl
  exact h

theorem submit_known {r : Request} (hd : b.registry.find? r.identifier = some d) (j : String) :
    (finalReply (b.submit eng r)).failure? ≠ some (.unknownDevice j) := by
  unfold submit
  split
  · simp [finalReply, Reply.failure?]
  split
  · next hnone =>
    rw [hd] at hnone
    cases hnone
  split
  · next he =>
    rw [Correlator.issue_eq_error he]
    simp [finalReply, Reply.failure?]
  dsimp only
  split
  · next h => simpa [finalReply, Reply.failure?] using (callLive_eq_error h).ne_unknownDevice j
  · simp [finalReply, Reply.failure?]
  · unfold refuse
    split <;> simp [finalReply, Rest.finalReply, Reply.failure?]

theorem handshake_known {password : String} (hd : b.registry.find? i = some d) (j : String) :
    (finalReply (b.handshake eng i password)).failure? ≠ some (.unknownDevice j) := by
  unfold handshake
  rw [hd]
  dsimp only
  split
  · next he =>
    rw [Correlator.issue_eq_error he]
    simp [finalReply, Reply.failure?]
  split
  · next h => simpa [finalReply, Reply.failure?] using (callLive_eq_error h).ne_unknownDevice j
  · simp [finalReply, Reply.failure?]
  · simp [finalReply, Rest.finalReply, Reply.failure?]

theorem setSecure_known {on : Bool} (hd : b.registry.find? i = some d) (j : String) :
    (finalReply (replying .unit (b.setSecure i on))).failure? ≠ some (.unknownDevice j) := by
  unfold setSecure Registry.setSecure
  rw [hd]
  simp [finalReply, replying, Reply.failure?]

/-- **A command reaches the device that it names,** if no identifier stands twice and every device
has its identifier as its serial number. -/
theorem reaches_of_device? (hl : b.log = []) (hn : b.registry.identifiers.Nodup)
    (hw : ∀ d ∈ b.registry.devices, d.WellFormed) (hd : d ∈ b.registry.devices)
    (hc : c.device? = some d.identifier) : Reaches eng b c d := by
  have hfind := Registry.find?_of_mem hn hd
  have hnum : Numbered b := fun d hd => by rw [(hw d hd).serial]; rfl
  have hplace : ∀ e, b.Has d.identifier e → d.identifier = d.identifier ∧ e = d.endpoint := by
    intro e he
    rw [Has, Registry.places, hfind] at he
    exact ⟨rfl, (Option.some.inj he).symm⟩
  have hrequest : ∀ installed i, c.IsRequest →
      (b.perform eng installed c).1.registry.find? i = b.registry.find? i := by
    intro installed i hreq
    have hatomic : Atomic b c (b.perform eng installed c) := request_atomic hl hnum installed hreq
    rcases hatomic with ⟨e, hf⟩ | hs
    · rw [hf.registry]
    · rw [hs.registry]
  refine ⟨⟨_, hc, hfind⟩, fun d' hd' hc' => ?_, fun installed j => ?_, fun installed => ?_,
    fun installed j hj => ?_⟩
  · have hi : d'.identifier = d.identifier := Option.some.inj (hc'.symm.trans hc)
    have hfind' := Registry.find?_of_mem hn hd'
    rw [hi, hfind] at hfind'
    exact (Option.some.inj hfind').symm
  · cases c with
    | submit r => exact submit_known (d := d) (by rw [Option.some.inj hc]; exact hfind) j
    | handshake i password =>
      exact handshake_known (d := d) (by rw [Option.some.inj hc]; exact hfind) j
    | setSecure i on => exact setSecure_known (d := d) (by rw [Option.some.inj hc]; exact hfind) j
    | _ => cases hc
  · exact (perform_asked eng installed c hl (serial_of_wellFormed hw)).imp fun call h =>
      h.imp_of_device? hc hplace
  · cases c with
    | submit r => exact hrequest installed j trivial
    | handshake i password => exact hrequest installed j trivial
    | setSecure i on =>
      have h : (b.perform eng installed (.setSecure i on)).1.registry =
          (b.registry.setSecure i on).2 := by
        simp only [perform, replying, setSecure]
        split
        · next h => rw [h]
        · next h => rw [h]
      have hi : i = d.identifier := Option.some.inj hc
      rw [h, Registry.find?_setSecure, hi, if_neg hj]
    | _ => cases hc

end Reaches

end Bridge

namespace Host

variable {σ τ α : Type}

/-- What a call returns if its command is answered at once. -/
def Call.returned? (eng : Engine σ) (installed : Category → Bool) (b : Bridge σ) :
    Call σ α → Option α
  | .done a => some a
  | .ask c result =>
    match (b.perform eng installed c).2 with
    | .reply r => some (result r)
    | .notify .. => none

/-- A call asks the bridge for something that reaches the device `d` and no other. -/
def Call.Reaches (eng : Engine σ) (b : Bridge σ) (d : Device) (call : Call σ α) : Prop :=
  ∃ c result, call = .ask c result ∧ Bridge.Reaches eng b c d

/-- **By the text `t` a host names the device `d`.** -/
structure Names (eng : Engine σ) (h : Handle) (b : Bridge σ) (d : Device) (t : CText) : Prop where
  get : ∀ path query tag hasRoom p q g, requiredText path = some p → optionalText query = some q →
    optionalText tag = some g → (Host.get h ⟨t, path, query, tag⟩ hasRoom).Reaches eng b d
  setSecure : ∀ on, (setDeviceSecure h t on).Reaches eng b d
  handshake : ∀ password hasRoom w, requiredText password = some w →
    (Host.handshake h t password hasRoom).Reaches eng b d

/-- **The host is given one text for the device `d`,** from the callback for changed states and from
its position `k`, and by that text it names the device. -/
structure Usable (eng : Engine σ) (h : Handle) (b : Bridge σ) (k : ℕ) (d : Device) (t : CText) :
    Prop where
  told : ∀ address change, (CallbackCall.ofNotification
    (.stateChanged d.identifier address change)).identifier?.map textOf = some t
  copied : ∀ installed n, Utf8.size d.identifier < n → ∃ bs,
    (deviceIdentifier h k (some n)).returned? eng installed b =
      some { code := .ok, written := some bs } ∧ CText.ofBytes bs = t
  names : Names eng h b d t

section Calls
variable {eng : Engine σ} {s : Settings} {b : Bridge σ} {d : Device} {t : CText} {i : String}

theorem get_eq {path query tag : CText} {hasRoom : Bool} {p : String} {q g : Option String}
    (hi : requiredText t = some i) (hp : requiredText path = some p)
    (hq : optionalText query = some q) (hg : optionalText tag = some g) :
    Host.get (some s) ⟨t, path, query, tag⟩ hasRoom =
      (askToken hasRoom (.submit (((Request.get i p).withQuery (q.getD "")).withTag
        (g.getD ""))) : Call σ TokenResult) := by
  simp only [Host.get, request, hi, hp, hq, hg]

/-- **A text that is read as the identifier of a device names it.** -/
theorem names_of_requiredText (hi : requiredText t = some d.identifier)
    (hr : ∀ c : Bridge.Command σ, c.device? = some d.identifier → Bridge.Reaches eng b c d) :
    Names eng (some s) b d t where
  get path query tag hasRoom p q g hp hq hg := ⟨_, _, get_eq hi hp hq hg, hr _ rfl⟩
  setSecure on := ⟨.setSecure d.identifier on, codeOf, by simp only [setDeviceSecure, hi, askCode],
    hr _ rfl⟩
  handshake password hasRoom w hw :=
    ⟨.handshake d.identifier w, tokenResult hasRoom,
      by simp only [Host.handshake, hi, hw, askToken], hr _ rfl⟩

theorem copied_eq {k n : ℕ} (installed : Category → Bool) (hk : b.registry.at? k = some d)
    (hn : Utf8.size d.identifier < n) :
    (deviceIdentifier (some s) k (some n)).returned? eng installed b =
      some { code := .ok, written := some (Utf8.encode d.identifier ++ [0]) } := by
  have hroom : ¬ n < (Utf8.encode d.identifier).length + 1 := by
    unfold Utf8.size at hn
    omega
  simp only [deviceIdentifier, Call.returned?, Bridge.perform, hk, Option.map_some, copyOut,
    if_neg hroom]

theorem not_names_of_requiredText (hi : requiredText t = some i) (hne : d.identifier ≠ i) :
    (∀ path query tag hasRoom,
        ¬ (Host.get (some s) ⟨t, path, query, tag⟩ hasRoom).Reaches eng b d) ∧
      (∀ on, ¬ (setDeviceSecure (some s) t on).Reaches eng b d) ∧
      ∀ password hasRoom, ¬ (Host.handshake (some s) t password hasRoom).Reaches eng b d := by
  have hno : ∀ c : Bridge.Command σ, c.device? = some i → ¬ Bridge.Reaches eng b c d := by
    rintro c hc ⟨⟨j, hj, hfind⟩, -⟩
    rw [hc] at hj
    rw [← Option.some.inj hj] at hfind
    exact hne (Registry.identifier_of_find? hfind)
  refine ⟨fun path query tag hasRoom => ?_, fun on => ?_, fun password hasRoom => ?_⟩
  · rintro ⟨c, result, heq, h⟩
    refine hno c ?_ h
    simp only [Host.get, request, hi] at heq
    split at heq
    · next h₁ h₂ h₃ h₄ h₅ =>
      cases h₂
      cases heq
      rfl
    · cases heq
  · rintro ⟨c, result, heq, h⟩
    refine hno c ?_ h
    simp only [setDeviceSecure, hi, askCode] at heq
    cases heq
    rfl
  · rintro ⟨c, result, heq, h⟩
    refine hno c ?_ h
    simp only [Host.handshake, hi] at heq
    split at heq
    · next h₁ h₂ h₃ =>
      cases h₂
      cases heq
      rfl
    · cases heq

end Calls

/-- **The identifiers of the devices are usable by a host** at a point `m` of the use of its
bridge. -/
structure IdentifiersUsable (eng : Engine τ) (h : Handle) (m : Bridge.Machine τ) : Prop where
  /-- When a handler is told of a device, the device is known. -/
  known : ∀ pre i address change hd,
    m.trace = pre ++ [.notified (.stateChanged i address change) hd] →
      ∃ k d, m.state.registry.at? k = some d ∧ d.identifier = i
  /-- A device without a zero character in its identifier can be named by what the host is given. -/
  usable : ∀ k d, m.state.registry.at? k = some d → hasZero d.identifier = false →
    ∃ t, Usable eng h m.state k d t
  /-- For any other device the callback is given its identifier without the zero characters, by
  which no call reaches it. -/
  lost : ∀ k d, m.state.registry.at? k = some d → hasZero d.identifier = true →
    ∀ address change, ∃ i, (CallbackCall.ofNotification
        (.stateChanged d.identifier address change)).identifier? = some i ∧
      i = plainText d.identifier ∧
      (∀ path query tag hasRoom,
        ¬ (Host.get h ⟨textOf i, path, query, tag⟩ hasRoom).Reaches eng m.state d) ∧
      (∀ on, ¬ (setDeviceSecure h (textOf i) on).Reaches eng m.state d) ∧
      ∀ password hasRoom, ¬ (Host.handshake h (textOf i) password hasRoom).Reaches eng m.state d

theorem identifiersUsable_of_kempt {eng : Engine τ} {s : Settings} {m : Bridge.Machine τ}
    (hm : Bridge.Kempt s m) : IdentifiersUsable eng (some s) m where
  known pre i address change hd htr := by
    have hplace : (Bridge.roster s m.trace).place i = m.state.registry.places i := by
      rw [hm.rostered.tracks.place]
    rw [htr, Bridge.roster_append, Registry.places] at hplace
    obtain ⟨d, hd, -⟩ := Option.map_eq_some_iff.mp (hplace.symm.trans (if_pos rfl))
    obtain ⟨k, hk⟩ := List.getElem?_of_mem (List.mem_of_find?_eq_some hd)
    exact ⟨k, d, hk, Registry.identifier_of_find? hd⟩
  usable k d hk hz := by
    have hplain : plainText d.identifier = d.identifier := plainText_eq_self_iff.mpr hz
    refine ⟨textOf d.identifier, fun _ _ => ?_, fun installed n hn => ?_, ?_⟩
    · simp only [CallbackCall.ofNotification, CallbackCall.identifier?, hplain, Option.map_some]
    · exact ⟨_, copied_eq installed hk hn, rfl⟩
    · exact names_of_requiredText (requiredText_textOf hz) fun c hc =>
        Bridge.reaches_of_device? hm.log hm.nodup hm.wellFormed (List.mem_of_getElem? hk) hc
  lost k d hk hz address change := by
    have hne : d.identifier ≠ plainText d.identifier := by
      intro h
      rw [plainText_eq_self_iff.mp h.symm] at hz
      cases hz
    exact ⟨_, rfl, rfl,
      not_names_of_requiredText (requiredText_textOf (hasZero_plainText d.identifier)) hne⟩

theorem make_of_create? {operations : Option Operations} {path : CText}
    {contents : String → Option Bytes} {overrides : Settings.Overrides}
    {threading : Option Threading} {engine : τ} {b : Bridge τ}
    (h : create? operations path contents overrides threading engine = some b) :
    Bridge.make b.settings engine = .ok b := by
  unfold create? at h
  split at h
  · split_ifs at h
    split at h
    · next settings _ =>
      have hb : Bridge.make settings engine = .ok b := by
        rcases hmake : Bridge.make settings engine with e | b' <;> rw [hmake] at h <;> cases h
        rfl
      have hs : b.settings = settings := by
        rw [Bridge.make_eq_ok hb]
      rw [hs]
      exact hb
    · cases h
  · cases h

/-- **The identifiers of the devices are usable by a host,** at every point of any use of a bridge
that it made. -/
theorem identifiers_usable {o : Operations} {path : CText} {contents : String → Option Bytes}
    {overrides : Settings.Overrides} {threading : Option Threading} {engine : τ} {b : Bridge τ}
    (host : HostEngine τ)
    (hb : create? (some o) path contents overrides threading engine = some b)
    (p : Bridge.Program τ) {m : Bridge.Machine τ}
    (hu : Bridge.Use (engineOf o host) (Dispatch.Machine.load { state := b } p) m) :
    IdentifiersUsable (engineOf o host) (some b.settings) m :=
  identifiersUsable_of_kempt ((Bridge.load_kempt (make_of_create? hb) p).use hu)

section Demo

open Bench

/-- The settings of a host that polls its bridge itself. -/
def polled : Settings := { threading := .cooperative }

/-- The notification that is given at an entry. -/
def notified? : Bridge.Entry ScriptedHost → Option Notification
  | .notified n _ => some n
  | _ => none

/-- A host program that searches for devices and polls for a reply. -/
def searchOnce : Bridge.Program ScriptedHost :=
  (start (some polled) none).andThen fun _ =>
    (discover (some polled) 2 none true).andThen fun _ =>
      (poll (some polled) true).andThen fun _ => .done

/-- A host whose engine reports that a reply with this text has come. -/
def hearing (text : String) : ScriptedHost :=
  { batches := [[
      .discoveryReply 1 (.ofBytes (Utf8.encode text)) (some (Utf8.encode "fe80::1")) 7]] }

/-- The run of the program up to the notification about the device. -/
def heard (b : Bridge ScriptedHost) : Bridge.Machine ScriptedHost :=
  (Dispatch.Machine.load { state := b } searchOnce : Bridge.Machine _).run
    (Bridge.system (engineOf {} ScriptedHost.operations)) 3

theorem identifiers_usable_plain :
    ∃ b, create? (some {}) none (fun _ => none) {} (some .cooperative)
        (hearing "<>;ep=urn:knx:sn.00FA") = some b ∧
      IdentifiersUsable (engineOf {} ScriptedHost.operations) (some polled) (heard b) ∧
      ((heard b).state.registry.at? 0).map (·.identifier) = some "00FA" := by
  have hb : create? (some {}) none (fun _ => none) {} (some .cooperative)
    (hearing "<>;ep=urn:knx:sn.00FA") = some _ := rfl
  exact ⟨_, hb, identifiers_usable _ hb _ (Bridge.use_run _ _ 3), by decide +kernel⟩

/-- The device of the reply, if its identifier has a zero character in it. -/
def splitDevice : Device :=
  { identifier := "x\x00y"
    address := some "fe80::1"
    endpoint := { address := "fe80::1", handle := 7, serial := some "x\x00y", secure := true } }

theorem not_usable_splitDevice {eng : Engine τ} {s : Settings} {b : Bridge τ} {k : ℕ}
    (hk : b.registry.at? k = some splitDevice) : ¬ ∃ t, Usable eng (some s) b k splitDevice t := by
  rintro ⟨t, ht⟩
  obtain ⟨bs, hbs, hread⟩ := ht.copied (fun _ => false) 4 (by decide)
  rw [copied_eq _ hk (by decide)] at hbs
  cases hbs
  have htold := ht.told "" ""
  rw [← hread] at htold
  exact absurd htold (by decide)

/-- **A zero character in an identifier** is left out by the callback and ends the text in the
buffer. -/
theorem identifier_lost :
    ∃ b, create? (some {}) none (fun _ => none) {} (some .cooperative)
        (hearing "<>;ep=urn:knx:sn.x\x00y") = some b ∧
      (heard b).trace.getLast?.bind notified? =
        some (.stateChanged splitDevice.identifier "fe80::1" "discovered") ∧
      (heard b).state.registry.at? 0 = some splitDevice ∧
      ¬ ∃ t, Usable (engineOf {} ScriptedHost.operations) (some polled) (heard b).state 0
        splitDevice t := by
  have hb : create? (some {}) none (fun _ => none) {} (some .cooperative)
    (hearing "<>;ep=urn:knx:sn.x\x00y") = some _ := rfl
  exact ⟨_, hb, by decide +kernel, by decide +kernel, not_usable_splitDevice (by decide +kernel)⟩

end Demo

end Host

end KnxIoT
