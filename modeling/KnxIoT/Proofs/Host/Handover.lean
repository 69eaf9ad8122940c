import KnxIoT.Host.Engine
import KnxIoT.Proofs.Correlator.History
import KnxIoT.Proofs.Host.Text

/-! # Handing calls over to a host

What a call of the engine becomes for a host (`EngineCall.handed`), and what the host then reads in
memory (`HostCall.seen`): texts up to their zero byte, buffers with their length, and numbers that
stand for nothing where there is nothing.

* `hostCall?_eq` says when there is a call of the host: if its table holds the operation and no text
  of the call has a zero character.
* `Seen.read?` reads the call of the engine off what the host reads, and `read?_seen` says that it
  is the call that was made. Here it matters that formats are built from their numbers, that these
  numbers are not negative, and that tokens begin at 1.
* `handed_over` puts this together with a record of what the host is asked: exactly one call if it
  can be handed over, and no call otherwise. -/

namespace KnxIoT

/-! ## What is handed over -/

/-- The texts of an endpoint. -/
def Endpoint.texts (e : Endpoint) : List String := e.address :: e.serial.toList

/-- **The texts of a call.** -/
def EngineCall.texts : EngineCall → List String
  | .init i => [i.manufacturer, i.name, i.version, i.serialNumber]
  | .submit r => r.endpoint.texts ++ r.path :: r.query.toList
  | .discover query .. => [query]
  | .handshake e password .. => e.texts ++ [password]
  | .poll | .setMaxPayload _ | .shutdown => []

/-- A call that was declined. -/
def EngineCall.Declined : (c : EngineCall) → c.Answer → Prop
  | .init _, a => ∃ reason, a = .failed (.engineInit reason)
  | .submit _, a => a = false
  | .discover .., a => a = false
  | .handshake .., a => a = false
  | .poll, a => a = none
  | .setMaxPayload _, _ | .shutdown, _ => True

namespace Host

/-- No text has a zero character. -/
def Plain (ss : List String) : Prop := ∀ s ∈ ss, hasZero s = false

instance (ss : List String) : Decidable (Plain ss) := inferInstanceAs (Decidable (∀ s ∈ ss, _))

/-- Whether a table holds the operation for a call. -/
def Operations.holds (o : Operations) : EngineCall → Bool
  | .init _ => o.init
  | .poll => o.poll
  | .submit _ => o.submit
  | .discover .. => o.discover
  | .handshake .. => o.handshake
  | .setMaxPayload _ => o.setMaxPayload
  | .shutdown => o.shutdown

/-- The identity for a host. -/
def handedIdentity (i : Identity) : HostIdentity :=
  { manufacturer := i.manufacturer
    name := i.name
    version := i.version
    serialNumber := i.serialNumber }

/-- The endpoint for a host. -/
def handedEndpoint (e : Endpoint) : HostEndpoint :=
  { address := e.address
    handle := e.handle
    secure := e.secure
    scope := scopeNumber e.scope
    serial := e.serial }

/-- The request for a host. -/
def handedRequest (r : EngineRequest) : HostRequest :=
  { method := methodNumber r.method
    endpoint := handedEndpoint r.endpoint
    path := r.path
    query := r.query
    payload := r.payload
    contentFormat := formatNumber r.contentFormat
    accept := formatNumber r.accept
    confirmable := r.confirmable
    token := tokenNumber r.token }

/-- **What a call becomes for a host.** -/
def handed : EngineCall → HostCall
  | .init i => .init (handedIdentity i)
  | .poll => .poll
  | .submit r => .submit (handedRequest r)
  | .discover query scope t => .discover query scope t.raw
  | .handshake e password hint t => .handshake (handedEndpoint e) password hint t.raw
  | .setMaxPayload n => .setMaxPayload n
  | .shutdown => .shutdown

section Handed
variable {s : String} {ss ss' : List String}

@[simp] theorem plain_nil : Plain [] := nofun

@[simp] theorem plain_cons : Plain (s :: ss) ↔ hasZero s = false ∧ Plain ss := List.forall_mem_cons

@[simp] theorem plain_append : Plain (ss ++ ss') ↔ Plain ss ∧ Plain ss' := List.forall_mem_append

theorem exactText?_eq (s : String) : exactText? s = if Plain [s] then some s else none := by
  unfold exactText?
  by_cases h : hasZero s = true
  · rw [if_pos h, if_neg (by simp [h])]
  · rw [if_neg h, if_pos (by simpa using h)]

theorem exactOptional?_eq (o : Option String) :
    exactOptional? o = if Plain o.toList then some o else none := by
  cases o with
  | none => rfl
  | some s =>
    rw [exactOptional?, exactText?_eq, Option.toList_some]
    split_ifs <;> rfl

theorem hostIdentity?_eq (i : Identity) : hostIdentity? i =
    if Plain [i.manufacturer, i.name, i.version, i.serialNumber] then some (handedIdentity i)
    else none := by
  unfold hostIdentity?
  simp only [exactText?_eq]
  by_cases h₁ : Plain [i.manufacturer] <;> by_cases h₂ : Plain [i.name] <;>
    by_cases h₃ : Plain [i.version] <;> by_cases h₄ : Plain [i.serialNumber] <;>
      simp_all [handedIdentity]

theorem hostEndpoint?_eq (e : Endpoint) :
    hostEndpoint? e = if Plain e.texts then some (handedEndpoint e) else none := by
  unfold hostEndpoint? Endpoint.texts
  rw [exactOptional?_eq, exactText?_eq]
  by_cases h₁ : Plain e.serial.toList <;> by_cases h₂ : Plain [e.address] <;>
    simp_all [handedEndpoint]

theorem hostRequest?_eq (r : EngineRequest) : hostRequest? r =
    if Plain (r.endpoint.texts ++ r.path :: r.query.toList) then some (handedRequest r)
    else none := by
  unfold hostRequest?
  rw [hostEndpoint?_eq, exactText?_eq, exactOptional?_eq]
  by_cases h₁ : Plain r.endpoint.texts <;> by_cases h₂ : Plain [r.path] <;>
    by_cases h₃ : Plain r.query.toList <;> simp_all [handedRequest]

/-- **When a host is called:** its table must hold the operation, and no text of the call may have a
zero character. -/
theorem hostCall?_eq (o : Operations) (c : EngineCall) :
    hostCall? o c = if o.holds c = true ∧ Plain c.texts then some (handed c) else none := by
  cases c with
  | init i =>
    rw [hostCall?, hostIdentity?_eq, Operations.holds, EngineCall.texts, handed]
    split_ifs <;> simp_all
  | submit r =>
    rw [hostCall?, hostRequest?_eq, Operations.holds, EngineCall.texts, handed]
    split_ifs <;> simp_all
  | discover query scope t =>
    rw [hostCall?, exactText?_eq, Operations.holds, EngineCall.texts, handed]
    split_ifs <;> simp_all
  | handshake e password hint t =>
    rw [hostCall?, hostEndpoint?_eq, exactText?_eq, Operations.holds, EngineCall.texts, handed]
    split_ifs <;> simp_all
  | poll => simp [hostCall?, Operations.holds, EngineCall.texts, handed]
  | setMaxPayload n => simp [hostCall?, Operations.holds, EngineCall.texts, handed]
  | shutdown => simp [hostCall?, Operations.holds, EngineCall.texts, handed]

end Handed

/-! ## What a host reads -/

/-- An identity in memory. -/
structure SeenIdentity where
  manufacturer : CText
  name : CText
  version : CText
  serialNumber : CText

/-- An endpoint in memory. -/
structure SeenEndpoint where
  address : CText
  handle : UInt64
  secure : Bool
  scope : Int32
  serial : CText

/-- A request in memory. -/
structure SeenRequest where
  method : Int32
  endpoint : SeenEndpoint
  path : CText
  query : CText
  payload : CBuffer
  contentFormat : Int32
  accept : Int32
  confirmable : Bool
  token : UInt64

/-- A call as a host finds it in memory. -/
inductive Seen where
  | init (identity : SeenIdentity)
  | poll
  | submit (r : SeenRequest)
  | discover (query : CText) (scope : UInt8) (token : UInt64)
  | handshake (endpoint : SeenEndpoint) (password : CText) (hint : CBuffer) (token : UInt64)
  | setMaxPayload (size : ℕ)
  | shutdown

/-- A text that may be missing: then there is no pointer. -/
def pointerTo (o : Option String) : CText := o.bind textOf

def HostIdentity.seen (i : HostIdentity) : SeenIdentity :=
  { manufacturer := textOf i.manufacturer
    name := textOf i.name
    version := textOf i.version
    serialNumber := textOf i.serialNumber }

def HostEndpoint.seen (e : HostEndpoint) : SeenEndpoint :=
  { address := textOf e.address
    handle := e.handle
    secure := e.secure
    scope := e.scope
    serial := pointerTo e.serial }

def HostRequest.seen (r : HostRequest) : SeenRequest :=
  { method := r.method
    endpoint := r.endpoint.seen
    path := textOf r.path
    query := pointerTo r.query
    payload := .ofBytes r.payload
    contentFormat := r.contentFormat
    accept := r.accept
    confirmable := r.confirmable
    token := r.token }

/-- **What a host reads of a call.** -/
def HostCall.seen : HostCall → Seen
  | .init i => .init i.seen
  | .poll => .poll
  | .submit r => .submit r.seen
  | .discover query scope t => .discover (textOf query) scope t
  | .handshake e password hint t => .handshake e.seen (textOf password) (.ofBytes hint) t
  | .setMaxPayload n => .setMaxPayload n
  | .shutdown => .shutdown

/-! ## Reading a call off -/

def methodOf? (n : Int32) : Option Method :=
  if n = 1 then some .get
  else if n = 2 then some .post
  else if n = 3 then some .put
  else if n = 4 then some .delete
  else none

/-- A format, or none for a negative number. -/
def formatOf (n : Int32) : Option ContentFormat :=
  if n < 0 then none else some (.ofNumber (UInt16.ofNat n.toNatClampNeg))

/-- A scope, or none for a negative number. -/
def scopeOf (n : Int32) : Option UInt8 :=
  if n < 0 then none else some (UInt8.ofNat n.toNatClampNeg)

/-- A token, or none for 0. -/
def tokenOf (n : UInt64) : Option Token :=
  if n = 0 then none else some ⟨n⟩

def SeenIdentity.read? (i : SeenIdentity) : Option Identity := do
  let manufacturer ← requiredText i.manufacturer
  let name ← requiredText i.name
  let version ← requiredText i.version
  let serialNumber ← requiredText i.serialNumber
  pure { manufacturer, name, version, serialNumber }

def SeenEndpoint.read? (e : SeenEndpoint) : Option Endpoint := do
  let address ← requiredText e.address
  let serial ← optionalText e.serial
  pure { address, handle := e.handle, serial, scope := scopeOf e.scope, secure := e.secure }

def SeenRequest.read? (r : SeenRequest) : Option EngineRequest := do
  let method ← methodOf? r.method
  let endpoint ← r.endpoint.read?
  let path ← requiredText r.path
  let query ← optionalText r.query
  let payload ← r.payload.bytes?
  pure
    { method
      endpoint
      path
      query
      payload
      contentFormat := formatOf r.contentFormat
      accept := formatOf r.accept
      confirmable := r.confirmable
      token := tokenOf r.token }

/-- **The call of the engine that a host can tell.** -/
def Seen.read? : Seen → Option EngineCall
  | .init i => i.read?.map .init
  | .poll => some .poll
  | .submit r => r.read?.map .submit
  | .discover query scope t => (requiredText query).map fun q => .discover q scope ⟨t⟩
  | .handshake e password hint t => do
    let e ← e.read?
    let password ← requiredText password
    let hint ← hint.bytes?
    pure (.handshake e password hint ⟨t⟩)
  | .setMaxPayload n => some (.setMaxPayload n)
  | .shutdown => some .shutdown

/-- A format, if any, that was built from its number. -/
def Built (f : Option ContentFormat) : Prop := ∀ g, f = some g → ∃ n, g = .ofNumber n

/-- A token that a correlator gives out, as long as the numbers of 64 bits last. -/
def Issued (t : Token) : Prop :=
  ∃ (k : Correlator) (p : Pending) (k' : Correlator),
    k.issued < Token.limit ∧ k.issue p = .ok (t, k')

/-- A call such as a bridge makes. -/
def Proper : EngineCall → Prop
  | .submit r => Built r.contentFormat ∧ Built r.accept ∧ ∀ t, r.token = some t → Issued t
  | _ => True

section Numbers

theorem methodOf?_methodNumber (m : Method) : methodOf? (methodNumber m) = some m := by
  cases m <;> rfl

theorem not_ofNat_neg {n : ℕ} (h : n < 2 ^ 31) : ¬ Int32.ofNat n < 0 := by
  rw [Int32.lt_iff_toInt_lt, Int32.toInt_ofNat_of_lt h]
  exact Int.not_lt.mpr (Int.natCast_nonneg n)

theorem ofNumber_number (n : UInt16) : ContentFormat.ofNumber (ContentFormat.ofNumber n).number =
    ContentFormat.ofNumber n := by
  have hn : (ContentFormat.ofNumber n).number = n := by
    unfold ContentFormat.ofNumber
    split_ifs <;> simp_all [ContentFormat.number]
  rw [hn]

/-- **No number of a format stands for none,** and formats that are built from their numbers are
read off them. -/
theorem formatOf_formatNumber {f : Option ContentFormat} (h : Built f) :
    formatOf (formatNumber f) = f := by
  cases f with
  | none => rfl
  | some g =>
    obtain ⟨n, rfl⟩ := h g rfl
    have hlt : (ContentFormat.ofNumber n).number.toNat < 2 ^ 31 :=
      (UInt16.toNat_lt _).trans (by decide)
    rw [formatNumber, formatOf, if_neg (not_ofNat_neg hlt), Int32.toNatClampNeg_ofNat_of_lt hlt,
      UInt16.ofNat_toNat, ofNumber_number]

theorem scopeOf_scopeNumber (s : Option UInt8) : scopeOf (scopeNumber s) = s := by
  cases s with
  | none => rfl
  | some s =>
    have hlt : s.toNat < 2 ^ 31 := (UInt8.toNat_lt s).trans (by decide)
    rw [scopeNumber, scopeOf, if_neg (not_ofNat_neg hlt), Int32.toNatClampNeg_ofNat_of_lt hlt,
      UInt8.ofNat_toNat]

/-- **The number of a token is not 0.** -/
theorem Issued.raw_ne_zero {t : Token} (h : Issued t) : t.raw ≠ 0 := by
  obtain ⟨k, p, k', hlim, hk⟩ := h
  unfold Correlator.issue at hk
  split_ifs at hk
  cases hk
  exact Correlator.raw_after_ne_zero hlim

theorem tokenOf_tokenNumber {t : Option Token} (h : ∀ u, t = some u → Issued u) :
    tokenOf (tokenNumber t) = t := by
  cases t with
  | none => rfl
  | some t => rw [tokenNumber, tokenOf, if_neg (h t rfl).raw_ne_zero]

theorem bytes?_ofBytes (bs : Bytes) : (CBuffer.ofBytes bs).bytes? = some bs := by
  unfold CBuffer.bytes? CBuffer.ofBytes
  split_ifs with h
  · rw [List.length_eq_zero_iff.mp h]
  · rw [Option.map_some, List.take_length]

theorem optionalText_pointerTo {o : Option String} (h : Plain o.toList) :
    optionalText (pointerTo o) = some o := by
  cases o with
  | none => rfl
  | some s =>
    have hs : hasZero s = false := h s (by simp)
    rw [pointerTo, Option.bind_some, textOf_eq hs, optionalText, Utf8.decode?_encode]
    rfl

end Numbers

section Read
variable {c : EngineCall}

theorem endpoint_read?_seen {e : Endpoint} (h : Plain e.texts) :
    (handedEndpoint e).seen.read? = some e := by
  obtain ⟨ha, hs⟩ := plain_cons.mp h
  simp only [SeenEndpoint.read?, HostEndpoint.seen, handedEndpoint, requiredText_textOf ha,
    optionalText_pointerTo hs, scopeOf_scopeNumber]
  rfl

theorem request_read?_seen {r : EngineRequest} (hp : Proper (.submit r))
    (h : Plain (EngineCall.submit r).texts) : (handedRequest r).seen.read? = some r := by
  obtain ⟨hc, ha, ht⟩ := hp
  obtain ⟨he, hpq⟩ := plain_append.mp h
  obtain ⟨hpath, hq⟩ := plain_cons.mp hpq
  simp only [SeenRequest.read?, HostRequest.seen, handedRequest, methodOf?_methodNumber,
    endpoint_read?_seen he, requiredText_textOf hpath, optionalText_pointerTo hq, bytes?_ofBytes,
    formatOf_formatNumber hc, formatOf_formatNumber ha, tokenOf_tokenNumber ht]
  rfl

/-- **A host can tell which call was made.** -/
theorem read?_seen (hp : Proper c) (h : Plain c.texts) : (handed c).seen.read? = some c := by
  cases c with
  | init i =>
    simp only [EngineCall.texts, plain_cons] at h
    obtain ⟨hm, hn, hv, hs, -⟩ := h
    simp only [handed, HostCall.seen, Seen.read?, SeenIdentity.read?, HostIdentity.seen,
      handedIdentity, requiredText_textOf hm, requiredText_textOf hn, requiredText_textOf hv,
      requiredText_textOf hs]
    rfl
  | submit r =>
    simp only [handed, HostCall.seen, Seen.read?, request_read?_seen hp h, Option.map_some]
  | discover query scope t =>
    have hq : hasZero query = false := (plain_cons.mp h).1
    simp only [handed, HostCall.seen, Seen.read?, requiredText_textOf hq, Option.map_some]
  | handshake e password hint t =>
    obtain ⟨he, hpw⟩ := plain_append.mp h
    simp only [handed, HostCall.seen, Seen.read?, endpoint_read?_seen he,
      requiredText_textOf (plain_cons.mp hpw).1, bytes?_ofBytes]
    rfl
  | _ => rfl

/-- **Two different calls never look the same to a host.** -/
theorem eq_of_seen {c' : EngineCall} (hp : Proper c) (h : Plain c.texts) (hp' : Proper c')
    (h' : Plain c'.texts) (heq : (handed c).seen = (handed c').seen) : c = c' := by
  have hread := read?_seen hp h
  rw [heq, read?_seen hp' h'] at hread
  exact (Option.some.inj hread).symm

end Read

/-! ## The record of a host -/

variable {τ : Type}

/-- The host, which writes down what it is asked. -/
def recording (host : HostEngine τ) : HostEngine (τ × List Seen) := fun h x =>
  { answer := (host h x.1).answer
    pushed := (host h x.1).pushed
    state := ((host h x.1).state, x.2 ++ [h.seen]) }

/-- **How calls of the engine reach a host** with the given table of operations. -/
structure HandsOver (o : Operations) (host : HostEngine τ) : Prop where
  /-- The operations for beginning and for requests are always there. -/
  holds : ∀ i r, o.holds (.init i) = true ∧ o.holds (.submit r) = true
  /-- A call without zero characters is one call of the host, which answers it. -/
  asked : ∀ c x, o.holds c = true → Plain c.texts →
    (engineOf o (recording host) c x).state =
      ((host (handed c) x.1).state, x.2 ++ [(handed c).seen]) ∧
    (engineOf o (recording host) c x).pushed = (host (handed c) x.1).pushed ∧
    (engineOf o (recording host) c x).answer = fromHost (host (handed c) x.1).answer c
  /-- Any other call is declined, and the host is not called. -/
  declined : ∀ c x, ¬ (o.holds c = true ∧ Plain c.texts) →
    (engineOf o (recording host) c x).state = x ∧
    (engineOf o (recording host) c x).pushed = [] ∧
    c.Declined (engineOf o (recording host) c x).answer
  /-- The call can be read off what the host sees. -/
  read : ∀ c, Proper c → Plain c.texts → (handed c).seen.read? = some c
  /-- No two calls look the same. -/
  distinct : ∀ c c', Proper c → Plain c.texts → Proper c' → Plain c'.texts →
    (handed c).seen = (handed c').seen → c = c'

theorem declined_unasked (o : Operations) (c : EngineCall) : c.Declined (unasked o c) := by
  cases c with
  | init i => exact ⟨_, rfl⟩
  | setMaxPayload n => trivial
  | shutdown => trivial
  | _ => rfl

/-- **Calls are handed over faithfully** to every host with which a bridge can be made. -/
theorem handed_over {o : Operations} (host : HostEngine τ) (complete : o.isComplete = true) :
    HandsOver o host where
  holds i r := by
    simp only [Operations.isComplete, Bool.and_eq_true] at complete
    exact ⟨complete.1.1, complete.2⟩
  asked c x ho hc := by
    have hcall : hostCall? o c = some (handed c) := by rw [hostCall?_eq, if_pos ⟨ho, hc⟩]
    simp only [engineOf, hcall, recording, and_self]
  declined c x h := by
    have hcall : hostCall? o c = none := by rw [hostCall?_eq, if_neg h]
    simp only [engineOf, hcall, true_and]
    exact declined_unasked o c
  read _ := read?_seen
  distinct _ _ := eq_of_seen

section Demo

/-- A request with nothing that may be missing. -/
def bare : EngineRequest := { method := .get, endpoint := .unicast "fe80::1", path := "/dev" }

/-- The same request with all of it, each as close to nothing as it can be. -/
def full : EngineRequest :=
  { bare with
    endpoint := { Endpoint.unicast "fe80::1" with serial := some "", scope := some 0 }
    query := some ""
    contentFormat := some (.ofNumber 0)
    accept := some (.ofNumber 0)
    token := some (Token.after 0) }

/-- A host that takes everything is asked for each of the two requests once and can tell them apart;
for a third, which has a zero character in its query, it is not asked. -/
theorem handed_over_bare_and_full :
    let host : HostEngine Unit := fun _ s => { answer := .accepted true, state := s }
    let record c := (engineOf {} (recording host) c ((), [])).state.2
    (∃ v v', record (.submit bare) = [v] ∧ record (.submit full) = [v'] ∧
      v.read? = some (.submit bare) ∧ v'.read? = some (.submit full)) ∧
    record (.submit { bare with query := some "a\x00b" }) = [] := by
  intro host record
  have h := handed_over (o := {}) host rfl
  have hbare : Proper (.submit bare) := ⟨nofun, nofun, nofun⟩
  have hfull : Proper (.submit full) := by
    refine ⟨fun g hg => ⟨0, (Option.some.inj hg).symm⟩, fun g hg => ⟨0, (Option.some.inj hg).symm⟩,
      fun t ht => ?_⟩
    exact ⟨{}, .handshake "", _, by decide, by rw [← Option.some.inj ht]; rfl⟩
  refine ⟨⟨_, _, congrArg Prod.snd (h.asked (.submit bare) _ rfl (by decide)).1,
    congrArg Prod.snd (h.asked (.submit full) _ rfl (by decide)).1,
    h.read _ hbare (by decide), h.read _ hfull (by decide)⟩, ?_⟩
  have hzero : ¬ Plain (EngineCall.submit { bare with query := some "a\x00b" }).texts := by decide
  exact congrArg Prod.snd (h.declined (.submit _) _ fun hplain => hzero hplain.2).1

end Demo

end Host

end KnxIoT
