import KnxIoT.Proofs.Bridge.Devices

/-! # Which requests are protected

The protection of a device is set by hand, and it is set anew whenever the device is entered: off
when it is registered by hand, and to the default when it is found. `protects?` reads this off an
entry; by `secure_of_place` the last such entry decides, and `protection_followed` says so of every
request that is handed to the engine.

So a device whose protection was switched on stays protected through renames and handshakes, but not
when it is registered again at a new address (`protection_lost`). -/

namespace KnxIoT

namespace Bridge

variable {σ : Type}

/-- What an entry sets the protection of the device `i` to, if it does. -/
def protects? (s : Settings) (i : String) : Entry σ → Option Bool
  | .returned (.setSecure j on) (.unit (.ok _)) => if j = i then some on else none
  | .returned (.register j _) (.device (.ok _)) => if j = i then some false else none
  | .notified (.stateChanged j _ _) _ => if j = i then some s.secureByDefault else none
  | _ => none

/-- **What the protection of the device `i` was set to last** in a trace. -/
def lastProtection (s : Settings) (i : String) (tr : List (Entry σ)) : Option Bool :=
  (tr.filterMap (protects? s i)).getLast?

section Read
variable {s : Settings} {R : Roster} {tr : List (Entry σ)} {i : String} {e : Endpoint}
  {x : Entry σ}

theorem lastProtection_concat (x : Entry σ) : lastProtection s i (tr ++ [x]) =
    (protects? s i x).or (lastProtection s i tr) := by
  unfold lastProtection
  rw [List.filterMap_append, List.getLast?_append]
  cases h : protects? s i x <;> simp [h]

theorem protects?_enters (h : R.enters? s x = some (i, e)) : protects? s i x = some e.secure := by
  unfold Roster.enters? at h
  split at h
  · cases h
    simp [protects?, Endpoint.unicast]
  · cases h
    simp [protects?]
  · cases h

theorem protects?_secures {on : Bool} (h : Secures i on x) : protects? s i x = some on := by
  obtain ⟨u, rfl⟩ := h
  simp [protects?]

theorem protects?_kept (enters : ∀ e, R.enters? s x ≠ some (i, e))
    (secures : ∀ on, ¬ Secures i on x) : protects? s i x = none := by
  unfold protects?
  split
  · next j on u => exact if_neg fun hj => secures on ⟨u, by rw [hj]⟩
  · next j a d => exact if_neg fun hj => enters _ (by rw [Roster.enters?, hj])
  · next j a w k => exact if_neg fun hj => enters _ (by rw [Roster.enters?, hj])
  · rfl

/-- **A device is as protected as it was set to be last.** -/
theorem secure_of_place (h : (roster s tr).place i = some e) :
    lastProtection s i tr = some e.secure := by
  induction tr using List.reverseRecOn generalizing e with
  | nil => cases h
  | append_singleton tr x ih =>
    rw [roster_append] at h
    rw [lastProtection_concat]
    cases place_read h with
    | entered hx => rw [protects?_enters hx]; rfl
    | secured on e' hx h he => rw [protects?_secures hx, he]; rfl
    | kept h enters clears secures => rw [protects?_kept enters secures]; exact ih h

end Read

/-- **Which requests of a bridge are protected** up to a point `m` of its use. -/
structure ProtectionFollowed (s : Settings) (m : Machine σ) : Prop where
  /-- A request to a device that the engine was asked to send is as protected as it says itself, or
  else as the device was set to be last. -/
  last : ∀ pre q (a : Bool) post,
    m.trace = pre ++ .happened (.engine (.submit q) a) :: post →
    ∃ pre' k, pre = pre' ++ [.called k] ∧
      ∀ r, k = .submit r → ∃ on, lastProtection s r.identifier pre' = some on ∧
        q.endpoint.secure = r.secure.getD on
  /-- Once the protection of a device was switched on, its requests are protected as long as nothing
  sets it to be off. -/
  kept : ∀ pre i u mid r q (a : Bool) post,
    m.trace = pre ++ .returned (.setSecure i true) (.unit (.ok u)) :: (mid ++
      .called (.submit r) :: .happened (.engine (.submit q) a) :: post) →
    r.identifier = i → r.secure = none → (∀ x ∈ mid, protects? s i x ≠ some false) →
      q.endpoint.secure = true

section Use
variable {s : Settings} {eng : Engine σ} {m : Machine σ}

theorem lastProtection_on {i : String} {u : Unit} {pre mid : List (Entry σ)}
    (h : ∀ x ∈ mid, protects? s i x ≠ some false) :
    lastProtection s i (pre ++ .returned (.setSecure i true) (.unit (.ok u)) :: mid) =
      some true := by
  induction mid using List.reverseRecOn with
  | nil =>
    rw [lastProtection_concat, protects?_secures ⟨u, rfl⟩]
    rfl
  | append_singleton mid x ih =>
    rw [← List.cons_append, ← List.append_assoc, lastProtection_concat,
      ih fun y hy => h y (by simp [hy])]
    rcases hx : protects? s i x with _ | _ | _
    · rfl
    · exact absurd hx (h x (by simp))
    · rfl

theorem DevicesInOrder.protection (hm : DevicesInOrder s eng m) : ProtectionFollowed s m := by
  have hlast : ∀ pre q (a : Bool) post,
      m.trace = pre ++ .happened (.engine (.submit q) a) :: post →
      ∃ pre' k, pre = pre' ++ [.called k] ∧ ∀ r, k = .submit r →
        ∃ on, lastProtection s r.identifier pre' = some on ∧
          q.endpoint.secure = r.secure.getD on := by
    intro pre q a post heq
    obtain ⟨pre', k, rfl, hands⟩ := hm.handed pre (.submit q) a post heq trivial
    refine ⟨pre', k, rfl, ?_⟩
    rintro r rfl
    obtain ⟨e, ⟨hplace, -⟩, -, hq⟩ := hands
    exact ⟨e.secure, secure_of_place hplace, by rw [hq]⟩
  refine ⟨hlast, fun pre i u mid r q a post heq hr hs hmid => ?_⟩
  obtain ⟨pre', k, hpre, hq⟩ := hlast
    (pre ++ .returned (.setSecure i true) (.unit (.ok u)) :: (mid ++ [.called (.submit r)]))
    q a post (by rw [heq]; simp)
  rw [← List.cons_append, ← List.append_assoc] at hpre
  obtain ⟨rfl, hk⟩ := List.append_inj' hpre rfl
  obtain ⟨on, hon, hsecure⟩ := hq r (by simpa using hk.symm)
  rw [hr, lastProtection_on hmid] at hon
  rw [hsecure, hs, ← Option.some.inj hon]
  rfl

end Use

/-- **Requests are as protected as their devices were set to be last,** in any use of a bridge. -/
theorem protection_followed {settings : Settings} {engine : σ} {b : Bridge σ} (eng : Engine σ)
    (hb : make settings engine = .ok b) (p : Program σ) {m : Machine σ}
    (hu : Use eng (Dispatch.Machine.load { state := b } p) m) : ProtectionFollowed settings m :=
  (((load_kempt hb p).use hu).inOrder eng).protection

/-- The protection of the device `i` is given up at an entry: it is switched off, the devices are
cleared or the bridge is told to stop. -/
def givesUp (i : String) : Entry σ → Bool
  | .called (.setSecure j false) => j = i
  | .called .clearDevices => true
  | x => abandons x

/-- In a trace a device whose protection was switched on stays protected until that is given up. -/
def StaysProtected (tr : List (Entry σ)) : Prop :=
  ∀ (j k : ℕ) i u r q (a : Bool), j < k →
    tr[j]? = some (.returned (.setSecure i true) (.unit (.ok u))) →
    tr[k]? = some (.called (.submit r)) → tr[k + 1]? = some (.happened (.engine (.submit q) a)) →
    r.identifier = i → r.secure = none →
    (∀ l x, j < l → l < k → tr[l]? = some x → givesUp i x = false) → q.endpoint.secure = true

section Demo

/-- A program that registers a device, switches its protection on, does something else with it and
then sends it a request. -/
def protectThen (c : Command Bench.ScriptedEngine) : Program Bench.ScriptedEngine :=
  .command (.start none) fun _ => .command (.register "A" "fe80::1") fun _ =>
    .command (.setSecure "A" true) fun _ => .command c fun _ =>
      .command (.submit (.get "A" "/dev")) fun _ => .done

/-- The run of the program on a new bridge whose owner drives it. -/
def protectedThen (c : Command Bench.ScriptedEngine) (b : Bridge Bench.ScriptedEngine) :
    Machine Bench.ScriptedEngine :=
  (Dispatch.Machine.load { state := b } (protectThen c) : Machine _).run
    (system Bench.ScriptedEngine.engine) 6

/-- The device is renamed, and stays protected. -/
theorem protection_followed_renamed :
    ∃ b, make { threading := .cooperative } ({} : Bench.ScriptedEngine) = .ok b ∧
      ProtectionFollowed { threading := .cooperative } (protectedThen (.setName "A" "Lamp") b) ∧
      ∃ q, (protectedThen (.setName "A" "Lamp") b).trace[11]? =
        some (.happened (.engine (.submit q) true)) ∧ q.endpoint.secure = true := by
  have hb : make { threading := .cooperative } ({} : Bench.ScriptedEngine) = .ok _ := rfl
  exact ⟨_, hb, protection_followed _ hb _ (use_run _ _ 6), _, rfl, rfl⟩

/-- **The protection of a device is lost** when the device is registered again at a new address. -/
theorem protection_lost :
    ∃ b, make { threading := .cooperative } ({} : Bench.ScriptedEngine) = .ok b ∧
      ¬ StaysProtected (protectedThen (.register "A" "fe80::2") b).trace := by
  refine ⟨_, rfl, fun h => ?_⟩
  have hq := h 7 10 "A" () (.get "A" "/dev") _ true (by omega) rfl rfl rfl rfl rfl ?_
  · cases hq
  · intro l x hl hl' hx
    obtain rfl | rfl : l = 8 ∨ l = 9 := by omega
    · cases hx
      rfl
    · cases hx
      rfl

end Demo

end Bridge

end KnxIoT
