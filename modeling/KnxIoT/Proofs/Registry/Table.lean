import KnxIoT.Registry
import Mathlib.Data.List.Nodup
import Mathlib.Tactic.Common

/-! # The registry: its list of devices

What each operation does to the devices of a registry. `upsert_eq_ok` and `upsert_eq_error` say when
a device is entered, updated or refused; `forall_upsert` and `forall_modify` carry a property of all
devices through a change, `find?_upsert` and `find?_modify` say what is found after it. -/

namespace KnxIoT

namespace Registry

variable {r r' : Registry} {i : String} {u : DeviceUpdate} {d : Device}

/-- **An update that is accepted** changes the device, or enters a new one at the end. -/
theorem upsert_eq_ok (h : r.upsert i u = .ok (d, r')) :
    (∃ d₀, r.find? i = some d₀ ∧ d = u.apply d₀ ∧ r' = r.modify i u.apply) ∨
    (r.find? i = none ∧ r.isFull = false ∧ d = u.apply { identifier := i } ∧
      r' = { r with devices := r.devices ++ [d] }) := by
  unfold upsert at h
  split at h
  · next d₀ hf =>
    cases h
    exact Or.inl ⟨d₀, hf, rfl, rfl⟩
  · next hf =>
    split_ifs at h with hfull
    cases h
    exact Or.inr ⟨hf, by simpa using hfull, rfl, rfl⟩

/-- An update is refused exactly if its device is new and there is no room. -/
theorem upsert_eq_error {e : BridgeError} :
    r.upsert i u = .error e ↔
      r.find? i = none ∧ r.isFull = true ∧ e = .registryFull r.capacity := by
  unfold upsert
  split
  · next hf => simp [hf]
  · next hf => split_ifs with hfull <;> simp [hf, hfull, eq_comm]

theorem forall_modify {P : Device → Prop} {f : Device → Device} (h : ∀ d ∈ r.devices, P d)
    (hf : ∀ d ∈ r.devices, d.identifier = i → P (f d)) : ∀ d ∈ (r.modify i f).devices, P d := by
  intro d hd
  obtain ⟨d₀, hd₀, rfl⟩ := List.mem_map.mp hd
  split_ifs with hi
  · exact hf d₀ hd₀ hi
  · exact h d₀ hd₀

theorem forall_upsert {P : Device → Prop} (hu : r.upsert i u = .ok (d, r'))
    (h : ∀ d ∈ r.devices, P d) (hold : ∀ d ∈ r.devices, d.identifier = i → P (u.apply d))
    (hnew : r.find? i = none → P (u.apply { identifier := i })) : ∀ d ∈ r'.devices, P d := by
  rcases upsert_eq_ok hu with ⟨d₀, -, -, rfl⟩ | ⟨hf, -, rfl, rfl⟩
  · exact forall_modify h hold
  · intro d hd
    rcases List.mem_append.mp hd with hd | hd
    · exact h d hd
    · rw [List.mem_singleton.mp hd]
      exact hnew hf

theorem identifier_of_find? (h : r.find? i = some d) : d.identifier = i := by
  simpa using List.find?_some h

/-- **A change that keeps identifiers** is seen at the device it is made to. -/
theorem find?_modify {f : Device → Device} (hf : ∀ d, (f d).identifier = d.identifier)
    (i j : String) :
    (r.modify i f).find? j = if j = i then (r.find? j).map f else r.find? j := by
  have hp : ((fun d : Device => decide (d.identifier = j)) ∘
      fun d => if d.identifier = i then f d else d) = fun d => decide (d.identifier = j) := by
    funext d
    dsimp only [Function.comp]
    split_ifs <;> simp [hf]
  have h : (r.modify i f).find? j =
      (r.find? j).map fun d => if d.identifier = i then f d else d := by
    simp only [find?, modify, List.find?_map, hp]
  rw [h]
  rcases hd : r.find? j with _ | d
  · split_ifs <;> rfl
  · rw [Option.map_some, Option.map_some, identifier_of_find? hd]
    split_ifs <;> rfl

theorem find?_setSecure (i : String) (on : Bool) (j : String) :
    (r.setSecure i on).2.find? j = if j = i then
      (r.find? j).map fun d => { d with endpoint := { d.endpoint with secure := on } }
      else r.find? j :=
  find?_modify (f := fun d => { d with endpoint := { d.endpoint with secure := on } })
    (fun _ => rfl) i j

/-- **After an update the device is found as it was written,** and the others as before. -/
theorem find?_upsert (h : r.upsert i u = .ok (d, r')) (j : String) :
    r'.find? j = if j = i then some d else r.find? j := by
  rcases upsert_eq_ok h with ⟨d₀, hf, rfl, rfl⟩ | ⟨hf, -, rfl, rfl⟩
  · rw [find?_modify (f := u.apply) fun _ => rfl]
    split_ifs with hj
    · rw [hj, hf]
      rfl
    · rfl
  · have happ : Registry.find? { r with devices := r.devices ++ [u.apply { identifier := i }] } j =
        (r.find? j).or (if i = j then some (u.apply { identifier := i }) else none) := by
      simp only [find?, List.find?_append, List.find?_cons, List.find?_nil]
      congr 1
      by_cases hj : i = j <;> simp [DeviceUpdate.apply, hj]
    rw [happ]
    by_cases hj : j = i
    · rw [if_pos hj, if_pos hj.symm, hj, hf]
      rfl
    · rw [if_neg hj, if_neg (Ne.symm hj), Option.or_none]

/-! ### No identifier twice -/

theorem identifiers_modify {f : Device → Device} (hf : ∀ d, (f d).identifier = d.identifier) :
    (r.modify i f).identifiers = r.identifiers := by
  unfold identifiers modify
  rw [List.map_map]
  refine List.map_congr_left fun d _ => ?_
  dsimp only [Function.comp]
  split_ifs
  · exact hf d
  · rfl

theorem identifiers_setSecure (on : Bool) : (r.setSecure i on).2.identifiers = r.identifiers :=
  identifiers_modify fun _ => rfl

/-- **An update enters no identifier twice.** -/
theorem nodup_upsert (h : r.upsert i u = .ok (d, r')) (hn : r.identifiers.Nodup) :
    r'.identifiers.Nodup := by
  rcases upsert_eq_ok h with ⟨d₀, -, -, rfl⟩ | ⟨hf, -, rfl, rfl⟩
  · rw [identifiers_modify (f := u.apply) fun _ => rfl]
    exact hn
  · have happ : Registry.identifiers { r with
        devices := r.devices ++ [u.apply { identifier := i }] } = r.identifiers ++ [i] := by
      simp [identifiers, DeviceUpdate.apply]
    rw [happ, List.nodup_append]
    refine ⟨hn, List.pairwise_singleton _ i, fun j hj k hk => ?_⟩
    obtain ⟨d, hd, rfl⟩ := List.mem_map.mp hj
    rw [List.mem_singleton.mp hk]
    have := List.find?_eq_none.mp hf d hd
    simpa using this

theorem find?_of_mem (hn : r.identifiers.Nodup) (hd : d ∈ r.devices) :
    r.find? d.identifier = some d := by
  obtain ⟨d', hf⟩ : ∃ d', r.find? d.identifier = some d' :=
    Option.isSome_iff_exists.mp (List.find?_isSome.mpr ⟨d, hd, by simp⟩)
  rw [hf]
  have hd' : d' ∈ r.devices := List.mem_of_find?_eq_some hf
  exact congrArg some (List.inj_on_of_nodup_map hn hd' hd (identifier_of_find? hf))

/-! ### Where the devices are -/

/-- Where each device is reached. -/
def places (r : Registry) (identifier : String) : Option Endpoint :=
  (r.find? identifier).map (·.endpoint)

theorem places_enter {e : Endpoint} (h : r.upsert i u = .ok (d, r')) (he : u.endpoint = some e) :
    r'.places = fun j => if j = i then some e else r.places j := by
  have hd : d.endpoint = e := by
    rcases upsert_eq_ok h with ⟨d₀, -, rfl, -⟩ | ⟨-, -, rfl, -⟩ <;>
      simp [DeviceUpdate.apply, DeviceUpdate.endpointOf, he]
  funext j
  unfold places
  rw [find?_upsert h]
  split_ifs
  · rw [Option.map_some, hd]
  · rfl

theorem places_rename {name : String} (known : (r.find? i).isSome)
    (h : r.upsert i { name := some name } = .ok (d, r')) : r'.places = r.places := by
  rcases upsert_eq_ok h with ⟨d₀, hf, rfl, -⟩ | ⟨hf, -⟩
  · funext j
    unfold places
    rw [find?_upsert h]
    split_ifs with hj
    · rw [hj, hf]
      rfl
    · rfl
  · rw [hf] at known
    cases known

theorem places_setSecure (i : String) (on : Bool) : (r.setSecure i on).2.places = fun j =>
    if j = i then (r.places j).map fun e => { e with secure := on } else r.places j := by
  funext j
  unfold places
  rw [find?_setSecure]
  split_ifs
  · rw [Option.map_map, Option.map_map]
    rfl
  · rfl

end Registry

end KnxIoT
