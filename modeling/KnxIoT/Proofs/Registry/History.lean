import KnxIoT.Proofs.Lists
import KnxIoT.Proofs.Registry.Table
import Mathlib.Data.List.DropRight

/-! # The registry is an insertion-ordered map

What a registry holds after any edits is read off the edits themselves: `order` lists the
identifiers in the order of their first entry since the registry was last cleared, cut off at the
capacity, and `story` what was done to one device since it was entered. `devices_run` proves the two
readings equal to the list of devices, by induction on the edits from the right, and
`refines_ordered_map` collects what follows for the operations. -/

namespace KnxIoT

/-! ### One device -/

/-- A change of one device. -/
inductive DeviceEdit where
  | update (u : DeviceUpdate)
  | secure (on : Bool)

namespace DeviceEdit

def isSecure : DeviceEdit → Bool
  | update _ => false
  | secure _ => true

def address? : DeviceEdit → Option String
  | update u => u.address
  | secure _ => none

def name? : DeviceEdit → Option String
  | update u => u.name
  | secure _ => none

/-- The endpoint after a change. One that is supplied replaces the old one. An address alone, if it
is not that of the endpoint, makes a new endpoint for a single device, which keeps the protection
and the serial number. -/
def onEndpoint (e : Endpoint) : DeviceEdit → Endpoint
  | update { endpoint := some supplied, .. } => supplied
  | update { endpoint := none, address := some a, .. } =>
    if a = e.address then e
    else { Endpoint.unicast a with secure := e.secure, serial := e.serial }
  | update { endpoint := none, address := none, .. } => e
  | secure on => { e with secure := on }

end DeviceEdit

/-- **The device that changes make of a new one:** the last address, the first 63 characters of the
last name, and the endpoint that results from all changes. -/
def Device.ofEdits (identifier : String) (s : List DeviceEdit) : Device :=
  { identifier
    address := (s.filterMap DeviceEdit.address?).getLast?
    name := ((s.filterMap DeviceEdit.name?).getLast?.map fun n =>
      String.ofList (n.toList.take 63)).getD ""
    endpoint := s.foldl DeviceEdit.onEndpoint {} }

namespace Device

variable (i : String) (s : List DeviceEdit)

@[simp] theorem ofEdits_identifier : (ofEdits i s).identifier = i := rfl

theorem endpointOf_eq (u : DeviceUpdate) (e : Endpoint) :
    u.endpointOf e = DeviceEdit.onEndpoint e (.update u) := by
  obtain ⟨_ | a, _ | e', n⟩ := u
  · rfl
  · rfl
  · simp only [DeviceUpdate.endpointOf, DeviceEdit.onEndpoint, Endpoint.unicast, eq_comm]
  · rfl

theorem ofEdits_update (u : DeviceUpdate) :
    ofEdits i (s ++ [.update u]) = u.apply (ofEdits i s) := by
  have ha : ((s ++ [DeviceEdit.update u]).filterMap DeviceEdit.address?).getLast? =
      u.address.or (s.filterMap DeviceEdit.address?).getLast? := by
    rw [List.filterMap_append, List.getLast?_append]
    cases h : u.address <;> simp [DeviceEdit.address?, h]
  have hn : ((s ++ [DeviceEdit.update u]).filterMap DeviceEdit.name?).getLast? =
      u.name.or (s.filterMap DeviceEdit.name?).getLast? := by
    rw [List.filterMap_append, List.getLast?_append]
    cases h : u.name <;> simp [DeviceEdit.name?, h]
  have he : (s ++ [DeviceEdit.update u]).foldl DeviceEdit.onEndpoint {} =
      u.endpointOf (s.foldl DeviceEdit.onEndpoint {}) := by
    rw [List.foldl_append, endpointOf_eq]
    rfl
  unfold ofEdits DeviceUpdate.apply
  rw [ha, hn, he]
  cases u.name <;> rfl

theorem ofEdits_secure (on : Bool) : ofEdits i (s ++ [.secure on]) =
    { ofEdits i s with endpoint := { (ofEdits i s).endpoint with secure := on } } := by
  simp [ofEdits, DeviceEdit.address?, DeviceEdit.name?, DeviceEdit.onEndpoint]

end Device

namespace Registry

/-! ### Edits and what they say -/

/-- A change of a registry. -/
inductive Edit where
  | upsert (identifier : String) (u : DeviceUpdate)
  | setSecure (identifier : String) (on : Bool)
  | clear

namespace Edit

def isClear : Edit → Bool
  | clear => true
  | _ => false

/-- The identifier that an edit may enter. -/
def upserted? : Edit → Option String
  | upsert i _ => some i
  | _ => none

/-- What an edit does to a device. -/
def change? (i : String) : Edit → Option DeviceEdit
  | upsert j u => if j = i then some (.update u) else none
  | setSecure j on => if j = i then some (.secure on) else none
  | clear => none

end Edit

/-- The registry after an edit; an update that is refused changes nothing. -/
def edit (r : Registry) : Edit → Registry
  | .upsert i u =>
    match r.upsert i u with
    | .ok (_, r') => r'
    | .error _ => r
  | .setSecure i on => (r.setSecure i on).2
  | .clear => r.clear

/-- The registry of the given capacity after some edits. -/
def run (capacity : ℕ) (es : List Edit) : Registry := es.foldl edit { capacity }

/-- The edits since the registry was last cleared. -/
def sinceClear (es : List Edit) : List Edit := es.rtakeWhile fun e => !e.isClear

/-- The identifiers of the updates since then, each where it comes first. -/
def named (es : List Edit) : List String := ((sinceClear es).filterMap Edit.upserted?).eraseDups

/-- **The identifiers that are entered:** the first ones, up to the capacity. -/
def order (capacity : ℕ) (es : List Edit) : List String :=
  if capacity = 0 then named es else (named es).take capacity

/-- **What was done to a device** since it was entered. -/
def story (i : String) (es : List Edit) : List DeviceEdit :=
  ((sinceClear es).filterMap (Edit.change? i)).dropWhile DeviceEdit.isSecure

/-- A registry and the identifiers of the updates that it accepted, after an edit. -/
def accept (s : Registry × List String) (e : Edit) : Registry × List String :=
  (s.1.edit e,
    match e with
    | .upsert i u => if (s.1.upsert i u).isOk then s.2 ++ [i] else s.2
    | .setSecure .. => s.2
    | .clear => [])

/-- The identifiers of the updates that were accepted since the registry was last cleared. -/
def accepted (capacity : ℕ) (es : List Edit) : List String :=
  (es.foldl accept ({ capacity }, [])).2

theorem run_concat (capacity : ℕ) (es : List Edit) (e : Edit) :
    run capacity (es ++ [e]) = (run capacity es).edit e := by
  simp [run]

theorem edit_of_ok {r r' : Registry} {i : String} {u : DeviceUpdate} {d : Device}
    (h : r.upsert i u = .ok (d, r')) : r.edit (.upsert i u) = r' := by
  simp only [edit, h]

theorem edit_of_error {r : Registry} {i : String} {u : DeviceUpdate} {e : BridgeError}
    (h : r.upsert i u = .error e) : r.edit (.upsert i u) = r := by
  simp only [edit, h]

theorem edit_capacity (r : Registry) (e : Edit) : (r.edit e).capacity = r.capacity := by
  cases e with
  | upsert i u =>
    rcases h : r.upsert i u with e | ⟨d, r'⟩
    · rw [edit_of_error h]
    · rw [edit_of_ok h]
      rcases upsert_eq_ok h with ⟨d₀, -, -, rfl⟩ | ⟨-, -, -, rfl⟩ <;> rfl
  | setSecure i on => rfl
  | clear => rfl

theorem run_capacity (capacity : ℕ) (es : List Edit) : (run capacity es).capacity = capacity := by
  induction es using List.reverseRecOn with
  | nil => rfl
  | append_singleton es e ih => rw [run_concat, edit_capacity, ih]

/-! ### Reading the edits from the right -/

section Concat
variable (capacity : ℕ) (es : List Edit) (i j : String) (u : DeviceUpdate) (on : Bool)

theorem sinceClear_concat (e : Edit) :
    sinceClear (es ++ [e]) = if e.isClear then [] else sinceClear es ++ [e] := by
  unfold sinceClear
  rw [List.rtakeWhile_concat]
  cases e.isClear <;> rfl

theorem named_clear : named (es ++ [.clear]) = [] := by
  rw [named, sinceClear_concat]
  rfl

theorem named_setSecure : named (es ++ [.setSecure j on]) = named es := by
  unfold named
  rw [sinceClear_concat, if_neg (by simp [Edit.isClear]), List.filterMap_append]
  rw [show [Edit.setSecure j on].filterMap Edit.upserted? = [] from rfl, List.append_nil]

theorem named_upsert :
    named (es ++ [.upsert j u]) = if j ∈ named es then named es else named es ++ [j] := by
  unfold named
  rw [sinceClear_concat, if_neg (by simp [Edit.isClear]), List.filterMap_append]
  rw [show [Edit.upsert j u].filterMap Edit.upserted? = [j] from rfl, Lists.eraseDups_concat]
  simp only [List.mem_eraseDups]

theorem order_nodup : (order capacity es).Nodup := by
  have h : (named es).Nodup := Lists.nodup_eraseDups _
  unfold order
  split_ifs
  · exact h
  · exact h.sublist (List.take_sublist _ _)

theorem order_length (h : capacity ≠ 0) : (order capacity es).length ≤ capacity := by
  unfold order
  rw [if_neg h, List.length_take]
  omega

theorem order_clear : order capacity (es ++ [.clear]) = [] := by
  simp [order, named_clear]

theorem order_setSecure : order capacity (es ++ [.setSecure j on]) = order capacity es := by
  simp only [order, named_setSecure]

/-- **An update enters its identifier at the end,** unless it is there or there is no room. -/
theorem order_upsert : order capacity (es ++ [.upsert j u]) =
    if j ∈ order capacity es ∨ capacity ≠ 0 ∧ capacity ≤ (order capacity es).length then
      order capacity es
    else order capacity es ++ [j] := by
  unfold order
  rw [named_upsert]
  by_cases hc : capacity = 0
  · simp [hc]
  · simp only [if_neg hc]
    have hlen : ((named es).take capacity).length = min capacity (named es).length :=
      List.length_take
    by_cases hfull : capacity ≤ (named es).length
    · have hcut : ((named es) ++ [j]).take capacity = (named es).take capacity :=
        List.take_append_of_le_length hfull
      rw [if_pos (Or.inr ⟨hc, by omega⟩)]
      split_ifs
      · rfl
      · exact hcut
    · have hall : (named es).take capacity = named es := List.take_of_length_le (by omega)
      rw [hall]
      by_cases hj : j ∈ named es
      · rw [if_pos hj, if_pos (Or.inl hj), hall]
      · rw [if_neg hj, if_neg (by rintro (h | h); exacts [hj h, hfull h.2])]
        exact List.take_of_length_le (by rw [List.length_append, List.length_singleton]; omega)

/-- What is done to other devices is not in the story of a device. -/
theorem story_of_change?_eq_none {e : Edit} (hc : e.isClear = false) (h : e.change? i = none) :
    story i (es ++ [e]) = story i es := by
  unfold story
  rw [sinceClear_concat, if_neg (by simp [hc]), List.filterMap_append]
  simp [h]

theorem story_upsert : story i (es ++ [.upsert i u]) = story i es ++ [.update u] := by
  unfold story
  rw [sinceClear_concat, if_neg (by simp [Edit.isClear]), List.filterMap_append]
  rw [show [Edit.upsert i u].filterMap (Edit.change? i) = [.update u] by simp [Edit.change?],
    List.dropWhile_append]
  split_ifs with h
  · rw [List.isEmpty_iff.mp h]
    rfl
  · rfl

theorem story_eq_nil_iff : story i es = [] ↔ i ∉ named es := by
  unfold story named
  rw [List.mem_eraseDups]
  induction sinceClear es with
  | nil => simp
  | cons e l ih =>
    cases e with
    | upsert j u =>
      by_cases h : j = i
      · simp [Edit.change?, Edit.upserted?, DeviceEdit.isSecure, h]
      · simpa [Edit.change?, Edit.upserted?, h, Ne.symm h] using ih
    | setSecure j on =>
      by_cases h : j = i
      · simpa [Edit.change?, Edit.upserted?, DeviceEdit.isSecure, h] using ih
      · simpa [Edit.change?, Edit.upserted?, h] using ih
    | clear => simpa [Edit.change?, Edit.upserted?] using ih

theorem story_setSecure (h : i ∈ named es) :
    story i (es ++ [.setSecure i on]) = story i es ++ [.secure on] := by
  have hne := mt (story_eq_nil_iff es i).mp (not_not_intro h)
  unfold story at hne ⊢
  rw [sinceClear_concat, if_neg (by simp [Edit.isClear]), List.filterMap_append]
  rw [show [Edit.setSecure i on].filterMap (Edit.change? i) = [.secure on] by simp [Edit.change?],
    List.dropWhile_append, if_neg (by simpa using hne)]

theorem named_of_order (h : i ∈ order capacity es) : i ∈ named es := by
  unfold order at h
  split_ifs at h
  · exact h
  · exact List.mem_of_mem_take h

end Concat

/-! ### What the registry holds -/

/-- The device that the edits make under an identifier. -/
def deviceAfter (es : List Edit) (i : String) : Device := Device.ofEdits i (story i es)

section Devices
variable {capacity : ℕ} {es : List Edit} {i : String}

theorem identifiers_of_devices {r : Registry} {l : List String}
    (h : r.devices = l.map (deviceAfter es)) : r.identifiers = l := by
  unfold identifiers
  rw [h, List.map_map]
  exact List.map_id l

theorem find?_of_devices {r : Registry} {l : List String} (h : r.devices = l.map (deviceAfter es))
    (i : String) : r.find? i = if i ∈ l then some (deviceAfter es i) else none := by
  unfold find?
  rw [h]
  clear h
  induction l with
  | nil => rfl
  | cons j l ih =>
    rw [List.map_cons, List.find?_cons]
    by_cases hj : j = i
    · simp [deviceAfter, hj]
    · simpa [deviceAfter, hj, Ne.symm hj] using ih

/-- As long as there is room, all the identifiers are entered. -/
theorem order_eq_named (h : ¬ (capacity ≠ 0 ∧ capacity ≤ (order capacity es).length)) :
    order capacity es = named es := by
  unfold order at h ⊢
  split_ifs at h ⊢ with hc
  · rfl
  · have hlen : ((named es).take capacity).length = min capacity (named es).length :=
      List.length_take
    have hlt : ¬ capacity ≤ (named es).length := fun hle => h ⟨hc, by omega⟩
    exact List.take_of_length_le (by omega)

theorem deviceAfter_of_change?_eq_none {e : Edit} (hc : e.isClear = false)
    (h : e.change? i = none) : deviceAfter (es ++ [e]) i = deviceAfter es i := by
  rw [deviceAfter, story_of_change?_eq_none es i hc h, deviceAfter]

theorem deviceAfter_upsert (u : DeviceUpdate) :
    deviceAfter (es ++ [.upsert i u]) i = u.apply (deviceAfter es i) := by
  rw [deviceAfter, story_upsert, Device.ofEdits_update, deviceAfter]

theorem modify_map {l : List String} {f : Device → Device} {e : Edit}
    (hsame : ∀ j ∈ l, j ≠ i → deviceAfter (es ++ [e]) j = deviceAfter es j)
    (hchanged : i ∈ l → deviceAfter (es ++ [e]) i = f (deviceAfter es i)) :
    (l.map (deviceAfter es)).map (fun d => if d.identifier = i then f d else d) =
      l.map (deviceAfter (es ++ [e])) := by
  rw [List.map_map]
  refine List.map_congr_left fun j hj => ?_
  rw [Function.comp_apply, show (deviceAfter es j).identifier = j from rfl]
  split_ifs with hji
  · subst hji
    exact (hchanged hj).symm
  · exact (hsame j hj hji).symm

/-- **What becomes of an update** depends on what was entered before. -/
theorem upsert_of_devices {r : Registry} (h : r.devices = (order capacity es).map (deviceAfter es))
    (hc : r.capacity = capacity) (u : DeviceUpdate) : r.upsert i u =
      if i ∈ order capacity es then .ok (u.apply (deviceAfter es i), r.modify i u.apply)
      else if capacity ≠ 0 ∧ capacity ≤ (order capacity es).length then
        .error (.registryFull capacity)
      else .ok (u.apply { identifier := i },
        { r with devices := r.devices ++ [u.apply { identifier := i }] }) := by
  have hlen : r.devices.length = (order capacity es).length := by rw [h, List.length_map]
  have hfull : r.isFull = true ↔ capacity ≠ 0 ∧ capacity ≤ (order capacity es).length := by
    simp [isFull, hc, hlen]
  have hfind := find?_of_devices h i
  unfold upsert
  by_cases hi : i ∈ order capacity es
  · rw [if_pos hi] at hfind ⊢
    rw [hfind]
  · rw [if_neg hi] at hfind ⊢
    rw [hfind]
    dsimp only
    split_ifs with h₁ h₂ h₂
    · rw [hc]
    · exact absurd (hfull.mp h₁) h₂
    · exact absurd (hfull.mpr h₂) h₁
    · rfl

/-- **The devices of a registry** are those that the edits tell of. -/
theorem devices_run (capacity : ℕ) (es : List Edit) :
    (run capacity es).devices = (order capacity es).map (deviceAfter es) := by
  induction es using List.reverseRecOn with
  | nil => simp [run, order, named, sinceClear]
  | append_singleton es e ih =>
    rw [run_concat]
    cases e with
    | upsert i u =>
      have hother : ∀ j, j ≠ i → deviceAfter (es ++ [.upsert i u]) j = deviceAfter es j :=
        fun j hj => deviceAfter_of_change?_eq_none rfl (if_neg (Ne.symm hj))
      have hups := upsert_of_devices (i := i) ih (run_capacity capacity es) u
      rw [order_upsert]
      by_cases hi : i ∈ order capacity es
      · -- The device is there and changes in its place.
        rw [if_pos hi] at hups
        rw [edit_of_ok hups, if_pos (Or.inl hi), modify, ih]
        exact modify_map (fun j _ => hother j) fun _ => deviceAfter_upsert u
      have hkeep : (order capacity es).map (deviceAfter es) =
          (order capacity es).map (deviceAfter (es ++ [.upsert i u])) :=
        List.map_congr_left fun j hj => (hother j fun hji => hi (hji ▸ hj)).symm
      rw [if_neg hi] at hups
      by_cases hfull : capacity ≠ 0 ∧ capacity ≤ (order capacity es).length
      · -- There is no room for a new device.
        rw [if_pos hfull] at hups
        rw [edit_of_error hups, if_pos (Or.inr hfull), ih, hkeep]
      · -- A new device is entered at the end; its story begins with this update.
        rw [if_neg hfull] at hups
        have hnil : story i es = [] :=
          (story_eq_nil_iff es i).mpr (by rw [← order_eq_named hfull]; exact hi)
        have hnew : deviceAfter (es ++ [.upsert i u]) i = u.apply { identifier := i } := by
          rw [deviceAfter_upsert, deviceAfter, hnil]
          rfl
        rw [edit_of_ok hups, if_neg (by rintro (h | h); exacts [hi h, hfull h]), List.map_append,
          List.map_singleton, hnew, ← hkeep, ← ih]
    | setSecure i on =>
      have hother : ∀ j, j ≠ i → deviceAfter (es ++ [.setSecure i on]) j = deviceAfter es j :=
        fun j hj => deviceAfter_of_change?_eq_none rfl (if_neg (Ne.symm hj))
      rw [order_setSecure]
      simp only [edit, setSecure, modify, ih]
      refine modify_map (fun j _ => hother j) fun hi => ?_
      rw [deviceAfter, story_setSecure es i on (named_of_order _ _ _ hi), Device.ofEdits_secure,
        deviceAfter]
    | clear =>
      rw [order_clear]
      rfl

theorem foldl_accept (capacity : ℕ) (es : List Edit) :
    es.foldl accept ({ capacity }, []) = (run capacity es, accepted capacity es) := by
  have hrun : (es.foldl accept ({ capacity }, [])).1 = run capacity es := by
    induction es using List.reverseRecOn with
    | nil => rfl
    | append_singleton es e ih =>
      rw [List.foldl_append, run_concat, ← ih]
      rfl
  exact Prod.ext hrun rfl

theorem eraseDups_accepted (capacity : ℕ) (es : List Edit) :
    (accepted capacity es).eraseDups = order capacity es := by
  induction es using List.reverseRecOn with
  | nil => simp [accepted, order, named, sinceClear]
  | append_singleton es e ih =>
    have hmem : ∀ i, i ∈ accepted capacity es ↔ i ∈ order capacity es := fun i => by
      rw [← ih, List.mem_eraseDups]
    have hnext : accepted capacity (es ++ [e]) =
        (accept (run capacity es, accepted capacity es) e).2 := by
      rw [accepted, List.foldl_append, foldl_accept]
      rfl
    rw [hnext]
    cases e with
    | upsert i u =>
      simp only [accept]
      rw [upsert_of_devices (devices_run capacity es) (run_capacity capacity es), order_upsert]
      by_cases hi : i ∈ order capacity es
      · simp only [if_pos hi, if_pos (Or.inl hi), Except.isOk, Except.toBool, if_true]
        rw [Lists.eraseDups_concat, if_pos ((hmem i).mpr hi), ih]
      · by_cases hfull : capacity ≠ 0 ∧ capacity ≤ (order capacity es).length
        · simp only [if_neg hi, if_pos hfull, if_pos (Or.inr hfull), Except.isOk, Except.toBool]
          exact ih
        · simp only [if_neg hi, if_neg hfull, Except.isOk, Except.toBool, if_true]
          rw [if_neg (by rintro (h | h); exacts [hi h, hfull h]), Lists.eraseDups_concat,
            if_neg (mt (hmem i).mp hi), ih]
    | setSecure i on => rw [order_setSecure, ← ih, accept]
    | clear => rw [order_clear, accept, List.eraseDups_nil]

end Devices

/-! ### The law -/

/-- **What a registry tells** after the given edits. -/
structure Tells (capacity : ℕ) (es : List Edit) (r : Registry) : Prop where
  /-- The identifiers stand in the order of their first entry since the registry was cleared. -/
  order : r.identifiers = order capacity es
  distinct : r.identifiers.Nodup
  /-- They are those of the updates that were accepted since then. -/
  accepted : r.identifiers = (accepted capacity es).eraseDups
  count : r.count = (Registry.accepted capacity es).eraseDups.length
  bounded : capacity ≠ 0 → r.count ≤ capacity
  /-- Refused are the updates of new devices for which there is no room. -/
  refused : ∀ i u, (∃ e, r.upsert i u = .error e) ↔
    i ∉ r.identifiers ∧ capacity ≠ 0 ∧ r.count = capacity
  /-- An update that is refused changes nothing. -/
  unchanged : ∀ i u e, r.upsert i u = .error e →
    e = .registryFull capacity ∧ r.edit (.upsert i u) = r
  /-- Changing a device does not move it. -/
  fixed : ∀ i ∈ r.identifiers, ∀ u on, (r.edit (.upsert i u)).identifiers = r.identifiers ∧
    (r.edit (.setSecure i on)).identifiers = r.identifiers
  /-- A device is what was made of it since it was entered. -/
  find : ∀ i, r.find? i =
    if i ∈ r.identifiers then some (Device.ofEdits i (story i es)) else none
  /-- At each position stands the device whose identifier is there. -/
  position : ∀ k, r.at? k = r.identifiers[k]?.bind r.find?

/-- **The registry is an insertion-ordered map,** after any edits and with any capacity. -/
theorem refines_ordered_map (capacity : ℕ) (es : List Edit) :
    Tells capacity es (run capacity es) := by
  have hdev := devices_run capacity es
  have hcap := run_capacity capacity es
  have hids : (run capacity es).identifiers = order capacity es := identifiers_of_devices hdev
  have hcount : (run capacity es).count = (order capacity es).length := by
    rw [count, hdev, List.length_map]
  have hfind := find?_of_devices hdev
  have hups := fun i u => upsert_of_devices (i := i) hdev hcap u
  have hafter : ∀ e, ((run capacity es).edit e).identifiers = order capacity (es ++ [e]) := by
    intro e
    rw [← run_concat]
    exact identifiers_of_devices (devices_run capacity (es ++ [e]))
  exact {
    order := hids
    distinct := by rw [hids]; exact order_nodup capacity es
    accepted := by rw [hids, eraseDups_accepted]
    count := by rw [hcount, eraseDups_accepted]
    bounded := fun h => by rw [hcount]; exact order_length capacity es h
    refused := fun i u => by
      rw [hids, hcount, hups]
      have hle := order_length capacity es
      constructor
      · rintro ⟨e, he⟩
        split_ifs at he with hi hfull
        exact ⟨hi, hfull.1, Nat.le_antisymm (hle hfull.1) hfull.2⟩
      · rintro ⟨hi, hc, hlen⟩
        rw [if_neg hi, if_pos ⟨hc, Nat.le_of_eq hlen.symm⟩]
        exact ⟨_, rfl⟩
    unchanged := fun i u e he => by
      refine ⟨?_, edit_of_error he⟩
      rw [upsert_eq_error, hcap] at he
      exact he.2.2
    fixed := fun i hi u on => by
      rw [hids] at hi ⊢
      rw [hafter, hafter, order_upsert, if_pos (Or.inl hi), order_setSecure]
      exact ⟨rfl, rfl⟩
    find := fun i => by rw [hids, hfind]; rfl
    position := fun k => by
      rw [hids, at?, hdev, List.getElem?_map]
      cases hk : (order capacity es)[k]? with
      | none => rfl
      | some i =>
        rw [Option.map_some, Option.bind_some, hfind, if_pos (List.mem_of_getElem? hk)] }

/-- A third device finds no room, and a refreshed one keeps its place. -/
example :
    order 2 [.upsert "B" {}, .upsert "A" {}, .upsert "C" {}, .upsert "B" {}] = ["B", "A"] := by
  decide

end Registry

end KnxIoT
