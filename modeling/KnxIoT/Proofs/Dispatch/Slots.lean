import KnxIoT.Proofs.Dispatch.Steps
import Mathlib.Data.List.Nodup

/-! # The slots of the handler table

Only installations change the table. The history of a run is the list of its single installations,
each with its category; a program that installs for several categories makes several of them, in
turn.

* `ofCategory`, `latest`: the part of a history for one category, and its last element.
* `Slots t H`: every slot of `t` holds the latest of the history `H`; `Slots.installAll` adds to the
  history and reads what the installations displace from it.
* `installing`, `installs`: what a step and what the first steps of a run install;
  `slots_run`: the table of a run is made by its history.
* `returning`, `returns`: what the installations give back; `returns_eq`: what was given back for a
  category, and what is in the slot at last, are in order what was there at first and then all the
  handlers that were installed. -/

namespace KnxIoT

/-! ### One installation -/

section Table
variable {η : Type}

theorem HandlerTable.slot_install (t : HandlerTable η) (h : η) (c d : Category) :
    (t.install c h).2.slot d = if d = c then some h else t.slot d := rfl

theorem HandlerTable.slot_installAll (h : η) (d : Category) :
    ∀ (cs : List Category) (t : HandlerTable η),
      (t.installAll h cs).2.slot d = if d ∈ cs then some h else t.slot d
  | [], _ => by simp [HandlerTable.installAll]
  | c :: cs, t => by
    have ih := slot_installAll h d cs (t.install c h).2
    rw [slot_install] at ih
    rw [show (t.installAll h (c :: cs)).2 = ((t.install c h).2.installAll h cs).2 from rfl, ih]
    by_cases hcs : d ∈ cs
    · simp [hcs]
    · by_cases hc : d = c <;> simp [hcs, hc]

end Table

namespace Dispatch

/-! ### Histories -/

section History
variable {η : Type}

/-- The entries of a history for one category. -/
def ofCategory (H : List (Category × η)) (c : Category) : List η :=
  H.filterMap fun x => if x.1 = c then some x.2 else none

/-- **The latest entry for a category.** -/
def latest (H : List (Category × η)) (c : Category) : Option η :=
  (ofCategory H c).getLast?

variable {H G : List (Category × η)} {c : Category} {h : η}

theorem mem_ofCategory : h ∈ ofCategory H c ↔ (c, h) ∈ H := by
  simp only [ofCategory, List.mem_filterMap, Option.ite_none_right_eq_some, Option.some.injEq]
  constructor
  · rintro ⟨⟨d, h'⟩, hx, rfl, rfl⟩
    exact hx
  · intro hx
    exact ⟨(c, h), hx, rfl, rfl⟩

theorem ofCategory_append : ofCategory (H ++ G) c = ofCategory H c ++ ofCategory G c :=
  List.filterMap_append

theorem ofCategory_singleton (d : Category) :
    ofCategory [(d, h)] c = if d = c then [h] else [] := by
  unfold ofCategory
  by_cases hd : d = c <;> simp [hd]

theorem ofCategory_const (cs : List Category) :
    ofCategory (cs.map (·, h)) c = List.replicate (cs.count c) h := by
  induction cs with
  | nil => rfl
  | cons d cs ih =>
    rw [List.map_cons, show (d, h) :: cs.map (·, h) = [(d, h)] ++ cs.map (·, h) from rfl,
      ofCategory_append, ih, ofCategory_singleton, List.count_cons]
    by_cases hd : d = c
    · simp [hd, List.replicate_succ]
    · simp [hd]

theorem ofCategory_eq_nil (hc : c ∉ H.map Prod.fst) : ofCategory H c = [] := by
  rw [ofCategory, List.filterMap_eq_nil_iff]
  rintro ⟨d, h⟩ hx
  have hd : d ≠ c := fun hd => hc (List.mem_map.mpr ⟨(d, h), hx, hd⟩)
  simp [hd]

theorem ofCategory_map {ζ : Type} (f : η → ζ) :
    ofCategory (H.map (Prod.map id f)) c = (ofCategory H c).map f := by
  simp only [ofCategory, List.filterMap_map, List.map_filterMap]
  congr 1
  funext x
  by_cases hx : x.1 = c <;> simp [hx]

theorem latest_append_singleton (d : Category) :
    latest (H ++ [(d, h)]) c = if d = c then some h else latest H c := by
  rw [latest, ofCategory_append, ofCategory_singleton]
  by_cases hd : d = c
  · simp [hd]
  · simp [hd, latest]

theorem latest_eq_none_iff : latest H c = none ↔ ∀ h, (c, h) ∉ H := by
  rw [latest, List.getLast?_eq_none_iff, List.eq_nil_iff_forall_not_mem]
  exact forall_congr' fun h => not_congr mem_ofCategory

/-- What installations displace, one after the other, if the history before them is `H`. -/
def displaced (H : List (Category × η)) : List (Category × η) → List (Option η)
  | [] => []
  | x :: xs => latest H x.1 :: displaced (H ++ [x]) xs

/-- What is displaced in a slot and what remains in it are what was in it and what was installed. -/
theorem displaced_ofCategory (c : Category) : ∀ xs H : List (Category × η),
    ofCategory ((xs.map Prod.fst).zip (displaced H xs)) c ++ [latest (H ++ xs) c] =
      latest H c :: (ofCategory xs c).map some
  | [], H => by simp [displaced, ofCategory]
  | (d, h) :: xs, H => by
    have ih := displaced_ofCategory c xs (H ++ [(d, h)])
    rw [latest_append_singleton, List.append_assoc, List.singleton_append] at ih
    have hx : ofCategory ((d, h) :: xs) c = ofCategory [(d, h)] c ++ ofCategory xs c :=
      ofCategory_append (H := [(d, h)])
    have hz : ofCategory ((((d, h) :: xs).map Prod.fst).zip (displaced H ((d, h) :: xs))) c =
        ofCategory [(d, latest H d)] c ++
          ofCategory ((xs.map Prod.fst).zip (displaced (H ++ [(d, h)]) xs)) c :=
      ofCategory_append (H := [(d, latest H d)])
    rw [hz, hx, List.append_assoc, ih, ofCategory_singleton, ofCategory_singleton]
    by_cases hd : d = c
    · subst hd; simp
    · simp [hd]

/-- **Every slot holds the latest of a history.** -/
def Slots (t : HandlerTable η) (H : List (Category × η)) : Prop :=
  ∀ c, t.slot c = latest H c

theorem Slots.installAll (h : η) : ∀ (cs : List Category) {t : HandlerTable η}
    {H : List (Category × η)}, Slots t H →
      (t.installAll h cs).1 = displaced H (cs.map (·, h)) ∧
        Slots (t.installAll h cs).2 (H ++ cs.map (·, h))
  | [], t, H, hH => ⟨rfl, by rw [List.map_nil, List.append_nil]; exact hH⟩
  | c :: cs, t, H, hH => by
    have h' : Slots (t.install c h).2 (H ++ [(c, h)]) := fun d => by
      rw [HandlerTable.slot_install, latest_append_singleton, hH d]
      exact if_congr eq_comm rfl rfl
    obtain ⟨hfst, hsnd⟩ := Slots.installAll h cs h'
    refine ⟨?_, by rw [List.map_cons, List.append_cons]; exact hsnd⟩
    rw [show (t.installAll h (c :: cs)).1 = t.slot c :: ((t.install c h).2.installAll h cs).1
      from rfl, hfst, hH c]
    rfl

end History

/-! ### The history of a run -/

namespace Machine

variable {σ κ α ρ ε : Type}

/-- The installations that the next step makes. -/
def installing (m : Machine σ κ α ρ ε) : List (Category × Installed κ ρ) :=
  match m.stack with
  | .run (.install cs h _) :: _ => cs.map (·, ⟨m.calls.length, h⟩)
  | _ => []

/-- What the next step gives back for its installations. -/
def returning (m : Machine σ κ α ρ ε) : List (Category × Option HandlerName) :=
  match m.stack with
  | .run (.install cs h _) :: _ => cs.zip (m.install cs h).1
  | _ => []

variable (sys : System σ κ α ρ ε) (m : Machine σ κ α ρ ε)

/-- **The installations of the first steps of a run.** -/
def installs : ℕ → List (Category × Installed κ ρ)
  | 0 => []
  | n + 1 => installs n ++ (m.run sys n).installing

/-- **What they gave back.** -/
def returns : ℕ → List (Category × Option HandlerName)
  | 0 => []
  | n + 1 => returns n ++ (m.run sys n).returning

theorem installs_mono {k n : ℕ} (h : k ≤ n) : m.installs sys k <+: m.installs sys n := by
  induction h with
  | refl => exact List.prefix_refl _
  | step _ ih => exact ih.trans (List.prefix_append _ _)

/-- What the latest installation for a category was, and that no step after it made one. -/
theorem latest_installs_eq_some {n : ℕ} {c : Category} {i : Installed κ ρ}
    (h : latest (m.installs sys n) c = some i) :
    ∃ k < n, (c, i) ∈ (m.run sys k).installing ∧
      ∀ j, k < j → j < n → ∀ i', (c, i') ∉ (m.run sys j).installing := by
  induction n with
  | zero => cases h
  | succ n ih =>
    rw [latest, installs, ofCategory_append] at h
    rcases eq_or_ne (ofCategory (m.run sys n).installing c) [] with hnil | hne
    · rw [hnil, List.append_nil] at h
      obtain ⟨k, hk, hi, hlater⟩ := ih h
      refine ⟨k, Nat.lt_succ_of_lt hk, hi, fun j hkj hj i' hi' => ?_⟩
      rcases Nat.lt_succ_iff_lt_or_eq.mp hj with hj | rfl
      · exact hlater j hkj hj i' hi'
      · exact List.eq_nil_iff_forall_not_mem.mp hnil i' (mem_ofCategory.mpr hi')
    · rw [List.getLast?_append_of_ne_nil _ hne] at h
      exact ⟨n, Nat.lt_succ_self n, mem_ofCategory.mp (List.mem_of_getLast? h), by omega⟩

theorem mem_installs {k n : ℕ} (hk : k < n) {y : Category × Installed κ ρ}
    (hy : y ∈ (m.run sys k).installing) : y ∈ m.installs sys n :=
  (installs_mono sys m hk).subset (List.mem_append.mpr (Or.inr hy))

section Deliver
variable (x : Notification) (a : α) (below : List (Frame κ α ρ))

theorem deliver_table : (m.deliver x a below).table = m.table := by unfold deliver; split <;> rfl

theorem length_deliver_calls : (m.deliver x a below).calls.length = m.calls.length := by
  unfold deliver
  split
  · exact List.length_set
  · rfl

theorem settle_table (p : Piece σ α ρ ε) : (m.settle p below).table = m.table := by
  obtain ⟨s, es, r | ⟨x, a⟩⟩ := p
  · simp only [settle]; unfold answer; split <;> rfl
  · exact deliver_table _ x a below

theorem length_settle_calls (p : Piece σ α ρ ε) :
    (m.settle p below).calls.length = m.calls.length := by
  obtain ⟨s, es, r | ⟨x, a⟩⟩ := p
  · simp only [settle]; unfold answer; split <;> rfl
  · exact length_deliver_calls _ x a below

end Deliver

/-- **What a step does to the table**: it makes its installations, under the next free number. -/
inductive Fills : Prop
  /-- It installs nothing. -/
  | nothing (installing : m.installing = []) (returning : m.returning = [])
      (table : (m.step sys).table = m.table)
      (calls : (m.step sys).calls.length = m.calls.length)
  /-- It installs `h` for the categories `cs`, and the program goes on with what was there. -/
  | installs (cs : List Category) (h : Handler κ ρ)
      (next : List (Option HandlerName) → Program κ ρ) (below : List (Frame κ α ρ))
      (stack : m.stack = .run (.install cs h next) :: below)
      (installing : m.installing = cs.map (·, ⟨m.calls.length, h⟩))
      (returning : m.returning =
        cs.zip ((m.table.installAll ⟨m.calls.length, h⟩ cs).1.map (·.map Installed.name)))
      (table : (m.step sys).table = (m.table.installAll ⟨m.calls.length, h⟩ cs).2)
      (calls : (m.step sys).calls.length = m.calls.length + 1)
      (after : (m.step sys).stack = .run (next
        ((m.table.installAll ⟨m.calls.length, h⟩ cs).1.map (·.map Installed.name))) :: below)

theorem step_fills : Fills sys m := by
  obtain ⟨s, t, calls, stack, trace⟩ := m
  rcases stack with - | ⟨(_ | ⟨text, next⟩ | ⟨cs, h, next⟩ | ⟨c, next⟩) | ⟨a, d⟩ | ⟨c, next⟩, below⟩
  case cons.run.install =>
    refine .installs cs h next below rfl rfl rfl rfl ?_ rfl
    exact List.length_append
  case cons.run.command => exact .nothing rfl rfl (settle_table _ _ _) (length_settle_calls _ _ _)
  case cons.rest => exact .nothing rfl rfl (settle_table _ _ _) (length_settle_calls _ _ _)
  all_goals exact .nothing rfl rfl rfl rfl

theorem step_slot {c : Category} (hc : c ∉ m.installing.map Prod.fst) :
    (m.step sys).table.slot c = m.table.slot c := by
  cases step_fills sys m with
  | nothing installing returning table calls => rw [table]
  | installs cs h next below stack installing returning table calls after =>
    rw [installing, List.map_map] at hc
    rw [table, HandlerTable.slot_installAll, if_neg (by simpa [Function.comp_def] using hc)]

theorem length_calls_le_step : m.calls.length ≤ (m.step sys).calls.length := by
  cases step_fills sys m with
  | nothing installing returning table calls => exact Nat.le_of_eq calls.symm
  | installs cs h next below stack installing returning table calls after =>
    exact calls ▸ Nat.le_succ _

variable {m}

/-- **The table of a run is made by its installations.** -/
theorem slots_run (h : m.table = {}) (n : ℕ) :
    Slots (m.run sys n).table (m.installs sys n) := by
  induction n with
  | zero => intro c; rw [run, h]; rfl
  | succ n ih =>
    rw [run_succ]
    cases step_fills sys (m.run sys n) with
    | nothing installing returning table calls =>
      rwa [Machine.installs, installing, List.append_nil, table]
    | installs cs hd next below stack installing returning table calls after =>
      rw [Machine.installs, installing, table]
      exact (ih.installAll _ cs).2

theorem returns_eq (h : m.table = {}) (c : Category) (n : ℕ) :
    ofCategory (m.returns sys n) c ++ [((m.run sys n).table.slot c).map Installed.name] =
      none :: (ofCategory (m.installs sys n) c).map fun i => some i.name := by
  induction n with
  | zero => rw [run, h]; rfl
  | succ n ih =>
    rw [run_succ]
    cases step_fills sys (m.run sys n) with
    | nothing installing returning table calls =>
      rwa [Machine.installs, Machine.returns, installing, returning, List.append_nil,
        List.append_nil, table]
    | installs cs hd next below stack installing returning table calls after =>
      obtain ⟨hold, hnew⟩ := (slots_run sys h n).installAll
        ⟨(m.run sys n).calls.length, hd⟩ cs
      have hz := congrArg (List.map (Option.map Installed.name))
        (displaced_ofCategory c (cs.map (·, (⟨(m.run sys n).calls.length, hd⟩ : Installed κ ρ)))
          (m.installs sys n))
      simp only [List.map_append, List.map_map, Function.comp_def, List.map_id', List.map_cons,
        List.map_nil, Option.map_some] at hz
      rw [slots_run sys h n c] at ih
      rw [Machine.installs, Machine.returns, installing, returning, table, hold, hnew c,
        List.zip_map_right, ofCategory_append, ofCategory_append, ofCategory_map,
        List.append_assoc, hz, List.append_cons, ih, List.map_append, List.cons_append]

variable (m)

theorem number_lt_of_mem_installs (n : ℕ) :
    ∀ x ∈ m.installs sys n, x.2.number < (m.run sys n).calls.length := by
  induction n with
  | zero => exact fun x hx => absurd hx List.not_mem_nil
  | succ n ih =>
    intro x hx
    rw [run_succ]
    rcases List.mem_append.mp hx with hx | hx
    · exact Nat.lt_of_lt_of_le (ih x hx) (length_calls_le_step sys _)
    · cases step_fills sys (m.run sys n) with
      | nothing installing returning table calls => rw [installing] at hx; cases hx
      | installs cs h next below stack installing returning table calls after =>
        rw [installing, List.mem_map] at hx
        obtain ⟨c, -, rfl⟩ := hx
        rw [calls]
        exact Nat.lt_succ_self _

/-- If no step installs twice for one category, the installations for a category have growing
numbers. -/
theorem installs_numbers {n : ℕ} (h : ∀ k < n, ((m.run sys k).installing.map Prod.fst).Nodup)
    (c : Category) : (ofCategory (m.installs sys n) c).Pairwise fun i j => i.number < j.number := by
  induction n with
  | zero => exact List.Pairwise.nil
  | succ n ih =>
    have hold := number_lt_of_mem_installs sys m n
    rw [Machine.installs, ofCategory_append, List.pairwise_append]
    refine ⟨ih fun k hk => h k (Nat.lt_succ_of_lt hk), ?_, ?_⟩
    · cases step_fills sys (m.run sys n) with
      | nothing installing returning table calls => rw [installing]; exact List.Pairwise.nil
      | installs cs hd next below stack installing returning table calls after =>
        have hn := h n (Nat.lt_succ_self n)
        rw [installing, List.map_map, Function.comp_def, List.map_id'] at hn
        rw [installing]
        rw [ofCategory_const, List.pairwise_replicate]
        exact Or.inl (List.nodup_iff_count_le_one.mp hn c)
    · intro i hi j hj
      cases step_fills sys (m.run sys n) with
      | nothing installing returning table calls => rw [installing] at hj; cases hj
      | installs cs hd next below stack installing returning table calls after =>
        rw [installing, mem_ofCategory, List.mem_map] at hj
        obtain ⟨d, -, hd⟩ := hj
        rw [← (Prod.mk.inj hd).2]
        exact hold _ (mem_ofCategory.mp hi)

end Machine

end Dispatch

end KnxIoT
