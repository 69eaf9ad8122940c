import KnxIoT.Bench.ScriptedEngine
import KnxIoT.Host.Call
import KnxIoT.Proofs.Dispatch.Deliveries

/-! # Sets of callbacks, merged

A host hands over callbacks in sets. The callbacks of one set share a handler, and a set fills the
slots of those categories only for which it has a callback; so what is in the slots may come from
several sets, each with its own user data.

* `Hosted`: a program that installs handlers by sets of callbacks only, also within the callbacks.
* `SetsAt m s`: the machine is about to make the call that installs the set `s`.
* `Decides m n c k s f`: before step `n` the latest call with a callback for `c` is at step `k`,
  and `f` is its callback; `slot_of_decides`: then the slot holds the handler of `s`.
* `Merging`, `callbacks_merged`: what a notification brings about, at any step of a run. -/

namespace KnxIoT

namespace Host

open Dispatch.Machine

variable {σ υ : Type}

/-! ### Calls that install callbacks -/

section Call
variable {h : Handle} {s : Callbacks (Bridge.Command σ) Reply υ} {next : Code → Bridge.Program σ}

theorem Callbacks.mem_categories {c : Category} :
    c ∈ s.set.categories ↔ (s.function c).isSome := by
  have hall : c ∈ Category.all := by cases c <;> decide
  simp [CallbackSet.categories, Callbacks.set, hall]

theorem Callbacks.categories_eq_nil_iff :
    s.set.categories = [] ↔ ∀ c, s.function c = none := by
  rw [List.eq_nil_iff_forall_not_mem]
  exact forall_congr' fun c => by rw [mem_categories, Option.not_isSome_iff_eq_none]

/-- The shared handler calls the callback for the category, with the user data of its set. -/
theorem Callbacks.react_handler {c : Category} {f : ℕ → CallbackCall → υ → Bridge.Program σ}
    (hf : s.function c = some f) (times : ℕ) {x : Notification} (hx : x.category = c) :
    s.handler.react times x = f times (.ofNotification x) s.userData := by
  rw [← hx] at hf
  simp only [Callbacks.handler, Handler.react, Callbacks.onNotification, hf]

theorem installCallbacks_eq_install (settings : Settings) (hs : s.set.categories ≠ []) :
    installCallbacks (some settings) (some s) next =
      .install s.set.categories s.handler fun _ => next .ok := by
  simp only [installCallbacks, setCallbacks, if_neg hs]

/-- **A call without a bridge, a set or a callback is refused,** and nothing is done. -/
theorem installCallbacks_eq_refused {callbacks : Option (Callbacks (Bridge.Command σ) Reply υ)}
    (hbad : h = none ∨ callbacks = none ∨ ∃ s, callbacks = some s ∧ ∀ c, s.function c = none) :
    installCallbacks h callbacks next = next .invalidArgument := by
  rcases callbacks with - | s
  · rfl
  · rcases h with - | settings
    · rfl
    · have hs : s.set.categories = [] := by
        rw [Callbacks.categories_eq_nil_iff]
        simpa using hbad
      simp only [installCallbacks, setCallbacks, if_pos hs]

theorem installCallbacks_cases (h : Handle)
    (callbacks : Option (Callbacks (Bridge.Command σ) Reply υ)) (next : Code → Bridge.Program σ) :
    (∃ settings s, callbacks = some s ∧ s.set.categories ≠ [] ∧ h = some settings) ∨
      installCallbacks h callbacks next = next .invalidArgument := by
  rcases callbacks with - | s
  · exact Or.inr rfl
  · rcases h with - | settings
    · exact Or.inr rfl
    · by_cases hs : s.set.categories = []
      · exact Or.inr (installCallbacks_eq_refused
          (Or.inr (Or.inr ⟨s, rfl, Callbacks.categories_eq_nil_iff.mp hs⟩)))
      · exact Or.inl ⟨settings, s, rfl, hs, rfl⟩

end Call

/-! ### Programs of a host -/

/-- **A program of a host** installs handlers by sets of callbacks only, and so do the callbacks. -/
inductive Hosted (υ : Type) : Bridge.Program σ → Prop
  | done : Hosted υ .done
  | remark (text : String) {next : Bridge.Program σ} (h : Hosted υ next) :
      Hosted υ (.remark text next)
  | command (c : Bridge.Command σ) {next : Reply → Bridge.Program σ} (h : ∀ r, Hosted υ (next r)) :
      Hosted υ (.command c next)
  | set (h : Handle) (callbacks : Option (Callbacks (Bridge.Command σ) Reply υ))
      {next : Code → Bridge.Program σ}
      (hcallbacks : ∀ s, callbacks = some s → ∀ c f, s.function c = some f →
        ∀ times call, Hosted υ (f times call s.userData))
      (hnext : ∀ code, Hosted υ (next code)) : Hosted υ (installCallbacks h callbacks next)

/-- **The machine is about to install the callbacks** `s` and to go on with `next`. -/
def SetsAt (m : Bridge.Machine σ) (s : Callbacks (Bridge.Command σ) Reply υ) : Prop :=
  s.set.categories ≠ [] ∧ ∃ settings next below,
    m.stack = .run (installCallbacks (some settings) (some s) next) :: below

section Hosted
variable {s : Callbacks (Bridge.Command σ) Reply υ} {m : Bridge.Machine σ}

/-- What a program of a host goes on with is one as well; and if it installs a handler, it installs
a set of callbacks. -/
def Unfolds (υ : Type) : Bridge.Program σ → Prop
  | .done => True
  | .remark _ next => Hosted υ next
  | .command _ next => ∀ r, Hosted υ (next r)
  | .install cs handler next => (∀ olds, Hosted υ (next olds)) ∧
    ∃ settings, ∃ s : Callbacks (Bridge.Command σ) Reply υ, ∃ go, s.set.categories ≠ [] ∧
      .install cs handler next = installCallbacks (some settings) (some s) go ∧
      ∀ times x, Hosted υ (s.onNotification times x)

theorem Hosted.unfolds {p : Bridge.Program σ} (hp : Hosted υ p) : Unfolds υ p := by
  induction hp with
  | done => trivial
  | remark _ h => exact h
  | command _ h => exact h
  | @set h callbacks next hcallbacks hnext _ ih =>
    rcases installCallbacks_cases h callbacks next with ⟨settings, s, rfl, hs, rfl⟩ | hrefused
    · have hinstall : installCallbacks (some settings) (some s) next =
          .install s.set.categories s.handler fun _ => next .ok :=
        installCallbacks_eq_install settings hs
      rw [hinstall]
      refine ⟨fun _ => hnext _, settings, s, next, hs, hinstall.symm, fun times x => ?_⟩
      unfold Callbacks.onNotification
      cases hf : s.function x.category with
      | none => exact .done
      | some f => exact hcallbacks s rfl _ f hf times _
    · rw [hrefused]
      exact ih _

/-- An installation of a set is of its categories, and of the handler that its callbacks share. -/
theorem install_inj {cs : List Category} {handler : Bridge.Handler σ}
    {next : List (Option HandlerName) → Bridge.Program σ} {settings : Settings}
    {go : Code → Bridge.Program σ} (hs : s.set.categories ≠ [])
    (heq : .install cs handler next = installCallbacks (some settings) (some s) go) :
    cs = s.set.categories ∧ handler = s.handler ∧ next = fun _ => go .ok := by
  rw [installCallbacks_eq_install settings hs] at heq
  exact Program.install.inj heq

theorem hosted_passedOn : PassedOn (Hosted (σ := σ) υ) where
  remark h := h.unfolds
  command h := h.unfolds
  install h := by
    obtain ⟨hnext, settings, s, go, hs, heq, hreact⟩ := h.unfolds
    obtain ⟨-, rfl, -⟩ := install_inj hs heq
    exact ⟨hnext, hreact⟩

theorem SetsAt.installing (hs : SetsAt m s) :
    m.installing = s.set.categories.map (·, ⟨m.calls.length, s.handler⟩) := by
  obtain ⟨hne, settings, next, below, hstack⟩ := hs
  rw [installCallbacks_eq_install settings hne] at hstack
  simp only [Dispatch.Machine.installing, hstack]

theorem SetsAt.mem_installing (hs : SetsAt m s) {c : Category}
    {i : Installed (Bridge.Command σ) Reply} :
    (c, i) ∈ m.installing ↔ (s.function c).isSome ∧ i = ⟨m.calls.length, s.handler⟩ := by
  rw [hs.installing, List.mem_map, ← Callbacks.mem_categories]
  constructor
  · rintro ⟨d, hd, heq⟩
    obtain ⟨rfl, rfl⟩ := Prod.mk.inj heq
    exact ⟨hd, rfl⟩
  · rintro ⟨hc, rfl⟩
    exact ⟨c, hc, rfl⟩

theorem setsAt_of_mem_installing (hm : Everywhere (Hosted υ) m)
    {y : Category × Installed (Bridge.Command σ) Reply} (hy : y ∈ m.installing) :
    ∃ s : Callbacks (Bridge.Command σ) Reply υ, SetsAt m s := by
  unfold Dispatch.Machine.installing at hy
  split at hy
  · next cs handler next below hstack =>
    have hrun : Hosted υ (.install cs handler next) :=
      hm.frames (.run (.install cs handler next)) (by rw [hstack]; exact List.mem_cons_self)
    obtain ⟨-, settings, s, go, hs, heq, -⟩ := hrun.unfolds
    exact ⟨s, hs, settings, go, below, by rw [hstack, heq]⟩
  · cases hy

end Hosted

/-! ### The call that decides -/

/-- The machine after `n` steps. -/
abbrev after (eng : Engine σ) (m : Bridge.Machine σ) (n : ℕ) : Bridge.Machine σ :=
  m.run (Bridge.system eng) n

theorem after_succ (eng : Engine σ) (m : Bridge.Machine σ) (n : ℕ) :
    after eng m (n + 1) = (after eng m n).step (Bridge.system eng) :=
  run_succ (Bridge.system eng) n m

variable (eng : Engine σ) (m : Bridge.Machine σ)

/-- **The call that decides** about the category `c` before step `n`: the latest one with a callback
for it is that of the set `s` at step `k`, and its callback is `f`. -/
structure Decides (n : ℕ) (c : Category) (k : ℕ) (s : Callbacks (Bridge.Command σ) Reply υ)
    (f : ℕ → CallbackCall → υ → Bridge.Program σ) : Prop where
  before : k < n
  sets : SetsAt (after eng m k) s
  function : s.function c = some f
  latest : ∀ j, k < j → j < n → ∀ s' : Callbacks (Bridge.Command σ) Reply υ,
    SetsAt (after eng m j) s' → s'.function c = none

/-- No call before step `n` has a callback for the category. -/
def Unset (υ : Type) (n : ℕ) (c : Category) : Prop :=
  ∀ k < n, ∀ s : Callbacks (Bridge.Command σ) Reply υ,
    SetsAt (after eng m k) s → s.function c = none

section Slot
variable {eng m} {n : ℕ} {c : Category} {s : Callbacks (Bridge.Command σ) Reply υ}
  {f : ℕ → CallbackCall → υ → Bridge.Program σ} {k : ℕ}

/-- **The slot holds the handler of the call that decides.** -/
theorem slot_of_decides (ht : m.table = {})
    (hall : ∀ j, Everywhere (Hosted υ) (after eng m j))
    (h : Decides eng m n c k s f) : (after eng m n).table.slot c =
      some ⟨(after eng m k).calls.length, s.handler⟩ := by
  rw [slots_run (Bridge.system eng) ht n c]
  have hk := h.sets.mem_installing.mpr ⟨Option.isSome_iff_exists.mpr ⟨f, h.function⟩, rfl⟩
  cases hl : Dispatch.latest (m.installs (Bridge.system eng) n) c with
  | none => exact absurd (mem_installs _ m h.before hk) (Dispatch.latest_eq_none_iff.mp hl _)
  | some i =>
    obtain ⟨j, hj, hi, hlater⟩ := latest_installs_eq_some _ m hl
    obtain ⟨s', hs'⟩ := setsAt_of_mem_installing (hall j) hi
    rcases Nat.lt_trichotomy j k with hjk | rfl | hkj
    · exact absurd hk (hlater k hjk h.before _)
    · rw [(h.sets.mem_installing.mp hi).2]
    · have hnone := h.latest j hkj hj s' hs'
      have := (hs'.mem_installing.mp hi).1
      rw [hnone] at this
      cases this

theorem slot_of_unset (ht : m.table = {})
    (hall : ∀ j, Everywhere (Hosted υ) (after eng m j)) (h : Unset eng m υ n c) :
    (after eng m n).table.slot c = none := by
  rw [slots_run (Bridge.system eng) ht n c]
  cases hl : Dispatch.latest (m.installs (Bridge.system eng) n) c with
  | none => rfl
  | some i =>
    obtain ⟨j, hj, hi, -⟩ := latest_installs_eq_some _ m hl
    obtain ⟨s, hs⟩ := setsAt_of_mem_installing (hall j) hi
    have := (hs.mem_installing.mp hi).1
    rw [h j hj s hs] at this
    cases this

theorem decides_of_slot (ht : m.table = {})
    (hall : ∀ j, Everywhere (Hosted υ) (after eng m j))
    {i : Installed (Bridge.Command σ) Reply}
    (hi : (after eng m n).table.slot c = some i) :
    ∃ k, ∃ s : Callbacks (Bridge.Command σ) Reply υ, ∃ f, Decides eng m n c k s f ∧
      i.handler = s.handler := by
  rw [slots_run (Bridge.system eng) ht n c] at hi
  obtain ⟨k, hk, hmem, hlater⟩ := latest_installs_eq_some _ m hi
  obtain ⟨s, hs⟩ := setsAt_of_mem_installing (hall k) hmem
  obtain ⟨hsome, rfl⟩ := hs.mem_installing.mp hmem
  obtain ⟨f, hf⟩ := Option.isSome_iff_exists.mp hsome
  refine ⟨k, s, f, ⟨hk, hs, hf, fun j hkj hj s' hs' => ?_⟩, rfl⟩
  by_contra hne
  exact hlater j hkj hj _ (hs'.mem_installing.mpr ⟨Option.isSome_iff_ne_none.mpr hne, rfl⟩)

end Slot

/-! ### What a notification brings about -/

/-- **Callbacks of several sets, merged,** at step `n` of a run. -/
structure Merging (υ : Type) (n : ℕ) : Prop where
  /-- A notification calls the callback of the deciding call, with the user data of that call. -/
  called : ∀ es x h k, ∀ s : Callbacks (Bridge.Command σ) Reply υ, ∀ f,
    Giving (Bridge.system eng) (after eng m n) es x h →
    Decides eng m n x.category k s f →
    h = some ⟨(after eng m k).calls.length, s.label⟩ ∧
      ∃ times rest, times = (after eng m n).calls.getD
          (after eng m k).calls.length 0 ∧
        (after eng m (n + 1)).stack =
          .run (f times (.ofNotification x) s.userData) :: .rest rest true ::
            (after eng m n).waiting
  /-- It calls none if no call decides. -/
  dropped : ∀ es x h, Giving (Bridge.system eng) (after eng m n) es x h →
    Unset eng m υ n x.category →
    h = none ∧ ∃ rest, (after eng m (n + 1)).stack =
      .rest rest false :: (after eng m n).waiting
  /-- One or the other is the case. -/
  decided : ∀ c, (∃ k, ∃ s : Callbacks (Bridge.Command σ) Reply υ, ∃ f, Decides eng m n c k s f) ∨
    Unset eng m υ n c
  /-- A filled slot never swallows a notification: its handler calls a callback. -/
  answers : ∀ c i, (after eng m n).table.slot c = some i →
    ∃ k, ∃ s : Callbacks (Bridge.Command σ) Reply υ, ∃ f, Decides eng m n c k s f ∧
      ∀ times x, x.category = c →
        i.handler.react times x = f times (.ofNotification x) s.userData
  /-- A call with a bad argument or without any callback is refused; nothing is done for it. -/
  refused : ∀ h, ∀ callbacks : Option (Callbacks (Bridge.Command σ) Reply υ), ∀ next below,
    (after eng m n).stack = .run (installCallbacks h callbacks next) :: below →
    (h = none ∨ callbacks = none ∨ ∃ s, callbacks = some s ∧ ∀ c, s.function c = none) →
    (after eng m n).stack = .run (next .invalidArgument) :: below
  /-- Any other call succeeds. It fills the slots for which it has callbacks, and leaves the others
  and the bridge. -/
  accepted : ∀ settings, ∀ s : Callbacks (Bridge.Command σ) Reply υ, ∀ next below,
    (after eng m n).stack =
      .run (installCallbacks (some settings) (some s) next) :: below →
    (∃ c, s.function c ≠ none) →
    (after eng m (n + 1)).stack = .run (next .ok) :: below ∧
      (after eng m (n + 1)).state = (after eng m n).state ∧
      ∀ c, (after eng m (n + 1)).table.slot c =
        if (s.function c).isSome then some ⟨(after eng m n).calls.length, s.handler⟩
        else (after eng m n).table.slot c

section Merging
variable {eng m}

theorem SetsAt.step {m : Bridge.Machine σ} {s : Callbacks (Bridge.Command σ) Reply υ}
    {settings : Settings} {next : Code → Bridge.Program σ}
    {below : List (Dispatch.Frame (Bridge.Command σ) Rest Reply)} (hs : s.set.categories ≠ [])
    (hstack : m.stack = .run (installCallbacks (some settings) (some s) next) :: below) :
    (m.step (Bridge.system eng)).stack = .run (next .ok) :: below ∧
      (m.step (Bridge.system eng)).state = m.state ∧
      ∀ c, (m.step (Bridge.system eng)).table.slot c =
        if (s.function c).isSome then some ⟨m.calls.length, s.handler⟩ else m.table.slot c := by
  rw [installCallbacks_eq_install settings hs] at hstack
  have hstep : m.step (Bridge.system eng) =
      { (m.install s.set.categories s.handler).2 with stack := .run (next .ok) :: below } := by
    unfold Dispatch.Machine.step
    rw [hstack]
  rw [hstep]
  refine ⟨rfl, rfl, fun c => ?_⟩
  refine (HandlerTable.slot_installAll _ c _ _).trans ?_
  exact if_congr Callbacks.mem_categories rfl rfl

theorem decides_or_unset (ht : m.table = {})
    (hall : ∀ j, Everywhere (Hosted υ) (after eng m j)) (n : ℕ) (c : Category) :
    (∃ k, ∃ s : Callbacks (Bridge.Command σ) Reply υ, ∃ f, Decides eng m n c k s f) ∨
      Unset eng m υ n c := by
  cases hi : (after eng m n).table.slot c with
  | some i =>
    obtain ⟨k, s, f, h, -⟩ := decides_of_slot ht hall hi
    exact Or.inl ⟨k, s, f, h⟩
  | none =>
    refine Or.inr fun k hk s hs => ?_
    by_contra hne
    have hmem := hs.mem_installing.mpr ⟨Option.isSome_iff_ne_none.mpr hne, rfl⟩
    rw [slots_run (Bridge.system eng) ht n c] at hi
    exact Dispatch.latest_eq_none_iff.mp hi _ (mem_installs _ m hk hmem)

theorem merging (ht : m.table = {}) (hst : Stacked m.stack)
    (hall : ∀ j, Everywhere (Hosted υ) (after eng m j)) (n : ℕ) :
    Merging eng m υ n where
  called es x h k s f hx hd := by
    have hslot := slot_of_decides ht hall hd
    obtain ⟨rfl, -, -, rest, -, -, -, -, hstack⟩ :=
      step_giving (Bridge.system eng) (stacked_run _ hst n) hx
    refine ⟨by rw [hslot]; rfl, _, rest, rfl, ?_⟩
    rw [after_succ, hstack, heard, hslot]
    dsimp only
    rw [Callbacks.react_handler hd.function _ rfl]
    rfl
  dropped es x h hx hu := by
    have hslot := slot_of_unset ht hall hu
    obtain ⟨rfl, -, -, rest, -, -, -, -, hstack⟩ :=
      step_giving (Bridge.system eng) (stacked_run _ hst n) hx
    refine ⟨by rw [hslot]; rfl, rest, ?_⟩
    rw [after_succ, hstack, heard, hslot]
    rfl
  decided := decides_or_unset ht hall n
  answers c i hi := by
    obtain ⟨k, s, f, hd, hhandler⟩ := decides_of_slot ht hall hi
    refine ⟨k, s, f, hd, fun times x hx => ?_⟩
    rw [hhandler]
    exact Callbacks.react_handler hd.function times hx
  refused h callbacks next below hstack hbad := by
    rw [hstack, installCallbacks_eq_refused hbad]
  accepted settings s next below hstack hsome := by
    rw [after_succ]
    refine SetsAt.step (fun hnil => ?_) hstack
    obtain ⟨c, hc⟩ := hsome
    exact hc (Callbacks.categories_eq_nil_iff.mp hnil c)

/-- **Sets of callbacks are merged** at every step of every run of a host program: a notification
calls the callback of the latest call with a callback for its category, with the user data of that
call, or none. -/
theorem callbacks_merged (eng : Engine σ) (b : Bridge σ) {p : Bridge.Program σ} (hp : Hosted υ p)
    (n : ℕ) : Merging eng (Dispatch.Machine.load { state := b } p) υ n := by
  have hst : Stacked (Dispatch.Machine.load { state := b } p : Bridge.Machine σ).stack := trivial
  refine merging rfl hst (fun j => everywhere_run _ hosted_passedOn hst ⟨fun f hf => ?_, nofun⟩ j) n
  rw [List.mem_singleton.mp hf]
  exact hp

end Merging

section Demo

open Bench

/-- Callbacks for some categories, which leave the user data as a remark. -/
def signing (userData : String) (cs : List Category) :
    Callbacks (Bridge.Command ScriptedEngine) Reply String where
  label := userData
  function c := if c ∈ cs then some fun _ _ text => .remark text .done else none
  userData

theorem signing_hosted (userData : String) (cs : List Category) (c : Category)
    (f : ℕ → CallbackCall → String → Bridge.Program ScriptedEngine)
    (hf : (signing userData cs).function c = some f) (times : ℕ) (call : CallbackCall) :
    Hosted String (f times call userData) := by
  simp only [signing, Option.ite_none_right_eq_some, Option.some.injEq] at hf
  obtain ⟨-, rfl⟩ := hf
  exact .remark _ .done

/-- A host that sets callbacks twice; the second time for one of the two categories only. -/
def settingTwice : Bridge.Program ScriptedEngine :=
  installCallbacks (some {}) (some (signing "first" [.resourceChanged, .gatewayNotification]))
    fun _ => installCallbacks (some {}) (some (signing "second" [.resourceChanged])) fun _ =>
      .command (.start none) fun _ => .command (.push (.resourceChanged "a" "/p" [] [])) fun _ =>
        .command (.push (.gatewayNotification "s" [])) fun _ => .command .cycle fun _ => .done

theorem settingTwice_hosted : Hosted String settingTwice := by
  refine .set _ _ (fun s hs => ?_) fun _ => .set _ _ (fun s hs => ?_) fun _ =>
    .command _ fun _ => .command _ fun _ => .command _ fun _ => .command _ fun _ => .done
  · obtain rfl := Option.some.inj hs
    exact signing_hosted _ _
  · obtain rfl := Option.some.inj hs
    exact signing_hosted _ _

/-- The resource is reported to the second set, and the group message to the first. -/
theorem callbacks_merged_twice :
    ∃ b, Bridge.make {} ({} : ScriptedEngine) = .ok b ∧ Hosted String settingTwice ∧
      Merging ScriptedEngine.engine (Dispatch.Machine.load { state := b } settingTwice) String 5 ∧
      (((Dispatch.Machine.load { state := b } settingTwice : Bridge.Machine _).run
        (Bridge.system ScriptedEngine.engine) 12).trace.filterMap fun
          | .remarked text => some text
          | _ => none) = ["second", "first"] := by
  have hb : Bridge.make {} ({} : ScriptedEngine) = .ok _ := rfl
  refine ⟨_, hb, settingTwice_hosted, callbacks_merged _ _ settingTwice_hosted 5, ?_⟩
  decide +kernel

end Demo

end Host

end KnxIoT
