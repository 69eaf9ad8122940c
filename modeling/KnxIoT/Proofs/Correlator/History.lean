import KnxIoT.Proofs.Correlator.Table
import Mathlib.Data.List.Induction
import Mathlib.Data.List.Nodup
import Mathlib.Data.List.Range

/-! # The correlator: its history

What is pending is read off the history of operations and answers: an entry begins where a token is
given out for it and ends at the first later operation that `removes` it. `waiting` lists the
entries that have begun and not ended, and `kept_run` proves it equal to the table, as long as the
numbers of the tokens do not run out. `table_lawful` collects what follows. -/

namespace KnxIoT.Correlator

/-! ### Operations and their history -/

/-- What is asked of a correlator. -/
inductive Operation where
  | issue (p : Pending)
  | discard (t : Token)
  | take (t : Token)
  | takeHandshake (t : Token)
  | acceptReply (t : Token)
  | complete (t : Token) (status : Status) (format : ContentFormat) (payload : Bytes)
  | abandonAll

/-- What it answers. -/
inductive Answer where
  | issued (r : Except BridgeError Token)
  | discarded
  | taken (p : Option Pending)
  | handshake (identifier : Option String)
  | accepted (yes : Bool)
  | completed (n : Option Notification)
  /-- So many entries were pending. -/
  | abandoned (n : ℕ)

/-- Carries out an operation. -/
def perform (c : Correlator) : Operation → Answer × Correlator
  | .issue p =>
    match c.issue p with
    | .ok (t, c') => (.issued (.ok t), c')
    | .error e => (.issued (.error e), c)
  | .discard t => (.discarded, c.discard t)
  | .take t => ((c.take t).map .taken id)
  | .takeHandshake t => (c.takeHandshake t).map .handshake id
  | .acceptReply t => (c.acceptReply t).map .accepted id
  | .complete t status format payload => (c.complete t status format payload).map .completed id
  | .abandonAll => (.abandoned c.count, c.abandonAll)

/-- Operations with their answers, in order. -/
abbrev History := List (Operation × Answer)

/-- A correlator and its history after one more operation. -/
def act (x : Correlator × History) (o : Operation) : Correlator × History :=
  ((x.1.perform o).2, x.2 ++ [(o, (x.1.perform o).1)])

/-- **The correlator of the given capacity after some operations,** with their history. -/
def run (capacity : ℕ) (os : List Operation) : Correlator × History :=
  os.foldl act ({ capacity }, [])

/-- The token that is given out by an operation, with what it stands for. -/
def granted? : Operation × Answer → Option (Token × Pending)
  | (.issue p, .issued (.ok t)) => some (t, p)
  | _ => none

/-- The tokens that were given out, in order. -/
def given (h : History) : List (Token × Pending) := h.filterMap granted?

/-- Whether an operation ends an entry. -/
def Operation.removes : Operation → Token × Pending → Bool
  | .discard t, (u, _) => u = t
  | .take t, (u, _) => u = t
  | .takeHandshake t, (u, .handshake _) => u = t
  | .acceptReply t, (u, .discovery false) => u = t
  | .complete t .., (u, .request _) => u = t
  | .abandonAll, _ => true
  | _, _ => false

/-- The token that an operation closes if it is of the right kind. -/
def Operation.closes? : Operation → Option Token
  | .takeHandshake t => some t
  | .acceptReply t => some t
  | .complete t .. => some t
  | _ => none

/-- **The entries that have begun and not ended.** -/
def waiting : History → List (Token × Pending)
  | [] => []
  | x :: h => (granted? x).toList.filter (fun e => !h.any (·.1.removes e)) ++ waiting h

/-- The entries that have ended. -/
def removed : History → List (Token × Pending)
  | [] => []
  | x :: h => (granted? x).toList.filter (fun e => h.any (·.1.removes e)) ++ removed h

/-- **What is so of a correlator** of the given capacity after a history. -/
structure Lawful (capacity : ℕ) (h : History) (c : Correlator) : Prop where
  /-- Every token is greater than those before it. -/
  ascending : ((given h).map (·.1.raw)).Pairwise (· < ·)
  positive : ∀ e ∈ given h, e.1.raw ≠ 0
  distinct : ((given h).map (·.1)).Nodup
  /-- The next token is greater than all before, and the table is as before but for its entry. -/
  issued : ∀ p t c', c.issue p = .ok (t, c') → t.raw ≠ 0 ∧ (∀ e ∈ given h, e.1.raw < t.raw) ∧
    c'.table = c.table ++ [(t, p)]
  /-- None is given out exactly when the capacity is reached, and then nothing changes. -/
  refused : ∀ p, (∃ e, c.issue p = .error e) ↔ capacity ≠ 0 ∧ c.count = capacity
  unchanged : ∀ p e, c.issue p = .error e →
    e = .tooManyPending capacity ∧ (c.perform (.issue p)).2 = c
  bounded : capacity ≠ 0 → c.count ≤ capacity
  count : c.count + (removed h).length = (given h).length
  /-- A token stands for what it was given out for, until an operation removes it. -/
  find : ∀ t p, c.find? t = some p ↔ ∃ before x after, h = before ++ x :: after ∧
    granted? x = some (t, p) ∧ ∀ y ∈ after, y.1.removes (t, p) = false
  /-- An operation on a token of one kind removes this token only, or changes nothing. -/
  selective : ∀ o t, o.closes? = some t →
    (∃ p, c.find? t = some p ∧ o.removes (t, p) = true) ∧
        (c.perform o).2 = { c with table := c.table.filter (·.1 ≠ t) } ∨
      (∀ p, c.find? t = some p → o.removes (t, p) = false) ∧ (c.perform o).2 = c
  /-- The answers are of what the token stands for. -/
  answers : ∀ t, (c.perform (.take t)).1 = .taken (c.find? t) ∧
    (∀ i, (c.perform (.takeHandshake t)).1 = .handshake (some i) ↔
      c.find? t = some (.handshake i)) ∧
    ((c.perform (.acceptReply t)).1 = .accepted true ↔ ∃ k, c.find? t = some (.discovery k)) ∧
    ∀ status format payload,
      (∃ n, (c.perform (.complete t status format payload)).1 = .completed (some n)) ↔
        ∃ x, c.find? t = some (.request x)
  /-- An entry that is taken out and put back leaves the table as it was. -/
  restored : ∀ t p, c.find? t = some p → ((t, p) :: c.table.filter (·.1 ≠ t)).Perm c.table

/-! ### Reading the history from the right -/

section Concat
variable {h : History} {x : Operation × Answer} {t : Token} {p : Pending}

theorem run_concat (capacity : ℕ) (os : List Operation) (o : Operation) :
    run capacity (os ++ [o]) = act (run capacity os) o := by
  simp [run]

theorem given_cons (x : Operation × Answer) (h : History) :
    given (x :: h) = (granted? x).toList ++ given h := by
  unfold given
  cases hx : granted? x <;> simp [hx]

theorem given_concat (h : History) (x : Operation × Answer) :
    given (h ++ [x]) = given h ++ (granted? x).toList := by
  unfold given
  rw [List.filterMap_append]
  cases hx : granted? x <;> simp [hx]

theorem waiting_concat (h : History) (x : Operation × Answer) : waiting (h ++ [x]) =
    (waiting h).filter (fun e => !x.1.removes e) ++ (granted? x).toList := by
  induction h with
  | nil => simp [waiting]
  | cons y h ih =>
    rw [List.cons_append, waiting, waiting, ih, List.filter_append, List.filter_filter,
      List.append_assoc]
    congr 1
    refine List.filter_congr fun e _ => ?_
    rw [List.any_append, List.any_cons, List.any_nil, Bool.or_false, Bool.not_or, Bool.and_comm]

theorem mem_waiting : (t, p) ∈ waiting h ↔ ∃ before x after, h = before ++ x :: after ∧
    granted? x = some (t, p) ∧ ∀ y ∈ after, y.1.removes (t, p) = false := by
  induction h with
  | nil => simp [waiting]
  | cons y h ih =>
    rw [waiting, List.mem_append, ih, List.mem_filter, Option.mem_toList]
    constructor
    · rintro (⟨hy, hlater⟩ | ⟨before, x, after, rfl, hx, hafter⟩)
      · exact ⟨[], y, h, rfl, hy, by simpa using hlater⟩
      · exact ⟨y :: before, x, after, rfl, hx, hafter⟩
    · rintro ⟨before, x, after, heq, hx, hafter⟩
      cases before with
      | nil =>
        obtain ⟨rfl, rfl⟩ := List.cons_eq_cons.mp heq
        exact Or.inl ⟨hx, by simpa using hafter⟩
      | cons z before =>
        obtain ⟨rfl, rfl⟩ := List.cons_eq_cons.mp heq
        exact Or.inr ⟨before, x, after, rfl, hx, hafter⟩

theorem length_waiting (h : History) :
    (waiting h).length + (removed h).length = (given h).length := by
  induction h with
  | nil => rfl
  | cons x h ih =>
    have hx := List.length_eq_length_filter_add (l := (granted? x).toList)
      fun e => h.any (·.1.removes e)
    rw [waiting, removed, given_cons, List.length_append, List.length_append, List.length_append]
    omega

theorem waiting_sublist (h : History) : (waiting h).Sublist (given h) := by
  induction h with
  | nil => exact .slnil
  | cons x h ih =>
    rw [waiting, given_cons]
    exact List.filter_sublist.append ih

end Concat

/-! ### What the operations do to the table -/

section Table
variable {c : Correlator} {o : Operation} {t : Token} {p : Pending}

/-- **No token is given out** exactly when the capacity is reached. -/
theorem issue_refused_iff :
    (∃ e, c.issue p = .error e) ↔ c.capacity ≠ 0 ∧ c.capacity ≤ c.count := by
  have hfull : c.isFull = true ↔ c.capacity ≠ 0 ∧ c.capacity ≤ c.count := by simp [isFull]
  rw [← hfull]
  unfold Correlator.issue
  split_ifs with h <;> simp [h]

theorem removes_of_ne (ho : o.closes? = some t) {e : Token × Pending} (he : e.1 ≠ t) :
    o.removes e = false := by
  obtain ⟨u, q⟩ := e
  cases o <;> cases ho
  all_goals
    rcases q with _ | ⟨_ | _⟩ | _ <;> simp_all [Operation.removes]

/-- **An operation on a token of one kind** removes this token only, or changes nothing. -/
theorem perform_selective (ho : o.closes? = some t) :
    (∃ p, c.find? t = some p ∧ o.removes (t, p) = true) ∧ (c.perform o).2 = c.discard t ∨
      (∀ p, c.find? t = some p → o.removes (t, p) = false) ∧ (c.perform o).2 = c := by
  cases o <;> cases ho
  all_goals
    simp only [perform, takeHandshake, acceptReply, complete, takeRequest]
    rcases hf : c.find? t with _ | _ | ⟨_ | _⟩ | _
    all_goals simp [Operation.removes]

/-- **The answers** are of what the token stands for. -/
theorem perform_answers (c : Correlator) (t : Token) :
    (c.perform (.take t)).1 = .taken (c.find? t) ∧
    (∀ i, (c.perform (.takeHandshake t)).1 = .handshake (some i) ↔
      c.find? t = some (.handshake i)) ∧
    ((c.perform (.acceptReply t)).1 = .accepted true ↔ ∃ k, c.find? t = some (.discovery k)) ∧
    ∀ status format payload,
      (∃ n, (c.perform (.complete t status format payload)).1 = .completed (some n)) ↔
        ∃ x, c.find? t = some (.request x) := by
  simp only [perform, take, takeHandshake, acceptReply, complete, takeRequest]
  rcases hf : c.find? t with _ | _ | ⟨_ | _⟩ | _ <;> simp

/-- **What an operation removes** is no longer in the table; the rest stays. -/
theorem perform_table (hn : (c.table.map (·.1)).Nodup) (ho : ∀ p, o ≠ .issue p) :
    (c.perform o).2 = { c with table := c.table.filter fun e => !o.removes e } := by
  rcases hc : o.closes? with _ | t
  · cases o with
    | issue p => exact absurd rfl (ho p)
    | discard t => simp [perform, discard, Operation.removes]
    | take t => simp [perform, take, discard, Operation.removes]
    | abandonAll => simp [perform, abandonAll, Operation.removes]
    | _ => cases hc
  · rcases perform_selective (c := c) hc with ⟨⟨p, hp, hr⟩, heq⟩ | ⟨hr, heq⟩
    · have hsame : ∀ e ∈ c.table, decide (e.1 ≠ t) = !o.removes e := by
        rintro ⟨u, q⟩ he
        by_cases hu : u = t
        · subst hu
          obtain rfl : p = q := Option.some.inj (hp.symm.trans ((Lists.lookup_eq_some_iff_mem hn).mpr he))
          simp [hr]
        · simp [hu, removes_of_ne hc (e := (u, q)) hu]
      rw [heq, discard, List.filter_congr hsame]
    · have hall : ∀ e ∈ c.table, (!o.removes e) = true := by
        rintro ⟨u, q⟩ he
        by_cases hu : u = t
        · subst hu
          simp [hr q ((Lists.lookup_eq_some_iff_mem hn).mpr he)]
        · simp [removes_of_ne hc (e := (u, q)) hu]
      rw [heq, List.filter_eq_self.mpr hall]

end Table

/-! ### What is kept -/

/-- What every operation keeps: tokens are numbered in order, and the table is what waits. -/
structure Kept (capacity : ℕ) (h : History) (c : Correlator) : Prop where
  limit : c.capacity = capacity
  tokens : (given h).map (·.1) = (List.range c.issued).map Token.after
  table : c.table = waiting h
  bounded : capacity ≠ 0 → c.count ≤ capacity

section Kept
variable {capacity : ℕ} {h : History} {c : Correlator} {x : Correlator × History} {o : Operation}

theorem Kept.issued (hk : Kept capacity h c) : c.issued = (given h).length := by
  have hlen := congrArg List.length hk.tokens
  rw [List.length_map, List.length_map, List.length_range] at hlen
  exact hlen.symm

theorem Kept.number (hk : Kept capacity h c) {e : Token × Pending} (he : e ∈ given h) :
    ∃ i < c.issued, e.1 = .after i := by
  have hm : e.1 ∈ (given h).map (·.1) := List.mem_map.mpr ⟨e, he, rfl⟩
  rw [hk.tokens] at hm
  obtain ⟨i, hi, heq⟩ := List.mem_map.mp hm
  exact ⟨i, List.mem_range.mp hi, heq.symm⟩

theorem Kept.ascending (hk : Kept capacity h c) (hl : (given h).length < Token.limit) :
    ((given h).map (·.1.raw)).Pairwise (· < ·) := by
  have hraw : (given h).map (·.1.raw) = (List.range c.issued).map fun i => (Token.after i).raw := by
    have := congrArg (List.map Token.raw) hk.tokens
    simpa [List.map_map, Function.comp_def] using this
  rw [hraw, List.pairwise_map]
  refine List.pairwise_lt_range.imp_of_mem fun {i j} hi hj hij => ?_
  rw [List.mem_range, hk.issued] at hi hj
  rw [UInt64.lt_iff_toNat_lt, Token.toNat_after (by omega), Token.toNat_after (by omega)]
  omega

theorem Kept.distinct (hk : Kept capacity h c) (hl : (given h).length < Token.limit) :
    ((given h).map (·.1)).Nodup := by
  have hasc := List.pairwise_map.mp (hk.ascending hl)
  refine List.pairwise_map.mpr (hasc.imp fun {e e'} hlt heq => ?_)
  rw [heq] at hlt
  exact absurd hlt (UInt64.lt_irrefl _)

theorem raw_after_ne_zero {n : ℕ} (hn : n < Token.limit) : (Token.after n).raw ≠ 0 := by
  intro h0
  have hnum := Token.toNat_after hn
  rw [h0] at hnum
  cases hnum

theorem Kept.positive (hk : Kept capacity h c) (hl : (given h).length < Token.limit)
    {e : Token × Pending} (he : e ∈ given h) : e.1.raw ≠ 0 := by
  obtain ⟨i, hi, heq⟩ := hk.number he
  rw [heq]
  exact raw_after_ne_zero (hi.trans (hk.issued ▸ hl))

theorem Kept.nodup (hk : Kept capacity h c) (hl : (given h).length < Token.limit) :
    (c.table.map (·.1)).Nodup := by
  rw [hk.table]
  exact (hk.distinct hl).sublist ((waiting_sublist h).map _)

theorem Kept.fresh (hk : Kept capacity h c) (hl : (given h).length < Token.limit) : c.Fresh := by
  refine Bounded.find?_after (fun u p hu => ?_) (by rw [hk.issued]; exact hl)
  have hm := (Lists.lookup_eq_some_iff_mem (hk.nodup hl)).mp hu
  rw [hk.table] at hm
  obtain ⟨i, hi, heq⟩ := hk.number ((waiting_sublist h).subset hm)
  dsimp only at heq
  have hlt := hk.issued ▸ hi
  rw [heq, Token.toNat_after (by omega)]
  exact hi

/-- **The token that is given out next** is greater than all before. -/
theorem Kept.next (hk : Kept capacity h c) (hl : (given h).length < Token.limit) {p : Pending}
    {t : Token} {c' : Correlator} (hi : c.issue p = .ok (t, c')) :
    t.raw ≠ 0 ∧ (∀ e ∈ given h, e.1.raw < t.raw) ∧ c'.table = c.table ++ [(t, p)] := by
  have hlim : c.issued < Token.limit := hk.issued ▸ hl
  obtain ⟨ht, -⟩ := issue_eq_ok hi
  refine ⟨by rw [ht]; exact raw_after_ne_zero hlim, fun e he => ?_, table_issue (hk.fresh hl) hi⟩
  obtain ⟨i, hlt, heq⟩ := hk.number he
  rw [heq, ht, UInt64.lt_iff_toNat_lt, Token.toNat_after hlim, Token.toNat_after (hlt.trans hlim)]
  omega

theorem Kept.act_of_none (hk : Kept capacity x.2 x.1)
    (hnone : granted? (o, (x.1.perform o).1) = none)
    (heq : (x.1.perform o).2 = { x.1 with table := x.1.table.filter fun e => !o.removes e }) :
    Kept capacity (act x o).2 (act x o).1 := by
  unfold act
  dsimp only
  rw [heq]
  constructor
  · exact hk.limit
  · rw [given_concat, hnone, Option.toList_none, List.append_nil]
    exact hk.tokens
  · rw [waiting_concat, hnone, Option.toList_none, List.append_nil, hk.table]
  · intro hc
    exact (List.length_filter_le _ _).trans (hk.bounded hc)

/-- **Every operation keeps it.** -/
theorem Kept.act (hk : Kept capacity x.2 x.1) (hl : (given x.2).length < Token.limit) :
    Kept capacity (act x o).2 (act x o).1 := by
  cases o with
  | issue p =>
    have hall : ∀ l : List (Token × Pending),
        l.filter (fun e => !(Operation.issue p).removes e) = l :=
      fun l => List.filter_eq_self.mpr fun e _ => rfl
    rcases hi : x.1.issue p with e | ⟨t, c'⟩
    · refine hk.act_of_none ?_ ?_ <;> simp only [perform, hi]
      · rfl
      · rw [hall]
    · have htable := table_issue (hk.fresh hl) hi
      obtain ⟨ht, hissued, hcap, -⟩ := issue_eq_ok hi
      simp only [Correlator.act, perform, hi]
      constructor
      · rw [hcap, hk.limit]
      · rw [given_concat, List.map_append, hk.tokens, hissued, List.range_succ, List.map_append, ht]
        rfl
      · rw [waiting_concat, hall, htable, hk.table]
        rfl
      · intro hc
        have hlt : x.1.count < capacity := by
          by_contra hle
          obtain ⟨e, he⟩ := issue_refused_iff (c := x.1) (p := p).mpr
            (by rw [hk.limit]; exact ⟨hc, not_lt.mp hle⟩)
          rw [hi] at he
          cases he
        rw [count, htable, List.length_append]
        exact hlt
  | _ => exact hk.act_of_none rfl (perform_table (hk.nodup hl) nofun)

/-- **What is pending is what waits,** after any operations. -/
theorem kept_run (capacity : ℕ) (os : List Operation)
    (hl : (given (run capacity os).2).length < Token.limit) :
    Kept capacity (run capacity os).2 (run capacity os).1 := by
  induction os using List.reverseRecOn with
  | nil => exact ⟨rfl, rfl, rfl, fun _ => Nat.zero_le _⟩
  | append_singleton os o ih =>
    rw [run_concat] at hl ⊢
    have hle : (given (run capacity os).2).length < Token.limit := by
      refine lt_of_le_of_lt ?_ hl
      rw [Correlator.act, given_concat, List.length_append]
      exact Nat.le_add_right _ _
    exact (ih hle).act hle

end Kept

/-- **The table is lawful** after any operations, as long as fewer than 2 ^ 64 - 1 tokens were given
out. -/
theorem table_lawful (capacity : ℕ) (os : List Operation)
    (hl : (given (run capacity os).2).length < Token.limit) :
    Lawful capacity (run capacity os).2 (run capacity os).1 := by
  have hk := kept_run capacity os hl
  have hn := hk.nodup hl
  have hcount := length_waiting (run capacity os).2
  exact {
    ascending := hk.ascending hl
    positive := fun e he => hk.positive hl he
    distinct := hk.distinct hl
    issued := fun p t c' h => hk.next hl h
    refused := fun p => by
      rw [issue_refused_iff, hk.limit]
      exact and_congr_right fun hc =>
        ⟨fun hle => Nat.le_antisymm (hk.bounded hc) hle, fun heq => heq.ge⟩
    unchanged := fun p e h => ⟨by rw [issue_eq_error h, hk.limit], by rw [perform, h]⟩
    bounded := hk.bounded
    count := by rw [count, hk.table]; exact hcount
    find := fun t p => by
      rw [← mem_waiting, ← hk.table]
      exact Lists.lookup_eq_some_iff_mem hn
    selective := fun o t ho => perform_selective ho
    answers := perform_answers _
    restored := fun t p h => Lists.perm_of_lookup hn h }

/-- Two tokens may wait: one more is refused, a token of another kind is left alone, and the numbers
go on after all were abandoned. -/
def crowded : List Operation :=
  [.issue (.request ⟨"lamp", "/p/1", "a"⟩), .issue (.discovery true), .issue (.handshake "lamp"),
    .takeHandshake (.after 0), .acceptReply (.after 1), .complete (.after 0) .ok .json [],
    .issue (.discovery false), .abandonAll, .discard (.after 2), .issue (.handshake "door")]

theorem table_lawful_crowded :
    (given (run 2 crowded).2).map (·.1) = (List.range 4).map Token.after ∧
      (removed (run 2 crowded).2).length = 3 ∧
      (given (run 2 crowded).2).length < Token.limit ∧
      Lawful 2 (run 2 crowded).2 (run 2 crowded).1 :=
  ⟨by decide, by decide, by decide, table_lawful 2 crowded (by decide)⟩

end KnxIoT.Correlator
