import KnxIoT.Bridge.Command
import KnxIoT.Proofs.Lists

/-! # What a trace says about tokens

A trace alone tells what every token stands for: it begins to stand for something when a command
returns it, and stops when an event settles it or when everything pending is given up. `ledger`
reads this off a trace entry by entry; `Open` says the same by positions, and `ledger_eq_some_iff`
that both agree when no token is given out twice.

`Law` relates the notifications of a trace with that reading: an event that settles an open token
is followed at once by the notification it brings (`told`), and the notifications that end a
request or a handshake have no other cause, refusals apart (`caused`). -/

namespace KnxIoT

/-- The token that a reply gives out. -/
def Reply.granted? : Reply → Option Token
  | .token (.ok t) => some t
  | _ => none

/-- Whether an event closes a token that stands for the given thing. -/
def EngineEvent.settles (e : EngineEvent) (t : Token) (p : Pending) : Bool :=
  match e, p with
  | .response t' .., .request _ => t' = t
  | .discoveryReply t' .., .discovery false => t' = t
  | .handshakeResult t' .., .handshake _ => t' = t
  | _, _ => false

/-- Whether an event is of the kind that a token for the given thing is there for. -/
def EngineEvent.fits : EngineEvent → Pending → Bool
  | .response .., .request _ => true
  | .discoveryReply .., .discovery _ => true
  | .handshakeResult .., .handshake _ => true
  | _, _ => false

/-- The notification that an event brings as the outcome of what its token stands for. -/
def EngineEvent.news? (e : EngineEvent) (p : Pending) : Option Notification :=
  match e, p with
  | .response _ status format payload _, .request c =>
    let r := Correlator.renderResponse status format payload
    some (.clientResponse c.identifier status r.format c.tag c.path r.text)
  | .handshakeResult _ status identity secret, .handshake identifier =>
    some (.handshakeResult identifier status identity secret)
  | _, _ => none

/-- A notification that ends a request or a handshake. -/
def Notification.IsFinal (n : Notification) : Prop :=
  n.category = .clientResponse ∨ n.category = .handshakeResult

namespace Bridge

variable {σ : Type} (s : Settings)

/-- What a token stands for that a command gives out. -/
def opens? : Command σ → Option Pending
  | .submit r => some (.request ⟨r.identifier, r.path, r.tag⟩)
  | .discover .. => some (.discovery (s.discoveryMode = .continuous))
  | .discoverDefault => some (.discovery (s.discoveryMode = .continuous))
  | .handshake identifier _ => some (.handshake identifier)
  | _ => none

/-- The token that is given out at an entry, with what it stands for. -/
def issue? : Entry σ → Option (Token × Pending)
  | .returned c r =>
    match r.granted?, opens? s c with
    | some t, some p => some (t, p)
    | _, _ => none
  | _ => none

/-- Whether an entry is where everything pending is given up: the bridge is told to stop. -/
def abandons : Entry σ → Bool
  | .called .stop => true
  | .called .dispose => true
  | .happened (.engine (.init _) InitAnswer.readyButStopped) => true
  | _ => false

/-- Whether a token that stands for the given thing no longer does so after an entry. -/
def closes (t : Token) (p : Pending) : Entry σ → Bool
  | .happened (.taken e) => e.settles t p
  | x => abandons x

/-! ### The ledger -/

/-- What the tokens stand for after one more entry. -/
def post (L : Token → Option Pending) (x : Entry σ) (t : Token) : Option Pending :=
  match issue? s x with
  | some (t', p) => if t = t' then some p else L t
  | none => (L t).filter fun p => !closes t p x

/-- What the tokens stand for after further entries. -/
def replay (L : Token → Option Pending) (es : List (Entry σ)) : Token → Option Pending :=
  es.foldl (post s) L

/-- **What the tokens stand for after a trace.** -/
def ledger (tr : List (Entry σ)) : Token → Option Pending := replay s (fun _ => none) tr

/-- No token is given out twice in a trace. -/
def Distinct (tr : List (Entry σ)) : Prop :=
  ∀ (i j : ℕ) (x y : Entry σ) (t : Token) (p q : Pending), tr[i]? = some x →
    issue? s x = some (t, p) → tr[j]? = some y → issue? s y = some (t, q) → i = j

/-- **The token still stands for the given thing after a trace:** it was given out for it, and
nothing has closed it since. -/
def Open (tr : List (Entry σ)) (t : Token) (p : Pending) : Prop :=
  ∃ (i : ℕ) (x : Entry σ), tr[i]? = some x ∧ issue? s x = some (t, p) ∧
    ∀ (j : ℕ) (y : Entry σ), i < j → tr[j]? = some y → closes t p y = false

variable {s}

theorem replay_append (L : Token → Option Pending) (es fs : List (Entry σ)) :
    replay s L (es ++ fs) = replay s (replay s L es) fs := List.foldl_append

@[simp] theorem replay_nil (L : Token → Option Pending) :
    replay s L ([] : List (Entry σ)) = L := rfl

@[simp] theorem replay_cons (L : Token → Option Pending) (x : Entry σ) (es : List (Entry σ)) :
    replay s L (x :: es) = replay s (post s L x) es := rfl

theorem post_eq_self {x : Entry σ} (hi : issue? s x = none) (hc : ∀ t p, closes t p x = false)
    (L : Token → Option Pending) : post s L x = L := by
  funext t
  unfold post
  rw [hi]
  cases L t with
  | none => rfl
  | some p => simp [hc]

theorem replay_eq_self {es : List (Entry σ)} (hi : ∀ x ∈ es, issue? s x = none)
    (hc : ∀ x ∈ es, ∀ t p, closes t p x = false) (L : Token → Option Pending) :
    replay s L es = L := by
  induction es with
  | nil => rfl
  | cons x es ih =>
    rw [replay_cons, post_eq_self (hi x (by simp)) (hc x (by simp))]
    exact ih (fun y hy => hi y (by simp [hy])) fun y hy => hc y (by simp [hy])

theorem post_of_abandons {x : Entry σ} (h : abandons x = true) (L : Token → Option Pending) :
    post s L x = fun _ => none := by
  funext t
  have hi : issue? s x = none := by
    unfold abandons at h
    split at h <;> first | rfl | cases h
  have hc : ∀ p, closes t p x = true := by
    intro p
    unfold closes
    split
    · simp [abandons] at h
    · exact h
  unfold post
  simp [hi, hc]

/-- An entry that gives out a token closes none. -/
theorem closes_of_issue {x : Entry σ} {t u : Token} {p q : Pending}
    (h : issue? s x = some (t, p)) : closes u q x = false := by
  unfold issue? at h
  split at h
  · rfl
  · cases h

theorem Distinct.init {tr : List (Entry σ)} {x : Entry σ} (h : Distinct s (tr ++ [x])) :
    Distinct s tr := by
  intro i j y z t p q hi hy hj hz
  refine h i j y z t p q ?_ hy ?_ hz
  · rw [List.getElem?_append_left (List.getElem?_eq_some_iff.mp hi).1]; exact hi
  · rw [List.getElem?_append_left (List.getElem?_eq_some_iff.mp hj).1]; exact hj

/-- **Being open, one entry later.** -/
theorem open_concat {tr : List (Entry σ)} {x : Entry σ} {t : Token} {p : Pending} :
    Open s (tr ++ [x]) t p ↔ issue? s x = some (t, p) ∨ (Open s tr t p ∧ closes t p x = false) := by
  constructor
  · rintro ⟨i, y, hi, hy, hc⟩
    by_cases hl : i = tr.length
    · subst hl
      simp only [List.getElem?_concat_length, Option.some.injEq] at hi
      subst hi
      exact Or.inl hy
    · have hi' := Lists.getElem?_concat_of_ne hi hl
      have hlt := (List.getElem?_eq_some_iff.mp hi').1
      refine Or.inr ⟨⟨i, y, hi', hy, fun j z hij hj => hc j z hij ?_⟩, hc tr.length x hlt (by simp)⟩
      rw [List.getElem?_append_left (List.getElem?_eq_some_iff.mp hj).1]; exact hj
  · rintro (h | ⟨⟨i, y, hi, hy, hc⟩, hx⟩)
    · refine ⟨tr.length, x, by simp, h, fun j z hj hz => ?_⟩
      rw [List.getElem?_eq_none (by simp; omega)] at hz
      cases hz
    · have hlt := (List.getElem?_eq_some_iff.mp hi).1
      refine ⟨i, y, by rw [List.getElem?_append_left hlt]; exact hi, hy, fun j z hij hj => ?_⟩
      by_cases hl : j = tr.length
      · subst hl
        simp only [List.getElem?_concat_length, Option.some.injEq] at hj
        subst hj
        exact hx
      · exact hc j z hij (Lists.getElem?_concat_of_ne hj hl)

/-- **The ledger holds exactly what is open.** -/
theorem ledger_eq_some_iff {tr : List (Entry σ)} (hd : Distinct s tr) {t : Token} {p : Pending} :
    ledger s tr t = some p ↔ Open s tr t p := by
  induction tr using List.reverseRecOn with
  | nil => exact ⟨(nomatch ·), fun ⟨i, x, hi, _⟩ => by simp at hi⟩
  | append_singleton tr x ih =>
    have ih := ih hd.init
    have hl : ledger s (tr ++ [x]) t = post s (ledger s tr) x t := by
      unfold ledger; rw [replay_append]; rfl
    rw [hl, open_concat, ← ih]
    unfold post
    cases hx : issue? s x with
    | none => simp [Option.filter_eq_some_iff]
    | some tp =>
      obtain ⟨t', q⟩ := tp
      simp only [Option.some.injEq, Prod.mk.injEq, closes_of_issue hx, and_true]
      split_ifs with ht
      · subst ht
        constructor
        · rintro h; cases h; exact Or.inl ⟨rfl, rfl⟩
        · rintro (⟨-, rfl⟩ | h)
          · rfl
          · obtain ⟨i, y, hi, hy, -⟩ := ih.mp h
            have hlt := (List.getElem?_eq_some_iff.mp hi).1
            have := hd i tr.length y x t p q (by rw [List.getElem?_append_left hlt]; exact hi) hy
              (by simp) hx
            omega
      · constructor
        · exact Or.inr
        · rintro (⟨rfl, -⟩ | h)
          · exact absurd rfl ht
          · exact h

/-! ### The law of a trace -/

variable (s)

/-- A command that is refused at once may say so to a handler. -/
def Refusal : Command σ → Notification → Prop
  | .submit r, n =>
    s.synthesizeRejections = true ∧
      (n = rejection r .unknownDevice ∨ n = rejection r .submissionFailed)
  | .handshake identifier _, n => n = .handshakeResult identifier (-1) [] []
  | _, _ => False

/-- A happening that is no event's being taken from the queue. -/
def NotTaken (x : Happening) : Prop := ∀ e, x ≠ .taken e

/-- **Why a final notification follows a trace:** it is the outcome of what the token of the event
just taken stood for, or a command in progress was refused. -/
def Cause (L : Token → Option Pending) (pre : List (Entry σ)) (n : Notification) : Prop :=
  (∃ (pre' : List (Entry σ)) (e : EngineEvent) (t : Token) (p : Pending),
    pre = pre' ++ [.happened (.taken e)] ∧ e.token? = some t ∧
      replay s L pre' t = some p ∧ e.news? p = some n) ∨
  ∃ (pre' : List (Entry σ)) (c : Command σ) (hs : List Happening),
    pre = pre' ++ .called c :: hs.map .happened ∧ (∀ x ∈ hs, NotTaken x) ∧ Refusal s c n

/-- **The law of the entries that follow when the tokens stand for `L`.** -/
structure Law (L : Token → Option Pending) (es : List (Entry σ)) : Prop where
  /-- An event that brings news of what its token stands for is told to somebody at once. -/
  told : ∀ pre post e t p n, es = pre ++ .happened (.taken e) :: post → e.token? = some t →
    replay s L pre t = some p → e.news? p = some n → ∃ h rest, post = .notified n h :: rest
  /-- A final notification has a cause. -/
  caused : ∀ pre n h post, es = pre ++ .notified n h :: post → n.IsFinal → Cause s L pre n

variable {s}

theorem Cause.append_left {L : Token → Option Pending} {es pre : List (Entry σ)} {n : Notification}
    (h : Cause s (replay s L es) pre n) : Cause s L (es ++ pre) n := by
  rcases h with ⟨pre', e, t, p, rfl, he, hp, hn⟩ | ⟨pre', c, hs, rfl, hq, hr⟩
  · exact Or.inl ⟨es ++ pre', e, t, p, by simp, he, by rw [replay_append]; exact hp, hn⟩
  · exact Or.inr ⟨es ++ pre', c, hs, by simp, hq, hr⟩

theorem Law.append {L : Token → Option Pending} {es fs : List (Entry σ)} (he : Law s L es)
    (hf : Law s (replay s L es) fs) : Law s L (es ++ fs) where
  told pre post e t p n h ht hp hn := by
    rcases List.append_eq_append_iff.mp h with ⟨as, rfl, hfs⟩ | ⟨bs, rfl, hbs⟩
    · rw [replay_append] at hp
      exact hf.told as post e t p n hfs ht hp hn
    · cases bs with
      | nil => exact hf.told [] post e t p n (by simpa using hbs.symm) ht (by simpa using hp) hn
      | cons b bs =>
        simp only [List.cons_append, List.cons.injEq] at hbs
        obtain ⟨rfl, rfl⟩ := hbs
        obtain ⟨hd, rest, rfl⟩ := he.told pre bs e t p n rfl ht hp hn
        exact ⟨hd, rest ++ fs, rfl⟩
  caused pre n hd post h hn := by
    rcases List.append_eq_append_iff.mp h with ⟨as, rfl, hfs⟩ | ⟨bs, rfl, hbs⟩
    · exact (hf.caused as n hd post hfs hn).append_left
    · cases bs with
      | nil =>
        have := (hf.caused [] n hd post (by simpa using hbs.symm) hn).append_left
        simpa using this
      | cons b bs =>
        simp only [List.cons_append, List.cons.injEq] at hbs
        obtain ⟨rfl, rfl⟩ := hbs
        exact he.caused pre n hd bs rfl hn

theorem law_of_quiet {L : Token → Option Pending} {es : List (Entry σ)}
    (ht : ∀ e, .happened (.taken e) ∉ es) (hn : ∀ n h, .notified n h ∉ es) : Law s L es where
  told pre post e t p n h := absurd (h ▸ by simp) (ht e)
  caused pre n hd post h := absurd (h ▸ by simp) (hn n hd)

end Bridge

end KnxIoT
