import KnxIoT.Proofs.Bridge.Ledger

/-! # News in a trace

What the law of a trace says about its positions. `News s tr j e t p n`: the event `e` that is taken
at `j` brings the news `n` of what the token `t` stands for. `news_told`: it is told at the next
position. `news_of_notified`: what is told right after an event is its news. `news_unique`: a token
brings news once. `open_of_settles`: the first event that settles an open token finds it open. -/

namespace KnxIoT.Bridge

variable {σ : Type} {s : Settings} {tr : List (Entry σ)}

/-- At position `j` of a trace an event is taken that brings news of what its token stands for. -/
structure News (s : Settings) (tr : List (Entry σ)) (j : ℕ) (e : EngineEvent) (t : Token)
    (p : Pending) (n : Notification) : Prop where
  taken : tr[j]? = some (.happened (.taken e))
  token : e.token? = some t
  opened : Open s (tr.take j) t p
  news : e.news? p = some n

/-- Between two positions nobody stops the bridge. -/
def UnstoppedBetween (tr : List (Entry σ)) (i j : ℕ) : Prop :=
  ∀ k x, i < k → k < j → tr[k]? = some x → abandons x = false

theorem open_take_iff {j : ℕ} {t : Token} {p : Pending} : Open s (tr.take j) t p ↔
    ∃ i x, i < j ∧ tr[i]? = some x ∧ issue? s x = some (t, p) ∧
      ∀ k y, i < k → k < j → tr[k]? = some y → closes t p y = false := by
  constructor
  · rintro ⟨i, x, hi, hx, hc⟩
    rw [List.getElem?_take] at hi
    split_ifs at hi with hij
    refine ⟨i, x, hij, hi, hx, fun k y hik hkj hk => hc k y hik ?_⟩
    rw [List.getElem?_take, if_pos hkj, hk]
  · rintro ⟨i, x, hij, hi, hx, hc⟩
    refine ⟨i, x, by rw [List.getElem?_take, if_pos hij, hi], hx, fun k y hik hk => ?_⟩
    rw [List.getElem?_take] at hk
    split_ifs at hk with hkj
    exact hc k y hik hkj hk

theorem Distinct.take (hd : Distinct s tr) (j : ℕ) : Distinct s (tr.take j) := by
  intro i i' x y t p q hi hx hi' hy
  rw [List.getElem?_take] at hi hi'
  split_ifs at hi hi'
  exact hd i i' x y t p q hi hx hi' hy

theorem EngineEvent.settles_of_news? {e : EngineEvent} {t : Token} {p : Pending} {n : Notification}
    (ht : e.token? = some t) (hn : e.news? p = some n) : e.settles t p = true := by
  unfold EngineEvent.news? at hn
  split at hn
  · cases ht; simp [EngineEvent.settles]
  · cases ht; simp [EngineEvent.settles]
  · cases hn

theorem EngineEvent.news?_of_settles {e : EngineEvent} {t : Token} {p : Pending}
    (h : e.settles t p = true) (hp : ∀ c, p ≠ .discovery c) :
    e.token? = some t ∧ ∃ n, e.news? p = some n := by
  unfold EngineEvent.settles at h
  split at h
  · exact ⟨congrArg some (by simpa using h), _, rfl⟩
  · exact absurd rfl (hp false)
  · exact ⟨congrArg some (by simpa using h), _, rfl⟩
  · cases h

/-- **News is told at once.** -/
theorem news_told {j : ℕ} {e : EngineEvent} {t : Token} {p : Pending} {n : Notification}
    (hl : Law s (fun _ => none) tr) (hd : Distinct s tr) (h : News s tr j e t p n) :
    ∃ hd, tr[j + 1]? = some (.notified n hd) := by
  have hp : ledger s (tr.take j) t = some p := (ledger_eq_some_iff (hd.take j)).mpr h.opened
  obtain ⟨hn, rest, hrest⟩ :=
    hl.told _ _ e t p n (Lists.eq_take_append_cons_drop h.taken) h.token hp h.news
  refine ⟨hn, ?_⟩
  have hnext : (tr.drop (j + 1))[0]? = tr[j + 1 + 0]? := List.getElem?_drop
  rw [hrest] at hnext
  simpa using hnext.symm

/-- **What is told right after an event is the news that it brings.** -/
theorem news_of_notified {j : ℕ} {e : EngineEvent} {n : Notification} {h : Option HandlerName}
    (hl : Law s (fun _ => none) tr) (hd : Distinct s tr)
    (he : tr[j]? = some (.happened (.taken e))) (hn : tr[j + 1]? = some (.notified n h))
    (hf : n.IsFinal) : ∃ t p, News s tr j e t p n := by
  have hpre : tr.take (j + 1) = tr.take j ++ [.happened (.taken e)] := by
    obtain ⟨hlt, heq⟩ := List.getElem?_eq_some_iff.mp he
    rw [← heq, List.take_append_getElem]
  rcases hl.caused _ n h _ (Lists.eq_take_append_cons_drop hn) hf with ⟨pre, e', t, p, hp, ht, hop, hnews⟩ |
      ⟨pre, c, hs, hp, hnt, -⟩
  · rw [hpre] at hp
    obtain ⟨rfl, heq⟩ := List.append_inj' hp rfl
    cases heq
    exact ⟨t, p, he, ht, (ledger_eq_some_iff (hd.take j)).mp hop, hnews⟩
  · rw [hpre] at hp
    -- No event is taken between the beginning of a command and its refusal.
    rcases List.eq_nil_or_concat hs with rfl | ⟨hs', y, rfl⟩
    · have := (List.append_inj' hp rfl).2
      simp at this
    · rw [List.concat_eq_append, List.map_append, ← List.cons_append, ← List.append_assoc] at hp
      have := (List.append_inj' hp rfl).2
      simp only [List.map_cons, List.map_nil, List.cons.injEq, Dispatch.Entry.happened.injEq,
        and_true] at this
      exact absurd this.symm (hnt y (by simp) e)

/-- **Every final notification** is the news of the event just before it, or a refusal. -/
theorem news_or_refusal {k : ℕ} {n : Notification} {h : Option HandlerName}
    (hl : Law s (fun _ => none) tr) (hd : Distinct s tr) (hn : tr[k]? = some (.notified n h))
    (hf : n.IsFinal) : (∃ j e t p, k = j + 1 ∧ News s tr j e t p n) ∨
      ∃ i c, i < k ∧ tr[i]? = some (.called c) ∧ Refusal s c n ∧
        ∀ j x, i < j → j < k → tr[j]? = some x → ∃ y, x = .happened y ∧ NotTaken y := by
  have hlt : k < tr.length := (List.getElem?_eq_some_iff.mp hn).1
  rcases hl.caused _ n h _ (Lists.eq_take_append_cons_drop hn) hf with ⟨pre, e, t, p, hp, ht, hop, hnews⟩ |
      ⟨pre, c, hs, hp, hnt, hr⟩
  · have hlen := congrArg List.length hp
    simp only [List.length_take, List.length_append, List.length_cons, List.length_nil] at hlen
    have hk : k = pre.length + 1 := by omega
    have hpre : tr.take pre.length = pre := by
      have := congrArg (List.take pre.length) hp
      rwa [List.take_take, List.take_left, Nat.min_eq_left (by omega)] at this
    refine Or.inl ⟨pre.length, e, t, p, hk, ⟨?_, ht, ?_, hnews⟩⟩
    · have := congrArg (fun l => l[pre.length]?) hp
      simpa [List.getElem?_take, hk] using this
    · rw [hpre]
      exact (ledger_eq_some_iff (hpre ▸ hd.take pre.length)).mp hop
  · have hlen := congrArg List.length hp
    simp only [List.length_take, List.length_append, List.length_cons, List.length_map] at hlen
    have hget : ∀ j, j < k → tr[j]? = (pre ++ .called c :: hs.map .happened)[j]? := by
      intro j hj
      rw [← hp, List.getElem?_take, if_pos hj]
    refine Or.inr ⟨pre.length, c, by omega, ?_, hr, fun j x hij hjk hj => ?_⟩
    · rw [hget _ (by omega)]
      simp
    · rw [hget _ hjk, List.getElem?_append_right (by omega), List.getElem?_cons,
        if_neg (by omega), List.getElem?_map] at hj
      obtain ⟨y, hy, rfl⟩ := Option.map_eq_some_iff.mp hj
      exact ⟨y, rfl, hnt y (List.mem_of_getElem? hy)⟩

/-- **A token is settled once.** -/
theorem settled_unique {j j' : ℕ} {e e' : EngineEvent} {t : Token} {p p' : Pending}
    (hd : Distinct s tr) (hj : tr[j]? = some (.happened (.taken e))) (ho : Open s (tr.take j) t p)
    (he : e.settles t p = true) (hj' : tr[j']? = some (.happened (.taken e')))
    (ho' : Open s (tr.take j') t p') (he' : e'.settles t p' = true) : j = j' := by
  -- After the token is settled it is not open any more, as it is never given out again.
  have key : ∀ {j j' : ℕ} {e : EngineEvent} {p p' : Pending},
      tr[j]? = some (.happened (.taken e)) → Open s (tr.take j) t p → e.settles t p = true →
      Open s (tr.take j') t p' → ¬ j < j' := by
    intro j j' e p p' hj ho he ho' hlt
    obtain ⟨i, x, hij, hi, hx, -⟩ := open_take_iff.mp ho
    obtain ⟨i', x', -, hi', hx', hc⟩ := open_take_iff.mp ho'
    obtain rfl := hd i i' x x' t p p' hi hx hi' hx'
    rw [hi] at hi'
    cases hi'
    rw [hx] at hx'
    cases hx'
    have hclose := hc j _ hij hlt hj
    rw [closes, he] at hclose
    cases hclose
  have h₁ := key hj ho he ho'
  have h₂ := key hj' ho' he' ho
  omega

/-- **A token brings news once.** -/
theorem news_unique {j j' : ℕ} {e e' : EngineEvent} {t : Token} {p p' : Pending}
    {n n' : Notification} (hd : Distinct s tr) (h : News s tr j e t p n)
    (h' : News s tr j' e' t p' n') : j = j' :=
  settled_unique hd h.taken h.opened (EngineEvent.settles_of_news? h.token h.news) h'.taken
    h'.opened
    (EngineEvent.settles_of_news? h'.token h'.news)

theorem Open.eq_of_issue {i j : ℕ} {x : Entry σ} {t : Token} {p q : Pending} (hd : Distinct s tr)
    (hi : tr[i]? = some x) (hx : issue? s x = some (t, p)) (h : Open s (tr.take j) t q) :
    q = p ∧ i < j ∧ ∀ k y, i < k → k < j → tr[k]? = some y → closes t p y = false := by
  obtain ⟨i', x', hij, hi', hx', hc⟩ := open_take_iff.mp h
  obtain rfl := hd i i' x x' t p q hi hx hi' hx'
  rw [hi] at hi'
  cases hi'
  rw [hx] at hx'
  cases hx'
  exact ⟨rfl, hij, hc⟩

theorem unstopped_of_closes {i j : ℕ} {t : Token} {p : Pending}
    (h : ∀ k y, i < k → k < j → tr[k]? = some y → closes t p y = false) :
    UnstoppedBetween tr i j := by
  intro k y hik hkj hk
  have hc := h k y hik hkj hk
  unfold closes at hc
  split at hc
  · rfl
  · exact hc

/-- **The first event that settles a token finds it open,** if nothing was given up before. -/
theorem open_of_settles {i j : ℕ} {x : Entry σ} {e : EngineEvent} {t : Token} {p : Pending}
    (hi : tr[i]? = some x) (hx : issue? s x = some (t, p)) (hij : i < j)
    (hj : tr[j]? = some (.happened (.taken e))) (he : e.settles t p = true)
    (ha : UnstoppedBetween tr i j) :
    ∃ k e', i < k ∧ k ≤ j ∧ tr[k]? = some (.happened (.taken e')) ∧ e'.settles t p = true ∧
      Open s (tr.take k) t p := by
  induction j using Nat.strongRecOn generalizing e with
  | ind j ih =>
    by_cases hk : ∃ k e', i < k ∧ k < j ∧ tr[k]? = some (.happened (.taken e')) ∧
        e'.settles t p = true
    · obtain ⟨k, e', hik, hkj, hk, he'⟩ := hk
      obtain ⟨k', e'', h₁, h₂, h₃⟩ := ih k hkj hik hk he' fun l y hil hlk =>
        ha l y hil (by omega)
      exact ⟨k', e'', h₁, by omega, h₃⟩
    · refine ⟨j, e, hij, Nat.le_refl j, hj, he, open_take_iff.mpr ⟨i, x, hij, hi, hx, ?_⟩⟩
      intro k y hik hkj hky
      unfold closes
      split
      · next e' =>
        by_contra hc
        exact hk ⟨k, e', hik, hkj, hky, by simpa using hc⟩
      · exact ha k y hik hkj hky

end KnxIoT.Bridge
