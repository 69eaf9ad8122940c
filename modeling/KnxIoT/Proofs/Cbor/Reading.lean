import KnxIoT.Proofs.Cbor.Encoding
import KnxIoT.Proofs.Text.Utf8

/-! # CBOR: what is read

`Reads read R` says that a reader takes off the front of a byte string what `R` allows, and nothing
else. It is shown for the readers of heads, of elements and of strings, and from these for items, by
induction on the levels of nesting: `readItem?_reads`. So no two encodings begin in the same way, and
what follows an encoding does not matter. -/

namespace KnxIoT.Cbor

/-- Reading takes off the front of a byte string what the relation allows, and nothing else. -/
def Reads {α : Type} (read : Bytes → Option (α × Bytes)) (R : α → Bytes → Prop) : Prop :=
  ∀ bs x rest, read bs = some (x, rest) ↔ ∃ front, R x front ∧ bs = front ++ rest

section Combine
variable {α β γ : Type} {read : Bytes → Option (α × Bytes)} {read' : Bytes → Option (β × Bytes)}
  {R S : α → Bytes → Prop} {R' : β → Bytes → Prop}

theorem Reads.congr (h : Reads read R) (hRS : ∀ x bs, R x bs ↔ S x bs) : Reads read S := by
  intro bs x rest
  rw [h bs x rest]
  simp only [hRS]

theorem Reads.front (h : Reads read R) {x : α} {bs : Bytes} (hx : R x bs) (rest : Bytes) :
    read (bs ++ rest) = some (x, rest) :=
  (h _ _ _).mpr ⟨bs, hx, rfl⟩

theorem Reads.seq (h : Reads read R) (h' : Reads read' R') (f : α → β → γ) :
    Reads (fun bs => (read bs).bind fun (x, rest) => (read' rest).map fun (y, rest) => (f x y, rest))
      fun z bs => ∃ x y bs₁ bs₂, R x bs₁ ∧ R' y bs₂ ∧ z = f x y ∧ bs = bs₁ ++ bs₂ := by
  intro bs z rest
  constructor
  · intro hread
    obtain ⟨⟨x, rest₁⟩, hx, hmap⟩ := Option.bind_eq_some_iff.mp hread
    obtain ⟨⟨y, rest₂⟩, hy, heq⟩ := Option.map_eq_some_iff.mp hmap
    obtain ⟨rfl, rfl⟩ := Prod.mk.inj heq
    obtain ⟨bs₁, hRx, rfl⟩ := (h _ _ _).mp hx
    obtain ⟨bs₂, hRy, rfl⟩ := (h' _ _ _).mp hy
    exact ⟨bs₁ ++ bs₂, ⟨x, y, bs₁, bs₂, hRx, hRy, rfl, rfl⟩, (List.append_assoc ..).symm⟩
  · rintro ⟨front, ⟨x, y, bs₁, bs₂, hRx, hRy, rfl, rfl⟩, rfl⟩
    dsimp only
    rw [List.append_assoc, h.front hRx, Option.bind_some]
    exact Option.map_eq_some_iff.mpr ⟨_, h'.front hRy rest, rfl⟩

end Combine

theorem takeBytes?_reads (n : ℕ) : Reads (takeBytes? n) fun x bs => x = bs ∧ bs.length = n := by
  intro bs x rest
  unfold takeBytes?
  rw [List.splitAt_eq]
  constructor
  · intro h
    split_ifs at h with hn
    obtain ⟨rfl, rfl⟩ := Prod.mk.inj (Option.some.inj h)
    exact ⟨bs.take n, ⟨rfl, List.length_take_of_le hn⟩, (List.take_append_drop n bs).symm⟩
  · rintro ⟨front, ⟨rfl, rfl⟩, rfl⟩
    rw [if_pos (by simp), List.take_left, List.drop_left]

theorem readArgument?_reads (info : ℕ) : Reads (readArgument? info) (Argument info) := by
  intro bs len rest
  unfold readArgument?
  constructor
  · intro h
    split_ifs at h with h₁ h₂ h₃
    · obtain ⟨rfl, rfl⟩ := Prod.mk.inj (Option.some.inj h)
      exact ⟨[], .short h₁, rfl⟩
    · obtain ⟨⟨arg, rest'⟩, ht, heq⟩ := Option.map_eq_some_iff.mp h
      obtain ⟨rfl, rfl⟩ := Prod.mk.inj heq
      obtain ⟨front, ⟨rfl, hlen⟩, rfl⟩ := (takeBytes?_reads _ _ _ _).mp ht
      exact ⟨arg, .long (by omega) h₂ hlen, rfl⟩
    · obtain ⟨rfl, rfl⟩ := Prod.mk.inj (Option.some.inj h)
      exact ⟨[], .openLength h₃, rfl⟩
  · rintro ⟨front, harg, rfl⟩
    rcases harg with h | ⟨h, h', hlen⟩ | h
    · rw [if_pos h, List.nil_append]
    · have ht := (takeBytes?_reads _ (front ++ rest) front rest).mpr ⟨front, ⟨rfl, hlen⟩, rfl⟩
      rw [if_neg (by omega), if_pos h']
      exact Option.map_eq_some_iff.mpr ⟨_, ht, rfl⟩
    · rw [if_neg (by omega), if_neg (by omega), if_pos h, List.nil_append]

theorem Argument.info_lt {info : ℕ} {len : Option ℕ} {arg : Bytes} (h : Argument info len arg) :
    info < 32 := by
  rcases h with h | ⟨h, h', hlen⟩ | h <;> omega

theorem toNat_firstByte {major info : ℕ} (hm : major < 8) (hi : info < 32) :
    (firstByte major info).toNat = 32 * major + info :=
  UInt8.toNat_ofNat_of_lt' (by change _ < 256; omega)

theorem firstByte_toNat (b : UInt8) : firstByte (b.toNat / 32) (b.toNat % 32) = b := by
  rw [firstByte, Nat.div_add_mod, UInt8.ofNat_toNat]

/-! ### Heads -/

/-- The head of a type with an argument; under the type 7 the width of the argument matters. -/
def Head.of? (major info : ℕ) (len : Option ℕ) : Option Head :=
  match major, len with
  | 0, some n => some (.unsigned n)
  | 1, some n => some (.negative n)
  | 2, len => some (.bytes len)
  | 3, len => some (.text len)
  | 4, len => some (.array len)
  | 5, len => some (.map len)
  | 6, some n => some (.tag n)
  | 7, some n =>
    if info = 25 then some (.double (.widen .half n))
    else if info = 26 then some (.double (.widen .single n))
    else if info = 27 then some (.double (.widen .double n))
    else some (.simple n)
  | 7, none => some .stop
  | _, _ => none

theorem readHead?_cons (b : UInt8) (bs : Bytes) : readHead? (b :: bs) =
    (readArgument? (b.toNat % 32) bs).bind fun (len, rest) =>
      (Head.of? (b.toNat / 32) (b.toNat % 32) len).map fun head => (head, rest) := by
  unfold readHead?
  dsimp only
  generalize b.toNat / 32 = major
  generalize b.toNat % 32 = info
  rcases hr : readArgument? info bs with _ | ⟨len, rest⟩
  · split
    · rw [readSimple?, hr]
      rfl
    · rfl
  split
  · rw [readSimple?, hr]
    unfold Head.of?
    rcases len with _ | n
    · rfl
    · simp only [Option.map_some, Option.bind_some]
      split_ifs with h₅ h₆ h₇
      · simp [h₅]
      · simp [h₆]
      · simp [h₇]
      · simp only [Option.map_some]
  · simp only [Option.bind_some]
    unfold Head.of?
    split <;> simp_all

theorem encoded_of_of? {major info : ℕ} {len : Option ℕ} {head : Head} {arg : Bytes}
    (h : Head.of? major info len = some head) (harg : Argument info len arg) :
    head.Encoded (firstByte major info :: arg) := by
  unfold Head.of? at h
  split at h
  · obtain rfl := Option.some.inj h
    exact .unsigned harg
  · obtain rfl := Option.some.inj h
    exact .negative harg
  · obtain rfl := Option.some.inj h
    exact .bytes harg
  · obtain rfl := Option.some.inj h
    exact .text harg
  · obtain rfl := Option.some.inj h
    exact .array harg
  · obtain rfl := Option.some.inj h
    exact .map harg
  · obtain rfl := Option.some.inj h
    exact .tag harg
  · split_ifs at h with h₅ h₆ h₇
    · obtain rfl := Option.some.inj h
      subst h₅
      exact .half harg
    · obtain rfl := Option.some.inj h
      subst h₆
      exact .single harg
    · obtain rfl := Option.some.inj h
      subst h₇
      exact .double harg
    · obtain rfl := Option.some.inj h
      refine .simple harg ?_
      rcases harg with _ | ⟨_, _⟩ <;> omega
  · obtain rfl := Option.some.inj h
    rcases harg with _ | _ | rfl
    exact .stop
  · cases h

theorem of?_of_encoded {head : Head} {bs : Bytes} (h : head.Encoded bs) :
    ∃ major info len arg, major < 8 ∧ Argument info len arg ∧ Head.of? major info len = some head ∧
      bs = firstByte major info :: arg := by
  rcases h with h | h | h | h | h | h | h | ⟨h, hinfo⟩ | h | h | h | _
  · exact ⟨0, _, _, _, by omega, h, rfl, rfl⟩
  · exact ⟨1, _, _, _, by omega, h, rfl, rfl⟩
  · exact ⟨2, _, _, _, by omega, h, rfl, rfl⟩
  · exact ⟨3, _, _, _, by omega, h, rfl, rfl⟩
  · exact ⟨4, _, _, _, by omega, h, rfl, rfl⟩
  · exact ⟨5, _, _, _, by omega, h, rfl, rfl⟩
  · exact ⟨6, _, _, _, by omega, h, rfl, rfl⟩
  · refine ⟨7, _, _, _, by omega, h, ?_, rfl⟩
    simp only [Head.of?]
    rw [if_neg (by omega), if_neg (by omega), if_neg (by omega)]
  · exact ⟨7, _, _, _, by omega, h, rfl, rfl⟩
  · exact ⟨7, _, _, _, by omega, h, rfl, rfl⟩
  · exact ⟨7, _, _, _, by omega, h, rfl, rfl⟩
  · exact ⟨7, 31, none, [], by omega, .openLength rfl, rfl, rfl⟩

/-- **The heads are read.** -/
theorem readHead?_reads : Reads readHead? Head.Encoded := by
  intro bs head rest
  constructor
  · intro h
    rcases bs with _ | ⟨b, bs⟩
    · cases h
    rw [readHead?_cons] at h
    obtain ⟨⟨len, rest'⟩, hread, hmap⟩ := Option.bind_eq_some_iff.mp h
    obtain ⟨head', hof, heq⟩ := Option.map_eq_some_iff.mp hmap
    obtain ⟨rfl, rfl⟩ := Prod.mk.inj heq
    obtain ⟨arg, harg, rfl⟩ := (readArgument?_reads _ _ _ _).mp hread
    have henc := encoded_of_of? hof harg
    rw [firstByte_toNat] at henc
    exact ⟨b :: arg, henc, rfl⟩
  · rintro ⟨front, h, rfl⟩
    obtain ⟨major, info, len, arg, hm, harg, hof, rfl⟩ := of?_of_encoded h
    have hb := toNat_firstByte hm harg.info_lt
    have hread := (readArgument?_reads _ (arg ++ rest) _ _).mpr ⟨arg, harg, rfl⟩
    have hi := harg.info_lt
    rw [List.cons_append, readHead?_cons, hb, show (32 * major + info) % 32 = info by omega,
      show (32 * major + info) / 32 = major by omega, hread, Option.bind_some]
    exact Option.map_eq_some_iff.mpr ⟨head, hof, rfl⟩

/-! ### Elements -/

section Elements
variable {α : Type} {read : Bytes → Option (α × Bytes)} {R : α → Bytes → Prop}

theorem readMany?_reads (h : Reads read R) (n : ℕ) :
    Reads (readMany? read n) fun xs bs => xs.length = n ∧ Elements R xs bs := by
  induction n with
  | zero =>
    intro bs xs rest
    constructor
    · intro hread
      obtain ⟨rfl, rfl⟩ := Prod.mk.inj (Option.some.inj hread)
      exact ⟨[], ⟨rfl, .nil⟩, rfl⟩
    · rintro ⟨front, ⟨hlen, hel⟩, rfl⟩
      obtain rfl := List.length_eq_zero_iff.mp hlen
      obtain _ | _ := hel
      rfl
  | succ n ih =>
    refine (h.seq ih List.cons).congr fun xs bs => ?_
    constructor
    · rintro ⟨x, ys, bs₁, bs₂, hx, ⟨rfl, hys⟩, rfl, rfl⟩
      exact ⟨rfl, .cons hx hys⟩
    · rintro ⟨hlen, hxs⟩
      rcases hxs with _ | ⟨hx, hxs⟩
      · cases hlen
      · exact ⟨_, _, _, _, hx, ⟨Nat.succ.inj hlen, hxs⟩, rfl, rfl⟩

theorem readPair?_reads (h : Reads read R) : Reads (readPair? read) (Paired R) := by
  refine (h.seq h Prod.mk).congr fun p bs => ?_
  constructor
  · rintro ⟨k, v, bs₁, bs₂, hk, hv, rfl, rfl⟩
    exact .mk hk hv
  · rintro ⟨hk, hv⟩
    exact ⟨_, _, _, _, hk, hv, rfl, rfl⟩

/-- Nothing is read where an end mark stands or where there are no bytes. -/
structure Stops (read : Bytes → Option (α × Bytes)) : Prop where
  nil : read [] = none
  endMark (rest : Bytes) : read (endMark :: rest) = none

theorem Stops.pair (hstop : Stops read) : Stops (readPair? read) :=
  ⟨by rw [readPair?, hstop.nil]; rfl, fun rest => by rw [readPair?, hstop.endMark]; rfl⟩

theorem elements_of_readOpen? (h : Reads read R) : ∀ (fuel : ℕ) (bs : Bytes) (xs : List α)
    (rest : Bytes), readOpen? read fuel bs = some (xs, rest) →
      ∃ front, Elements R xs front ∧ bs = front ++ endMark :: rest
  | 0, bs, xs, rest, hread => nomatch hread
  | fuel + 1, bs, xs, rest, hread => by
    unfold readOpen? at hread
    split at hread
    · obtain ⟨rfl, rfl⟩ := Prod.mk.inj (Option.some.inj hread)
      exact ⟨[], .nil, rfl⟩
    · obtain ⟨⟨x, rest₁⟩, hx, hmap⟩ := Option.bind_eq_some_iff.mp hread
      obtain ⟨⟨ys, rest₂⟩, hys, heq⟩ := Option.map_eq_some_iff.mp hmap
      obtain ⟨rfl, rfl⟩ := Prod.mk.inj heq
      obtain ⟨front₁, hRx, rfl⟩ := (h _ _ _).mp hx
      obtain ⟨front₂, hRys, rfl⟩ := elements_of_readOpen? h fuel _ _ _ hys
      exact ⟨front₁ ++ front₂, .cons hRx hRys, by simp⟩

theorem Stops.front_ne (hstop : Stops read) (h : Reads read R) {x : α} {bs : Bytes} (hx : R x bs) :
    ∃ b bs', bs = b :: bs' ∧ b ≠ Cbor.endMark := by
  have hread : ∀ rest, read (bs ++ rest) = some (x, rest) := fun rest => (h _ _ _).mpr ⟨bs, hx, rfl⟩
  rcases bs with _ | ⟨b, bs'⟩
  · have := hread []
    rw [List.append_nil, hstop.nil] at this
    cases this
  · refine ⟨b, bs', rfl, ?_⟩
    rintro rfl
    have := hread []
    rw [List.cons_append, hstop.endMark] at this
    cases this

theorem Elements.length_le (hstop : Stops read) (h : Reads read R) {xs : List α} {bs : Bytes}
    (hxs : Elements R xs bs) : xs.length ≤ bs.length := by
  induction hxs with
  | nil => exact Nat.le_refl _
  | cons hx _ ih =>
    obtain ⟨b, bs', rfl, -⟩ := hstop.front_ne h hx
    simp only [List.length_cons, List.length_append]
    omega

theorem readOpen?_of_elements (hstop : Stops read) (h : Reads read R) {xs : List α} {bs : Bytes}
    (hxs : Elements R xs bs) (rest : Bytes) : ∀ fuel, xs.length < fuel →
      readOpen? read fuel (bs ++ endMark :: rest) = some (xs, rest) := by
  induction hxs with
  | nil =>
    intro fuel hfuel
    obtain ⟨fuel, rfl⟩ := Nat.exists_eq_add_one_of_ne_zero (Nat.ne_of_gt hfuel)
    rfl
  | @cons x xs bs bs' hx hxs ih =>
    intro fuel hfuel
    obtain ⟨fuel, rfl⟩ := Nat.exists_eq_add_one_of_ne_zero (Nat.ne_of_gt (Nat.zero_lt_of_lt hfuel))
    have hreads := ih fuel (by simpa using hfuel)
    have hread := (h (bs ++ (bs' ++ endMark :: rest)) x _).mpr ⟨bs, hx, rfl⟩
    obtain ⟨b, bs, rfl, hne⟩ := hstop.front_ne h hx
    rw [List.append_assoc]
    unfold readOpen?
    split
    · next heq =>
      rw [List.cons_append, List.cons.injEq] at heq
      exact absurd heq.1 hne
    · rw [hread, Option.bind_some]
      exact Option.map_eq_some_iff.mpr ⟨_, hreads, rfl⟩

/-- **Elements are read** as many as there are, or up to the end mark. -/
theorem readElements?_reads (hstop : Stops read) (h : Reads read R) (len : Option ℕ) :
    Reads (readElements? read len) (Contained R len) := by
  intro bs xs rest
  rcases len with _ | n
  · constructor
    · intro hread
      obtain ⟨front, hxs, rfl⟩ := elements_of_readOpen? h _ _ _ _ hread
      exact ⟨front ++ [endMark], .openLength hxs, by simp⟩
    · rintro ⟨front, hc, rfl⟩
      obtain _ | @⟨_, front, hxs⟩ := hc
      have hlen := hxs.length_le hstop h
      rw [List.append_assoc]
      exact readOpen?_of_elements hstop h hxs rest _ (by simp; omega)
  · rw [readElements?, readMany?_reads h n bs xs rest]
    constructor
    · rintro ⟨front, ⟨rfl, hxs⟩, rfl⟩
      exact ⟨front, .counted hxs, rfl⟩
    · rintro ⟨front, ⟨hxs⟩, rfl⟩
      exact ⟨front, ⟨rfl, hxs⟩, rfl⟩

end Elements

/-! ### Strings -/

section Strings
variable {kind : StringKind} {check : Bytes → Bool}

theorem StringKind.length?_eq_some_iff {head : Head} {len : Option ℕ} :
    kind.length? head = some len ↔ head = kind.head len := by
  rcases kind <;> rcases head <;> simp [StringKind.length?, StringKind.head]

theorem StringKind.head_ne_stop (kind : StringKind) (len : Option ℕ) : kind.head len ≠ .stop := by
  rcases kind <;> exact fun h => nomatch h

theorem Head.Encoded.ne_nil {head : Head} {hd : Bytes} (h : head.Encoded hd) : hd ≠ [] := by
  rcases h <;> exact List.cons_ne_nil _ _

theorem exists_fuel {head : Head} {hd bs : Bytes} {fuel f : ℕ} (h : head.Encoded hd)
    (hf : fuel + (hd ++ bs).length ≤ f) : ∃ f', f = f' + 1 ∧ fuel + bs.length ≤ f' := by
  have hlen := List.length_pos_iff.mpr h.ne_nil
  rw [List.length_append] at hf
  exact ⟨f - 1, by omega, by omega⟩

/-- The contents of strings of open length inside one another, up to the end mark of the last. -/
def Closing (kind : StringKind) : ℕ → Bytes → Bytes → Prop
  | 0, content, bs => content = [] ∧ bs = []
  | opened + 1, content, bs => ∃ c c' b b', Chunked kind c b ∧ Closing kind opened c' b' ∧
      content = c ++ c' ∧ bs = b ++ endMark :: b'

theorem closing_of_readChunks? (hcheck : ∀ c, check c = true ↔ kind.Admits c) :
    ∀ (fuel opened : ℕ) (bs content rest : Bytes),
      readChunks? kind check fuel (opened + 1) bs = some (content, rest) →
        ∃ front, Closing kind (opened + 1) content front ∧ bs = front ++ rest
  | 0, _, _, _, _, hread => nomatch hread
  | fuel + 1, opened, bs, content, rest, hread => by
    unfold readChunks? at hread
    obtain ⟨⟨head, rest₁⟩, hhead, hbind⟩ := Option.bind_eq_some_iff.mp hread
    obtain ⟨hd, henc, rfl⟩ := (readHead?_reads _ _ _).mp hhead
    dsimp only at hbind
    split at hbind
    · next hstop =>
      subst hstop
      obtain _ | _ := henc
      split at hbind
      · next hone =>
        obtain rfl : opened = 0 := by omega
        obtain ⟨rfl, rfl⟩ := Prod.mk.inj (Option.some.inj hbind)
        exact ⟨[endMark], ⟨[], [], [], [], .nil, ⟨rfl, rfl⟩, rfl, rfl⟩, rfl⟩
      · next hone =>
        obtain ⟨opened, rfl⟩ := Nat.exists_eq_add_one_of_ne_zero (show opened ≠ 0 by omega)
        obtain ⟨front, hfront, rfl⟩ := closing_of_readChunks? hcheck fuel opened _ _ _ hbind
        exact ⟨endMark :: front, ⟨[], content, [], front, .nil, hfront, rfl, rfl⟩, rfl⟩
    split at hbind
    · cases hbind
    · next hlen =>
      obtain rfl := StringKind.length?_eq_some_iff.mp hlen
      obtain ⟨front, ⟨c, _, b, _, hin, ⟨c₁, c₂, b₁, b₂, hout, hrest, rfl, rfl⟩, rfl, rfl⟩, rfl⟩ :=
        closing_of_readChunks? hcheck fuel (opened + 1) _ _ _ hbind
      exact ⟨hd ++ (b ++ endMark :: b₁) ++ endMark :: b₂, ⟨c ++ c₁, c₂, _, b₂,
        .nested henc hin hout, hrest, by simp, rfl⟩, by simp⟩
    · next n hlen =>
      obtain rfl := StringKind.length?_eq_some_iff.mp hlen
      obtain ⟨⟨chunk, rest₂⟩, htake, hchunk⟩ := Option.bind_eq_some_iff.mp hbind
      obtain ⟨_, ⟨rfl, rfl⟩, rfl⟩ := (takeBytes?_reads _ _ _ _).mp htake
      split at hchunk
      · next hok =>
        obtain ⟨⟨more, rest₃⟩, hmore, heq⟩ := Option.map_eq_some_iff.mp hchunk
        obtain ⟨rfl, rfl⟩ := Prod.mk.inj heq
        obtain ⟨front, ⟨c, c', b, b', hin, hrest, rfl, rfl⟩, rfl⟩ :=
          closing_of_readChunks? hcheck fuel opened _ _ _ hmore
        exact ⟨hd ++ (chunk ++ b) ++ endMark :: b', ⟨chunk ++ c, c', _, b',
          .chunk henc ((hcheck _).mp hok) hin, hrest, by simp, rfl⟩, by simp⟩
      · cases hchunk

theorem readChunks?_of_chunked (hcheck : ∀ c, check c = true ↔ kind.Admits c) {content bs : Bytes}
    (h : Chunked kind content bs) : ∀ {fuel opened : ℕ} {rest more rest' : Bytes},
      (∀ f, fuel ≤ f → readChunks? kind check f (opened + 1) rest = some (more, rest')) →
        ∀ f, fuel + bs.length ≤ f → readChunks? kind check f (opened + 1) (bs ++ rest) =
          some (content ++ more, rest') := by
  induction h with
  | nil =>
    intro fuel opened rest more rest' hrest f hf
    exact hrest f hf
  | @chunk c content hd bs hhd hc h ih =>
    intro fuel opened rest more rest' hrest f hf
    obtain ⟨f, rfl, hf'⟩ := exists_fuel hhd hf
    rw [List.length_append] at hf'
    have hmore := ih hrest f (by omega)
    have hhead := readHead?_reads.front hhd (c ++ (bs ++ rest))
    have htake := (takeBytes?_reads c.length).front ⟨rfl, rfl⟩ (bs ++ rest)
    rw [List.append_assoc, List.append_assoc, readChunks?, hhead, Option.bind_some]
    dsimp only
    rw [if_neg (kind.head_ne_stop _), StringKind.length?_eq_some_iff.mpr rfl]
    dsimp only
    rw [htake, Option.bind_some]
    dsimp only
    rw [if_pos ((hcheck c).mpr hc), hmore, List.append_assoc]
    rfl
  | @nested inner content hd bs bs' hhd hi h ihi ih =>
    intro fuel opened rest more rest' hrest f hf
    obtain ⟨f, rfl, hf'⟩ := exists_fuel hhd hf
    rw [List.length_append, List.length_cons] at hf'
    have hclosed : ∀ f, fuel + bs'.length + 1 ≤ f → readChunks? kind check f (opened + 1 + 1)
        (endMark :: (bs' ++ rest)) = some (content ++ more, rest') := by
      intro f hf
      obtain ⟨f, rfl⟩ := Nat.exists_eq_add_one_of_ne_zero (show f ≠ 0 by omega)
      exact ih hrest f (by omega)
    have hinner := ihi hclosed f (by omega)
    have hhead := readHead?_reads.front hhd (bs ++ endMark :: (bs' ++ rest))
    rw [List.append_assoc, List.append_assoc, List.cons_append, readChunks?, hhead, Option.bind_some]
    dsimp only
    rw [if_neg (kind.head_ne_stop _), StringKind.length?_eq_some_iff.mpr rfl]
    dsimp only
    rw [hinner, List.append_assoc]

/-- **The content of a string is read.** -/
theorem readString?_reads (hcheck : ∀ c, check c = true ↔ kind.Admits c) (len : Option ℕ) :
    Reads (readString? kind check len) (Content kind len) := by
  intro bs content rest
  rcases len with _ | n
  · constructor
    · intro hread
      obtain ⟨front, ⟨c, _, b, _, hc, ⟨rfl, rfl⟩, rfl, rfl⟩, rfl⟩ :=
        closing_of_readChunks? hcheck _ 0 _ _ _ hread
      rw [List.append_nil]
      exact ⟨b ++ [endMark], .openLength hc, rfl⟩
    · rintro ⟨front, hc, rfl⟩
      obtain _ | @⟨_, front, hc⟩ := hc
      have hend : ∀ f, 1 ≤ f → readChunks? kind check f 1 (endMark :: rest) = some ([], rest) := by
        intro f hf
        obtain ⟨f, rfl⟩ := Nat.exists_eq_add_one_of_ne_zero (show f ≠ 0 by omega)
        rfl
      have hread := readChunks?_of_chunked hcheck hc hend
        ((front ++ endMark :: rest).length + 1) (by simp; omega)
      rw [List.append_nil] at hread
      rw [List.append_assoc]
      exact hread
  · unfold readString?
    dsimp only
    rw [Option.filter_eq_some_iff, takeBytes?_reads, hcheck]
    constructor
    · rintro ⟨⟨_, ⟨rfl, rfl⟩, rfl⟩, hc⟩
      exact ⟨content, .whole hc, rfl⟩
    · rintro ⟨front, hc, rfl⟩
      obtain ⟨hc⟩ := hc
      exact ⟨⟨content, ⟨rfl, rfl⟩, rfl⟩, hc⟩

end Strings

theorem decode?_eq_some_iff {bs : Bytes} {s : String} :
    Utf8.decode? bs = some s ↔ Utf8.encode s = bs := by
  constructor
  · exact Utf8.encode_of_decode?
  · rintro rfl
    exact Utf8.decode?_encode s

theorem readText?_reads (len : Option ℕ) :
    Reads (readText? len) fun s bs => Content .text len (Utf8.encode s) bs := by
  have hcheck : ∀ c, (Utf8.decode? c).isSome = true ↔ StringKind.text.Admits c := by
    intro c
    rw [Option.isSome_iff_exists]
    simp only [decode?_eq_some_iff]
    exact Iff.rfl
  intro bs s rest
  unfold readText?
  rw [Option.bind_eq_some_iff]
  constructor
  · rintro ⟨⟨content, rest'⟩, hread, hmap⟩
    obtain ⟨s', hs, heq⟩ := Option.map_eq_some_iff.mp hmap
    obtain ⟨rfl, rfl⟩ := Prod.mk.inj heq
    obtain rfl := decode?_eq_some_iff.mp hs
    exact (readString?_reads hcheck len _ _ _).mp hread
  · intro hc
    have hread := (readString?_reads hcheck len bs (Utf8.encode s) rest).mpr hc
    exact ⟨_, hread, Option.map_eq_some_iff.mpr ⟨s, Utf8.decode?_encode s, rfl⟩⟩

/-! ### Items -/

theorem isBig_iff {number : ℕ} {bs : Bytes} :
    IsBig number bs ↔ (readBigNumber? number bs).isSome = true := by
  unfold IsBig readBigNumber?
  constructor
  · rintro ⟨hnum, n, hd, rest, hn, hhd, rfl⟩
    rw [if_pos hnum, readHead?_reads.front hhd rest]
    simp [hn]
  · intro h
    split_ifs at h with hnum
    split at h
    · next n rest hhead =>
      obtain ⟨hd, hhd, rfl⟩ := (readHead?_reads _ _ _).mp hhead
      split_ifs at h with hn
      · exact ⟨hnum, n, hd, rest, hn, hhd, rfl⟩
      · cases h
    · cases h
    · cases h

theorem readBigNumber?_eq_some_iff {number : ℕ} {bs rest : Bytes} {item : Item} :
    readBigNumber? number bs = some (some (item, rest)) ↔ (number = 2 ∨ number = 3) ∧
      ∃ hd content, (Head.bytes (some content.length)).Encoded hd ∧ content.length ≤ 16 ∧
        bigNumber? number content = some item ∧ bs = hd ++ (content ++ rest) := by
  unfold readBigNumber?
  constructor
  · intro h
    split_ifs at h with hnum
    refine ⟨hnum, ?_⟩
    split at h
    · next n rest hhead =>
      obtain ⟨hd, hhd, rfl⟩ := (readHead?_reads _ _ _).mp hhead
      split_ifs at h with hn
      obtain ⟨⟨content, rest'⟩, htake, hmap⟩ := Option.bind_eq_some_iff.mp (Option.some.inj h)
      obtain ⟨item', hitem, heq⟩ := Option.map_eq_some_iff.mp hmap
      obtain ⟨_, ⟨rfl, rfl⟩, rfl⟩ := (takeBytes?_reads _ _ _ _).mp htake
      obtain ⟨rfl, rfl⟩ := Prod.mk.inj heq
      exact ⟨hd, content, hhd, hn, hitem, rfl⟩
    · cases h
  · rintro ⟨hnum, hd, content, hhd, hlen, hitem, rfl⟩
    have htake := (takeBytes?_reads content.length).front ⟨rfl, rfl⟩ rest
    rw [if_pos hnum, readHead?_reads.front hhd (content ++ rest)]
    dsimp only
    rw [if_pos hlen, htake, Option.bind_some]
    dsimp only
    rw [hitem]
    rfl

theorem IsBig.append {number : ℕ} {bs : Bytes} (h : IsBig number bs) (rest : Bytes) :
    IsBig number (bs ++ rest) := by
  obtain ⟨hnum, n, hd, rest', hn, hhd, rfl⟩ := h
  exact ⟨hnum, n, hd, rest' ++ rest, hn, hhd, List.append_assoc ..⟩

theorem readItem?_stops (levels : ℕ) : Stops (readItem? levels) := by
  constructor
  · rw [readItem?]
    rfl
  · intro rest
    rw [readItem?]
    rfl

theorem Item.Encoded.of_flat {item : Item} {bs : Bytes} (h : Flat item bs) (levels : ℕ) :
    Item.Encoded levels item bs := by
  rcases levels with _ | levels
  · exact h
  · exact .inl h

section Item
variable {levels : ℕ}

theorem encoded_of_readItem? (ih : ∀ n, levels = n + 1 → Reads (readItem? n) (Item.Encoded n))
    {bs rest : Bytes} {item : Item} (h : readItem? levels bs = some (item, rest)) :
    ∃ front, Item.Encoded levels item front ∧ bs = front ++ rest := by
  rw [readItem?] at h
  obtain ⟨⟨head, rest₁⟩, hhead, hbody⟩ := Option.bind_eq_some_iff.mp h
  obtain ⟨hd, henc, rfl⟩ := (readHead?_reads _ _ _).mp hhead
  rcases head with n | n | len | len | len | len | number | n | x | _
  · obtain ⟨rfl, rfl⟩ := Prod.mk.inj (Option.some.inj hbody)
    exact ⟨hd, .of_flat (.unsigned henc) _, rfl⟩
  · obtain ⟨rfl, rfl⟩ := Prod.mk.inj (Option.some.inj hbody)
    exact ⟨hd, .of_flat (.negative henc) _, rfl⟩
  · obtain ⟨⟨content, rest₂⟩, hread, heq⟩ := Option.map_eq_some_iff.mp hbody
    obtain ⟨rfl, rfl⟩ := Prod.mk.inj heq
    obtain ⟨front, hc, rfl⟩ := (readString?_reads (by simp [StringKind.Admits]) len _ _ _).mp hread
    exact ⟨hd ++ front, .of_flat (.bytes henc hc) _, by simp⟩
  · obtain ⟨⟨s, rest₂⟩, hread, heq⟩ := Option.map_eq_some_iff.mp hbody
    obtain ⟨rfl, rfl⟩ := Prod.mk.inj heq
    obtain ⟨front, hc, rfl⟩ := (readText?_reads len _ _ _).mp hread
    exact ⟨hd ++ front, .of_flat (.text henc hc) _, by simp⟩
  · rcases levels with _ | levels
    · cases hbody
    obtain ⟨⟨items, rest₂⟩, hread, heq⟩ := Option.map_eq_some_iff.mp hbody
    obtain ⟨rfl, rfl⟩ := Prod.mk.inj heq
    obtain ⟨front, hc, rfl⟩ :=
      (readElements?_reads (readItem?_stops levels) (ih levels rfl) len _ _ _).mp hread
    exact ⟨hd ++ front, .inr (.array henc hc), by simp⟩
  · rcases levels with _ | levels
    · cases hbody
    obtain ⟨⟨entries, rest₂⟩, hread, heq⟩ := Option.map_eq_some_iff.mp hbody
    obtain ⟨rfl, rfl⟩ := Prod.mk.inj heq
    obtain ⟨front, hc, rfl⟩ := (readElements?_reads (readItem?_stops levels).pair
      (readPair?_reads (ih levels rfl)) len _ _ _).mp hread
    exact ⟨hd ++ front, .inr (.map henc hc), by simp⟩
  · dsimp only at hbody
    split at hbody
    · next result hbig =>
      subst hbody
      obtain ⟨hnum, hd', content, henc', hlen, hitem, rfl⟩ := readBigNumber?_eq_some_iff.mp hbig
      exact ⟨hd ++ (hd' ++ content), .of_flat (.big henc hnum henc' hlen hitem) _, by simp⟩
    · next hbig =>
      rcases levels with _ | levels
      · cases hbody
      obtain ⟨⟨content, rest₂⟩, hread, heq⟩ := Option.map_eq_some_iff.mp hbody
      obtain ⟨rfl, rfl⟩ := Prod.mk.inj heq
      obtain ⟨front, hc, rfl⟩ := (ih levels rfl _ _ _).mp hread
      refine ⟨hd ++ front, .inr (.tag henc ?_ hc), by simp⟩
      intro hbig'
      have hsome := isBig_iff.mp (hbig'.append rest₂)
      rw [hbig] at hsome
      cases hsome
  · obtain ⟨item', hitem, heq⟩ := Option.map_eq_some_iff.mp hbody
    obtain ⟨rfl, rfl⟩ := Prod.mk.inj heq
    exact ⟨hd, .of_flat (.simple henc hitem) _, rfl⟩
  · obtain ⟨rfl, rfl⟩ := Prod.mk.inj (Option.some.inj hbody)
    exact ⟨hd, .of_flat (.double henc) _, rfl⟩
  · cases hbody

theorem readItem?_of_flat {bs : Bytes} {item : Item} (h : Flat item bs) (rest : Bytes) :
    readItem? levels (bs ++ rest) = some (item, rest) := by
  rw [readItem?]
  rcases h with h | h | ⟨h, hc⟩ | ⟨h, hc⟩ | ⟨h, hn⟩ | h | ⟨h, hnum, h', hlen, hitem⟩
  · rw [readHead?_reads.front h]
    rfl
  · rw [readHead?_reads.front h]
    rfl
  · next len content hd bs =>
    have hall : Reads (readString? .bytes (fun _ => true) len) (Content .bytes len) :=
      readString?_reads (by simp [StringKind.Admits]) len
    have hread := hall.front hc rest
    rw [List.append_assoc, readHead?_reads.front h, Option.bind_some]
    exact Option.map_eq_some_iff.mpr ⟨_, hread, rfl⟩
  · next len s hd bs =>
    have hread := (readText?_reads len).front hc rest
    rw [List.append_assoc, readHead?_reads.front h, Option.bind_some]
    exact Option.map_eq_some_iff.mpr ⟨_, hread, rfl⟩
  · rw [readHead?_reads.front h, Option.bind_some]
    exact Option.map_eq_some_iff.mpr ⟨_, hn, rfl⟩
  · rw [readHead?_reads.front h]
    rfl
  · next number hd hd' content =>
    have hbig : readBigNumber? number (hd' ++ (content ++ rest)) = some (some (item, rest)) :=
      readBigNumber?_eq_some_iff.mpr ⟨hnum, hd', content, h', hlen, hitem, rfl⟩
    rw [List.append_assoc, List.append_assoc, readHead?_reads.front h, Option.bind_some]
    dsimp only
    rw [hbig]

theorem Flat.head {item : Item} {bs : Bytes} (h : Flat item bs) :
    ∃ (head : Head) (hd tail : Bytes), head.Encoded hd ∧ bs = hd ++ tail := by
  rcases h with h | h | ⟨h, -⟩ | ⟨h, -⟩ | ⟨h, -⟩ | h | ⟨h, -⟩
  · exact ⟨_, _, [], h, (List.append_nil _).symm⟩
  · exact ⟨_, _, [], h, (List.append_nil _).symm⟩
  · exact ⟨_, _, _, h, rfl⟩
  · exact ⟨_, _, _, h, rfl⟩
  · exact ⟨_, _, [], h, (List.append_nil _).symm⟩
  · exact ⟨_, _, [], h, (List.append_nil _).symm⟩
  · exact ⟨_, _, _, h, rfl⟩

theorem Item.Encoded.head {item : Item} {bs : Bytes} (h : Item.Encoded levels item bs) :
    ∃ (head : Head) (hd tail : Bytes), head.Encoded hd ∧ bs = hd ++ tail := by
  rcases levels with _ | levels
  · exact Flat.head h
  rcases h with h | ⟨h, -⟩ | ⟨h, -⟩ | ⟨h, -⟩
  · exact h.head
  · exact ⟨_, _, _, h, rfl⟩
  · exact ⟨_, _, _, h, rfl⟩
  · exact ⟨_, _, _, h, rfl⟩

theorem readBigNumber?_eq_none {number : ℕ} {content : Item} {bs : Bytes}
    (h : Item.Encoded levels content bs) (hbig : ¬ IsBig number bs) (rest : Bytes) :
    readBigNumber? number (bs ++ rest) = none := by
  obtain ⟨head, hd, tail, hhd, rfl⟩ := h.head
  rw [← Option.not_isSome_iff_eq_none, ← isBig_iff]
  rintro ⟨hnum, n, hd', rest', hn, hhd', heq⟩
  have hread := readHead?_reads.front hhd (tail ++ rest)
  rw [← List.append_assoc, heq, readHead?_reads.front hhd'] at hread
  obtain ⟨rfl, rfl⟩ := Prod.mk.inj (Option.some.inj hread)
  exact hbig ⟨hnum, n, hd, tail, hn, hhd, rfl⟩

theorem readItem?_of_composed (ih : Reads (readItem? levels) (Item.Encoded levels)) {bs : Bytes}
    {item : Item} (h : Composed (Item.Encoded levels) item bs) (rest : Bytes) :
    readItem? (levels + 1) (bs ++ rest) = some (item, rest) := by
  rw [readItem?]
  rcases h with ⟨h, hc⟩ | ⟨h, hc⟩ | ⟨h, hbig, hc⟩
  · next len items hd bs =>
    have hread := (readElements?_reads (readItem?_stops levels) ih len).front hc rest
    rw [List.append_assoc, readHead?_reads.front h, Option.bind_some]
    exact Option.map_eq_some_iff.mpr ⟨_, hread, rfl⟩
  · next len entries hd bs =>
    have hread := (readElements?_reads (readItem?_stops levels).pair (readPair?_reads ih)
      len).front hc rest
    rw [List.append_assoc, readHead?_reads.front h, Option.bind_some]
    exact Option.map_eq_some_iff.mpr ⟨_, hread, rfl⟩
  · next number content hd bs =>
    have hread := ih.front hc rest
    rw [List.append_assoc, readHead?_reads.front h, Option.bind_some]
    dsimp only
    rw [readBigNumber?_eq_none hc hbig]
    exact Option.map_eq_some_iff.mpr ⟨_, hread, rfl⟩

end Item

/-- **The encodings of items are read,** and nothing else is. -/
theorem readItem?_reads (levels : ℕ) : Reads (readItem? levels) (Item.Encoded levels) := by
  induction levels with
  | zero =>
    intro bs item rest
    constructor
    · exact encoded_of_readItem? fun _ hn => absurd hn.symm (Nat.succ_ne_zero _)
    · rintro ⟨front, h, rfl⟩
      exact readItem?_of_flat h rest
  | succ levels ih =>
    intro bs item rest
    constructor
    · refine encoded_of_readItem? fun n hn => ?_
      obtain rfl := Nat.succ.inj hn
      exact ih
    · rintro ⟨front, h | h, rfl⟩
      · exact readItem?_of_flat h rest
      · exact readItem?_of_composed ih h rest

/-- **An item can be cut off the front of a byte string in one way only.** -/
theorem Item.Encoded.unique {levels : ℕ} {item item' : Item} {front front' rest rest' : Bytes}
    (h : Item.Encoded levels item front) (h' : Item.Encoded levels item' front')
    (heq : front ++ rest = front' ++ rest') : item = item' ∧ front = front' ∧ rest = rest' := by
  have hread := (readItem?_reads levels).front h rest
  rw [heq, (readItem?_reads levels).front h'] at hread
  obtain ⟨rfl, rfl⟩ := Prod.mk.inj (Option.some.inj hread)
  exact ⟨rfl, List.append_cancel_right heq, rfl⟩

theorem decode?_eq_some_item_iff {bs : Bytes} {item : Item} : decode? bs = some item ↔
    ∃ front rest, Item.Encoded maxNesting item front ∧ bs = front ++ rest := by
  unfold decode?
  rw [Option.map_eq_some_iff]
  constructor
  · rintro ⟨⟨item', rest⟩, hread, rfl⟩
    obtain ⟨front, h, rfl⟩ := (readItem?_reads _ _ _ _).mp hread
    exact ⟨front, rest, h, rfl⟩
  · rintro ⟨front, rest, h, rfl⟩
    exact ⟨(item, rest), (readItem?_reads _).front h rest, rfl⟩

end KnxIoT.Cbor
