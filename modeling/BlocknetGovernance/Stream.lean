import BlocknetGovernance.Basic

/-!
# The network serialization format

`governance.h` writes proposals and votes with `CDataStream`/`CHashWriter` and reads them
back with `CDataStream >>`. Neither stream is part of the governance sources, so both are
modelled from the spec's description of the codec: little-endian integers,
compact-size-prefixed byte strings, no padding. A read takes a prefix of the buffer and
throws when the buffer runs out; nothing checks what is left after an object.

The round-trip lemmas say that each reader returns what the matching writer wrote, with
whatever follows left in the stream; the soundness lemmas, the other way, that whatever a
reader returns it took from the front of the stream as exactly the bytes the writer writes
for it. Compact sizes must be canonical, so a payload reads as a value only when it is that
value's encoding.
-/

namespace Gov

/-! ## Writing -/

/-- `MAX_SIZE`, the largest length `ReadCompactSize` accepts. -/
def maxSize : Nat := 0x02000000

/-- Modelled from the spec: `WriteCompactSize`, the shortest of the four length prefixes. -/
def serCompactSize (n : Nat) : Bytes :=
  if n < 253 then [n.toUInt8]
  else if n ≤ 0xFFFF then 253 :: leBytes 2 n
  else if n ≤ 0xFFFFFFFF then 254 :: leBytes 4 n
  else 255 :: leBytes 8 n

/-- Modelled from the spec: a `std::string` or `std::vector<unsigned char>`, its length
prefixed. -/
def serBytes (b : Bytes) : Bytes := serCompactSize b.length ++ b

/-- Modelled from the spec: an `int`, four little-endian bytes of two's complement. -/
def serInt (x : CInt) : Bytes := leBytes 4 (x.val % 2 ^ 32).toNat

/-- Modelled from the spec: an `int64_t`, eight little-endian bytes of two's complement. -/
def serInt64 (x : CAmount) : Bytes := leBytes 8 (x.val % 2 ^ 64).toNat

/-- Modelled from the spec: a `uint256`, its 32 low bytes. -/
def serUint256 (v : Nat) : Bytes := leBytes 32 v

/-- Modelled from the spec: `COutPoint`, hash then index. -/
def serOutPoint (o : OutPoint) : Bytes := serUint256 o.hash ++ leBytes 4 o.n.toNat

/-! ## Reading -/

/-- Modelled from the spec: a `CDataStream` being read, as the bytes not read yet; a read
past the end throws. -/
abbrev Reader := StateT Bytes (Except Failure)

/-- `CDataStream::read` of `n` bytes. -/
def readBytes (n : Nat) : Reader Bytes := fun s =>
  if n ≤ s.length then .ok (s.take n, s.drop n) else .error .endOfData

/-- `ser_readdata8`. -/
def readU8 : Reader UInt8 := fun s =>
  match s with
  | b :: rest => .ok (b, rest)
  | [] => .error .endOfData

/-- An unsigned little-endian integer of `k` bytes. -/
def readLE (k : Nat) : Reader Nat := do
  let b ← readBytes k
  pure (leValue b)

/-- A compact size in `k` bytes that must be at least `least` to be canonical. -/
def readCanonical (k least : Nat) : Reader Nat := do
  let v ← readLE k
  if v < least then throw Failure.nonCanonicalSize
  pure v

/-- Modelled from the spec: `ReadCompactSize`, which refuses a non-canonical prefix and a
length above `MAX_SIZE`. -/
def readCompactSize : Reader Nat := do
  let ch := (← readU8).toNat
  let n ← if ch < 253 then pure ch
    else if ch = 253 then readCanonical 2 253
    else if ch = 254 then readCanonical 4 0x10000
    else readCanonical 8 0x100000000
  if maxSize < n then throw Failure.sizeTooLarge
  pure n

/-- A length-prefixed byte string. -/
def readVarBytes : Reader Bytes := do
  let n ← readCompactSize
  readBytes n

/-- An `int`. -/
def readInt : Reader CInt := do
  let v ← readLE 4
  pure (SInt.wrap 32 v)

/-- An `int64_t`. -/
def readInt64 : Reader CAmount := do
  let v ← readLE 8
  pure (SInt.wrap 64 v)

/-- A `uint256`. -/
def readUint256 : Reader Nat := readLE 32

/-- A `COutPoint`. -/
def readOutPoint : Reader OutPoint := do
  let hash ← readUint256
  let n ← readLE 4
  pure ⟨hash, n.toUInt32⟩

/-! ## Round trips -/

@[simp] theorem except_ok_bind {ε α β : Type} (a : α) (f : α → Except ε β) :
    (Except.ok a >>= f) = f a := rfl

@[simp] theorem except_pure {ε α : Type} (a : α) : (pure a : Except ε α) = .ok a := rfl

@[simp] theorem except_map_ok {ε α β : Type} (a : α) (f : α → β) :
    (f <$> (Except.ok a : Except ε α)) = .ok (f a) := rfl

@[simp] theorem except_map_ok_eq {ε α β : Type} (a : α) (f : α → β) :
    Except.map f (.ok a : Except ε α) = .ok (f a) := rfl

theorem except_bind_ok {ε α β : Type} {x : Except ε α} {f : α → Except ε β} {b : β}
    (h : (x >>= f) = .ok b) : ∃ a, x = .ok a ∧ f a = .ok b := by
  cases x with
  | error e => cases h
  | ok a => exact ⟨a, rfl, h⟩

theorem except_mapError_ok {ε ε' α : Type} {x : Except ε α} {f : ε → ε'} {a : α}
    (h : x.mapError f = .ok a) : x = .ok a := by
  cases x with
  | error e => cases h
  | ok b => simpa [Except.mapError] using h

theorem except_ite_ok {ε α : Type} {c : Prop} [Decidable c] {x y : Except ε α} {b : α}
    (h : (if c then x else y) = .ok b) : c ∧ x = .ok b ∨ ¬c ∧ y = .ok b := by
  split_ifs at h with hc
  · exact .inl ⟨hc, h⟩
  · exact .inr ⟨hc, h⟩

theorem except_map_eq_ok {ε α β : Type} {x : Except ε α} {f : α → β} {b : β}
    (h : f <$> x = .ok b) : ∃ a, x = .ok a ∧ f a = b := by
  cases x with
  | error e => cases h
  | ok a => exact ⟨a, rfl, Except.ok.inj h⟩

/-- What a do block's `unless c do throw e` followed by `k` is after its lets are unfolded:
it passes only when `c` holds, and then it is `k`. -/
theorem except_unless_ok {ε α : Type} {c : Prop} [Decidable c] {e : ε} {k : Unit → Except ε α}
    {x : α} (h : (if c then pure () >>= k else throw e >>= k) = .ok x) : c ∧ k () = .ok x := by
  split_ifs at h with hc
  · exact ⟨hc, h⟩
  · cases h

theorem foldlM_except_inv {ε α β : Type} {f : α → β → Except ε α} (I : α → Prop)
    (hf : ∀ a b a', I a → f a b = .ok a' → I a') :
    ∀ (l : List β) {a a' : α}, I a → l.foldlM f a = .ok a' → I a'
  | [], _, _, ha, h => by cases h; exact ha
  | b :: l, a, _, ha, h => by
    rw [List.foldlM_cons] at h
    obtain ⟨a₁, h₁, h⟩ := except_bind_ok h
    exact foldlM_except_inv I hf l (hf a b a₁ ha h₁) h

@[simp] theorem readBytes_run_append {n : Nat} {xs rest : Bytes} (h : xs.length = n) :
    (readBytes n).run (xs ++ rest) = .ok (xs, rest) := by
  subst h
  simp [readBytes, StateT.run]

@[simp] theorem readU8_run (b : UInt8) (rest : Bytes) :
    readU8.run (b :: rest) = .ok (b, rest) := rfl

theorem readLE_run {k v : Nat} (h : v < 256 ^ k) (rest : Bytes) :
    (readLE k).run (leBytes k v ++ rest) = .ok (v, rest) := by
  simp [readLE, leValue_leBytes_of_lt h]

theorem readCanonical_run {k least v : Nat} (h : v < 256 ^ k) (hl : least ≤ v) (rest : Bytes) :
    (readCanonical k least).run (leBytes k v ++ rest) = .ok (v, rest) := by
  simp [readCanonical, StateT.run_bind, readLE_run h, Nat.not_lt.mpr hl]

theorem readCompactSize_run {n : Nat} (h : n ≤ maxSize) (rest : Bytes) :
    readCompactSize.run (serCompactSize n ++ rest) = .ok (n, rest) := by
  have hmax : ¬ maxSize < n := Nat.not_lt.mpr h
  unfold serCompactSize
  by_cases h1 : n < 253
  · have : (n.toUInt8).toNat = n := by
      simpa [Nat.mod_eq_of_lt (show n < 256 by omega)] using toUInt8_mod_toNat n
    simp [readCompactSize, StateT.run_bind, h1, this, hmax]
  by_cases h2 : n ≤ 0xFFFF
  · simp [readCompactSize, StateT.run_bind, h1, h2, hmax, UInt8.size,
      readCanonical_run (show n < 256 ^ 2 by omega) (show 253 ≤ n by omega)]
  · have h3 : n ≤ 0xFFFFFFFF := by simp only [maxSize] at h; omega
    simp [readCompactSize, StateT.run_bind, h1, h2, h3, hmax, UInt8.size,
      readCanonical_run (show n < 256 ^ 4 by omega) (show 0x10000 ≤ n by omega)]

theorem readVarBytes_run {b : Bytes} (h : b.length ≤ maxSize) (rest : Bytes) :
    readVarBytes.run (serBytes b ++ rest) = .ok (b, rest) := by
  simp [readVarBytes, serBytes, StateT.run_bind, readCompactSize_run h]

theorem SInt.wrap_toNat_emod {w : Nat} (hw : 0 < w) (x : SInt w) :
    SInt.wrap w (x.val % 2 ^ w).toNat = x := by
  have hM : (2 : Int) ^ w = 2 * 2 ^ (w - 1) := by
    rw [← pow_succ']
    congr 1
    omega
  have hpos : (0 : Int) < 2 ^ (w - 1) := by positivity
  have hnn : 0 ≤ x.val % 2 ^ w := Int.emod_nonneg _ (by omega)
  have lo := x.lo
  have hi := x.hi
  ext
  simp only [SInt.wrap]
  rw [Int.toNat_of_nonneg hnn, hM, Int.emod_add_emod, Int.emod_eq_of_lt (by omega) (by omega)]
  omega

theorem SInt.toNat_wrap_emod {w : Nat} (hw : 0 < w) {v : Nat} (h : v < 2 ^ w) :
    ((SInt.wrap w v).val % 2 ^ w).toNat = v := by
  have hM : (2 : Int) ^ w = 2 * 2 ^ (w - 1) := by
    rw [← pow_succ']
    congr 1
    omega
  have hv : (SInt.wrap w v).val % 2 ^ w = v % 2 ^ w := by
    rw [hM, SInt.wrap, Int.sub_emod, Int.emod_emod, ← Int.sub_emod, add_sub_cancel_right]
  rw [hv, Int.emod_eq_of_lt (by omega) (by exact_mod_cast h)]
  rfl

theorem readInt_run (x : CInt) (rest : Bytes) :
    readInt.run (serInt x ++ rest) = .ok (x, rest) := by
  have h : (x.val % 2 ^ 32).toNat < 256 ^ 4 := by
    have := Int.emod_lt_of_pos x.val (show (0 : Int) < 2 ^ 32 by norm_num)
    omega
  show (readLE 4 >>= fun v => pure (SInt.wrap 32 v)).run _ = _
  rw [StateT.run_bind, serInt, readLE_run h]
  exact congrArg (fun y => Except.ok (y, rest)) (SInt.wrap_toNat_emod (by norm_num) x)

theorem readInt64_run (x : CAmount) (rest : Bytes) :
    readInt64.run (serInt64 x ++ rest) = .ok (x, rest) := by
  have h : (x.val % 2 ^ 64).toNat < 256 ^ 8 := by
    have := Int.emod_lt_of_pos x.val (show (0 : Int) < 2 ^ 64 by norm_num)
    omega
  show (readLE 8 >>= fun v => pure (SInt.wrap 64 v)).run _ = _
  rw [StateT.run_bind, serInt64, readLE_run h]
  exact congrArg (fun y => Except.ok (y, rest)) (SInt.wrap_toNat_emod (by norm_num) x)

theorem readUint256_run {v : Nat} (h : v < 2 ^ 256) (rest : Bytes) :
    readUint256.run (serUint256 v ++ rest) = .ok (v, rest) :=
  readLE_run (by simpa using h) rest

/-! ## What a reader returns -/

/-- Every value `r` returns, from any buffer, satisfies `P`. -/
def Reader.Returns {α : Type} (r : Reader α) (P : α → Prop) : Prop :=
  ∀ s a s', r.run s = .ok (a, s') → P a

theorem Reader.Returns.bind {α β : Type} {x : Reader α} {f : α → Reader β} {Q : α → Prop}
    {P : β → Prop} (hx : x.Returns Q) (hf : ∀ a, Q a → (f a).Returns P) :
    (x >>= f).Returns P := by
  intro s b s' h
  obtain ⟨p, hx', h⟩ := except_bind_ok h
  exact hf p.1 (hx s p.1 p.2 hx') p.2 b s' h

theorem Reader.Returns.pure {α : Type} {P : α → Prop} {a : α} (h : P a) :
    (Pure.pure a : Reader α).Returns P := by
  intro s b s' hb
  cases hb
  exact h

theorem Reader.Returns.true {α : Type} (x : Reader α) : x.Returns fun _ => True :=
  fun _ _ _ _ => trivial

theorem readBytes_returns (n : Nat) : (readBytes n).Returns (·.length = n) := by
  intro s b s' h
  simp only [readBytes, StateT.run] at h
  split_ifs at h with hn
  cases h
  simpa using hn

theorem readLE_returns (k : Nat) : (readLE k).Returns (· < 256 ^ k) :=
  (readBytes_returns k).bind fun b hb => .pure (hb ▸ leValue_lt b)

theorem readOutPoint_returns : readOutPoint.Returns (·.hash < 2 ^ 256) :=
  (readLE_returns 32).bind fun _ h => (Reader.Returns.true _).bind fun _ _ =>
    .pure (by simpa using h)

theorem readOutPoint_run {o : OutPoint} (h : o.hash < 2 ^ 256) (rest : Bytes) :
    readOutPoint.run (serOutPoint o ++ rest) = .ok (o, rest) := by
  have hn : o.n.toNat < 256 ^ 4 := o.n.toNat_lt_size
  simp [readOutPoint, serOutPoint, StateT.run_bind, readUint256_run h, readLE_run hn]

/-! ## What a read consumed -/

theorem readBytes_sound {n : Nat} {s b s' : Bytes} (h : (readBytes n).run s = .ok (b, s')) :
    s = b ++ s' ∧ b.length = n := by
  simp only [readBytes, StateT.run] at h
  split_ifs at h with hn
  cases h
  exact ⟨(List.take_append_drop n s).symm, by simpa using hn⟩

theorem readU8_sound {s s' : Bytes} {b : UInt8} (h : readU8.run s = .ok (b, s')) :
    s = b :: s' := by
  cases s with
  | nil => cases h
  | cons c rest => cases h; rfl

theorem readLE_sound {k v : Nat} {s s' : Bytes} (h : (readLE k).run s = .ok (v, s')) :
    s = leBytes k v ++ s' ∧ v < 256 ^ k := by
  simp only [readLE, StateT.run_bind] at h
  obtain ⟨⟨b, s₁⟩, hb, h⟩ := except_bind_ok h
  cases h
  obtain ⟨rfl, rfl⟩ := readBytes_sound hb
  exact ⟨by rw [leBytes_leValue], leValue_lt b⟩

theorem readCanonical_sound {k least v : Nat} {s s' : Bytes}
    (h : (readCanonical k least).run s = .ok (v, s')) :
    s = leBytes k v ++ s' ∧ v < 256 ^ k ∧ least ≤ v := by
  simp only [readCanonical, StateT.run_bind] at h
  obtain ⟨⟨m, s₁⟩, hm, h⟩ := except_bind_ok h
  by_cases hl : m < least
  · simp [hl] at h
    cases h
  · simp [hl] at h
    obtain ⟨rfl, rfl⟩ := h
    exact ⟨(readLE_sound hm).1, (readLE_sound hm).2, Nat.not_lt.mp hl⟩

theorem readCompactSize_check {x : Reader Nat} {s s' : Bytes} {n : Nat}
    (h : (do
        let y ← x
        if maxSize < y then throw Failure.sizeTooLarge
        pure y : Reader Nat).run s = .ok (n, s')) :
    x.run s = .ok (n, s') ∧ n ≤ maxSize := by
  simp only [StateT.run_bind] at h
  obtain ⟨⟨m, s₁⟩, hm, h⟩ := except_bind_ok h
  by_cases hl : maxSize < m
  · simp [hl] at h
    cases h
  · simp [hl] at h
    obtain ⟨rfl, rfl⟩ := h
    exact ⟨hm, Nat.not_lt.mp hl⟩

/-- A length read is written back as it was read: `ReadCompactSize` refuses every prefix
that is not the shortest, and the nine-byte prefix always exceeds `MAX_SIZE`. -/
theorem readCompactSize_sound {n : Nat} {s s' : Bytes} (h : readCompactSize.run s = .ok (n, s')) :
    s = serCompactSize n ++ s' ∧ n ≤ maxSize := by
  simp only [readCompactSize, StateT.run_bind] at h
  obtain ⟨⟨c, s₁⟩, hc, hk⟩ := except_bind_ok h
  obtain rfl := readU8_sound hc
  clear h hc
  split_ifs at hk with h1 h2 h3 <;> obtain ⟨hk, hn⟩ := readCompactSize_check hk
  · cases hk
    simp [serCompactSize, h1, toUInt8_toNat, hn]
  · obtain ⟨rfl, hlt, hle⟩ := readCanonical_sound hk
    obtain rfl : c = 253 := UInt8.toNat.inj h2
    simp [serCompactSize, hn, Nat.not_lt.mpr hle, show n ≤ 0xFFFF by omega]
  · obtain ⟨rfl, hlt, hle⟩ := readCanonical_sound hk
    obtain rfl : c = 254 := UInt8.toNat.inj h3
    simp [serCompactSize, hn, show ¬ n < 253 by omega, show ¬ n ≤ 0xFFFF by omega,
      show n ≤ 0xFFFFFFFF by omega]
  · have := (readCanonical_sound hk).2.2
    simp only [maxSize] at hn
    omega

theorem readVarBytes_sound {b s s' : Bytes} (h : readVarBytes.run s = .ok (b, s')) :
    s = serBytes b ++ s' ∧ b.length ≤ maxSize := by
  simp only [readVarBytes, StateT.run_bind] at h
  obtain ⟨⟨n, s₁⟩, hn, hb⟩ := except_bind_ok h
  obtain ⟨rfl, hmax⟩ := readCompactSize_sound hn
  obtain ⟨rfl, rfl⟩ := readBytes_sound hb
  exact ⟨by simp [serBytes], hmax⟩

theorem readInt_sound {x : CInt} {s s' : Bytes} (h : readInt.run s = .ok (x, s')) :
    s = serInt x ++ s' := by
  simp only [readInt, StateT.run_bind] at h
  obtain ⟨⟨v, s₁⟩, hv, hk⟩ := except_bind_ok h
  obtain ⟨rfl, rfl⟩ := Prod.mk.inj (Except.ok.inj hk)
  obtain ⟨rfl, hlt⟩ := readLE_sound hv
  rw [serInt, SInt.toNat_wrap_emod (by norm_num) (lt_of_lt_of_eq hlt rfl)]

theorem readInt64_sound {x : CAmount} {s s' : Bytes} (h : readInt64.run s = .ok (x, s')) :
    s = serInt64 x ++ s' := by
  simp only [readInt64, StateT.run_bind] at h
  obtain ⟨⟨v, s₁⟩, hv, hk⟩ := except_bind_ok h
  obtain ⟨rfl, rfl⟩ := Prod.mk.inj (Except.ok.inj hk)
  obtain ⟨rfl, hlt⟩ := readLE_sound hv
  rw [serInt64, SInt.toNat_wrap_emod (by norm_num) (lt_of_lt_of_eq hlt rfl)]

theorem readUint256_sound {v : Nat} {s s' : Bytes} (h : readUint256.run s = .ok (v, s')) :
    s = serUint256 v ++ s' ∧ v < 2 ^ 256 := by
  simpa using readLE_sound h

theorem readOutPoint_sound {o : OutPoint} {s s' : Bytes} (h : readOutPoint.run s = .ok (o, s')) :
    s = serOutPoint o ++ s' ∧ o.hash < 2 ^ 256 := by
  simp only [readOutPoint, StateT.run_bind] at h
  obtain ⟨⟨hash, s₁⟩, hh, hk⟩ := except_bind_ok h
  obtain ⟨⟨n, s₂⟩, hn, hk⟩ := except_bind_ok hk
  cases hk
  obtain ⟨rfl, hlt⟩ := readUint256_sound hh
  obtain ⟨rfl, hn4⟩ := readLE_sound hn
  have : n.toUInt32.toNat = n := UInt32.toNat_ofNat_of_lt (by simpa using hn4)
  exact ⟨by simp [serOutPoint, this], hlt⟩

theorem Reader.run'_of_run {α : Type} {r : Reader α} {s s' : Bytes} {a : α}
    (h : r.run s = .ok (a, s')) : r.run' s = .ok a := by
  show (·.1) <$> r.run s = _
  rw [h]
  rfl

theorem Reader.run_of_run' {α : Type} {r : Reader α} {s : Bytes} {a : α}
    (h : r.run' s = .ok a) : ∃ s', r.run s = .ok (a, s') := by
  obtain ⟨⟨b, s'⟩, hr, rfl⟩ := except_map_eq_ok h
  exact ⟨s', hr⟩

end Gov
