import BlocknetGovernance.Vote
import Mathlib.Data.List.Sort

/-!
# `std::map<uint256, V>`

The governance state is two `std::map`s keyed by hash. A map is its entries in the order
`std::map` iterates them: `uint256::operator<` is `memcmp` of the little-endian bytes, so the
keys are ordered by `keyRank`, the bytes read with the first one most significant. The
structure carries that order, so a key appears once. A `CKeyID` key (160 bits) ranks the
same way, its twelve high bytes being zero. Each operation the header uses (`operator[]`
assignment, `count`/`find`, `erase`, the erase-while-iterating loop, iteration) has its
lookup lemma; proofs about the governance state go through those and never through the
entries, and `ext_find?` compares two maps by their lookups.
-/

namespace Gov

/-- Where a key sits in `std::map<uint256, V>`: its 32 bytes in memory, least significant
first, read with the first byte most significant. Keys past 256 bits, which no hash
reaches, come after by their high part. -/
def keyRank (k : Nat) : Nat := leValue (leBytes 32 k).reverse + 2 ^ 256 * (k / 2 ^ 256)

theorem leValue_reverse_leBytes_lt (k : Nat) : leValue (leBytes 32 k).reverse < 2 ^ 256 :=
  lt_of_lt_of_eq (leValue_lt _) (by rw [List.length_reverse, length_leBytes]; rfl)

theorem keyRank_mod (k : Nat) : keyRank k % 2 ^ 256 = leValue (leBytes 32 k).reverse := by
  rw [keyRank, Nat.add_mul_mod_self_left, Nat.mod_eq_of_lt (leValue_reverse_leBytes_lt k)]

theorem keyRank_div (k : Nat) : keyRank k / 2 ^ 256 = k / 2 ^ 256 := by
  rw [keyRank, Nat.add_mul_div_left _ _ (Nat.two_pow_pos 256),
    Nat.div_eq_of_lt (leValue_reverse_leBytes_lt k), Nat.zero_add]

/-- Distinct keys have distinct ranks: the low bytes and the high part give the key back. -/
theorem keyRank_injective : Function.Injective keyRank := by
  intro a b h
  have hlo : leValue (leBytes 32 a).reverse = leValue (leBytes 32 b).reverse := by
    rw [← keyRank_mod a, ← keyRank_mod b, h]
  have hbytes : leBytes 32 a = leBytes 32 b := by
    have ha := leBytes_leValue (leBytes 32 a).reverse
    have hb := leBytes_leValue (leBytes 32 b).reverse
    rw [List.length_reverse, length_leBytes, hlo] at ha
    rw [List.length_reverse, length_leBytes] at hb
    exact List.reverse_inj.mp (ha.symm.trans hb)
  have hmod : a % 2 ^ 256 = b % 2 ^ 256 := by
    have h256 : (256 : Nat) ^ 32 = 2 ^ 256 := rfl
    have := congrArg leValue hbytes
    rwa [leValue_leBytes, leValue_leBytes, h256] at this
  have hhi : a / 2 ^ 256 = b / 2 ^ 256 := by rw [← keyRank_div a, ← keyRank_div b, h]
  rw [← Nat.div_add_mod a (2 ^ 256), ← Nat.div_add_mod b (2 ^ 256), hhi]
  exact congrArg _ hmod

/-- `memcmp` puts 256 (bytes `00 01 ..`) before 1 (`01 00 ..`), and 1 before 2. -/
example : keyRank 256 < keyRank 1 ∧ keyRank 1 < keyRank 2 := by decide

/-- `std::map<uint256, V>`: the entries, in increasing `keyRank` of their keys. -/
structure StdMap (V : Type) where
  entries : List (Nat × V)
  sorted : entries.Sorted fun a b => keyRank a.1 < keyRank b.1

namespace StdMap

variable {V : Type}

/-- The empty map. -/
def empty : StdMap V := ⟨[], List.sorted_nil⟩

/-- The value stored under a key in a list of entries. -/
def findList (k : Nat) : List (Nat × V) → Option V
  | [] => none
  | (k', v) :: rest => if k' = k then some v else findList k rest

/-- `find`/`count`: the value stored under `k`. -/
def find? (m : StdMap V) (k : Nat) : Option V := findList k m.entries

/-- Assignment through `operator[]` in a list of entries. -/
def insertList (k : Nat) (v : V) : List (Nat × V) → List (Nat × V)
  | [] => [(k, v)]
  | (k', v') :: rest =>
    if keyRank k < keyRank k' then (k, v) :: (k', v') :: rest
    else if k = k' then (k, v) :: rest
    else (k', v') :: insertList k v rest

theorem keys_insertList (k : Nat) (v : V) (l : List (Nat × V)) :
    ∀ x ∈ (insertList k v l).map Prod.fst, x = k ∨ x ∈ l.map Prod.fst := by
  induction l with
  | nil => simp [insertList]
  | cons e rest ih =>
    obtain ⟨k', v'⟩ := e
    intro x hx
    simp only [insertList] at hx
    split_ifs at hx <;> simp only [List.map_cons, List.mem_cons] at hx ⊢
    · tauto
    · tauto
    · rcases hx with hx | hx
      · exact .inr (.inl hx)
      · rcases ih x hx with h | h <;> simp only [h, true_or, or_true]

theorem sorted_insertList (k : Nat) (v : V) (l : List (Nat × V))
    (h : l.Sorted fun a b => keyRank a.1 < keyRank b.1) :
    (insertList k v l).Sorted fun a b => keyRank a.1 < keyRank b.1 := by
  induction l with
  | nil => simp [insertList]
  | cons e rest ih =>
    obtain ⟨k', v'⟩ := e
    rw [List.sorted_cons] at h
    simp only [insertList]
    split_ifs with h1 h2
    · refine List.sorted_cons.mpr ⟨fun b hb => ?_, List.sorted_cons.mpr h⟩
      rcases List.mem_cons.mp hb with rfl | hb
      · exact h1
      · exact lt_trans h1 (h.1 b hb)
    · subst h2
      exact List.sorted_cons.mpr h
    · have hne : keyRank k ≠ keyRank k' := fun he => h2 (keyRank_injective he)
      refine List.sorted_cons.mpr ⟨fun b hb => ?_, ih h.2⟩
      obtain ⟨x, w⟩ := b
      rcases keys_insertList k v rest x (List.mem_map_of_mem Prod.fst hb) with rfl | hx
      · dsimp only
        omega
      · obtain ⟨⟨y, w'⟩, hy, rfl⟩ := List.mem_map.mp hx
        have := h.1 _ hy
        dsimp only at this ⊢
        exact this

/-- `m[k] = v`. -/
def insert (m : StdMap V) (k : Nat) (v : V) : StdMap V :=
  ⟨insertList k v m.entries, sorted_insertList k v _ m.sorted⟩

/-- The erase-while-iterating loop: the entries whose value passes `keep`. -/
def filter (m : StdMap V) (keep : V → Bool) : StdMap V :=
  ⟨m.entries.filter (keep ·.2), m.sorted.sublist (List.filter_sublist _)⟩

/-- `erase(k)`. -/
def erase (m : StdMap V) (k : Nat) : StdMap V :=
  ⟨m.entries.filter (·.1 ≠ k), m.sorted.sublist (List.filter_sublist _)⟩

/-- Two maps are equal when their entries are, as `std::map::operator==` compares them. -/
instance [DecidableEq V] : DecidableEq (StdMap V) := fun a b =>
  decidable_of_iff (a.entries = b.entries) ⟨fun h => by cases a; cases b; cases h; rfl, (· ▸ rfl)⟩

/-- The values, in `keyRank` order, as iteration visits them. -/
def values (m : StdMap V) : List V := m.entries.map Prod.snd

/-! ## Lookup lemmas -/

@[simp] theorem find?_empty (k : Nat) : (empty : StdMap V).find? k = none := rfl

theorem findList_insertList (k k' : Nat) (v : V) (l : List (Nat × V)) :
    findList k' (insertList k v l) = if k = k' then some v else findList k' l := by
  induction l with
  | nil => simp [insertList, findList]
  | cons e rest ih =>
    obtain ⟨k'', v'⟩ := e
    by_cases h1 : keyRank k < keyRank k''
    · simp only [insertList, if_pos h1, findList]
    by_cases h2 : k = k''
    · subst h2
      simp only [insertList, if_neg h1, if_true, findList]
      by_cases h3 : k = k' <;> simp [h3]
    · simp only [insertList, if_neg h1, if_neg h2, findList, ih]
      by_cases h3 : k'' = k'
      · subst h3
        simp [h2]
      · simp [h3]

@[simp] theorem find?_insert (m : StdMap V) (k k' : Nat) (v : V) :
    (m.insert k v).find? k' = if k = k' then some v else m.find? k' :=
  findList_insertList k k' v m.entries

theorem values_insertList (k : Nat) (v : V) : ∀ l : List (Nat × V), findList k l = none →
    ((insertList k v l).map Prod.snd).Perm (v :: l.map Prod.snd)
  | [], _ => .refl _
  | (k', v') :: rest, h => by
    simp only [findList] at h
    split_ifs at h with hk
    simp only [insertList]
    split_ifs with h1 h2
    · exact .refl _
    · exact absurd h2.symm hk
    · exact ((values_insertList k v rest h).cons v').trans (.swap v v' _)

theorem values_insert_perm {m : StdMap V} {k : Nat} (v : V) (h : m.find? k = none) :
    (m.insert k v).values.Perm (v :: m.values) :=
  values_insertList k v m.entries h

theorem findList_of_sorted {k : Nat} {l : List (Nat × V)} {v : V}
    (h : l.Sorted fun a b => keyRank a.1 < keyRank b.1) : findList k l = some v ↔ (k, v) ∈ l := by
  induction l with
  | nil => simp [findList]
  | cons e rest ih =>
    obtain ⟨k', v'⟩ := e
    rw [List.sorted_cons] at h
    simp only [findList, List.mem_cons, Prod.mk.injEq]
    split_ifs with hk
    · subst hk
      constructor
      · rintro ⟨⟩; exact .inl ⟨rfl, rfl⟩
      · rintro (⟨-, rfl⟩ | hm)
        · rfl
        · have := h.1 _ hm
          dsimp only at this
          exact absurd this (lt_irrefl _)
    · rw [ih h.2]
      constructor
      · exact .inr
      · rintro (⟨rfl, -⟩ | hm)
        · exact absurd rfl hk
        · exact hm

theorem mem_entries {m : StdMap V} {k : Nat} {v : V} : (k, v) ∈ m.entries ↔ m.find? k = some v :=
  (findList_of_sorted m.sorted).symm

@[simp] theorem find?_filter (m : StdMap V) (keep : V → Bool) (k : Nat) :
    (m.filter keep).find? k = (m.find? k).filter keep := by
  cases h : m.find? k with
  | none =>
    cases h' : (m.filter keep).find? k with
    | none => rfl
    | some w =>
      have := mem_entries.mp (List.mem_of_mem_filter (mem_entries.mpr h'))
      simp_all
  | some v =>
    have hv := mem_entries.mpr h
    by_cases hk : keep v = true
    · simp only [Option.filter, hk, if_true]
      exact mem_entries.mp (List.mem_filter.mpr ⟨hv, hk⟩)
    · simp only [Option.filter, hk]
      cases h' : (m.filter keep).find? k with
      | none => rfl
      | some w =>
        have hw := mem_entries.mpr h'
        have hkw : keep w = true := (List.mem_filter.mp hw).2
        have := mem_entries.mp (List.mem_of_mem_filter hw)
        simp_all

@[simp] theorem find?_erase (m : StdMap V) (k k' : Nat) :
    (m.erase k).find? k' = if k = k' then none else m.find? k' := by
  split_ifs with hk
  · subst hk
    cases h' : (m.erase k).find? k with
    | none => rfl
    | some w => simpa using (List.mem_filter.mp (mem_entries.mpr h')).2
  · cases h : m.find? k' with
    | none =>
      cases h' : (m.erase k).find? k' with
      | none => rfl
      | some w => simp_all [← mem_entries.mp (List.mem_of_mem_filter (mem_entries.mpr h'))]
    | some v =>
      exact mem_entries.mp (List.mem_filter.mpr ⟨mem_entries.mpr h, by simpa using Ne.symm hk⟩)

theorem mem_values {m : StdMap V} {v : V} : v ∈ m.values ↔ ∃ k, m.find? k = some v := by
  simp only [values, List.mem_map]
  constructor
  · rintro ⟨⟨k, w⟩, hm, rfl⟩
    exact ⟨k, mem_entries.mp hm⟩
  · rintro ⟨k, hk⟩
    exact ⟨(k, v), mem_entries.mpr hk, rfl⟩

theorem ext_find? {m m' : StdMap V} (h : ∀ k, m.find? k = m'.find? k) : m = m' := by
  obtain ⟨l, hl⟩ := m
  obtain ⟨l', hl'⟩ := m'
  haveI : IsIrrefl (Nat × V) (fun a b => keyRank a.1 < keyRank b.1) := ⟨fun _ => lt_irrefl _⟩
  haveI : IsAntisymm (Nat × V) (fun a b => keyRank a.1 < keyRank b.1) :=
    ⟨fun _ _ h1 h2 => absurd (h1.trans h2) (lt_irrefl _)⟩
  have hperm : l.Perm l' :=
    (List.perm_ext_iff_of_nodup hl.nodup hl'.nodup).mpr fun ⟨k, v⟩ => by
      rw [← findList_of_sorted hl, ← findList_of_sorted hl']
      exact Eq.congr_left (h k)
  simp only [mk.injEq]
  exact List.eq_of_perm_of_sorted hperm hl hl'

/-! ## Maps keyed by a function of their values -/

/-- Every value is stored under `key` of itself and satisfies `P`. -/
def KeyedBy (key : V → Nat) (P : V → Prop) (m : StdMap V) : Prop :=
  ∀ k v, m.find? k = some v → k = key v ∧ P v

section KeyedBy

variable {key : V → Nat} {P : V → Prop} {m : StdMap V}

theorem keyedBy_empty : KeyedBy key P (empty : StdMap V) := by
  intro k v h
  simp at h

theorem KeyedBy.insert (h : KeyedBy key P m) {v : V} (hv : P v) :
    KeyedBy key P (m.insert (key v) v) := by
  intro k w hw
  rw [find?_insert] at hw
  split_ifs at hw with hk
  · cases hw
    exact ⟨hk.symm, hv⟩
  · exact h k w hw

theorem KeyedBy.erase (h : KeyedBy key P m) (k : Nat) : KeyedBy key P (m.erase k) := by
  intro k' w hw
  rw [find?_erase] at hw
  split_ifs at hw
  exact h k' w hw

theorem KeyedBy.filter (h : KeyedBy key P m) (keep : V → Bool) : KeyedBy key P (m.filter keep) := by
  intro k w hw
  rw [find?_filter, Option.filter_eq_some] at hw
  exact h k w hw.1

end KeyedBy

end StdMap

end Gov
