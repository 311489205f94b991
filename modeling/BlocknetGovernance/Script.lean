import BlocknetGovernance.Stream

/-!
# Scripts: pushes and the two scanning loops

`dataFromBlock` takes a governance payload from an output script by walking its opcodes
with `CScript::GetOp` until the first non-empty push, and `matchesVinPubKey` walks an
input's `scriptSig` the same way until the first push of a public key's length.
`submitProposal` and `submitVotes` build the output script with `CScript() << OP_RETURN
<< data`. The script primitives live outside the governance sources and are modelled from
the spec's description: data pushes behind an `OP_RETURN`.

The loops run on fuel equal to the script's length, which `getOp_length_lt` shows is
enough: every opcode consumes at least its own byte.
-/

namespace Gov

/-! ## Opcodes -/

/-- `OP_PUSHDATA1`. -/
def opPushData1 : UInt8 := 0x4c
/-- `OP_PUSHDATA2`. -/
def opPushData2 : UInt8 := 0x4d
/-- `OP_PUSHDATA4`. -/
def opPushData4 : UInt8 := 0x4e
/-- `OP_RETURN`. -/
def opReturn : UInt8 := 0x6a

/-- The length of the data a push opcode announces, and the script after the length
bytes; `none` when the length bytes are cut off. -/
def pushLength (op : UInt8) (rest : Bytes) : Option (Nat × Bytes) :=
  if op.toNat < 0x4c then some (op.toNat, rest)
  else if op = opPushData1 then
    if 1 ≤ rest.length then some (leValue (rest.take 1), rest.drop 1) else none
  else if op = opPushData2 then
    if 2 ≤ rest.length then some (leValue (rest.take 2), rest.drop 2) else none
  else if 4 ≤ rest.length then some (leValue (rest.take 4), rest.drop 4) else none

/-- Modelled from the spec: `GetScriptOp`, the next opcode, the data it pushes and the
rest of the script; `none` when the script ends inside a push. -/
def getOp : Bytes → Option (UInt8 × Bytes × Bytes)
  | [] => none
  | op :: rest =>
    if op.toNat ≤ 0x4e then
      match pushLength op rest with
      | none => none
      | some (size, rest') =>
        if size ≤ rest'.length then some (op, rest'.take size, rest'.drop size) else none
    else some (op, [], rest)

/-- Modelled from the spec: `CScript::operator<<(std::vector<unsigned char>)`, the
shortest push opcode for the length, then the data. -/
def pushData (b : Bytes) : Bytes :=
  (if b.length < 0x4c then [b.length.toUInt8]
   else if b.length ≤ 0xFF then [opPushData1, b.length.toUInt8]
   else if b.length ≤ 0xFFFF then opPushData2 :: leBytes 2 b.length
   else opPushData4 :: leBytes 4 b.length) ++ b

/-- The header of a push is one byte below 76, two up to 255, three up to 65535, five
beyond. -/
theorem length_pushData (b : Bytes) :
    (pushData b).length = b.length +
      if b.length < 0x4c then 1 else if b.length ≤ 0xFF then 2 else if b.length ≤ 0xFFFF then 3
      else 5 := by
  unfold pushData
  split_ifs <;> simp <;> omega

/-! ## The scanning loops -/

/-- The loop of `dataFromBlock`: the first non-empty push, or nothing when `GetOp` fails
or the script ends first (`data` is cleared by every `GetOp`). -/
def firstPush : Nat → Bytes → Bytes
  | 0, _ => []
  | fuel + 1, s =>
    match s with
    | [] => []
    | _ :: _ =>
      match getOp s with
      | none => []
      | some (_, d, rest) => if d.isEmpty then firstPush fuel rest else d

/-- The payload `dataFromBlock` reads from an output script. -/
def opReturnData (script : Bytes) : Bytes := firstPush script.length script

/-- The loop of `matchesVinPubKey`: the first push of 65 or 33 bytes, if any comes
before `GetOp` fails or the script ends. -/
def firstKeyPush : Nat → Bytes → Option Bytes
  | 0, _ => none
  | fuel + 1, s =>
    match s with
    | [] => none
    | _ :: _ =>
      match getOp s with
      | none => none
      | some (_, d, rest) =>
        if d.length = 65 ∨ d.length = 33 then some d else firstKeyPush fuel rest

/-! ## Lemmas -/

theorem pushLength_length {op : UInt8} {rest rest' : Bytes} {n : Nat}
    (h : pushLength op rest = some (n, rest')) : rest'.length ≤ rest.length := by
  unfold pushLength at h
  split_ifs at h <;> cases h <;> simp

theorem getOp_length_lt {s rest d : Bytes} {op : UInt8} (h : getOp s = some (op, d, rest)) :
    rest.length < s.length := by
  match s, h with
  | b :: t, h =>
    simp only [getOp] at h
    split_ifs at h with hop
    · split at h
      · cases h
      · rename_i size rest' hp
        split_ifs at h
        cases h
        have := pushLength_length hp
        simp only [List.length_drop, List.length_cons]
        omega
    · cases h
      simp

theorem firstPush_fuel {n : Nat} {s : Bytes} (h : s.length ≤ n) :
    firstPush (n + 1) s = firstPush n s := by
  induction n generalizing s with
  | zero => cases s <;> simp_all [firstPush]
  | succ n ih =>
    match s with
    | [] => simp [firstPush]
    | b :: t =>
      simp only [firstPush]
      split
      · rfl
      · rename_i d rest hop
        have := getOp_length_lt hop
        split
        · exact ih (by simp at this h; omega)
        · rfl

/-- **The payload loop's fuel never stops it.** Each `GetOp` consumes a byte, so any fuel
from the script's length on reads the payload `opReturnData` reads. -/
theorem firstPush_eq_opReturnData {n : Nat} {s : Bytes} (h : s.length ≤ n) :
    firstPush n s = opReturnData s := by
  induction n, h using Nat.le_induction with
  | base => rfl
  | succ n hn ih => rw [firstPush_fuel hn, ih]

theorem pushScript_firstPush :
    (opReturn :: pushData [1, 2, 3]).length ≤ 64 ∧
      firstPush 64 (opReturn :: pushData [1, 2, 3]) = opReturnData (opReturn :: pushData [1, 2, 3]) :=
  ⟨by decide, firstPush_eq_opReturnData (by decide)⟩

theorem pushLength_pushData (b : Bytes) (h : b.length < 2 ^ 32) (rest : Bytes) :
    ∃ op, pushData b ++ rest = op :: ((pushData b).tail ++ rest) ∧ op.toNat ≤ 0x4e ∧
      pushLength op ((pushData b).tail ++ rest) = some (b.length, b ++ rest) := by
  unfold pushData
  have h8 (n : Nat) (hn : n < 256) : n.toUInt8.toNat = n := by
    simpa [Nat.mod_eq_of_lt hn] using toUInt8_mod_toNat n
  split_ifs with h1 h2 h3
  · exact ⟨_, rfl, by rw [h8 _ (by omega)]; omega,
      by simp [pushLength, h8 _ (show b.length < 256 by omega), h1]⟩
  · refine ⟨opPushData1, rfl, by decide, ?_⟩
    simp [pushLength, opPushData1, leValue, UInt8.size, h8 _ (show b.length < 256 by omega)]
  · refine ⟨opPushData2, rfl, by decide, ?_⟩
    have := leValue_leBytes_of_lt (show b.length < 256 ^ 2 by omega)
    simp [pushLength, opPushData1, opPushData2, UInt8.size, List.take_append_of_le_length, this]
  · refine ⟨opPushData4, rfl, by decide, ?_⟩
    have := leValue_leBytes_of_lt (show b.length < 256 ^ 4 by omega)
    simp [pushLength, opPushData1, opPushData2, opPushData4, UInt8.size,
      List.take_append_of_le_length, this]

theorem getOp_pushData (b : Bytes) (h : b.length < 2 ^ 32) (rest : Bytes) :
    ∃ op, getOp (pushData b ++ rest) = some (op, b, rest) := by
  obtain ⟨op, hs, hop, hp⟩ := pushLength_pushData b h rest
  refine ⟨op, ?_⟩
  rw [hs]
  simp [getOp, hop, hp]

theorem opReturnData_pushData {b : Bytes} (hne : b ≠ []) (h : b.length < 2 ^ 32) :
    opReturnData (opReturn :: pushData b) = b := by
  obtain ⟨op, hop⟩ := getOp_pushData b h []
  rw [List.append_nil] at hop
  have hb : b.isEmpty = false := by cases b <;> simp_all
  have hret : getOp (opReturn :: pushData b) = some (opReturn, [], pushData b) := by
    simp [getOp, opReturn, UInt8.size]
  cases hpd : pushData b with
  | nil => simp [hpd, getOp] at hop
  | cons c t =>
    rw [hpd] at hop hret
    simp only [opReturnData, List.length_cons, firstPush, hret, List.isEmpty_nil, if_true, hop,
      hb, Bool.false_eq_true, if_false]

end Gov
