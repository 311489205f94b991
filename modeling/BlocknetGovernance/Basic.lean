import Mathlib.Data.List.Basic
import Mathlib.Data.Int.Defs
import Mathlib.Order.Basic
import Mathlib.Tactic.Positivity

/-!
# Blocknet governance: the data `governance.h` reads

Bytes, the C++ integer widths the header computes with, outpoints, transactions and
blocks, the consensus parameters, and the node functions (`Env`) and chain state
(`CoinView`) that `governance.h` calls but does not define.

A `uint256` (a hash) is a natural number here. The model leaves the range of the hash
functions open, so that a statement may assume a hash injective; a hash written to a
stream takes its low 32 bytes, as `uint256::Serialize` writes them.
-/

namespace Gov

/-! ## Bytes -/

/-- A byte string: `std::vector<unsigned char>`, `std::string`, a `CScript`. -/
abbrev Bytes := List UInt8

/-- The `k` low bytes of `v`, least significant first. -/
def leBytes : Nat → Nat → Bytes
  | 0, _ => []
  | k + 1, v => (v % 256).toUInt8 :: leBytes k (v / 256)

/-- The number a little-endian byte string denotes. -/
def leValue : Bytes → Nat
  | [] => 0
  | b :: bs => b.toNat + 256 * leValue bs

@[simp] theorem toUInt8_mod_toNat (n : Nat) : (n % 256).toUInt8.toNat = n % 256 := by
  simp [Nat.toUInt8, UInt8.toNat, UInt8.ofNat]

theorem toUInt8_toNat (b : UInt8) : b.toNat.toUInt8 = b :=
  UInt8.toNat.inj (UInt8.toNat_ofNat_of_lt b.val.isLt)

@[simp] theorem length_leBytes (k v : Nat) : (leBytes k v).length = k := by
  induction k generalizing v <;> simp [leBytes, *]

theorem leValue_leBytes (k v : Nat) : leValue (leBytes k v) = v % 256 ^ k := by
  induction k generalizing v with
  | zero => simp [leBytes, leValue, Nat.mod_one]
  | succ k ih =>
    simp only [leBytes, leValue, ih, toUInt8_mod_toNat, Nat.pow_succ]
    rw [show 256 ^ k * 256 = 256 * 256 ^ k from Nat.mul_comm _ _, Nat.mod_mul]

theorem leValue_lt (bs : Bytes) : leValue bs < 256 ^ bs.length := by
  induction bs with
  | nil => simp [leValue]
  | cons b bs ih =>
    have hb : b.toNat < 256 := b.val.isLt
    simp only [leValue, List.length_cons, Nat.pow_succ]
    omega

theorem leValue_leBytes_of_lt {k v : Nat} (h : v < 256 ^ k) : leValue (leBytes k v) = v := by
  rw [leValue_leBytes, Nat.mod_eq_of_lt h]

theorem leBytes_leValue (bs : Bytes) : leBytes bs.length (leValue bs) = bs := by
  induction bs with
  | nil => rfl
  | cons b bs ih =>
    have hb : b.toNat < 256 := b.val.isLt
    have h1 : (b.toNat + 256 * leValue bs) % 256 = b.toNat := by omega
    have h2 : (b.toNat + 256 * leValue bs) / 256 = leValue bs := by omega
    simp only [List.length_cons, leBytes, leValue, h1, h2, ih, toUInt8_toNat]

/-! ## C++ integers -/

/-- A signed `w`-bit C++ integer (`int`, `int64_t`, `CAmount`), kept as its value. -/
@[ext] structure SInt (w : Nat) where
  val : Int
  lo : -2 ^ (w - 1) ≤ val
  hi : val < 2 ^ (w - 1)
  deriving DecidableEq, Repr

/-- C++ `int`. -/
abbrev CInt := SInt 32

/-- C++ `int64_t`, and `CAmount`. -/
abbrev CAmount := SInt 64

/-- The two's complement value of `x` in `w` bits: what the machine's `+`, `-` and narrowing
casts leave of a result that does not fit. -/
def SInt.wrap (w : Nat) (x : Int) : SInt w where
  val := (x + 2 ^ (w - 1)) % (2 * 2 ^ (w - 1)) - 2 ^ (w - 1)
  lo := by
    have : 0 ≤ (x + 2 ^ (w - 1)) % (2 * 2 ^ (w - 1)) :=
      Int.emod_nonneg _ (by positivity)
    omega
  hi := by
    have : (x + 2 ^ (w - 1)) % (2 * 2 ^ (w - 1)) < 2 * 2 ^ (w - 1) :=
      Int.emod_lt_of_pos _ (by positivity)
    omega

theorem SInt.wrap_val_of_mem {w : Nat} {x : Int} (lo : -2 ^ (w - 1) ≤ x)
    (hi : x < 2 ^ (w - 1)) : (SInt.wrap w x).val = x := by
  have h : (x + 2 ^ (w - 1)) % (2 * 2 ^ (w - 1)) = x + 2 ^ (w - 1) :=
    Int.emod_eq_of_lt (by omega) (by omega)
  simp only [SInt.wrap, h]
  omega

theorem SInt.wrap_eq_of_emod_eq {w : Nat} {x y : Int}
    (h : x % (2 * 2 ^ (w - 1)) = y % (2 * 2 ^ (w - 1))) : SInt.wrap w x = SInt.wrap w y := by
  ext
  simp only [SInt.wrap]
  rw [Int.add_emod x, Int.add_emod y, h]

theorem SInt.wrap_add_period {w : Nat} (x : Int) :
    SInt.wrap w (x + 2 * 2 ^ (w - 1)) = SInt.wrap w x :=
  SInt.wrap_eq_of_emod_eq (Int.add_emod_self)

instance {w n : Nat} : OfNat (SInt w) n := ⟨SInt.wrap w n⟩
instance {w : Nat} : Neg (SInt w) := ⟨fun a => SInt.wrap w (-a.val)⟩
instance {w : Nat} : Add (SInt w) := ⟨fun a b => SInt.wrap w (a.val + b.val)⟩
instance {w : Nat} : Sub (SInt w) := ⟨fun a b => SInt.wrap w (a.val - b.val)⟩
instance {w : Nat} : LE (SInt w) := ⟨fun a b => a.val ≤ b.val⟩
instance {w : Nat} : LT (SInt w) := ⟨fun a b => a.val < b.val⟩
instance {w : Nat} (a b : SInt w) : Decidable (a ≤ b) := inferInstanceAs (Decidable (a.val ≤ b.val))
instance {w : Nat} (a b : SInt w) : Decidable (a < b) := inferInstanceAs (Decidable (a.val < b.val))

@[simp] theorem SInt.le_def {w : Nat} (a b : SInt w) : a ≤ b ↔ a.val ≤ b.val := Iff.rfl
@[simp] theorem SInt.lt_def {w : Nat} (a b : SInt w) : a < b ↔ a.val < b.val := Iff.rfl
theorem SInt.add_def {w : Nat} (a b : SInt w) : a + b = SInt.wrap w (a.val + b.val) := rfl
theorem SInt.sub_def {w : Nat} (a b : SInt w) : a - b = SInt.wrap w (a.val - b.val) := rfl

/-- `INT_MIN`. -/
def intMin : CInt := ⟨-2 ^ 31, by decide, by decide⟩

/-! ## Transactions and blocks -/

/-- `COutPoint`: a transaction hash and an output index. -/
structure OutPoint where
  hash : Nat
  n : UInt32
  deriving DecidableEq, Repr

@[simp] theorem toUInt32_toNat (n : UInt32) : n.toNat.toUInt32 = n :=
  UInt32.toNat.inj (UInt32.toNat_ofNat_of_lt n.toNat_lt_size)

/-- `COutPoint::IsNull`, the outpoint a coinbase input names. -/
def OutPoint.isNull (o : OutPoint) : Bool := o.hash == 0 && o.n == 0xFFFFFFFF

/-- `CTxIn`, the fields the governance code reads. -/
structure TxIn where
  prevout : OutPoint
  scriptSig : Bytes
  deriving DecidableEq, Repr

/-- `CTxOut`. -/
structure TxOut where
  nValue : CAmount
  scriptPubKey : Bytes
  deriving DecidableEq, Repr

/-- `CTransaction`, the fields the governance code reads. -/
structure Transaction where
  vin : List TxIn
  vout : List TxOut
  deriving DecidableEq, Repr

/-- `CTransaction::IsCoinBase`. -/
def Transaction.isCoinBase (tx : Transaction) : Bool :=
  match tx.vin with
  | [i] => i.prevout.isNull
  | _ => false

/-- `CBlock`: its transactions and its header time (`GetBlockTime`). -/
structure Block where
  vtx : List Transaction
  time : CAmount
  deriving DecidableEq, Repr

/-- `CTxDestination`, as `ExtractDestination` fills it. -/
inductive TxDestination
  | noDestination
  | keyID (id : Nat)
  | scriptID (id : Nat)
  | witnessV0ScriptHash (id : Nat)
  | witnessV0KeyHash (id : Nat)
  | witnessUnknown (version : Nat) (program : Bytes)
  deriving DecidableEq, Repr

/-! ## Parameters and collaborators -/

/-- `Consensus::Params`, the fields governance reads, and the relay constants the header
uses. The superblock interval and the vote balance are positive: `isValid` and `getTally`
divide by them unchecked. -/
structure Params where
  superblock : CInt
  governanceBlock : CInt
  proposalFee : CAmount
  proposalMinAmount : CAmount
  proposalMaxAmount : CAmount
  proposalCutoff : CInt
  votingCutoff : CInt
  voteMinUtxoAmount : CAmount
  voteBalance : CAmount
  /-- `GetBlockSubsidy(height, params)`. -/
  getBlockSubsidy : CInt → CAmount
  maxOpReturnRelay : Nat
  maxOpReturnInTransaction : Nat
  superblock_pos : 0 < superblock.val
  voteBalance_pos : 0 < voteBalance.val

/-- The node functions the header calls and does not define: hashing, key recovery,
script templates and address decoding. -/
structure Env where
  /-- `CHashWriter::GetHash`, double SHA-256 of the written bytes. -/
  hash256 : Bytes → Nat
  /-- `Hash160`, which `CPubKey::GetID` applies to the key's bytes. -/
  hash160 : Bytes → Nat
  /-- `CPubKey::RecoverCompact(hash, signature)`: the recovered key's bytes. -/
  recoverCompact : Nat → Bytes → Option Bytes
  /-- `CTransaction::GetHash`. -/
  txHash : Transaction → Nat
  /-- `ExtractDestination`. -/
  extractDestination : Bytes → Option TxDestination
  /-- `IsValidDestination(DecodeDestination(address))`. -/
  isValidDestinationString : Bytes → Bool

/-- The chain state one event sees: the transaction index, the UTXO set `pcoinsTip`
and the mempool. -/
structure CoinView where
  /-- `GetTransaction(hash, ...)`. -/
  getTransaction : Nat → Option Transaction
  /-- `pcoinsTip->GetCoin(outpoint, coin)` finds an unspent coin. -/
  haveCoin : OutPoint → Bool
  /-- `mempool.get(hash)`. -/
  mempoolTx : Nat → Option Transaction
  /-- `mempool.isSpent(outpoint)`. -/
  mempoolSpent : OutPoint → Bool

/-- What stops the governance code short: an exception thrown by a stream read or by
`boost::get`, or the undefined behaviour of an out-of-range read, a null dereference or a
division by zero. -/
inductive Failure
  /-- `CDataStream::read(): end of data`. -/
  | endOfData
  /-- `non-canonical ReadCompactSize()`. -/
  | nonCanonicalSize
  /-- `ReadCompactSize(): size too large`. -/
  | sizeTooLarge
  /-- `scriptPubKey[0]` of an empty script. -/
  | emptyScript
  /-- `*boost::get<CKeyID>(&dest)` of a destination that is not a key id. -/
  | nullKeyID
  /-- An `int` division by zero. -/
  | divisionByZero
  /-- `boost::get<CKeyID>(dest)` of a destination that is not a key id throws
  `boost::bad_get`. -/
  | badGet
  deriving DecidableEq, Repr

/-- Results of fallible code compare by constructor and value, so that runs of the model
evaluate by `decide`. -/
instance decEqExcept {ε α : Type} [DecidableEq ε] [DecidableEq α] : DecidableEq (Except ε α)
  | .error x, .error y => decidable_of_iff (x = y) (by simp)
  | .ok x, .ok y => decidable_of_iff (x = y) (by simp)
  | .error _, .ok _ => isFalse fun h => Except.noConfusion h
  | .ok _, .error _ => isFalse fun h => Except.noConfusion h

/-! ## Sample values

Concrete parameters and collaborators, used to evaluate the model on small inputs: the
spec's minimal parameter set (superblock interval 144, proposal cutoff 10, voting cutoff
2, vote balance 100, minimum voting output 10) with the relay policy's 83-byte bound,
and collaborators simple enough for `decide`. -/

/-- The spec's minimal parameter set. -/
def sampleParams : Params where
  superblock := 144
  governanceBlock := 1
  proposalFee := 10
  proposalMinAmount := 10
  proposalMaxAmount := 1000
  proposalCutoff := 10
  votingCutoff := 2
  voteMinUtxoAmount := 10
  voteBalance := 100
  getBlockSubsidy := fun _ => 1000
  maxOpReturnRelay := 83
  maxOpReturnInTransaction := 8
  superblock_pos := by decide
  voteBalance_pos := by decide

/-- A hash that computes fast: the bytes as a base-257 numeral, cut to 256 bits. -/
def sampleHash (bs : Bytes) : Nat := bs.foldl (fun a b => a * 257 + b.toNat + 1) 0 % 2 ^ 256

/-- Collaborators for evaluation: a key is "recovered" as the signature's own bytes, its id
is its second byte, and the script `[0x76, k]` pays to key id `k`. -/
def sampleEnv : Env where
  hash256 := sampleHash
  hash160 := fun key => (key.getD 1 0).toNat
  recoverCompact := fun _ sig => some sig
  txHash := fun tx => sampleHash (tx.vin.flatMap (·.scriptSig) ++ tx.vout.flatMap (·.scriptPubKey))
  extractDestination := fun script =>
    match script with
    | [0x76, k] => some (.keyID k.toNat)
    | [0xa9, k] => some (.scriptID k.toNat)
    | _ => none
  isValidDestinationString := fun _ => true

def emptyView : CoinView where
  getTransaction := fun _ => none
  haveCoin := fun _ => false
  mempoolTx := fun _ => none
  mempoolSpent := fun _ => false

end Gov
