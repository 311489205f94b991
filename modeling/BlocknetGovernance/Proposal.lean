import BlocknetGovernance.Script

/-!
# Proposals

`NetworkObject`, the two bytes in front of every governance payload, and `Proposal`: its
payload (`SerializationOp`), the differently ordered bytes its hash covers (`getHash`),
its validity check and its cutoff. `Proposal.read_ser` is the payload round trip.

`NextSuperblock` and `PreviousSuperblock` count superblocks from a height in `int`, with
`%` truncating toward zero. `nextSuperblock_brackets`: from a height that is not negative,
and when the next superblock fits an `int`, they are the multiples of the interval on
either side of the height, so a proposal for either passes the superblock check of
`isValid`.
-/

namespace Gov

/-- `NETWORK_VERSION`. -/
def networkVersion : UInt8 := 0x01
/-- `gov::PROPOSAL`. -/
def typeProposal : UInt8 := 1
/-- `gov::VOTE`. -/
def typeVote : UInt8 := 2

/-- `NetworkObject`: the version and type every payload starts with. -/
structure NetworkObject where
  version : UInt8
  type : UInt8
  deriving DecidableEq, Repr

/-- `NetworkObject::SerializationOp`, read. -/
def NetworkObject.read : Reader NetworkObject := do
  let version ← readU8
  let type ← readU8
  pure ⟨version, type⟩

/-- `NetworkObject::isValid`. -/
def NetworkObject.isValid (o : NetworkObject) : Bool := o.version == networkVersion

/-- `Proposal`, with the memory-only `blockNumber`. -/
structure Proposal where
  version : UInt8 := networkVersion
  type : UInt8 := typeProposal
  name : Bytes := []
  superblock : CInt := 0
  amount : CAmount := 0
  address : Bytes := []
  url : Bytes := []
  description : Bytes := []
  blockNumber : CInt := 0
  deriving DecidableEq, Repr

namespace Proposal

/-- `Proposal::SerializationOp`, written: the OP_RETURN payload. -/
def ser (p : Proposal) : Bytes :=
  [p.version, p.type] ++ serInt p.superblock ++ serInt64 p.amount ++ serBytes p.address ++
    serBytes p.name ++ serBytes p.url ++ serBytes p.description

/-- `Proposal::SerializationOp`, read into `Proposal(blockNumber)`. -/
def read (blockNumber : CInt) : Reader Proposal := do
  let version ← readU8
  let type ← readU8
  let superblock ← readInt
  let amount ← readInt64
  let address ← readVarBytes
  let name ← readVarBytes
  let url ← readVarBytes
  let description ← readVarBytes
  pure { version, type, name, superblock, amount, address, url, description, blockNumber }

/-- What `getHash` and the size check of `isValid` write: the name comes first. -/
def hashData (p : Proposal) : Bytes :=
  [p.version, p.type] ++ serBytes p.name ++ serInt p.superblock ++ serInt64 p.amount ++
    serBytes p.address ++ serBytes p.url ++ serBytes p.description

/-- `Proposal::getHash`. -/
def getHash (env : Env) (p : Proposal) : Nat := env.hash256 p.hashData

/-- `Proposal::isNull`. -/
def isNull (p : Proposal) : Bool := p.superblock == 0

/-- A `\w` character of the classic locale. -/
def isWordChar (c : UInt8) : Bool :=
  (48 ≤ c.toNat && c.toNat ≤ 57) || (65 ≤ c.toNat && c.toNat ≤ 90) ||
    (97 ≤ c.toNat && c.toNat ≤ 122) || c.toNat == 95

/-- `std::regex_match(name, "^\\w+[\\w- ]*\\w+$")`: at least two characters, word
characters at both ends, and only word characters, `-` and spaces. -/
def nameMatches (name : Bytes) : Bool :=
  2 ≤ name.length && isWordChar (name.headD 0) && isWordChar (name.getLastD 0) &&
    name.all fun c => isWordChar c || c.toNat == 45 || c.toNat == 32

/-- Why `isValid` refuses a proposal, in the order it checks. -/
inductive Invalid
  /-- "Proposal name %s is invalid, only alpha-numeric characters are accepted" -/
  | badName (name : Bytes)
  /-- "Bad superblock number, did you mean %d" -/
  | badSuperblock
  /-- "Bad proposal amount, specify amount between %s - %s" -/
  | badAmount
  /-- "Bad payment address %s" -/
  | badAddress (address : Bytes)
  /-- "Bad proposal type, expected %d" -/
  | badType
  /-- "Bad proposal network version, expected %d" -/
  | badVersion
  /-- "Proposal data is too long, try reducing the description by %d characters, expected
  total of %d bytes, received %d" -/
  | tooLong (excess maxBytes size : Nat)
  deriving DecidableEq, Repr

/-- `Proposal::isValid` with its `failureReasonRet`. The size bound is
`MAX_OP_RETURN_RELAY-3`: one byte for `OP_RETURN`, two for the push. -/
def check (params : Params) (env : Env) (p : Proposal) : Except Invalid Unit := do
  unless nameMatches p.name do throw (.badName p.name)
  unless Int.tmod p.superblock.val params.superblock.val = 0 do throw .badSuperblock
  unless params.proposalMinAmount ≤ p.amount && p.amount ≤ params.getBlockSubsidy p.superblock do
    throw .badAmount
  unless env.isValidDestinationString p.address do throw (.badAddress p.address)
  unless p.type == typeProposal do throw .badType
  unless p.version == networkVersion do throw .badVersion
  let size := p.hashData.length
  let maxBytes := params.maxOpReturnRelay - 3
  if maxBytes < size then throw (.tooLong (size - maxBytes) maxBytes size)

/-- `Proposal::isValid`. -/
def isValid (params : Params) (env : Env) (p : Proposal) : Bool := (p.check params env).isOk

/-- `Governance::meetsCutoff(const Proposal &, blockNumber, params)`: the block lies at or
before the superblock less the proposal cutoff, computed in `int`. -/
def meetsCutoff (params : Params) (p : Proposal) (blockNumber : CInt) : Bool :=
  decide (blockNumber ≤ p.superblock - params.proposalCutoff)

/-! ## Lemmas -/

/-- The strings of a proposal fit a compact size. -/
def Fits (p : Proposal) : Prop :=
  p.name.length ≤ maxSize ∧ p.address.length ≤ maxSize ∧ p.url.length ≤ maxSize ∧
    p.description.length ≤ maxSize

/-- **Payload round trip.** Reading a proposal's payload into `Proposal(h)` gives back the
proposal with block number `h`, and leaves what follows unread. -/
theorem read_ser (p : Proposal) (h : Fits p) (blockNumber : CInt) (rest : Bytes) :
    (read blockNumber).run (p.ser ++ rest) = .ok ({ p with blockNumber }, rest) := by
  obtain ⟨h1, h2, h3, h4⟩ := h
  simp only [ser, List.append_assoc, List.cons_append, List.nil_append]
  simp [read, StateT.run_bind, readInt_run, readInt64_run, readVarBytes_run, h1, h2, h3, h4]

/-- **What a payload read consumed.** A proposal read from any stream took from its front
exactly its own payload, and its strings fit a compact size. -/
theorem read_sound {blockNumber : CInt} {s s' : Bytes} {p : Proposal}
    (h : (read blockNumber).run s = .ok (p, s')) :
    s = p.ser ++ s' ∧ Fits p ∧ p.blockNumber = blockNumber := by
  simp only [read, StateT.run_bind] at h
  obtain ⟨⟨version, s₁⟩, h₁, k₁⟩ := except_bind_ok h
  obtain ⟨⟨type, s₂⟩, h₂, k₂⟩ := except_bind_ok k₁
  obtain ⟨⟨superblock, s₃⟩, h₃, k₃⟩ := except_bind_ok k₂
  obtain ⟨⟨amount, s₄⟩, h₄, k₄⟩ := except_bind_ok k₃
  obtain ⟨⟨address, s₅⟩, h₅, k₅⟩ := except_bind_ok k₄
  obtain ⟨⟨name, s₆⟩, h₆, k₆⟩ := except_bind_ok k₅
  obtain ⟨⟨url, s₇⟩, h₇, k₇⟩ := except_bind_ok k₆
  obtain ⟨⟨description, s₈⟩, h₈, k₈⟩ := except_bind_ok k₇
  obtain ⟨rfl, rfl⟩ := Prod.mk.inj (Except.ok.inj k₈)
  obtain ⟨rfl, l₈⟩ := readVarBytes_sound h₈
  obtain ⟨rfl, l₇⟩ := readVarBytes_sound h₇
  obtain ⟨rfl, l₆⟩ := readVarBytes_sound h₆
  obtain ⟨rfl, l₅⟩ := readVarBytes_sound h₅
  obtain rfl := readInt64_sound h₄
  obtain rfl := readInt_sound h₃
  obtain rfl := readU8_sound h₂
  obtain rfl := readU8_sound h₁
  exact ⟨by simp [ser], ⟨l₆, l₅, l₇, l₈⟩, rfl⟩

theorem read_ser_networkObject (p : Proposal) (rest : Bytes) :
    NetworkObject.read.run (p.ser ++ rest) = .ok (⟨p.version, p.type⟩, p.ser.drop 2 ++ rest) := by
  simp [NetworkObject.read, ser, StateT.run_bind]

theorem isValid_iff (params : Params) (env : Env) (p : Proposal) :
    p.isValid params env = true ↔ p.check params env = .ok () := by
  unfold isValid
  cases p.check params env <;> simp [Except.isOk, Except.toBool]

theorem check_ok {params : Params} {env : Env} {p : Proposal} (h : p.check params env = .ok ()) :
    p.type = typeProposal ∧ p.version = networkVersion ∧
      p.hashData.length ≤ params.maxOpReturnRelay - 3 := by
  dsimp only [check] at h
  obtain ⟨-, h⟩ := except_unless_ok h
  obtain ⟨-, h⟩ := except_unless_ok h
  obtain ⟨-, h⟩ := except_unless_ok h
  obtain ⟨-, h⟩ := except_unless_ok h
  obtain ⟨htype, h⟩ := except_unless_ok h
  obtain ⟨hver, h⟩ := except_unless_ok h
  refine ⟨by simpa using htype, by simpa using hver, Nat.not_lt.mp fun hlt => ?_⟩
  simp [hlt] at h

theorem length_hashData (p : Proposal) :
    p.hashData.length = 14 + (serBytes p.name).length + (serBytes p.address).length +
      (serBytes p.url).length + (serBytes p.description).length := by
  simp only [hashData, serInt, serInt64, List.length_append, List.length_cons, List.length_nil,
    length_leBytes]
  omega

theorem length_ser (p : Proposal) : p.ser.length = p.hashData.length := by
  rw [length_hashData]
  simp only [ser, serInt, serInt64, List.length_append, List.length_cons, List.length_nil,
    length_leBytes]
  omega

theorem fits_of_isValid {params : Params} {env : Env} {p : Proposal}
    (hrelay : params.maxOpReturnRelay ≤ maxSize) (hp : p.isValid params env = true) :
    p.Fits ∧ p.ser.length ≤ maxSize := by
  have hsize := (check_ok ((isValid_iff params env p).mp hp)).2.2
  have hlen := length_hashData p
  have hb (b : Bytes) : b.length ≤ (serBytes b).length := by simp [serBytes]
  have := hb p.name; have := hb p.address; have := hb p.url; have := hb p.description
  exact ⟨⟨by omega, by omega, by omega, by omega⟩, by rw [length_ser]; omega⟩

theorem getHash_blockNumber (env : Env) (p : Proposal) (b : CInt) :
    getHash env { p with blockNumber := b } = getHash env p := rfl

theorem check_blockNumber (params : Params) (env : Env) (p : Proposal) (b : CInt) :
    check params env { p with blockNumber := b } = check params env p := rfl

end Proposal

/-! ## Superblocks -/

/-- The height `NextSuperblock` counts from: `fromBlock`, or the chain tip's when it is 0,
its default. -/
def superblockFrom (tipHeight fromBlock : CInt) : CInt :=
  if fromBlock = 0 then tipHeight else fromBlock

/-- `NextSuperblock(params, fromBlock)`, and `Governance::nextSuperblock`:
`height - height % superblock + superblock` in `int`; a zero interval divides by zero. -/
def nextSuperblock (params : Params) (tipHeight fromBlock : CInt) : Except Failure CInt :=
  let height := superblockFrom tipHeight fromBlock
  if params.superblock.val = 0 then throw .divisionByZero
  else pure (height - SInt.wrap 32 (height.val.tmod params.superblock.val) + params.superblock)

/-- `PreviousSuperblock(params, fromBlock)`: the next superblock less the interval. -/
def previousSuperblock (params : Params) (tipHeight fromBlock : CInt) : Except Failure CInt := do
  let next ← nextSuperblock params tipHeight fromBlock
  pure (next - params.superblock)

/-- **The superblocks around a height.** `PreviousSuperblock` and `NextSuperblock` are
multiples of the interval, one apart, at or below and above the height. -/
theorem nextSuperblock_brackets (params : Params) (tipHeight fromBlock : CInt)
    (hsb : 0 < params.superblock.val) (hh : 0 ≤ (superblockFrom tipHeight fromBlock).val)
    (hfit : (superblockFrom tipHeight fromBlock).val + params.superblock.val < 2 ^ 31) :
    ∃ prev next, previousSuperblock params tipHeight fromBlock = .ok prev ∧
      nextSuperblock params tipHeight fromBlock = .ok next ∧
      prev.val.tmod params.superblock.val = 0 ∧ next.val.tmod params.superblock.val = 0 ∧
      prev.val ≤ (superblockFrom tipHeight fromBlock).val ∧
      (superblockFrom tipHeight fromBlock).val < next.val ∧
      next.val = prev.val + params.superblock.val := by
  set h := superblockFrom tipHeight fromBlock
  set sb := params.superblock
  set r := h.val.tmod sb.val
  set q := h.val.tdiv sb.val
  have hdiv : r + sb.val * q = h.val := Int.tmod_add_tdiv _ _
  have hr0 : 0 ≤ r := Int.tmod_nonneg sb.val hh
  have hr1 : r < sb.val := Int.tmod_lt_of_pos h.val hsb
  have hq : sb.val * (q + 1) = sb.val * q + sb.val := by rw [Int.mul_add, Int.mul_one]
  have hr : (SInt.wrap 32 r).val = r := SInt.wrap_val_of_mem (by omega) (by omega)
  have hsub : (h - SInt.wrap 32 r).val = sb.val * q := by
    rw [SInt.sub_def, hr, SInt.wrap_val_of_mem] <;> omega
  have hnext : (h - SInt.wrap 32 r + sb).val = sb.val * (q + 1) := by
    rw [SInt.add_def, hsub, SInt.wrap_val_of_mem] <;> omega
  have hprev : (h - SInt.wrap 32 r + sb - sb).val = sb.val * q := by
    rw [SInt.sub_def, hnext, SInt.wrap_val_of_mem] <;> omega
  have hok : nextSuperblock params tipHeight fromBlock = .ok (h - SInt.wrap 32 r + sb) := by
    simp only [nextSuperblock, if_neg (Int.ne_of_gt hsb)]; rfl
  refine ⟨_, _, by rw [previousSuperblock, hok]; rfl, hok, ?_⟩
  rw [hprev, hnext, Int.mul_tmod_right, Int.mul_tmod_right]
  omega

/-- From the tip at height 200 with the interval 144, the superblocks around it are 144 and
288. -/
theorem superblocks_around_200 :
    0 < sampleParams.superblock.val ∧ 0 ≤ (superblockFrom 200 0).val ∧
      (superblockFrom 200 0).val + sampleParams.superblock.val < 2 ^ 31 ∧
      previousSuperblock sampleParams 200 0 = .ok 144 ∧ nextSuperblock sampleParams 200 0 = .ok 288 ∧
      ∃ prev next, previousSuperblock sampleParams 200 0 = .ok prev ∧
        nextSuperblock sampleParams 200 0 = .ok next ∧
        prev.val.tmod sampleParams.superblock.val = 0 ∧
        next.val.tmod sampleParams.superblock.val = 0 ∧ prev.val ≤ (superblockFrom 200 0).val ∧
        (superblockFrom 200 0).val < next.val ∧ next.val = prev.val + sampleParams.superblock.val :=
  ⟨by decide, by decide, by decide, by decide, by decide,
    nextSuperblock_brackets sampleParams 200 0 (by decide) (by decide) (by decide)⟩

end Gov
