import BlocknetGovernance.Proposal

/-!
# Votes

`Vote`: its payload, the two hashes (`getHash` leaves the vote out so that a changed vote
keeps its key, `sigHash` puts it in), the deserialization that recovers the signer's key
and looks up the voting output (`loadKeyID`, through `GetKeyIDForUTXO`), `isValid`,
`IsUTXOSpent` and `matchesVinPubKey`.

`GetKeyIDForUTXO` dereferences `boost::get<CKeyID>(&dest)` without a check; for an output
whose destination is not a key id that is a null dereference, which the model returns as
`Failure.nullKeyID`.
-/

namespace Gov

/-- `gov::NO`. -/
def voteNo : UInt8 := 0
/-- `gov::YES`. -/
def voteYes : UInt8 := 1
/-- `gov::ABSTAIN`. -/
def voteAbstain : UInt8 := 2

/-- `COutPoint()`: null hash, index `(uint32_t)-1`. -/
def OutPoint.null : OutPoint := ⟨0, 0xFFFFFFFF⟩

/-- `Vote`, with its memory-only fields: the recovered key, the OP_RETURN output that
carried it, the block time and height, and the voting output's key id and value. -/
structure Vote where
  version : UInt8 := networkVersion
  type : UInt8 := typeVote
  proposal : Nat := 0
  vote : UInt8 := voteAbstain
  signature : Bytes := []
  utxo : OutPoint := OutPoint.null
  pubkey : Bytes := []
  outpoint : OutPoint := OutPoint.null
  time : CAmount := 0
  amount : CAmount := 0
  keyid : Nat := 0
  blockNumber : CInt := 0
  deriving DecidableEq, Repr

/-! ## Keys -/

/-- `CPubKey::GetLen`: the length a key with this header byte has, `0` for none. -/
def pubKeyLen (header : UInt8) : Nat :=
  if header = 2 ∨ header = 3 then 33
  else if header = 4 ∨ header = 6 ∨ header = 7 then 65
  else 0

/-- The bytes `CPubKey(data)` holds: all of `data` when its header byte agrees with its
length, none (an invalid key) otherwise. -/
def pubKeyOf (data : Bytes) : Bytes :=
  match data with
  | [] => []
  | h :: _ => if pubKeyLen h = data.length then data else []

/-- `CPubKey::GetID`. -/
def keyIDOf (env : Env) (key : Bytes) : Nat := env.hash160 key

namespace Vote

/-! ## Payload and hashes -/

/-- `Vote::SerializationOp`, written: the OP_RETURN payload. -/
def ser (v : Vote) : Bytes :=
  [v.version, v.type] ++ serUint256 v.proposal ++ [v.vote] ++ serOutPoint v.utxo ++
    serBytes v.signature

/-- `Vote::getHash`: version, type, proposal and utxo; the vote itself is left out. -/
def getHash (env : Env) (v : Vote) : Nat :=
  env.hash256 ([v.version, v.type] ++ serUint256 v.proposal ++ serOutPoint v.utxo)

/-- `Vote::sigHash`: what the signature signs, the vote included. -/
def sigHash (env : Env) (v : Vote) : Nat :=
  env.hash256 ([v.version, v.type] ++ serUint256 v.proposal ++ [v.vote] ++ serOutPoint v.utxo)

/-- `Vote::isValidVoteType`. -/
def isValidVoteType (t : UInt8) : Bool := t.toNat ≤ voteAbstain.toNat

/-- `Vote::voteTypeForString`: the type a string names, lower-cased in the classic locale. -/
def voteTypeForString (strVote : String) : Option UInt8 :=
  let lower := strVote.toList.map Char.toLower
  if lower = "yes".toList then some voteYes
  else if lower = "no".toList then some voteNo
  else if lower = "abstain".toList then some voteAbstain
  else none

/-- `Vote::voteTypeToString(voteType, valid)`: the string, and what `*valid` holds after the
call. The `false` written for an unknown type is overwritten by the `true` after the branches. -/
def voteTypeToString (voteType : UInt8) : String × Bool :=
  (if voteType = voteYes then "yes" else if voteType = voteNo then "no"
    else if voteType = voteAbstain then "abstain" else "", true)

/-- `Vote::isNull`: the voting output is null. -/
def isNull (v : Vote) : Bool := v.utxo.isNull

/-! ## Reading a vote -/

/-- `GetKeyIDForUTXO`: the key id and the output the outpoint names, `none` where it
returns false. -/
def getKeyIDForUTXO (env : Env) (view : CoinView) (utxo : OutPoint) :
    Except Failure (Option (Nat × TxOut)) :=
  match view.getTransaction utxo.hash with
  | none => pure none
  | some tx =>
    match tx.vout[utxo.n.toNat]? with
    | none => pure none
    | some out =>
      match env.extractDestination out.scriptPubKey with
      | none => pure none
      | some (.keyID k) => pure (some (k, out))
      | some _ => throw Failure.nullKeyID

/-- `Vote::loadKeyID`: the key id and amount of the voting output, when it is found. -/
def loadKeyID (env : Env) (view : CoinView) (v : Vote) : Except Failure Vote := do
  match ← getKeyIDForUTXO env view v.utxo with
  | none => pure v
  | some (k, out) => pure { v with keyid := k, amount := out.nValue }

/-- The serialized fields of `Vote::SerializationOp`, read into
`Vote(outpoint, time, blockNumber)`. -/
def readFields (outpoint : OutPoint) (time : CAmount) (blockNumber : CInt) : Reader Vote := do
  let version ← readU8
  let type ← readU8
  let proposal ← readUint256
  let vote ← readU8
  let utxo ← readOutPoint
  let signature ← readVarBytes
  pure { version, type, proposal, vote, utxo, signature, outpoint, time, blockNumber }

/-- What the read assigns to the memory-only fields: the key recovered from the signature
(left invalid when recovery fails), then `loadKeyID`. -/
def recover (env : Env) (view : CoinView) (v : Vote) : Except Failure Vote :=
  loadKeyID env view { v with pubkey := (env.recoverCompact (v.sigHash env) v.signature).getD [] }

/-- `Vote::SerializationOp`, read. -/
def read (env : Env) (view : CoinView) (outpoint : OutPoint) (time : CAmount)
    (blockNumber : CInt) : Reader Vote := do
  let v ← readFields outpoint time blockNumber
  StateT.lift (recover env view v)

/-! ## Checks -/

/-- `IsUTXOSpent(utxo, mempoolCheck)`: no coin in the view (with the mempool's outputs
when `mempoolCheck`), or an input of the mempool spends it. -/
def isUTXOSpent (view : CoinView) (utxo : OutPoint) (mempoolCheck : Bool) : Bool :=
  if mempoolCheck then
    let haveCoin := match view.mempoolTx utxo.hash with
      | some tx => decide (utxo.n.toNat < tx.vout.length)
      | none => view.haveCoin utxo
    !haveCoin || view.mempoolSpent utxo
  else !view.haveCoin utxo

/-- `Vote::isValid`. -/
def isValid (params : Params) (env : Env) (view : CoinView) (v : Vote) : Bool :=
  v.version == networkVersion && v.type == typeVote && isValidVoteType v.vote &&
    decide (params.voteMinUtxoAmount ≤ v.amount) && v.keyid != 0 &&
    keyIDOf env v.pubkey == v.keyid && !isUTXOSpent view v.utxo true

/-- `Governance::matchesVinPubKey`: the first key-sized push of the input's script is a
key with the vote's key id. -/
def matchesVinPubKey (env : Env) (v : Vote) (vin : TxIn) : Bool :=
  match firstKeyPush vin.scriptSig.length vin.scriptSig with
  | none => false
  | some data => keyIDOf env (pubKeyOf data) == keyIDOf env v.pubkey

/-! ## Lemmas -/

/-- The fields of a vote its payload carries fit the payload's widths. -/
def Fits (v : Vote) : Prop :=
  v.proposal < 2 ^ 256 ∧ v.utxo.hash < 2 ^ 256 ∧ v.signature.length ≤ maxSize

/-- **What a payload read consumed.** The fields of a vote read from any stream were
taken from its front as exactly the vote's payload. -/
theorem readFields_sound {outpoint : OutPoint} {time : CAmount} {blockNumber : CInt}
    {s s' : Bytes} {v : Vote} (h : (readFields outpoint time blockNumber).run s = .ok (v, s')) :
    s = v.ser ++ s' ∧ Fits v ∧ v.outpoint = outpoint ∧ v.time = time ∧
      v.blockNumber = blockNumber := by
  simp only [readFields, StateT.run_bind] at h
  obtain ⟨⟨version, s₁⟩, h₁, k₁⟩ := except_bind_ok h
  obtain ⟨⟨type, s₂⟩, h₂, k₂⟩ := except_bind_ok k₁
  obtain ⟨⟨proposal, s₃⟩, h₃, k₃⟩ := except_bind_ok k₂
  obtain ⟨⟨vote, s₄⟩, h₄, k₄⟩ := except_bind_ok k₃
  obtain ⟨⟨utxo, s₅⟩, h₅, k₅⟩ := except_bind_ok k₄
  obtain ⟨⟨signature, s₆⟩, h₆, k₆⟩ := except_bind_ok k₅
  obtain ⟨rfl, rfl⟩ := Prod.mk.inj (Except.ok.inj k₆)
  obtain ⟨rfl, l₆⟩ := readVarBytes_sound h₆
  obtain ⟨rfl, l₅⟩ := readOutPoint_sound h₅
  obtain rfl := readU8_sound h₄
  obtain ⟨rfl, l₃⟩ := readUint256_sound h₃
  obtain rfl := readU8_sound h₂
  obtain rfl := readU8_sound h₁
  exact ⟨by simp [ser], ⟨l₃, l₅, l₆⟩, rfl, rfl, rfl⟩

theorem readFields_returns (outpoint : OutPoint) (time : CAmount) (blockNumber : CInt) :
    (readFields outpoint time blockNumber).Returns fun v =>
      v.proposal < 2 ^ 256 ∧ v.utxo.hash < 2 ^ 256 ∧ v.outpoint = outpoint ∧ v.time = time ∧
        v.blockNumber = blockNumber :=
  (Reader.Returns.true _).bind fun _ _ => (Reader.Returns.true _).bind fun _ _ =>
    (readLE_returns 32).bind fun _ hp => (Reader.Returns.true _).bind fun _ _ =>
      readOutPoint_returns.bind fun _ hu => (Reader.Returns.true _).bind fun _ _ =>
        .pure ⟨by simpa using hp, hu, rfl, rfl, rfl⟩

theorem read_run (env : Env) (view : CoinView) (outpoint : OutPoint) (time : CAmount)
    (blockNumber : CInt) (s : Bytes) :
    (read env view outpoint time blockNumber).run s =
      ((readFields outpoint time blockNumber).run s >>= fun p =>
        (recover env view p.1).map fun w => (w, p.2)) := by
  simp only [read, StateT.run_bind, StateT.run_lift]
  congr 1

theorem getKeyIDForUTXO_congr (env : Env) {view view' : CoinView} {utxo : OutPoint}
    (h : view'.getTransaction utxo.hash = view.getTransaction utxo.hash) :
    getKeyIDForUTXO env view' utxo = getKeyIDForUTXO env view utxo := by
  simp only [getKeyIDForUTXO, h]

theorem loadKeyID_fields {env : Env} {view : CoinView} {v w : Vote}
    (h : loadKeyID env view v = .ok w) :
    (∃ r, getKeyIDForUTXO env view v.utxo = .ok r) ∧ ∃ k a, w = { v with keyid := k, amount := a } := by
  obtain ⟨r, hk, h⟩ := except_bind_ok h
  refine ⟨⟨r, hk⟩, ?_⟩
  rcases r with _ | ⟨k, out⟩ <;> cases h
  · exact ⟨v.keyid, v.amount, rfl⟩
  · exact ⟨k, out.nValue, rfl⟩

theorem read_ser_networkObject (v : Vote) (rest : Bytes) :
    NetworkObject.read.run (v.ser ++ rest) = .ok (⟨v.version, v.type⟩, v.ser.drop 2 ++ rest) := by
  simp [NetworkObject.read, ser, StateT.run_bind]

theorem length_ser (v : Vote) : v.ser.length = 71 + (serBytes v.signature).length := by
  simp only [ser, serUint256, serOutPoint, List.length_append, List.length_cons, List.length_nil,
    length_leBytes]

theorem recover_fields {env : Env} {view : CoinView} {v w : Vote}
    (h : recover env view v = .ok w) :
    w.version = v.version ∧ w.type = v.type ∧ w.proposal = v.proposal ∧ w.vote = v.vote ∧
      w.utxo = v.utxo ∧ w.signature = v.signature ∧ w.outpoint = v.outpoint ∧
      w.time = v.time ∧ w.blockNumber = v.blockNumber := by
  obtain ⟨-, k, a, rfl⟩ := loadKeyID_fields h
  exact ⟨rfl, rfl, rfl, rfl, rfl, rfl, rfl, rfl, rfl⟩

theorem read_returns (env : Env) (view : CoinView) (outpoint : OutPoint) (time : CAmount)
    (blockNumber : CInt) :
    (read env view outpoint time blockNumber).Returns fun v =>
      v.proposal < 2 ^ 256 ∧ v.utxo.hash < 2 ^ 256 ∧ v.outpoint = outpoint ∧ v.time = time ∧
        v.blockNumber = blockNumber := by
  refine (readFields_returns outpoint time blockNumber).bind fun v hv s w s' h => ?_
  simp only [StateT.run_lift] at h
  obtain ⟨w', hr, h⟩ := except_bind_ok h
  cases h
  obtain ⟨-, -, h3, -, h5, -, h7, h8, h9⟩ := recover_fields hr
  exact ⟨h3 ▸ hv.1, h5 ▸ hv.2.1, h7 ▸ hv.2.2.1, h8 ▸ hv.2.2.2.1, h9 ▸ hv.2.2.2.2⟩

theorem getHash_congr (env : Env) {v w : Vote} (h1 : w.version = v.version)
    (h2 : w.type = v.type) (h3 : w.proposal = v.proposal) (h4 : w.utxo = v.utxo) :
    w.getHash env = v.getHash env := by
  simp [getHash, h1, h2, h3, h4]

end Vote

end Gov
