import BlocknetGovernance.Extract

/-!
# Submitting proposals and votes

`submitProposal` pays the proposal fee to `CScript() << OP_RETURN << ToByteVector(ss)`
after `ss << proposal`, once `isValid` has passed; `submitVotes` adds one such output per
vote, the vote built by `Vote(proposal.getHash(), vote, utxo)`, signed, and checked by
`isValid`. The scripts are here; the coin selection, fees and passes of `submitVotes` are in
`BlocknetGovernance.SubmitVotes`.

`readOutput_submitted` is the round trip with what `dataFromBlock` reads from an output:
the proposal comes back with the block number of the reading block and nothing else
changed, and the vote with its serialized fields, so with the same `getHash` and `sigHash`.
The other way, `readOutput_proposal_sound` and `readOutput_vote_sound`: whatever
`readOutput` returns it read from an OP_RETURN script whose data starts with exactly that
object's payload.
-/

namespace Gov

/-- The OP_RETURN script of `submitProposal`, or its failure text. -/
def proposalScript (params : Params) (env : Env) (p : Proposal) : Except String Bytes :=
  if p.isValid params env then pure (opReturn :: pushData p.ser)
  else throw "Proposal is not valid"

/-- **The size of a proposal script.** `isValid` bounds the payload by
`MAX_OP_RETURN_RELAY - 3`; the script adds `OP_RETURN` and a push header, and fits exactly
when that header leaves room. -/
theorem proposalScript_length {params : Params} {env : Env} {p : Proposal} {script : Bytes}
    (h : proposalScript params env p = .ok script) :
    p.ser.length = p.hashData.length ∧ p.hashData.length ≤ params.maxOpReturnRelay - 3 ∧
      (script.length ≤ params.maxOpReturnRelay ↔ p.hashData.length ≤ 0xFF ∨
        p.hashData.length ≤ 0xFFFF ∧ p.hashData.length + 4 ≤ params.maxOpReturnRelay ∨
        p.hashData.length + 6 ≤ params.maxOpReturnRelay) := by
  unfold proposalScript at h
  split_ifs at h with hp
  cases h
  have hsize := (Proposal.check_ok ((Proposal.isValid_iff params env p).mp hp)).2.2
  have hlen := Proposal.length_ser p
  have := Proposal.length_hashData p
  refine ⟨hlen, hsize, ?_⟩
  simp only [List.length_cons, length_pushData, hlen]
  split_ifs <;> omega

theorem proposalScript_length_sample :
    proposalScript sampleParams sampleEnv sampleProposal =
        .ok (opReturn :: pushData sampleProposal.ser) ∧
      sampleProposal.ser.length = sampleProposal.hashData.length ∧
      sampleProposal.hashData.length ≤ sampleParams.maxOpReturnRelay - 3 ∧
      ((opReturn :: pushData sampleProposal.ser).length ≤ sampleParams.maxOpReturnRelay ↔
        sampleProposal.hashData.length ≤ 0xFF ∨
        sampleProposal.hashData.length ≤ 0xFFFF ∧
          sampleProposal.hashData.length + 4 ≤ sampleParams.maxOpReturnRelay ∨
        sampleProposal.hashData.length + 6 ≤ sampleParams.maxOpReturnRelay) :=
  have h : proposalScript sampleParams sampleEnv sampleProposal =
      .ok (opReturn :: pushData sampleProposal.ser) := by decide
  ⟨h, proposalScript_length h⟩

/-- `sampleParams` with a relay limit of 300 bytes, where payloads past 255 bytes are
admitted. -/
def wideRelayParams : Params := { sampleParams with maxOpReturnRelay := 300 }

/-- `sampleProposal` with a description that brings its payload to `300 - 3` bytes. -/
def fullProposal : Proposal := { sampleProposal with description := List.replicate 274 100 }

set_option maxRecDepth 10000 in
/-- A valid 297-byte proposal under a limit of 300 makes a 301-byte script. The overrun needs
`MAX_OP_RETURN_RELAY` of at least 259, a constant not in `src/`. -/
theorem proposalScript_over_relay :
    fullProposal.isValid wideRelayParams sampleEnv = true ∧ fullProposal.hashData.length = 297 ∧
      (proposalScript wideRelayParams sampleEnv fullProposal).map List.length = .ok 301 := by
  decide

/-- The OP_RETURN script `submitVotes` adds for `vote` on `p` from `utxo`, given the
signature: none when the key recovery fails or the vote is not valid. -/
def voteScript (params : Params) (env : Env) (view : CoinView) (p : Proposal) (vote : UInt8)
    (utxo : OutPoint) (signature : Bytes) : Except Failure (Option Bytes) := do
  let v ← Vote.loadKeyID env view { proposal := p.getHash env, vote, utxo }
  match env.recoverCompact (v.sigHash env) signature with
  | none => pure none
  | some pubkey =>
    let v := { v with signature, pubkey }
    pure (if v.isValid params env view then some (opReturn :: pushData v.ser) else none)

theorem voteScript_ok {params : Params} {env : Env} {view : CoinView} {p : Proposal}
    {vote : UInt8} {utxo : OutPoint} {signature script : Bytes}
    (h : voteScript params env view p vote utxo signature = .ok (some script)) :
    (∃ r, Vote.getKeyIDForUTXO env view utxo = .ok r) ∧
      script = opReturn :: pushData ({ proposal := p.getHash env, vote, utxo, signature } : Vote).ser := by
  obtain ⟨v₀, hl, h⟩ := except_bind_ok h
  obtain ⟨hkey, k, a, rfl⟩ := Vote.loadKeyID_fields hl
  refine ⟨hkey, ?_⟩
  split at h
  · cases h
  · dsimp only at h
    split_ifs at h <;> cases h
    rfl

/-! ## Reading a payload back -/

section Read

variable (env : Env) (view : CoinView) (height : CInt) (outpoint : OutPoint) (time : CAmount)

theorem readOutput_proposal_ser (p : Proposal) (hfits : p.Fits) (hlen : p.ser.length ≤ maxSize)
    (htype : p.type = typeProposal) (hver : p.version = networkVersion) :
    readOutput env view height outpoint time (opReturn :: pushData p.ser) =
      .ok (some (.proposal { p with blockNumber := height })) := by
  have hne : p.ser ≠ [] := by simp [Proposal.ser]
  have hobj : NetworkObject.read.run' p.ser = .ok ⟨p.version, p.type⟩ :=
    Reader.run'_of_run (by simpa using p.read_ser_networkObject [])
  have hread : (Proposal.read height).run' p.ser = .ok { p with blockNumber := height } :=
    Reader.run'_of_run (by simpa using p.read_ser hfits height [])
  simp only [readOutput, bne_self_eq_false, Bool.false_eq_true, if_false,
    opReturnData_pushData hne (by simp only [maxSize] at hlen; omega), hobj, except_ok_bind,
    NetworkObject.isValid, hver, htype, beq_self_eq_true, Bool.not_true, if_true, hread,
    except_map_ok, Function.comp]

end Read

/-- **Accepted payloads are well formed.** A proposal `readOutput` returns is the front of the
script's data, of the current version and type, read at the given height. -/
theorem readOutput_proposal_sound {env : Env} {view : CoinView} {height : CInt}
    {outpoint : OutPoint} {time : CAmount} {script : Bytes} {p : Proposal}
    (h : readOutput env view height outpoint time script = .ok (some (.proposal p))) :
    ∃ tail rest, script = opReturn :: tail ∧ opReturnData script = p.ser ++ rest ∧ p.Fits ∧
      p.version = networkVersion ∧ p.type = typeProposal ∧ p.blockNumber = height := by
  obtain ⟨tail, o, hs, ho, hver, ⟨p', hp', ht, hr⟩ | ⟨v, hv, -⟩⟩ := readOutput_some h
  · cases hp'
    obtain ⟨rest, hr⟩ := Reader.run_of_run' hr
    obtain ⟨hdata, hfits, hbn⟩ := Proposal.read_sound hr
    rw [hdata, Reader.run'_of_run (p.read_ser_networkObject rest)] at ho
    cases ho
    exact ⟨tail, rest, hs, hdata, hfits, hver, ht, hbn⟩
  · cases hv

theorem sampleProposal_payload_sound :
    readOutput sampleEnv emptyView 1 ⟨0, 0⟩ 100 (opReturn :: pushData sampleProposal.ser) =
        .ok (some (.proposal { sampleProposal with blockNumber := 1 })) ∧
      ∃ tail rest, opReturn :: pushData sampleProposal.ser = opReturn :: tail ∧
        opReturnData (opReturn :: pushData sampleProposal.ser) =
          Proposal.ser { sampleProposal with blockNumber := 1 } ++ rest ∧
        Proposal.Fits { sampleProposal with blockNumber := 1 } ∧
        Proposal.version { sampleProposal with blockNumber := 1 } = networkVersion ∧
        Proposal.type { sampleProposal with blockNumber := 1 } = typeProposal ∧
        Proposal.blockNumber { sampleProposal with blockNumber := 1 } = 1 :=
  have h : readOutput sampleEnv emptyView 1 ⟨0, 0⟩ 100 (opReturn :: pushData sampleProposal.ser) =
      .ok (some (.proposal { sampleProposal with blockNumber := 1 })) := by decide
  ⟨h, readOutput_proposal_sound h⟩

/-- **Accepted payloads are well formed.** A vote `readOutput` returns is the front of the
script's data, of the current version and type, with the key recovered from its signature. -/
theorem readOutput_vote_sound {env : Env} {view : CoinView} {height : CInt}
    {outpoint : OutPoint} {time : CAmount} {script : Bytes} {v : Vote}
    (h : readOutput env view height outpoint time script = .ok (some (.vote v))) :
    ∃ tail rest, script = opReturn :: tail ∧ opReturnData script = v.ser ++ rest ∧ v.Fits ∧
      v.version = networkVersion ∧ v.type = typeVote ∧ v.outpoint = outpoint ∧
      v.time = time ∧ v.blockNumber = height ∧
      v.pubkey = (env.recoverCompact (v.sigHash env) v.signature).getD [] := by
  obtain ⟨tail, o, hs, ho, hver, ⟨p, hp, -⟩ | ⟨v', hv', ht, hr⟩⟩ := readOutput_some h
  · cases hp
  · cases hv'
    obtain ⟨rest, hr⟩ := Reader.run_of_run' hr
    rw [Vote.read_run] at hr
    obtain ⟨⟨w, r⟩, hw, hr⟩ := except_bind_ok hr
    obtain ⟨v', hrec, hv⟩ := except_map_eq_ok hr
    cases hv
    obtain ⟨hdata, hfits, h7, h8, h9⟩ := Vote.readFields_sound hw
    obtain ⟨-, k, a, rfl⟩ := Vote.loadKeyID_fields hrec
    rw [hdata, Reader.run'_of_run (w.read_ser_networkObject r)] at ho
    cases ho
    exact ⟨tail, r, hs, hdata, hfits, hver, ht, h7, h8, h9, rfl⟩

set_option maxRecDepth 10000 in
theorem sampleVote_payload_sound :
    readOutput sampleEnv sampleView 2
        ⟨sampleEnv.txHash (opReturnTx ⟨5, 1⟩ (sampleVote voteYes).ser), 0⟩ 200
        (opReturn :: pushData (sampleVote voteYes).ser) =
        .ok (some (.vote (sampleVoteRead 200 voteYes 2))) ∧
      ∃ tail rest, opReturn :: pushData (sampleVote voteYes).ser = opReturn :: tail ∧
        opReturnData (opReturn :: pushData (sampleVote voteYes).ser) =
          (sampleVoteRead 200 voteYes 2).ser ++ rest ∧
        (sampleVoteRead 200 voteYes 2).Fits ∧
        (sampleVoteRead 200 voteYes 2).version = networkVersion ∧
        (sampleVoteRead 200 voteYes 2).type = typeVote ∧
        (sampleVoteRead 200 voteYes 2).outpoint =
          ⟨sampleEnv.txHash (opReturnTx ⟨5, 1⟩ (sampleVote voteYes).ser), 0⟩ ∧
        (sampleVoteRead 200 voteYes 2).time = 200 ∧
        (sampleVoteRead 200 voteYes 2).blockNumber = 2 ∧
        (sampleVoteRead 200 voteYes 2).pubkey =
          (sampleEnv.recoverCompact ((sampleVoteRead 200 voteYes 2).sigHash sampleEnv)
            (sampleVoteRead 200 voteYes 2).signature).getD [] :=
  have h : readOutput sampleEnv sampleView 2
      ⟨sampleEnv.txHash (opReturnTx ⟨5, 1⟩ (sampleVote voteYes).ser), 0⟩ 200
      (opReturn :: pushData (sampleVote voteYes).ser) =
      .ok (some (.vote (sampleVoteRead 200 voteYes 2))) := by decide
  ⟨h, readOutput_vote_sound h⟩

end Gov
