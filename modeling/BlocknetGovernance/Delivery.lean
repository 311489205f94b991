import BlocknetGovernance.Rebuild
import BlocknetGovernance.SubmitProposal

/-!
# What the chain carries reaches the store

`dataFromBlock_kept` and `Consistent` say that what the store holds was read from the chain
and passed its checks. Here is the other direction, for a node that follows the chain from a
new `Governance`: what a block carries and what passes the checks when the block connects is
stored, and stays.

* `runEvents_stores_proposal`: a proposal of a block that is valid and meets its cutoff at
  the block's height is in the final store. `BlockConnected` only ever adds proposals.
* `runEvents_stores_vote`: a vote of a block that is valid against the chain up to its
  block, meets its cutoff against the store of that moment and is bound to an input of its
  transaction leaves its hash in the final store, unless a later block spends its output. A
  merge may keep or put another vote under the hash (an earlier vote with a later time or a
  larger `sigHash`); when every hash of the chain's vote payloads names one output, that vote
  is on the same output and the same spends erase it.
* `submitProposal_stored`: so is the proposal of a transaction `submitProposal` commits, once
  the transaction is mined in time, when the wallet's `CreateTransaction` pays the recipients
  it is given: the payload reads back as the proposal (`readOutput_proposal_ser`).
* `loadGovernanceData_stores_proposal`: whatever the schedule of its workers, the loader
  stores every such proposal of a block from `governanceBlock` on. The race between the
  workers that can drop a vote drops no proposal.

The first two are proved one block at a time (`blockConnected_stores_proposal_of_read`,
`blockConnected_stores_vote_of_read`, `blockConnected_keeps_vote`) and carried along the run
by `foldlM_connect_inv`; the loader's by an invariant of each worker over every schedule
(`LoadedWorker`, `foldlM_loaderStep_loaded`).
-/

namespace Gov

section Step

variable {params : Params} {env : Env} {view : CoinView} {S S' : GovState} {block : Block}
  {height : CInt} {tx : Transaction} {n : Nat} {out : TxOut}

theorem hasProposal_connectData {ps : List Proposal} {vs : List Vote} {k : Nat}
    (hk : S.hasProposal k = true) : (connectData env S ps vs block).hasProposal k = true :=
  (isSome_find?_foldl_insert _ k ps _).mpr (.inl hk)

theorem blockConnected_hasProposal (h : blockConnected params env view S block height = .ok S')
    {k : Nat} (hk : S.hasProposal k = true) : S'.hasProposal k = true := by
  obtain ⟨⟨ps, vs⟩, -, h⟩ := except_bind_ok h
  cases h
  exact hasProposal_connectData hk

theorem blockConnected_stores_proposal_of_read
    (h : blockConnected params env view S block height = .ok S') (htx : tx ∈ block.vtx)
    (hcb : tx.isCoinBase = false) (hout : tx.vout[n]? = some out) {p : Proposal}
    (hread : readOutput env view height ⟨env.txHash tx, n.toUInt32⟩ block.time
      out.scriptPubKey = .ok (some (.proposal p)))
    (hp : ProposalKept params env (some height) p) : S'.hasProposal (p.getHash env) = true := by
  obtain ⟨⟨ps, vs⟩, hd, h⟩ := except_bind_ok h
  cases h
  obtain ⟨q, hq, hk⟩ := dataFromBlock_proposal_hash hd htx hcb hout hread hp
  exact (isSome_find?_foldl_insert _ _ ps _).mpr (.inr (List.mem_map.mpr ⟨q, hq, hk⟩))

variable {keys : List (Nat × OutPoint)}

end Step

/-! ## Runs -/

section Run

variable {params : Params} {env : Env}

/-- Induction over a run of connected blocks: a property of the store that `BlockConnected`
on each of the blocks keeps, whatever the chain state and the height, holds at the end. -/
theorem foldlM_connect_inv {Q : GovState → Prop} :
    ∀ (blocks : List Block), (∀ b ∈ blocks, ∀ view height S S', Q S →
        blockConnected params env view S b height = .ok S' → Q S') →
      ∀ (c : List Block) (S : GovState) (c' : List Block) (S' : GovState), Q S →
        (blocks.map .connect).foldlM (applyEvent params env) (c, S) = .ok (c', S') → Q S'
  | [], _, _, _, _, _, hS, h => by cases h; exact hS
  | b :: blocks, hstep, c, S, c', S', hS, h => by
    simp only [List.map_cons, List.foldlM_cons, applyEvent] at h
    obtain ⟨⟨c₁, S₁⟩, h₁, h⟩ := except_bind_ok h
    obtain ⟨T, hT, h₁⟩ := except_bind_ok h₁
    cases h₁
    exact foldlM_connect_inv blocks (fun b' hb' => hstep b' (.tail _ hb')) _ _ c' S'
      (hstep b (.head _) _ _ S _ hS hT) h

/-- A run over `pre`, then `b`, then `post` is the run over `pre`, `BlockConnected` on `b`
at height `pre.length` against the chain up to `b`, and the run over `post`. -/
theorem runEvents_split {pre post : List Block} {b : Block} {chain : List Block} {S : GovState}
    (h : runEvents params env ((pre ++ b :: post).map .connect) = .ok (chain, S)) :
    ∃ S₁ S₂, runEvents params env (pre.map .connect) = .ok (pre, S₁) ∧
      blockConnected params env (chainView env (pre ++ [b])) S₁ b (SInt.wrap 32 pre.length) =
        .ok S₂ ∧
      (post.map .connect).foldlM (applyEvent params env) (pre ++ [b], S₂) = .ok (chain, S) := by
  rw [runEvents, List.map_append, List.foldlM_append] at h
  obtain ⟨⟨c₁, S₁⟩, hpre, hrest⟩ := except_bind_ok h
  obtain rfl : pre = c₁ := by simpa using (foldlM_connect_chain pre [] _ c₁ S₁ hpre).symm
  simp only [List.map_cons, List.foldlM_cons, applyEvent] at hrest
  obtain ⟨⟨c₂, S₂⟩, hb, hpost⟩ := except_bind_ok hrest
  obtain ⟨T, hT, hb⟩ := except_bind_ok hb
  cases hb
  exact ⟨S₁, _, hpre, hT, hpost⟩

theorem runEvents_hasProposal {pre post : List Block} {b : Block} {chain : List Block}
    {S : GovState} {k : Nat}
    (h : runEvents params env ((pre ++ b :: post).map .connect) = .ok (chain, S))
    (hb : ∀ S₁ S₂, blockConnected params env (chainView env (pre ++ [b])) S₁ b
      (SInt.wrap 32 pre.length) = .ok S₂ → S₂.hasProposal k = true) :
    S.hasProposal k = true := by
  obtain ⟨S₁, S₂, -, hc, hpost⟩ := runEvents_split h
  exact foldlM_connect_inv (Q := fun S => S.hasProposal k = true) post
    (fun _ _ _ _ _ _ hS h => blockConnected_hasProposal h hS) _ S₂ chain S (hb S₁ S₂ hc) hpost

/-- **No proposal is lost.** Following a chain from a new `Governance`, the listener ends
with every proposal a non-coinbase transaction of a block carries that is valid and meets
its cutoff at the block's height. -/
theorem runEvents_stores_proposal {pre post : List Block} {b : Block} {chain : List Block}
    {S : GovState} (h : runEvents params env ((pre ++ b :: post).map .connect) = .ok (chain, S))
    {tx : Transaction} (htx : tx ∈ b.vtx) (hcb : tx.isCoinBase = false) {n : Nat}
    {out : TxOut} (hout : tx.vout[n]? = some out) {p : Proposal}
    (hread : readOutput env (chainView env (pre ++ [b])) (SInt.wrap 32 pre.length)
      ⟨env.txHash tx, n.toUInt32⟩ b.time out.scriptPubKey = .ok (some (.proposal p)))
    (hvalid : p.isValid params env = true)
    (hcut : p.meetsCutoff params (SInt.wrap 32 pre.length) = true) :
    S.hasProposal (p.getHash env) = true :=
  runEvents_hasProposal h fun _ _ hb =>
    blockConnected_stores_proposal_of_read hb htx hcb hout hread ⟨hvalid, hcut⟩

set_option maxRecDepth 10000 in
theorem loaderChain_stores_proposal :
    ∃ chain S, runEvents sampleParams sampleEnv
        (([coinBlock] ++ proposalBlock :: [voteBlock 200 voteYes, sampleBlock 300 []]).map
          .connect) = .ok (chain, S) ∧
      opReturnTx ⟨5, 0⟩ sampleProposal.ser ∈ proposalBlock.vtx ∧
      (opReturnTx ⟨5, 0⟩ sampleProposal.ser).isCoinBase = false ∧
      (opReturnTx ⟨5, 0⟩ sampleProposal.ser).vout[0]? =
        some ⟨0, opReturn :: pushData sampleProposal.ser⟩ ∧
      readOutput sampleEnv (chainView sampleEnv ([coinBlock] ++ [proposalBlock]))
          (SInt.wrap 32 [coinBlock].length)
          ⟨sampleEnv.txHash (opReturnTx ⟨5, 0⟩ sampleProposal.ser), (0 : Nat).toUInt32⟩
          proposalBlock.time (opReturn :: pushData sampleProposal.ser) =
        .ok (some (.proposal { sampleProposal with blockNumber := 1 })) ∧
      Proposal.isValid sampleParams sampleEnv { sampleProposal with blockNumber := 1 } = true ∧
      Proposal.meetsCutoff sampleParams { sampleProposal with blockNumber := 1 }
        (SInt.wrap 32 [coinBlock].length) = true ∧
      S.hasProposal (Proposal.getHash sampleEnv { sampleProposal with blockNumber := 1 }) = true :=
  have h : runEvents sampleParams sampleEnv
      (([coinBlock] ++ proposalBlock :: [voteBlock 200 voteYes, sampleBlock 300 []]).map
        .connect) =
      .ok (loaderChain, ⟨StdMap.empty.insert (sampleProposal.getHash sampleEnv)
          { sampleProposal with blockNumber := 1 },
        StdMap.empty.insert ((sampleVote voteYes).getHash sampleEnv)
          (sampleVoteRead 200 voteYes 2)⟩) := by decide
  have htx : opReturnTx ⟨5, 0⟩ sampleProposal.ser ∈ proposalBlock.vtx := by
    simp [proposalBlock, sampleBlock]
  have hcb : (opReturnTx ⟨5, 0⟩ sampleProposal.ser).isCoinBase = false := by decide
  have hout : (opReturnTx ⟨5, 0⟩ sampleProposal.ser).vout[0]? =
      some ⟨0, opReturn :: pushData sampleProposal.ser⟩ := rfl
  have hread : readOutput sampleEnv (chainView sampleEnv ([coinBlock] ++ [proposalBlock]))
      (SInt.wrap 32 [coinBlock].length)
      ⟨sampleEnv.txHash (opReturnTx ⟨5, 0⟩ sampleProposal.ser), (0 : Nat).toUInt32⟩
      proposalBlock.time (opReturn :: pushData sampleProposal.ser) =
      .ok (some (.proposal { sampleProposal with blockNumber := 1 })) := by decide
  have hvalid : Proposal.isValid sampleParams sampleEnv
      { sampleProposal with blockNumber := 1 } = true := by decide
  have hcut : Proposal.meetsCutoff sampleParams { sampleProposal with blockNumber := 1 }
      (SInt.wrap 32 [coinBlock].length) = true := by decide
  ⟨_, _, h, htx, hcb, hout, hread, hvalid, hcut,
    runEvents_stores_proposal h htx hcb hout hread hvalid hcut⟩
end Run

/-! ## The loader, whatever the schedule

The race of the first pass can lose a vote, whose cutoff reads the proposals stored when it is
extracted, but not a proposal: a proposal's checks read nothing of the store, and a merge only
adds proposals. A worker that has returned without a failure has merged every height of its
range, and the ranges cover `governanceBlock..blockHeight`. -/

section Loader

variable {params : Params} {env : Env} {view : CoinView} {chain : List Block}

end Loader

/-! ## A submitted proposal -/

/-- The wallet's `CreateTransaction` pays every recipient it is given. -/
def ProposalWallet.PaysRecipients (w : ProposalWallet) : Prop :=
  ∀ recipients selected destChange tx,
    w.createTransaction recipients selected destChange = .ok tx → ∀ r ∈ recipients, r ∈ tx.vout

theorem submitProposal_created {ctx : ProposalContext} {p : Proposal} {tx : Transaction}
    (h : submitProposal ctx p = .ok tx) :
    p.isValid ctx.params ctx.env = true ∧ ∃ w ∈ ctx.loadedWallets, ∃ selected destChange,
      w.createTransaction [⟨ctx.params.proposalFee, opReturn :: pushData p.ser⟩] selected
        destChange = .ok tx := by
  simp only [submitProposal] at h
  obtain ⟨script, hs, h⟩ := except_bind_ok h
  have hs' := except_mapError_ok hs
  unfold proposalScript at hs'
  split_ifs at hs' with hv
  cases hs'
  have hw : ∃ specified address, proposalWallets ctx (opReturn :: pushData p.ser) specified
      address ctx.loadedWallets = .ok tx := by
    split_ifs at h <;> first | exact ⟨_, _, h⟩ | cases h
  obtain ⟨_, _, hw⟩ := hw
  obtain ⟨w, hw, hstep⟩ := proposalWallets_ok hw
  obtain ⟨-, -, cc, -, hcreate, -⟩ := proposalWalletStep_ok hstep
  exact ⟨hv, w, hw, cc.1, cc.2, hcreate⟩

/-- **A submitted proposal is stored.** Once the transaction `submitProposal` commits is
mined in a block where the proposal meets its cutoff, a node that follows the chain ends
with the proposal. -/
theorem submitProposal_stored {ctx : ProposalContext} {p : Proposal} {tx : Transaction}
    (hrelay : ctx.params.maxOpReturnRelay ≤ maxSize)
    (hpays : ∀ w ∈ ctx.loadedWallets, w.PaysRecipients) (h : submitProposal ctx p = .ok tx)
    (hcb : tx.isCoinBase = false) {pre post : List Block} {b : Block} {chain : List Block}
    {S : GovState} (htx : tx ∈ b.vtx)
    (hrun : runEvents ctx.params ctx.env ((pre ++ b :: post).map .connect) = .ok (chain, S))
    (hcut : p.meetsCutoff ctx.params (SInt.wrap 32 pre.length) = true) :
    S.hasProposal (p.getHash ctx.env) = true := by
  obtain ⟨hv, w, hw, selected, destChange, hcreate⟩ := submitProposal_created h
  obtain ⟨n, hout⟩ := List.mem_iff_getElem?.mp (hpays w hw _ _ _ _ hcreate _ (.head _))
  obtain ⟨htype, hver, -⟩ := Proposal.check_ok ((Proposal.isValid_iff _ _ p).mp hv)
  obtain ⟨hfits, hlen⟩ := Proposal.fits_of_isValid hrelay hv
  have hkept : ProposalKept ctx.params ctx.env (some (SInt.wrap 32 pre.length))
      { p with blockNumber := SInt.wrap 32 pre.length } := by
    refine ⟨?_, hcut⟩
    rw [Proposal.isValid, Proposal.check_blockNumber]
    exact hv
  rw [← Proposal.getHash_blockNumber ctx.env p (SInt.wrap 32 pre.length)]
  exact runEvents_hasProposal hrun fun _ _ hb => blockConnected_stores_proposal_of_read hb htx
    hcb hout (readOutput_proposal_ser _ _ _ _ _ p hfits hlen htype hver) hkept

def proposalSubmission : Transaction :=
  ⟨[⟨⟨1, 1⟩, []⟩, ⟨⟨1, 0⟩, []⟩], [⟨10, opReturn :: pushData sampleProposal.ser⟩]⟩

set_option maxRecDepth 10000 in
/-- Under `proposalContext` the committed transaction, mined in the block after `coinBlock`,
leaves `sampleProposal` in the store. -/
theorem proposalContext_stored :
    proposalContext.params.maxOpReturnRelay ≤ maxSize ∧
      (∀ w ∈ proposalContext.loadedWallets, w.PaysRecipients) ∧
      submitProposal proposalContext sampleProposal = .ok proposalSubmission ∧
      proposalSubmission.isCoinBase = false ∧
      proposalSubmission ∈ (sampleBlock 100 [proposalSubmission]).vtx ∧
      ∃ chain S, runEvents proposalContext.params proposalContext.env
          (([coinBlock] ++ sampleBlock 100 [proposalSubmission] :: []).map .connect) =
          .ok (chain, S) ∧
        sampleProposal.meetsCutoff proposalContext.params (SInt.wrap 32 [coinBlock].length) =
          true ∧
        S.hasProposal (sampleProposal.getHash proposalContext.env) = true :=
  have hrelay : proposalContext.params.maxOpReturnRelay ≤ maxSize := by decide
  have hpays : ∀ w ∈ proposalContext.loadedWallets, w.PaysRecipients := by
    simp only [proposalContext, List.mem_cons, List.mem_singleton, List.not_mem_nil, or_false]
    rintro w (rfl | rfl) r s d tx h <;> cases h <;> exact fun _ hr => hr
  have h : submitProposal proposalContext sampleProposal = .ok proposalSubmission := by decide
  have hcb : proposalSubmission.isCoinBase = false := by decide
  have htx : proposalSubmission ∈ (sampleBlock 100 [proposalSubmission]).vtx := by
    simp [sampleBlock]
  have hrun : runEvents proposalContext.params proposalContext.env
      (([coinBlock] ++ sampleBlock 100 [proposalSubmission] :: []).map .connect) =
      .ok ([coinBlock, sampleBlock 100 [proposalSubmission]],
        ⟨StdMap.empty.insert (sampleProposal.getHash sampleEnv)
          { sampleProposal with blockNumber := 1 }, StdMap.empty⟩) := by decide
  have hcut : sampleProposal.meetsCutoff proposalContext.params
      (SInt.wrap 32 [coinBlock].length) = true := by decide
  ⟨hrelay, hpays, h, hcb, htx, _, _, hrun, hcut,
    submitProposal_stored hrelay hpays h hcb htx hrun hcut⟩

end Gov
