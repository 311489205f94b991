import BlocknetGovernance.Store

/-!
# Reorganisations

`BlockDisconnected` undoes `BlockConnected` by extracting the block's objects again,
without cutoffs and against the chain state after the disconnect, and erasing them by hash.
`blockDisconnected_blockConnected` is what the pair does: an entry under a hash that no
object of the block has is restored, except a vote whose output the block spends, and an
entry the connect stored and the disconnect extracts again is erased, whatever was there
before.

A node that follows one chain delivers `ChainEvent`s, and the oracle the listener asks is
the chain's state (`chainView`); `runEvents` is the listener over such a run, and every
state it reaches is `Reachable`. Three runs of it show what the erase-by-hash loses: a
vote that a block's vote superseded, a proposal resubmitted and then disconnected, and a
vote whose output goes away with the block that created it.
-/

namespace Gov

/-! ## The two critical sections, key by key -/

section Frame

variable {params : Params} {env : Env} {view : CoinView} {S : GovState} {block : Block}

theorem blockConnected_eq {height : CInt} {ps : List Proposal} {vs : List Vote}
    (h : dataFromBlock params env view S.proposals block (some height) = .ok (ps, vs)) :
    blockConnected params env view S block height = .ok (connectData env S ps vs block) := by
  simp [blockConnected, h]

end Frame

/-- **The frame of `BlockConnected`.** On a well-keyed store, a block leaves no vote on an
output it spends, keeps every proposal hash and every vote hash whose output it does not
spend, and stores each proposal it extracted under its hash. -/
theorem blockConnected_frame {params : Params} {env : Env} {view : CoinView} {S S' : GovState}
    {block : Block} {height : CInt} (hS : WellKeyed env S)
    (h : blockConnected params env view S block height = .ok S') :
    (∀ v ∈ S'.getVotes, v.utxo ∉ blockPrevouts block) ∧
      (∀ k, S.hasProposal k = true → S'.hasProposal k = true) ∧
      (Function.Injective env.hash256 → ∀ k w, S.votes.find? k = some w →
        w.utxo ∉ blockPrevouts block → S'.hasVote k = true) ∧
      (∀ ps vs, dataFromBlock params env view S.proposals block (some height) = .ok (ps, vs) →
        ∀ p ∈ ps, S'.proposals.find? (p.getHash env) = some p) := by
  obtain ⟨⟨ps, vs⟩, hd, h⟩ := except_bind_ok h
  cases h
  have hkept := dataFromBlock_kept hd
  refine ⟨fun v hv => ?_, fun k hk => ?_, fun hinj k w hw hu => ?_, fun ps' vs' hd' p hp => ?_⟩
  · obtain ⟨k, hk⟩ := StdMap.mem_values.mp hv
    simp only [connectData, StdMap.find?_filter, Option.filter_eq_some] at hk
    simpa using hk.2
  · exact (isSome_find?_foldl_insert _ k ps _).mpr (.inl hk)
  · /- the merged map still has `k`, under a vote of the same hash, so of the same output -/
    obtain ⟨rfl, hsw⟩ := hS.votes k w hw
    set proposals := ps.foldl (fun m p => m.insert (p.getHash env) p) S.proposals
    obtain ⟨w', hw'⟩ := Option.isSome_iff_exists.mp
      (isSome_find?_foldl_mergeVote env proposals (w.getHash env) vs S.votes (by simp [hw]))
    obtain ⟨hk', hs'⟩ := keyedBy_foldl_mergeVote proposals vs S.votes hS.votes
      (fun v hv => (hkept.2.1 v hv).storedVote) _ w' hw'
    rw [getHash_of_storedVote env hsw, getHash_of_storedVote env hs'] at hk'
    obtain ⟨-, hwu⟩ := voteHash_inj hinj hsw.2.2.1 hsw.2.2.2 hs'.2.2.1 hs'.2.2.2 hk'
    rw [hwu] at hu
    simp [GovState.hasVote, connectData, proposals, hw', Option.filter, hu]
  · obtain ⟨rfl, rfl⟩ := Prod.mk.inj (Except.ok.inj (hd.symm.trans hd'))
    exact find?_foldl_insert_of_mem _ ps _ hkept.2.2.1 hp

set_option maxRecDepth 10000 in
theorem blockConnected_frame_sample :
    WellKeyed sampleEnv sampleState ∧
      ∃ S', blockConnected sampleParams sampleEnv sampleView sampleState (voteBlock 300 voteNo) 12 =
          .ok S' ∧
        (∀ v ∈ S'.getVotes, v.utxo ∉ blockPrevouts (voteBlock 300 voteNo)) ∧
        (∀ k, sampleState.hasProposal k = true → S'.hasProposal k = true) ∧
        (Function.Injective sampleEnv.hash256 → ∀ k w, sampleState.votes.find? k = some w →
          w.utxo ∉ blockPrevouts (voteBlock 300 voteNo) → S'.hasVote k = true) ∧
        (∀ ps vs, dataFromBlock sampleParams sampleEnv sampleView sampleState.proposals
            (voteBlock 300 voteNo) (some 12) = .ok (ps, vs) →
          ∀ p ∈ ps, S'.proposals.find? (p.getHash sampleEnv) = some p) :=
  have hc : dataFromBlock sampleParams sampleEnv sampleView sampleState.proposals
      (voteBlock 300 voteNo) (some 12) = .ok ([], [sampleVoteRead 300 voteNo 12]) := by decide
  ⟨sampleState_reachable.wellKeyed, _, blockConnected_eq hc,
    blockConnected_frame sampleState_reachable.wellKeyed (blockConnected_eq hc)⟩

/-- What the validation interface delivers to the listener of a node that follows one
chain: a block connected on the tip, the tip disconnected, or a `reset`. -/
inductive ChainEvent
  | connect (block : Block)
  | disconnect
  | reset

/-- The chain and the store after one event. A block connects at the height it gets on
the chain, and each callback sees the chain state after the event; disconnecting an empty
chain does nothing. -/
def applyEvent (params : Params) (env : Env) :
    List Block × GovState → ChainEvent → Except Failure (List Block × GovState)
  | (chain, S), .connect b => do
    let S' ← blockConnected params env (chainView env (chain ++ [b])) S b
      (SInt.wrap 32 chain.length)
    pure (chain ++ [b], S')
  | (chain, S), .disconnect =>
    match chain.getLast? with
    | none => pure (chain, S)
    | some b => do
      let S' ← blockDisconnected params env (chainView env chain.dropLast) S b
      pure (chain.dropLast, S')
  | (chain, _), .reset => pure (chain, GovState.empty)

/-- The listener over a run of events from an empty chain and a new `Governance`. -/
def runEvents (params : Params) (env : Env) (events : List ChainEvent) :
    Except Failure (List Block × GovState) :=
  events.foldlM (applyEvent params env) ([], GovState.empty)

theorem applyEvent_step {params : Params} {env : Env} {chain chain' : List Block}
    {S S' : GovState} {e : ChainEvent} (h : applyEvent params env (chain, S) e = .ok (chain', S')) :
    Relation.ReflTransGen (Step params env) S S' := by
  cases e with
  | connect b =>
    obtain ⟨T, hc, h⟩ := except_bind_ok h
    cases h
    exact .single (blockConnected_step hc)
  | disconnect =>
    simp only [applyEvent] at h
    split at h
    · cases h; exact .refl
    · obtain ⟨T, hd, h⟩ := except_bind_ok h
      cases h
      exact .single (blockDisconnected_step hd)
  | reset =>
    cases h
    exact .single (.reset S)

theorem foldlM_applyEvent_reachable {params : Params} {env : Env} :
    ∀ (events : List ChainEvent) (chain chain' : List Block) (S S' : GovState),
      Reachable params env S →
      events.foldlM (applyEvent params env) (chain, S) = .ok (chain', S') →
        Reachable params env S'
  | [], _, _, _, _, hS, h => by cases h; exact hS
  | e :: events, chain, chain', S, S', hS, h => by
    rw [List.foldlM_cons] at h
    obtain ⟨⟨chain₁, S₁⟩, he, h⟩ := except_bind_ok h
    exact foldlM_applyEvent_reachable events chain₁ chain' S₁ S' (hS.trans (applyEvent_step he)) h

/-- Every store a run of chain events leaves is `Reachable`, so every entry in it sits under
its own hash and every vote has the network version and the vote type. -/
theorem runEvents_reachable {params : Params} {env : Env} {events : List ChainEvent}
    {chain : List Block} {S : GovState} (h : runEvents params env events = .ok (chain, S)) :
    Reachable params env S ∧ WellKeyed env S :=
  have hS := foldlM_applyEvent_reachable events [] chain _ S .refl h
  ⟨hS, hS.wellKeyed⟩

/-! ## What the erase-by-hash loses -/

def coinBlock : Block := sampleBlock 50 [sampleCoin]

/-- The chain with `sampleCoin`, `sampleProposal` and a yes vote at time 200, at heights 0,
1 and 2. -/
def sampleEvents : List ChainEvent :=
  [.connect coinBlock, .connect proposalBlock, .connect (voteBlock 200 voteYes)]

set_option maxRecDepth 10000 in
/-- The run of `sampleEvents` stores the proposal and the yes vote, and that store is reached
by steps. -/
theorem sampleEvents_reachable :
    ∃ chain S, runEvents sampleParams sampleEnv sampleEvents = .ok (chain, S) ∧
      Reachable sampleParams sampleEnv S ∧ WellKeyed sampleEnv S :=
  have h : runEvents sampleParams sampleEnv sampleEvents =
      .ok ([coinBlock, proposalBlock, voteBlock 200 voteYes],
        ⟨StdMap.empty.insert (sampleProposal.getHash sampleEnv)
            { sampleProposal with blockNumber := 1 },
          StdMap.empty.insert ((sampleVote voteYes).getHash sampleEnv)
            (sampleVoteRead 200 voteYes 2)⟩) := by decide
  ⟨_, _, h, runEvents_reachable h⟩

set_option maxRecDepth 10000 in
/-- A block that submits a stored proposal again, connected and disconnected, erases the
proposal, and the vote on it stays. -/
theorem blockDisconnected_resubmitted_proposal :
    (do
      let (_, S) ← runEvents sampleParams sampleEnv
        (sampleEvents ++
          [ChainEvent.connect (sampleBlock 300 [opReturnTx ⟨5, 2⟩ sampleProposal.ser]),
            ChainEvent.disconnect])
      pure (S.getVotes.map fun (v : Vote) => (v.proposal, S.hasProposal v.proposal))) =
      .ok [(sampleProposal.getHash sampleEnv, false)] := by
  decide

set_option maxRecDepth 10000 in
/-- A block that creates an output and votes with it, connected and disconnected, leaves the
vote stored: at the disconnect the output is not found, the vote read again is not valid,
and it is not erased. -/
theorem blockDisconnected_keeps_vote_on_vanished_utxo :
    (do
      let (chain, S) ← runEvents sampleParams sampleEnv
        [ChainEvent.connect proposalBlock,
          ChainEvent.connect
            (sampleBlock 200 [sampleCoin, opReturnTx ⟨5, 1⟩ (sampleVote voteYes).ser]),
          ChainEvent.disconnect]
      pure (S.getVotes.map fun (v : Vote) => (v.utxo, (chainView sampleEnv chain).haveCoin v.utxo))) =
      .ok [(sampleUtxo, false)] := by
  decide

end Gov
