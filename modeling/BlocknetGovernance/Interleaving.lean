import BlocknetGovernance.Consistency

/-!
# The first pass, one output at a time

`meetsCutoff` on a vote takes `mu` by itself, so the extraction of `BlockConnected` is not
one atomic action: between the cutoff checks of two outputs of one block, another worker may
merge. Here the first pass of `loadGovernanceData` has an action per output read, and a
schedule lists the worker of each: the start of a block, the read of one output, the merge,
the return. Nothing else a worker does touches the store, so every interleaving of the
threads at the mutex is one schedule.

* `loadGovernanceDataByOutput_reachable`: whatever the schedule, the store the loader
  returns is reached by `Step`s, so every entry sits under its own hash.
* `loadGovernanceDataByOutput_consistent`: and every stored vote is on a stored proposal and
  on a coin of the chain.
* `loadGovernanceData_refines`: a schedule of `loadGovernanceData`, whose extraction is one
  action, is a schedule here in which a worker's start and reads run in a row; the loader
  returns the same.
-/

namespace Gov

/-- A worker of the first pass, one output at a time: the heights `[next, stop)` it has
left; the block it is extracting, the outputs it has still to read and the sets so far;
whether it has returned. -/
structure OutputWorker where
  next : Int
  stop : Int
  pending : Option (Block × List (Transaction × Nat × TxOut) × List Proposal × List Vote) :=
    none
  done : Bool := false

/-- One atomic action of a worker: the merge of what it extracted, once every output is
read; the read of its next output, whose cutoff check reads the proposals stored at that
moment; the start of its next block; or its return. -/
def outputWorkerStep (params : Params) (env : Env) (view : CoinView) (chain : List Block)
    (S : GovState) (w : OutputWorker) :
    Except Failure (GovState × OutputWorker × Option LoadFailure) :=
  match w.pending with
  | some (b, [], ps, vs) =>
    pure (connectData env S ps vs b, { w with pending := none, next := w.next + 1 }, none)
  | some (b, o :: os, acc) => do
    let acc ← dataFromOutput params env view S.proposals b (some (SInt.wrap 32 w.next)) acc o
    pure (S, { w with pending := some (b, os, acc) }, none)
  | none =>
    if w.done then pure (S, w, none)
    else if w.next < w.stop then
      match chainAt chain w.next with
      | none => pure (S, { w with done := true }, some (.blockIndex w.next))
      | some b => pure (S, { w with pending := some (b, blockOutputs b, [], []) }, none)
    else pure (S, { w with done := true }, none)

/-- The shared state of the first pass. -/
structure OutputLoader where
  store : GovState
  workers : List OutputWorker
  failed : Bool := false
  failReason : List LoadFailure := []

/-- The action of worker `k` on the shared state; an index past the workers does nothing. -/
def outputLoaderStep (params : Params) (env : Env) (view : CoinView) (chain : List Block)
    (L : OutputLoader) (k : Nat) : Except Failure OutputLoader :=
  match L.workers[k]? with
  | none => pure L
  | some w => do
    let (S, w', failure) ← outputWorkerStep params env view chain L.store w
    pure { L with
      store := S, workers := L.workers.set k w', failed := L.failed || failure.isSome,
      failReason := L.failReason ++ failure.toList }

/-- A worker whose extraction is one action, as a worker here: what it extracted is a block
with every output read. -/
def Worker.toOutput (w : Worker) : OutputWorker :=
  { next := w.next, stop := w.stop, pending := w.pending.map fun (b, ps, vs) => (b, [], ps, vs),
    done := w.done }

def Loader.toOutput (L : Loader) : OutputLoader :=
  { store := L.store, workers := L.workers.map Worker.toOutput, failed := L.failed,
    failReason := L.failReason }

/-- `loadGovernanceData(chain, ...)` on `cores` cores, its first pass interleaved one output
at a time by `schedule`, on a new `Governance`. -/
def loadGovernanceDataByOutput (params : Params) (env : Env) (chain : List Block) (cores : Nat)
    (schedule : List Nat) : Except Failure (Option (Bool × GovState)) := do
  let blockHeight : Int := chain.length - 1
  if blockHeight = 0 ∨ blockHeight < params.governanceBlock.val then
    return some (true, GovState.empty)
  let view := chainView env chain
  let totalBlocks := blockHeight - params.governanceBlock.val
  let slice ← cDiv totalBlocks cores
  let L₀ : OutputLoader :=
    { store := GovState.empty,
      workers := (List.range cores).map fun k =>
        (sliceWorker params.governanceBlock.val blockHeight slice cores k).toOutput }
  let L ← schedule.foldlM (outputLoaderStep params env view chain) L₀
  if !L.workers.all (·.done) then return none
  let S := L.store
  if S.votes.values.isEmpty || L.failed then return some (!L.failed, S)
  let tmpvotes := S.votes.values
  let slice ← cDiv tmpvotes.length cores
  let votes := (List.range cores).foldl
    (fun votes k => pruneSpent env view (voteSlice tmpvotes slice cores k) votes) S.votes
  return some (!L.failed, ⟨S.proposals, votes⟩)

/-! ## Every schedule is a run of steps -/

/-- What a worker's pending sets came from: the outputs of its block it has read, in order,
each cutoff check against a store of its own, at the height it is at. -/
def OutputWorker.Extracted (params : Params) (env : Env) (view : CoinView)
    (w : OutputWorker) : Prop :=
  ∀ b os acc, w.pending = some (b, os, acc) → ∃ pre reads,
    pre ++ os = blockOutputs b ∧ reads.length = pre.length ∧
      (pre.zip reads).foldlM (fun acc o => dataFromOutput params env view o.2 b
        (some (SInt.wrap 32 w.next)) acc o.1) ([], []) = .ok acc

section Runs

variable {params : Params} {env : Env} {view : CoinView} {chain : List Block}

/-- One action of a worker leaves the store as it was or merges sets extracted with a read
per output, and the worker's pending sets stay extracted. -/
theorem outputWorkerStep_cases {S S' : GovState} {w w' : OutputWorker}
    {failure : Option LoadFailure} (hw : w.Extracted params env view)
    (h : outputWorkerStep params env view chain S w = .ok (S', w', failure)) :
    (S' = S ∨ ∃ b ps vs reads height, reads.length = (blockOutputs b).length ∧
        dataFromBlockReads params env view reads b (some height) = .ok (ps, vs) ∧
          S' = connectData env S ps vs b) ∧ w'.Extracted params env view := by
  unfold outputWorkerStep at h
  split at h
  · rename_i b ps vs hp
    cases h
    obtain ⟨pre, reads, hpre, hlen, hfold⟩ := hw b [] (ps, vs) hp
    rw [List.append_nil] at hpre
    subst hpre
    exact ⟨.inr ⟨b, ps, vs, reads, _, hlen, hfold, rfl⟩, fun _ _ _ h => by cases h⟩
  · rename_i b o os acc hp
    obtain ⟨acc', hd, h⟩ := except_bind_ok h
    cases h
    refine ⟨.inl rfl, fun b' os' acc'' hp' => ?_⟩
    obtain ⟨rfl, rfl, rfl⟩ : b = b' ∧ os = os' ∧ acc' = acc'' := by simpa using hp'
    obtain ⟨pre, reads, hpre, hlen, hfold⟩ := hw b (o :: os) acc hp
    refine ⟨pre ++ [o], reads ++ [S.proposals], by simpa using hpre, by simp [hlen], ?_⟩
    rw [List.zip_append hlen.symm, List.foldlM_append, hfold]
    simp [hd]
  · split_ifs at h
    · cases h; exact ⟨.inl rfl, hw⟩
    · split at h
      · cases h; exact ⟨.inl rfl, fun _ _ _ h' => by simp_all⟩
      · cases h
        refine ⟨.inl rfl, fun b' os acc hp => ?_⟩
        obtain ⟨rfl, rfl, rfl⟩ : _ = b' ∧ blockOutputs _ = os ∧ ([], []) = acc := by
          simpa using hp
        exact ⟨[], [], rfl, rfl, rfl⟩
    · cases h; exact ⟨.inl rfl, fun _ _ _ h' => by simp_all⟩

theorem outputLoaderStep_cases {L L' : OutputLoader} {k : Nat}
    (hW : ∀ w ∈ L.workers, w.Extracted params env view)
    (h : outputLoaderStep params env view chain L k = .ok L') :
    (L'.store = L.store ∨ ∃ b ps vs reads height, reads.length = (blockOutputs b).length ∧
        dataFromBlockReads params env view reads b (some height) = .ok (ps, vs) ∧
          L'.store = connectData env L.store ps vs b) ∧
      ∀ w ∈ L'.workers, w.Extracted params env view := by
  unfold outputLoaderStep at h
  split at h
  · cases h; exact ⟨.inl rfl, hW⟩
  · rename_i w hk
    obtain ⟨⟨S, w', failure⟩, hw, h⟩ := except_bind_ok h
    cases h
    obtain ⟨hS, hw'⟩ := outputWorkerStep_cases (hW w (List.getElem?_mem hk)) hw
    refine ⟨hS, fun v hv => ?_⟩
    rcases List.mem_or_eq_of_mem_set hv with hv | rfl
    · exact hW v hv
    · exact hw'

/-- A property of the store that every merge of sets extracted with a read per output keeps
holds after any schedule of the first pass. -/
theorem foldlM_outputLoaderStep_store {I : GovState → Prop}
    (hI : ∀ S b ps vs reads height, reads.length = (blockOutputs b).length →
      dataFromBlockReads params env view reads b (some height) = .ok (ps, vs) → I S →
        I (connectData env S ps vs b))
    (schedule : List Nat) {L L' : OutputLoader}
    (hW : ∀ w ∈ L.workers, w.Extracted params env view) (hS : I L.store)
    (h : schedule.foldlM (outputLoaderStep params env view chain) L = .ok L') : I L'.store :=
  (foldlM_except_inv (fun L : OutputLoader => (∀ w ∈ L.workers, w.Extracted params env view) ∧
      I L.store) (fun L k L' hL hs => by
        obtain ⟨hS', hW'⟩ := outputLoaderStep_cases hL.1 hs
        refine ⟨hW', ?_⟩
        rcases hS' with h' | ⟨b, ps, vs, reads, height, hlen, hd, h'⟩ <;> rw [h']
        · exact hL.2
        · exact hI _ b ps vs reads height hlen hd hL.2)
    schedule ⟨hW, hS⟩ h).2

end Runs

theorem loadGovernanceDataByOutput_cases {params : Params} {env : Env} {chain : List Block}
    {cores : Nat} {schedule : List Nat} {ok : Bool} {S : GovState}
    (h : loadGovernanceDataByOutput params env chain cores schedule = .ok (some (ok, S))) :
    S = GovState.empty ∨ ∃ L : OutputLoader,
      schedule.foldlM (outputLoaderStep params env (chainView env chain) chain)
          { store := GovState.empty,
            workers := (List.range cores).map fun k => (sliceWorker params.governanceBlock.val
              (chain.length - 1) ((chain.length - 1 - params.governanceBlock.val).tdiv cores)
              cores k).toOutput } = .ok L ∧
        (S = L.store ∨ S = ⟨L.store.proposals,
          pruneSpent env (chainView env chain) L.store.votes.values L.store.votes⟩) := by
  simp only [loadGovernanceDataByOutput] at h
  split_ifs at h
  · cases h; exact .inl rfl
  · obtain ⟨-, -, h⟩ := except_bind_ok h
    obtain ⟨slice, hs, h⟩ := except_bind_ok h
    obtain ⟨hc, rfl⟩ := cDiv_ok hs
    obtain ⟨L, hL, h⟩ := except_bind_ok h
    refine .inr ⟨L, hL, ?_⟩
    split_ifs at h
    · cases h
    · cases h; exact .inl rfl
    · obtain ⟨-, -, h⟩ := except_bind_ok h
      obtain ⟨-, -, h⟩ := except_bind_ok h
      obtain ⟨slice', hs', h⟩ := except_bind_ok h
      obtain ⟨-, rfl⟩ := cDiv_ok hs'
      cases h
      rw [foldl_voteSlice _ _ _ (Nat.pos_of_ne_zero (by exact_mod_cast hc))]
      exact .inr rfl

theorem sliceWorkers_toOutput_extracted (params : Params) (env : Env) (view : CoinView)
    (gb h slice : Int) (cores : Nat) :
    ∀ w ∈ (List.range cores).map fun k => (sliceWorker gb h slice cores k).toOutput,
      w.Extracted params env view := by
  intro w hw b os acc hp
  obtain ⟨k, -, rfl⟩ := List.mem_map.mp hw
  cases hp

/-- A property of the store that the empty store has, that every merge of sets extracted
with a read per output against the loaded chain keeps, and that the erasing pass keeps,
holds of every store the loader returns. -/
theorem loadGovernanceDataByOutput_inv {params : Params} {env : Env} {chain : List Block}
    {cores : Nat} {schedule : List Nat} {ok : Bool} {S : GovState} {I : GovState → Prop}
    (h0 : I GovState.empty)
    (hI : ∀ S b ps vs reads height, reads.length = (blockOutputs b).length →
      dataFromBlockReads params env (chainView env chain) reads b (some height) = .ok (ps, vs) →
        I S → I (connectData env S ps vs b))
    (hP : ∀ S, I S → I ⟨S.proposals, pruneSpent env (chainView env chain) S.votes.values S.votes⟩)
    (h : loadGovernanceDataByOutput params env chain cores schedule = .ok (some (ok, S))) :
    I S := by
  rcases loadGovernanceDataByOutput_cases h with rfl | ⟨L, hL, hS⟩
  · exact h0
  have hrun : I L.store := foldlM_outputLoaderStep_store hI schedule
    (sliceWorkers_toOutput_extracted params env _ _ _ _ cores) h0 hL
  rcases hS with rfl | rfl
  · exact hrun
  · exact hP _ hrun

/-- **Whatever the interleaving**, down to one output at a time, the store
`loadGovernanceData` returns is reached by steps from the empty store, so every proposal and
every vote in it sits under its own hash. -/
theorem loadGovernanceDataByOutput_reachable {params : Params} {env : Env} {chain : List Block}
    {cores : Nat} {schedule : List Nat} {ok : Bool} {S : GovState}
    (h : loadGovernanceDataByOutput params env chain cores schedule = .ok (some (ok, S))) :
    Reachable params env S ∧ WellKeyed env S :=
  have hS : Reachable params env S := loadGovernanceDataByOutput_inv .refl
    (fun _ b _ _ reads height hlen hd hS => hS.tail (.connect _ b height reads hlen hd))
    (fun S hS => hS.tail (.prune S _)) h
  ⟨hS, hS.wellKeyed⟩

set_option maxRecDepth 10000 in
/-- Two cores over `loaderChain`: worker 1 starts the vote's block, worker 0 then connects
the proposal's block, and the vote's cutoff check, read after that merge, finds the
proposal. -/
theorem loaderChain_by_output_reachable :
    ∃ S, loadGovernanceDataByOutput sampleParams sampleEnv loaderChain 2
        [1, 0, 0, 0, 1, 1, 1, 1, 1, 0] = .ok (some (true, S)) ∧ S.getVotes ≠ [] ∧
      Reachable sampleParams sampleEnv S ∧ WellKeyed sampleEnv S :=
  have h : loadGovernanceDataByOutput sampleParams sampleEnv loaderChain 2
      [1, 0, 0, 0, 1, 1, 1, 1, 1, 0] =
      .ok (some (true, ⟨StdMap.empty.insert (sampleProposal.getHash sampleEnv)
          { sampleProposal with blockNumber := 1 },
        StdMap.empty.insert ((sampleVote voteYes).getHash sampleEnv)
          (sampleVoteRead 200 voteYes 2)⟩)) := by decide
  ⟨_, h, by decide, loadGovernanceDataByOutput_reachable h⟩

/-- **Whatever the interleaving**, every vote of the store `loadGovernanceData` returns is on
a proposal of that store and on a coin of the chain it loaded. -/
theorem loadGovernanceDataByOutput_consistent {params : Params} {env : Env}
    {chain : List Block} {cores : Nat} {schedule : List Nat} {ok : Bool} {S : GovState}
    (h : loadGovernanceDataByOutput params env chain cores schedule = .ok (some (ok, S))) :
    ∀ v ∈ S.getVotes, S.hasProposal v.proposal = true ∧
      (chainView env chain).haveCoin v.utxo = true := by
  have hS : Consistent (chainView env chain) S := loadGovernanceDataByOutput_inv
    (consistent_empty _)
    (fun _ _ _ _ _ _ _ hd hS => hS.connect
      (fun v hv => (dataFromBlockReads_kept hd v hv).elim fun _ hk => hk.haveCoin)
      fun _ h _ => h)
    (fun _ hS => hS.prune _) h
  exact fun v hv => ⟨hS.proposal v hv, hS.coin v hv⟩

set_option maxRecDepth 10000 in
theorem loaderChain_by_output_consistent :
    ∃ S, loadGovernanceDataByOutput sampleParams sampleEnv loaderChain 2
        [1, 0, 0, 0, 1, 1, 1, 1, 1, 0] = .ok (some (true, S)) ∧ S.getVotes ≠ [] ∧
      ∀ v ∈ S.getVotes, S.hasProposal v.proposal = true ∧
        (chainView sampleEnv loaderChain).haveCoin v.utxo = true :=
  have h : loadGovernanceDataByOutput sampleParams sampleEnv loaderChain 2
      [1, 0, 0, 0, 1, 1, 1, 1, 1, 0] =
      .ok (some (true, ⟨StdMap.empty.insert (sampleProposal.getHash sampleEnv)
          { sampleProposal with blockNumber := 1 },
        StdMap.empty.insert ((sampleVote voteYes).getHash sampleEnv)
          (sampleVoteRead 200 voteYes 2)⟩)) := by decide
  ⟨_, h, by decide, loadGovernanceDataByOutput_consistent h⟩

/-! ## A block-atomic schedule is a schedule here -/

section Refines

variable {params : Params} {env : Env} {view : CoinView} {chain : List Block}

/-- A worker that reads the rest of its block's outputs in a row, no other worker between,
reads them all against the store of that moment. -/
theorem foldlM_replicate_reads {k : Nat} {next stop : Int} {done : Bool} {b : Block} :
    ∀ (os : List (Transaction × Nat × TxOut)) (acc : List Proposal × List Vote)
      (F : OutputLoader), F.workers[k]? = some ⟨next, stop, some (b, os, acc), done⟩ →
      (List.replicate os.length k).foldlM (outputLoaderStep params env view chain) F =
        (os.foldlM (dataFromOutput params env view F.store.proposals b
          (some (SInt.wrap 32 next))) acc).map fun acc' =>
            { F with workers := F.workers.set k ⟨next, stop, some (b, [], acc'), done⟩ }
  | [], acc, F, hk => by simp [set_of_getElem? hk]
  | o :: os, acc, F, hk => by
    have hlt := (List.getElem?_eq_some_iff.mp hk).1
    rw [List.length_cons, List.replicate_succ, List.foldlM_cons, List.foldlM_cons]
    cases hd : dataFromOutput params env view F.store.proposals b (some (SInt.wrap 32 next))
      acc o with
    | error e => simp [outputLoaderStep, hk, outputWorkerStep, hd]; rfl
    | ok acc₁ =>
      have hs : outputLoaderStep params env view chain F k =
          .ok { F with workers := F.workers.set k ⟨next, stop, some (b, os, acc₁), done⟩ } := by
        simp [outputLoaderStep, hk, outputWorkerStep, hd]
      rw [hs, except_ok_bind, except_ok_bind,
        foldlM_replicate_reads os acc₁ _ (List.getElem?_set_self hlt)]
      simp [List.set_set]

/-- A worker's action that is the same action here is one loader action here. -/
theorem loaderStep_refines_of_worker {L : Loader} {k : Nat} {w : Worker}
    (hk : L.workers[k]? = some w)
    (hw : outputWorkerStep params env view chain L.store w.toOutput =
      (workerStep params env view chain L.store w).map fun r => (r.1, r.2.1.toOutput, r.2.2)) :
    [k].foldlM (outputLoaderStep params env view chain) L.toOutput =
      (loaderStep params env view chain L k).map Loader.toOutput := by
  have hk' : L.toOutput.workers[k]? = some w.toOutput := by simp [Loader.toOutput, hk]
  have hS : L.toOutput.store = L.store := rfl
  simp only [List.foldlM_cons, List.foldlM_nil, outputLoaderStep, hk', hS, hw, loaderStep, hk]
  cases workerStep params env view chain L.store w with
  | error e => rfl
  | ok r => simp [Loader.toOutput, List.map_set]

/-- One action of `loadGovernanceData`'s first pass is a run of actions here: the same action,
or, for an extraction, the start of the block and a read of each of its outputs. -/
theorem loaderStep_refines (L : Loader) (k : Nat) :
    ∃ ks : List Nat, ks.foldlM (outputLoaderStep params env view chain) L.toOutput =
      (loaderStep params env view chain L k).map Loader.toOutput := by
  cases hk : L.workers[k]? with
  | none => exact ⟨[], by simp [loaderStep, hk]⟩
  | some w =>
    obtain ⟨next, stop, pending, done⟩ := w
    have hone := @loaderStep_refines_of_worker params env view chain L k _ hk
    cases pending with
    | some p => exact ⟨[k], hone (by simp [workerStep, outputWorkerStep, Worker.toOutput])⟩
    | none =>
      cases done with
      | true => exact ⟨[k], hone (by simp [workerStep, outputWorkerStep, Worker.toOutput])⟩
      | false =>
        by_cases hns : next < stop
        · cases hb : chainAt chain next with
          | none =>
            exact ⟨[k], hone (by simp [workerStep, outputWorkerStep, Worker.toOutput, hns, hb])⟩
          | some b =>
            refine ⟨k :: List.replicate (blockOutputs b).length k, ?_⟩
            have hk' : L.toOutput.workers[k]? = some ⟨next, stop, none, false⟩ := by
              simp [Loader.toOutput, hk, Worker.toOutput]
            have hs : outputLoaderStep params env view chain L.toOutput k =
                .ok { L.toOutput with workers := (L.toOutput.workers.set k
                  ⟨next, stop, some (b, blockOutputs b, [], []), false⟩) } := by
              simp [outputLoaderStep, hk', outputWorkerStep, hns, hb]
            rw [List.foldlM_cons, hs, except_ok_bind,
              foldlM_replicate_reads _ _ _ (List.getElem?_set_self (List.getElem?_eq_some_iff.mp hk').1)]
            cases hr : (blockOutputs b).foldlM (dataFromOutput params env view L.store.proposals b
                (some (SInt.wrap 32 next))) ([], []) with
            | error e =>
              simp [loaderStep, hk, workerStep, hns, hb, dataFromBlock_eq_foldlM, hr, Loader.toOutput]
              rfl
            | ok acc =>
              simp [loaderStep, hk, workerStep, hns, hb, dataFromBlock_eq_foldlM, hr,
                Loader.toOutput, Worker.toOutput, List.map_set, List.set_set]
        · exact ⟨[k], hone (by simp [workerStep, outputWorkerStep, Worker.toOutput, hns])⟩

/-- A schedule of `loadGovernanceData`'s first pass is a schedule here that ends in the same
state, or throws the same. -/
theorem foldlM_loaderStep_refines :
    ∀ (schedule : List Nat) (L : Loader), ∃ ks : List Nat,
      ks.foldlM (outputLoaderStep params env view chain) L.toOutput =
        (schedule.foldlM (loaderStep params env view chain) L).map Loader.toOutput
  | [], _ => ⟨[], rfl⟩
  | k :: ks, L => by
    obtain ⟨ks₁, h₁⟩ := @loaderStep_refines params env view chain L k
    rw [List.foldlM_cons]
    cases hs : loaderStep params env view chain L k with
    | error e => exact ⟨ks₁, by rw [h₁, hs]; rfl⟩
    | ok L₁ =>
      obtain ⟨ks₂, h₂⟩ := foldlM_loaderStep_refines ks L₁
      refine ⟨ks₁ ++ ks₂, ?_⟩
      rw [List.foldlM_append, h₁, hs, except_map_ok_eq, except_ok_bind, except_ok_bind, h₂]

end Refines

/-- **The block-atomic loader refines this one.** Whatever the schedule of
`loadGovernanceData`, whose extraction of a block is one action, some schedule of one output
at a time makes the loader return the same, errors included. -/
theorem loadGovernanceData_refines (params : Params) (env : Env) (chain : List Block)
    (cores : Nat) (schedule : List Nat) :
    ∃ schedule', loadGovernanceDataByOutput params env chain cores schedule' =
      loadGovernanceData params env chain cores schedule := by
  simp only [loadGovernanceDataByOutput, loadGovernanceData]
  split_ifs
  · exact ⟨[], rfl⟩
  cases cDiv (chain.length - 1 - params.governanceBlock.val : Int) cores with
  | error e => exact ⟨[], rfl⟩
  | ok slice =>
    obtain ⟨ks, hks⟩ := @foldlM_loaderStep_refines params env (chainView env chain) chain schedule
      { store := GovState.empty,
        workers := (List.range cores).map (sliceWorker params.governanceBlock.val
          (chain.length - 1) slice cores) }
    refine ⟨ks, ?_⟩
    have h0 : ({ store := GovState.empty, workers := ((List.range cores).map fun k =>
        (sliceWorker params.governanceBlock.val (chain.length - 1) slice cores k).toOutput) } :
          OutputLoader) = Loader.toOutput ⟨GovState.empty, (List.range cores).map
            (sliceWorker params.governanceBlock.val (chain.length - 1) slice cores), false, []⟩ := by
      simp [Loader.toOutput]
    simp only [except_pure, except_ok_bind, h0, hks]
    cases schedule.foldlM (loaderStep params env (chainView env chain) chain) _ with
    | error e => rfl
    | ok L => simp [Loader.toOutput, Worker.toOutput]

end Gov
