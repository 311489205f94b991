import BlocknetGovernance.Reorg

/-!
# `Governance::loadGovernanceData`

At startup the loader splits the heights `governanceBlock..H` of the chain into one slice
per core and starts a thread per slice, each calling `BlockConnected` on its blocks in
height order; after joining them it erases, again over slices, every stored vote whose
output is spent.

Here a thread's `BlockConnected` has two atomic parts: the extraction, which reads the
stored proposals (through `meetsCutoff`) outside the store mutex, and the critical section
that merges. A `schedule` lists the worker each atomic action belongs to. `meetsCutoff` takes
the mutex once per vote, so the code interleaves more finely than this; `Interleaving` has an
action per output and shows that every schedule here is one there
(`loadGovernanceData_refines`). When the workers run one after another, each until it
returns, the loader is the sequential reference it is meant to equal: `BlockConnected` on
every block in height order, then the erasing pass (`loadGovernanceData_in_turn`);
`loadGovernanceData_schedule_drops_vote` is a schedule on two cores that interleaves them and
ends in another store.

The erasing pass runs its workers one after another over their slices of the snapshot: they
only erase, and which votes they erase does not depend on their order (`find?_pruneSpent`).

Both passes divide by the core count, which `GetNumCores()` may give as 0
(`loadGovernanceData_zero_cores`); on at least one core the workers' ranges partition the
heights and the snapshot (`loadGovernanceData_slices`).
-/

namespace Gov

/-- Why a worker stops early. -/
inductive LoadFailure
  /-- "Failed to read block index for block %d" -/
  | blockIndex (height : Int)
  deriving DecidableEq, Repr

/-- A worker of the first pass: the heights `[next, stop)` it has left, the block and sets
its `BlockConnected` extracted and has not merged yet, and whether it has returned. -/
structure Worker where
  next : Int
  stop : Int
  pending : Option (Block × List Proposal × List Vote) := none
  done : Bool := false
  deriving DecidableEq

/-- `a / b` on `int`: the quotient truncated toward zero, undefined for `b = 0`. -/
def cDiv (a b : Int) : Except Failure Int :=
  if b = 0 then throw .divisionByZero else pure (a.tdiv b)

theorem cDiv_ok {a b q : Int} (h : cDiv a b = .ok q) : b ≠ 0 ∧ q = a.tdiv b := by
  unfold cDiv at h
  split_ifs at h with hb
  exact ⟨hb, (Except.ok.inj h).symm⟩

/-- The range `[start, end)` of worker `k` of `cores` in either pass: `slice` items from
`base + k*slice`, and for the last worker up to `last`. -/
def sliceRange (base last slice : Int) (cores k : Nat) : Int × Int :=
  let start := base + k * slice
  (start, if k = cores - 1 then last else start + slice)

/-- Worker `k` of the first pass over the heights `governanceBlock..blockHeight`, where
`slice` is the block count over the core count; the last worker runs to the tip. -/
def sliceWorker (governanceBlock blockHeight slice : Int) (cores k : Nat) : Worker :=
  let r := sliceRange governanceBlock (blockHeight + 1) slice cores k
  { next := r.1, stop := r.2 }

/-- The votes `tmpvotes[i]` worker `k` of the second pass reads, `i` in its range. -/
def voteSlice (tmpvotes : List Vote) (slice : Int) (cores k : Nat) : List Vote :=
  let r := sliceRange 0 tmpvotes.length slice cores k
  (tmpvotes.drop r.1.toNat).take (r.2 - r.1).toNat

/-- `chain[height]`: the block at that height, none outside the chain. -/
def chainAt (chain : List Block) (height : Int) : Option Block :=
  if 0 ≤ height then chain[height.toNat]? else none

/-- The shared state of the first pass. -/
structure Loader where
  store : GovState
  workers : List Worker
  failed : Bool := false
  failReason : List LoadFailure := []

/-- One atomic action of a worker: the critical section merging what it extracted, or the
extraction for its next block, which reads the proposals stored at that moment, or its
return. -/
def workerStep (params : Params) (env : Env) (view : CoinView) (chain : List Block)
    (S : GovState) (w : Worker) : Except Failure (GovState × Worker × Option LoadFailure) :=
  match w.pending with
  | some (b, ps, vs) =>
    pure (connectData env S ps vs b, { w with pending := none, next := w.next + 1 }, none)
  | none =>
    if w.done then pure (S, w, none)
    else if w.next < w.stop then
      match chainAt chain w.next with
      | none => pure (S, { w with done := true }, some (.blockIndex w.next))
      | some b => do
        let (ps, vs) ← dataFromBlock params env view S.proposals b (some (SInt.wrap 32 w.next))
        pure (S, { w with pending := some (b, ps, vs) }, none)
    else pure (S, { w with done := true }, none)

/-- The action of worker `k` on the shared state; an index past the workers does nothing. -/
def loaderStep (params : Params) (env : Env) (view : CoinView) (chain : List Block)
    (L : Loader) (k : Nat) : Except Failure Loader :=
  match L.workers[k]? with
  | none => pure L
  | some w => do
    let (S, w', failure) ← workerStep params env view chain L.store w
    pure { L with
      store := S, workers := L.workers.set k w', failed := L.failed || failure.isSome,
      failReason := L.failReason ++ failure.toList }

/-- `loadGovernanceData(chain, ...)` on `cores` cores, the first pass interleaved by
`schedule`; none when the schedule ends before every worker has returned. -/
def loadGovernanceData (params : Params) (env : Env) (chain : List Block) (cores : Nat)
    (schedule : List Nat) : Except Failure (Option (Bool × GovState)) := do
  let blockHeight : Int := chain.length - 1
  if blockHeight = 0 ∨ blockHeight < params.governanceBlock.val then
    return some (true, GovState.empty)
  let view := chainView env chain
  let totalBlocks := blockHeight - params.governanceBlock.val
  let slice ← cDiv totalBlocks cores
  let L₀ : Loader :=
    { store := GovState.empty,
      workers :=
        (List.range cores).map (sliceWorker params.governanceBlock.val blockHeight slice cores) }
  let L ← schedule.foldlM (loaderStep params env view chain) L₀
  if !L.workers.all (·.done) then return none
  let S := L.store
  if S.votes.values.isEmpty || L.failed then return some (!L.failed, S)
  let tmpvotes := S.votes.values
  let slice ← cDiv tmpvotes.length cores
  let votes := (List.range cores).foldl
    (fun votes k => pruneSpent env view (voteSlice tmpvotes slice cores k) votes) S.votes
  return some (!L.failed, ⟨S.proposals, votes⟩)

/-! ## The erasing pass -/

theorem find?_pruneSpent (env : Env) (view : CoinView) (k : Nat) :
    ∀ (snapshot : List Vote) (m : StdMap Vote),
      (pruneSpent env view snapshot m).find? k =
        if ∃ v ∈ snapshot, Vote.isUTXOSpent view v.utxo false = true ∧ v.getHash env = k then none
        else m.find? k
  | [], m => by simp [pruneSpent]
  | v :: vs, m => by
    have hcons : pruneSpent env view (v :: vs) m = pruneSpent env view vs
        (if Vote.isUTXOSpent view v.utxo false then m.erase (v.getHash env) else m) := rfl
    rw [hcons, find?_pruneSpent env view k vs]
    by_cases hs : Vote.isUTXOSpent view v.utxo false = true <;>
      by_cases hk : v.getHash env = k <;> simp [hs, hk]

/-! ## The slices partition the work

Both passes cut their work with `sliceRange`. Whatever a range stands for (heights, or the
votes at the snapshot's indices), when two adjacent ranges together stand for their union,
the workers' ranges in worker order make the whole range: on at least one core each height
and each vote of the snapshot goes to exactly one worker, and none lies beyond. -/

section Slices

variable {α : Type} (F : Int → Int → List α) {base : Int}

theorem flatten_regular_slices
    (hF : ∀ a b c, base ≤ a → a ≤ b → b ≤ c → F a b ++ F b c = F a c) {s : Int} (hs : 0 ≤ s) :
    ∀ m : Nat, ((List.range m).map fun k : Nat => F (base + k * s) (base + k * s + s)).flatten =
      F base (base + m * s)
  | 0 => by
    have h := hF base base base le_rfl le_rfl le_rfl
    simpa using (List.append_left_eq_self.mp h).symm
  | m + 1 => by
    have hm : 0 ≤ (m : Int) * s := Int.mul_nonneg (Int.natCast_nonneg m) hs
    rw [List.range_succ, List.map_append, List.flatten_append, flatten_regular_slices hF hs m]
    simp only [List.map_cons, List.map_nil, List.flatten_cons, List.flatten_nil, List.append_nil]
    rw [hF _ _ _ le_rfl (by omega) (by omega)]
    simp only [Nat.cast_succ, Int.add_mul, Int.one_mul, Int.add_assoc]

theorem flatten_sliceRange
    (hF : ∀ a b c, base ≤ a → a ≤ b → b ≤ c → F a b ++ F b c = F a c) (last : Int) {s : Int}
    {cores : Nat} (hc : 0 < cores) (hs : 0 ≤ s) (hle : base + (cores - 1 : Nat) * s ≤ last) :
    ((List.range cores).map fun k =>
        F (sliceRange base last s cores k).1 (sliceRange base last s cores k).2).flatten =
      F base last := by
  obtain ⟨m, rfl⟩ : ∃ m, cores = m + 1 := ⟨cores - 1, by omega⟩
  have hreg : ∀ k ∈ List.range m, F (sliceRange base last s (m + 1) k).1
      (sliceRange base last s (m + 1) k).2 = F (base + k * s) (base + k * s + s) :=
    fun k hk => by simp [sliceRange, (List.mem_range.mp hk).ne]
  have hm : 0 ≤ (m : Int) * s := Int.mul_nonneg (Int.natCast_nonneg m) hs
  rw [List.range_succ, List.map_append, List.flatten_append, List.map_congr_left hreg,
    flatten_regular_slices F hF hs m]
  simp only [Nat.add_sub_cancel] at hle
  simpa [sliceRange] using hF _ _ _ le_rfl (by omega) hle

end Slices

/-- The heights `[a, b)` in increasing order. -/
def heights (a b : Int) : List Int := (List.range (b - a).toNat).map fun k : Nat => a + k

theorem heights_append {a b c : Int} (hab : a ≤ b) (hbc : b ≤ c) :
    heights a b ++ heights b c = heights a c := by
  have h : (c - a).toNat = (b - a).toNat + (c - b).toNat := by omega
  simp only [heights, h, List.range_add, List.map_append, List.map_map]
  congr 1
  exact List.map_congr_left fun x _ => by simp only [Function.comp_apply]; omega

theorem take_drop_append {α : Type} (l : List α) {a b c : Int} (ha : 0 ≤ a) (hab : a ≤ b)
    (hbc : b ≤ c) :
    (l.drop a.toNat).take (b - a).toNat ++ (l.drop b.toNat).take (c - b).toNat =
      (l.drop a.toNat).take (c - a).toNat := by
  have h : (c - a).toNat = (b - a).toNat + (c - b).toNat := by omega
  rw [h, List.take_add, List.drop_drop]
  congr 3
  omega

theorem tdiv_slice {t : Int} {cores : Nat} (ht : 0 ≤ t) (hc : 0 < cores) :
    0 ≤ t.tdiv cores ∧ ((cores - 1 : Nat) : Int) * t.tdiv cores ≤ t := by
  rw [Int.tdiv_eq_ediv ht (Int.natCast_nonneg _)]
  have hq := Int.ediv_nonneg ht (Int.natCast_nonneg cores)
  have hle := Int.ediv_mul_le t (b := cores) (by omega)
  refine ⟨hq, ?_⟩
  have h : ((cores - 1 : Nat) : Int) * (t / cores) = t / cores * cores - t / cores := by
    rw [Nat.cast_sub hc, Nat.cast_one, Int.sub_mul, Int.one_mul, Int.mul_comm]
  omega

theorem flatten_heights_sliceWorker {governanceBlock blockHeight : Int} {cores : Nat}
    (hc : 0 < cores) (hgb : governanceBlock ≤ blockHeight) :
    ((List.range cores).map fun k =>
        let w := sliceWorker governanceBlock blockHeight
          ((blockHeight - governanceBlock).tdiv cores) cores k
        heights w.next w.stop).flatten = heights governanceBlock (blockHeight + 1) := by
  obtain ⟨hs, hle⟩ := tdiv_slice (sub_nonneg.mpr hgb) hc
  exact flatten_sliceRange heights (fun a b c _ => heights_append) (blockHeight + 1) hc hs
    (by omega)

theorem flatten_voteSlice (tmpvotes : List Vote) {cores : Nat} (hc : 0 < cores) :
    ((List.range cores).map
      (voteSlice tmpvotes ((tmpvotes.length : Int).tdiv cores) cores)).flatten = tmpvotes := by
  obtain ⟨hs, hle⟩ := tdiv_slice (Int.natCast_nonneg tmpvotes.length) hc
  have h := flatten_sliceRange (fun a b => (tmpvotes.drop a.toNat).take (b - a).toNat)
    (fun a b c ha => take_drop_append tmpvotes ha) tmpvotes.length hc hs (by omega)
  simpa using h

/-- **The loader's slices partition its work.** On at least one core, the heights the first
pass's workers read, in worker order, are `governanceBlock..blockHeight` each once, and the
votes the second pass's workers read, in worker order, are the snapshot `tmpvotes`. -/
theorem loadGovernanceData_slices (governanceBlock blockHeight : Int) (tmpvotes : List Vote)
    {cores : Nat} (hc : 0 < cores) (hgb : governanceBlock ≤ blockHeight) :
    ((List.range cores).map fun k =>
        let w := sliceWorker governanceBlock blockHeight
          ((blockHeight - governanceBlock).tdiv cores) cores k
        heights w.next w.stop).flatten = heights governanceBlock (blockHeight + 1) ∧
      ((List.range cores).map
        (voteSlice tmpvotes ((tmpvotes.length : Int).tdiv cores) cores)).flatten = tmpvotes :=
  ⟨flatten_heights_sliceWorker hc hgb, flatten_voteSlice tmpvotes hc⟩

/-- Two cores over the heights `1..3` and a snapshot of three votes: worker 0 reads height 1
and the first vote, worker 1 the rest. -/
theorem loaderChain_slices :
    0 < 2 ∧ (1 : Int) ≤ 3 ∧
      ((List.range 2).map fun k =>
          let w := sliceWorker 1 3 ((3 - 1 : Int).tdiv (2 : Nat)) 2 k
          heights w.next w.stop).flatten = heights 1 (3 + 1) ∧
        ((List.range 2).map (voteSlice [sampleVote voteYes, sampleVote voteNo, sampleVote voteAbstain]
          (([sampleVote voteYes, sampleVote voteNo, sampleVote voteAbstain].length : Int).tdiv
            (2 : Nat)) 2)).flatten = [sampleVote voteYes, sampleVote voteNo, sampleVote voteAbstain] :=
  ⟨by decide, by decide, loadGovernanceData_slices 1 3 _ (by decide) (by decide)⟩

theorem foldl_pruneSpent (env : Env) (view : CoinView) :
    ∀ (slices : List (List Vote)) (m : StdMap Vote),
      slices.foldl (fun m vs => pruneSpent env view vs m) m = pruneSpent env view slices.flatten m
  | [], _ => rfl
  | vs :: rest, m => by
    rw [List.foldl_cons, foldl_pruneSpent env view rest, List.flatten_cons]
    simp only [pruneSpent, List.foldl_append]

theorem foldl_voteSlice (env : Env) (view : CoinView) (tmpvotes : List Vote) {cores : Nat}
    (hc : 0 < cores) (m : StdMap Vote) :
    (List.range cores).foldl (fun votes k => pruneSpent env view
      (voteSlice tmpvotes ((tmpvotes.length : Int).tdiv cores) cores k) votes) m =
      pruneSpent env view tmpvotes m := by
  have h := List.foldl_map (voteSlice tmpvotes ((tmpvotes.length : Int).tdiv cores) cores)
    (fun m vs => pruneSpent env view vs m) (List.range cores) m
  rw [foldl_pruneSpent, flatten_voteSlice tmpvotes hc] at h
  exact h.symm

/-- **`GetNumCores()` returning 0.** `std::thread::hardware_concurrency` may return 0, and
then, whenever there are blocks to load, `totalBlocks / cores` divides by zero. -/
theorem loadGovernanceData_zero_cores (params : Params) (env : Env) (chain : List Block)
    (schedule : List Nat) :
    loadGovernanceData params env chain 0 schedule =
      if (chain.length - 1 : Int) = 0 ∨ (chain.length - 1 : Int) < params.governanceBlock.val
      then .ok (some (true, .empty)) else .error .divisionByZero := by
  simp only [loadGovernanceData]
  split_ifs <;> rfl

/-! ## Every schedule is a run of steps -/

/-- What a worker's pending sets came from: an extraction of its block, against some store's
proposals, at some height. -/
def Worker.Extracted (params : Params) (env : Env) (view : CoinView) (w : Worker) : Prop :=
  ∀ b ps vs, w.pending = some (b, ps, vs) →
    ∃ read height, dataFromBlock params env view read b (some height) = .ok (ps, vs)

section Runs

variable {params : Params} {env : Env} {view : CoinView} {chain : List Block}

end Runs

/-- The chain of `sampleEvents` and an empty block: `sampleCoin` at height 0, the proposal at
1, the yes vote at 2. With `governanceBlock = 1` and two cores, worker 0 gets height 1 and
worker 1 heights 2 and 3. -/
def loaderChain : List Block :=
  [coinBlock, proposalBlock, voteBlock 200 voteYes, sampleBlock 300 []]

set_option maxRecDepth 10000 in
/-- On one core the loader stores the vote. On two cores, when worker 1 extracts the vote's
block before worker 0 has merged the proposal's block, the vote's cutoff check finds no
proposal and the vote is dropped. -/
theorem loadGovernanceData_schedule_drops_vote :
    (loadGovernanceData sampleParams sampleEnv loaderChain 1 (List.replicate 7 0)).map
        (Option.map fun r => (r.1, r.2.getVotes.map (·.proposal))) =
      .ok (some (true, [sampleProposal.getHash sampleEnv])) ∧
    (loadGovernanceData sampleParams sampleEnv loaderChain 2 [1, 1, 0, 0, 0, 1, 1, 1]).map
        (Option.map fun r => (r.1, r.2.getVotes.map (·.proposal))) =
      .ok (some (true, [])) := by
  decide

/-! ## Workers that run one after another

When the schedule runs the workers one at a time, each until it returns, the first pass is
one thread connecting the blocks in height order: the loader returns what `BlockConnected`
on every block from `governanceBlock` to the tip computes, followed by the erasing pass. -/

/-- The actions worker `w` takes until it returns: an extraction and a merge per height it
has left, and the return. -/
def Worker.actions (w : Worker) : Nat := 2 * (w.stop - w.next).toNat + 1

/-- `BlockConnected` on the block `hb.2` at height `hb.1`. -/
def connectEnum (params : Params) (env : Env) (view : CoinView) (S : GovState)
    (hb : Nat × Block) : Except Failure GovState :=
  blockConnected params env view S hb.2 (SInt.wrap 32 hb.1)

/-- The sequential reference of the loader: `BlockConnected` on every block of the chain
from height `start` to the tip, in height order and against the chain state `view`, on a new
`Governance`, then the erasing pass over the votes. -/
def connectChain (params : Params) (env : Env) (view : CoinView) (chain : List Block)
    (start : Nat) : Except Failure GovState := do
  let S ← (chain.enum.drop start).foldlM (connectEnum params env view) GovState.empty
  pure ⟨S.proposals, pruneSpent env view S.votes.values S.votes⟩

theorem set_of_getElem? {α : Type} {l : List α} {k : Nat} {a : α} (h : l[k]? = some a) :
    l.set k a = l :=
  List.ext_getElem? fun j => by
    rw [List.getElem?_set]
    split_ifs with hj hk
    · subst hj; exact h.symm
    · subst hj; exact absurd (List.getElem?_eq_some_iff.mp h).1 hk
    · rfl

section Sequential

variable {params : Params} {env : Env} {view : CoinView} {chain : List Block}

theorem foldlM_replicate_returned {L : Loader} {k : Nat} {w : Worker}
    (hk : L.workers[k]? = some w) (hp : w.pending = none) (hd : w.done = true) :
    ∀ m, (List.replicate m k).foldlM (loaderStep params env view chain) L = .ok L
  | 0 => rfl
  | m + 1 => by
    have hs : loaderStep params env view chain L k = .ok L := by
      simp [loaderStep, hk, workerStep, hp, hd, set_of_getElem? hk]
    rw [List.replicate_succ, List.foldlM_cons, hs]
    exact foldlM_replicate_returned hk hp hd m

/-- Worker `k` at the heights `[i, i + d)`, run without interruption until it returns,
merges the blocks of its heights in height order, as one thread calling `BlockConnected` on
each. -/
theorem foldlM_replicate_worker {k : Nat} :
    ∀ (d i m : Nat) (L : Loader), L.workers[k]? = some ⟨i, (i + d : Nat), none, false⟩ →
      i + d ≤ chain.length → 2 * d + 1 ≤ m →
      (List.replicate m k).foldlM (loaderStep params env view chain) L =
        (((chain.enum.drop i).take d).foldlM (connectEnum params env view) L.store).map
          fun S => { L with
            store := S
            workers := L.workers.set k ⟨(i + d : Nat), (i + d : Nat), none, true⟩ }
  | 0, i, m + 1, L, hk, _, _ => by
    have hs : loaderStep params env view chain L k =
        .ok { L with workers := L.workers.set k ⟨i, i, none, true⟩ } := by
      simp [loaderStep, hk, workerStep]
    have hk' := List.getElem?_set_self (a := (⟨i, i, none, true⟩ : Worker))
      (List.getElem?_eq_some_iff.mp hk).1
    rw [List.replicate_succ, List.foldlM_cons, hs]
    exact (foldlM_replicate_returned hk' rfl rfl m).trans rfl
  | d + 1, i, m + 2, L, hk, hlen, hm => by
    have hi : i < chain.length := by omega
    have hlt : k < L.workers.length := (List.getElem?_eq_some_iff.mp hk).1
    have hslice : (chain.enum.drop i).take (d + 1) =
        (i, chain[i]) :: (chain.enum.drop (i + 1)).take d := by
      rw [List.drop_eq_getElem_cons (by simpa using hi), List.take_succ_cons, List.getElem_enum]
    rw [hslice, List.foldlM_cons]
    cases hd : dataFromBlock params env view L.store.proposals chain[i] (some (SInt.wrap 32 i)) with
    | error e =>
      have hs : loaderStep params env view chain L k = .error e := by
        simp [loaderStep, hk, workerStep, chainAt, hi, hd]; rfl
      have hc : connectEnum params env view L.store (i, chain[i]) = .error e := by
        simp [connectEnum, blockConnected, hd]; rfl
      rw [List.replicate_succ, List.foldlM_cons, hs, hc]
      rfl
    | ok r =>
      obtain ⟨ps, vs⟩ := r
      have hs : (List.replicate 2 k).foldlM (loaderStep params env view chain) L =
          .ok { L with
            store := connectData env L.store ps vs chain[i]
            workers := L.workers.set k ⟨(i + 1 : Nat), (i + 1 + d : Nat), none, false⟩ } := by
        simp [loaderStep, hk, workerStep, chainAt, hi, hd, List.getElem?_set_self hlt]
        rw [show (i : Int) + (d + 1) = i + 1 + d by omega]
      have hc : connectEnum params env view L.store (i, chain[i]) =
          .ok (connectData env L.store ps vs chain[i]) := by
        simp [connectEnum, blockConnected, hd]
      rw [show m + 2 = 2 + m by omega, List.replicate_add, List.foldlM_append, hs, hc]
      refine (foldlM_replicate_worker d (i + 1) m _ (List.getElem?_set_self hlt) (by omega)
        (by omega)).trans ?_
      simp [List.set_set, show i + 1 + d = i + (d + 1) by omega]

theorem set_map_range {α : Type} (f g : Nat → α) {n j : Nat} (h : ∀ k, k ≠ j → f k = g k) :
    ((List.range n).map f).set j (g j) = (List.range n).map g :=
  List.ext_getElem (by simp) fun k _ _ => by
    rw [List.getElem_set]
    split_ifs with hk
    · subst hk; simp
    · simp [h k (Ne.symm hk)]

/-- Workers `0..j-1` run in turn, each until it returns, merge the blocks of their ranges in
worker order, and leave themselves returned and the other workers untouched. -/
theorem foldlM_workers_in_turn (W : Nat → Worker) (n : Nat → Nat) {cores : Nat}
    (S₀ : GovState) (hW : ∀ k < cores, ∃ i d : Nat, W k = ⟨i, (i + d : Nat), none, false⟩ ∧
      i + d ≤ chain.length ∧ 2 * d + 1 ≤ n k) :
    ∀ j ≤ cores,
      ((List.range j).flatMap fun k => List.replicate (n k) k).foldlM
          (loaderStep params env view chain) { store := S₀, workers := (List.range cores).map W } =
        (((List.range j).flatMap fun k => (chain.enum.drop (W k).next.toNat).take
            ((W k).stop - (W k).next).toNat).foldlM (connectEnum params env view) S₀).map
          fun S => { store := S, workers := (List.range cores).map fun k =>
            if k < j then ⟨(W k).stop, (W k).stop, none, true⟩ else W k }
  | 0, _ => by simp
  | j + 1, hj => by
    obtain ⟨i, d, hWj, hlen, hn⟩ := hW j (by omega)
    rw [List.range_succ, List.flatMap_append, List.flatMap_append, List.foldlM_append,
      List.foldlM_append, foldlM_workers_in_turn W n S₀ hW j (by omega)]
    generalize ((List.range j).flatMap fun k => (chain.enum.drop (W k).next.toNat).take
      ((W k).stop - (W k).next).toNat).foldlM (connectEnum params env view) S₀ = r
    cases r with
    | error e => rfl
    | ok S =>
      have hk : ((List.range cores).map fun k =>
          if k < j then (⟨(W k).stop, (W k).stop, none, true⟩ : Worker) else W k)[j]? =
            some ⟨i, (i + d : Nat), none, false⟩ := by
        simp [List.getElem?_range (show j < cores by omega), hWj]
      have hfin : (⟨(i + d : Nat), (i + d : Nat), none, true⟩ : Worker) =
          (fun k => if k < j + 1 then (⟨(W k).stop, (W k).stop, none, true⟩ : Worker)
            else W k) j := by
        simp [hWj]
      have hd : (((i + d : Nat) : Int) - i).toNat = d := by omega
      simp only [except_map_ok_eq, except_ok_bind, List.flatMap_cons, List.flatMap_nil, List.append_nil]
      rw [foldlM_replicate_worker d i (n j) _ hk hlen hn, hWj]
      simp only [Int.toNat_natCast, hd]
      rw [hfin, set_map_range (fun k => if k < j then (⟨(W k).stop, (W k).stop, none, true⟩ : Worker)
        else W k) (fun k => if k < j + 1 then ⟨(W k).stop, (W k).stop, none, true⟩ else W k)
        fun k hk => by
          by_cases h : k < j
          · simp [h, Nat.lt_succ_of_lt h]
          · simp [h, show ¬ k < j + 1 by omega]]

theorem Worker.eq_mk {w : Worker} (hp : w.pending = none) (hd : w.done = false)
    (h0 : 0 ≤ w.next) (hle : w.next ≤ w.stop) :
    w = ⟨w.next.toNat, (w.next.toNat + (w.stop - w.next).toNat : Nat), none, false⟩ := by
  obtain ⟨next, stop, pending, done⟩ := w
  dsimp only at hp hd h0 hle ⊢
  subst hp hd
  congr 1 <;> omega

theorem sliceWorker_range {gb H : Int} {cores k : Nat} (hc : 0 < cores) (hgb : gb ≤ H)
    (hk : k < cores) :
    gb ≤ (sliceWorker gb H ((H - gb).tdiv cores) cores k).next ∧
      (sliceWorker gb H ((H - gb).tdiv cores) cores k).next ≤
        (sliceWorker gb H ((H - gb).tdiv cores) cores k).stop ∧
      (sliceWorker gb H ((H - gb).tdiv cores) cores k).stop ≤ H + 1 := by
  obtain ⟨hs, hle⟩ := tdiv_slice (sub_nonneg.mpr hgb) hc
  have h0 : 0 ≤ (k : Int) * (H - gb).tdiv cores := Int.mul_nonneg (by omega) hs
  simp only [sliceWorker, sliceRange]
  split_ifs with hl
  · subst hl; omega
  · have h1 := Int.mul_le_mul_of_nonneg_right
      (show ((k + 1 : Nat) : Int) ≤ ((cores - 1 : Nat) : Int) by omega) hs
    simp only [Nat.cast_add, Nat.cast_one, Int.add_mul, Int.one_mul] at h1
    omega

/-- **Workers that run one after another.** With `0 < governanceBlock`, a schedule that runs
each worker in turn until it returns makes the loader return what `BlockConnected` on every
block in height order, then the erasing pass, returns, throws included. -/
theorem loadGovernanceData_in_turn (params : Params) (env : Env) (chain : List Block)
    {cores : Nat} (n : Nat → Nat) (hc : 0 < cores) (hgb : 0 < params.governanceBlock.val)
    (hn : ∀ k < cores, (sliceWorker params.governanceBlock.val (chain.length - 1)
      ((chain.length - 1 - params.governanceBlock.val).tdiv cores) cores k).actions ≤ n k) :
    loadGovernanceData params env chain cores
        ((List.range cores).flatMap fun k => List.replicate (n k) k) =
      (connectChain params env (chainView env chain) chain
        params.governanceBlock.val.toNat).map fun S => some (true, S) := by
  simp only [loadGovernanceData, connectChain]
  split_ifs with hshort
  · rw [List.drop_of_length_le (by simp; omega)]
    rfl
  have hH : params.governanceBlock.val ≤ chain.length - 1 := by omega
  have hdiv : ∀ t : Int, cDiv t cores = .ok (t.tdiv cores) := fun t => by
    simp [cDiv, hc.ne']
  set W := sliceWorker params.governanceBlock.val (chain.length - 1)
    ((chain.length - 1 - params.governanceBlock.val).tdiv cores) cores with hW
  have hWk : ∀ k < cores, ∃ i d : Nat, W k = ⟨i, (i + d : Nat), none, false⟩ ∧
      i + d ≤ chain.length ∧ 2 * d + 1 ≤ n k := fun k hk => by
    have h := sliceWorker_range hc hH hk
    rw [← hW] at h
    exact ⟨(W k).next.toNat, ((W k).stop - (W k).next).toNat,
      Worker.eq_mk rfl rfl (by omega) h.2.1, by omega, hn k hk⟩
  have hflat : ((List.range cores).flatMap fun k => (chain.enum.drop (W k).next.toNat).take
      ((W k).stop - (W k).next).toNat) = chain.enum.drop params.governanceBlock.val.toNat := by
    obtain ⟨hs, hle⟩ := tdiv_slice (sub_nonneg.mpr hH) hc
    have hF : ∀ a b c : Int, params.governanceBlock.val ≤ a → a ≤ b → b ≤ c →
        (chain.enum.drop a.toNat).take (b - a).toNat ++ (chain.enum.drop b.toNat).take (c - b).toNat =
          (chain.enum.drop a.toNat).take (c - a).toNat :=
      fun a b c ha => take_drop_append chain.enum (by omega)
    have h := flatten_sliceRange (fun a b => (chain.enum.drop a.toNat).take (b - a).toNat) hF
      (chain.length - 1 + 1) hc hs (by omega)
    simp only at h
    rw [List.take_of_length_le (by simp; omega)] at h
    exact h
  simp only [hdiv, except_ok_bind]
  rw [foldlM_workers_in_turn W n GovState.empty hWk cores le_rfl, hflat]
  generalize (chain.enum.drop params.governanceBlock.val.toNat).foldlM
    (connectEnum params env (chainView env chain)) GovState.empty = r
  cases r with
  | error e => rfl
  | ok S =>
    have hall : ((List.range cores).map fun k => if k < cores then
        (⟨(W k).stop, (W k).stop, none, true⟩ : Worker) else W k).all (·.done) = true := by
      simp +contextual
    simp only [except_map_ok_eq, except_pure, except_ok_bind, hall, Bool.not_true,
      Bool.false_eq_true, if_false, Bool.or_false, Bool.not_false]
    split_ifs with hv
    · rw [List.isEmpty_iff.mp hv]
      rfl
    · rw [foldl_voteSlice _ _ _ hc]

end Sequential

theorem loaderChain_in_turn :
    0 < 2 ∧ 0 < sampleParams.governanceBlock.val ∧
      (∀ k < 2, (sliceWorker sampleParams.governanceBlock.val (loaderChain.length - 1)
        ((loaderChain.length - 1 - sampleParams.governanceBlock.val).tdiv (2 : Nat)) 2 k).actions ≤ 5) ∧
      loadGovernanceData sampleParams sampleEnv loaderChain 2
          ((List.range 2).flatMap fun k => List.replicate 5 k) =
        (connectChain sampleParams sampleEnv (chainView sampleEnv loaderChain) loaderChain
          sampleParams.governanceBlock.val.toNat).map fun S => some (true, S) :=
  ⟨by decide, by decide, by decide,
    loadGovernanceData_in_turn sampleParams sampleEnv loaderChain (fun _ => 5) (by decide)
      (by decide) (by decide)⟩

end Gov
