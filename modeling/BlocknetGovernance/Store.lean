import BlocknetGovernance.Extract
import Mathlib.Logic.Relation

/-!
# The governance state and the chain listener

`Governance` keeps two `std::map`s, proposals and votes, each keyed by hash and guarded by
one mutex. `BlockConnected` merges what `dataFromBlock` extracts and then erases every vote
whose output an input of the block spends; `BlockDisconnected` erases by hash what
`dataFromBlock` extracts without cutoffs; `reset` clears both maps; the second pass of
`loadGovernanceData` erases the votes whose output is spent.

`Step` is one such mutation. Its `connect` case lets the cutoff check of each output read
the proposals of any moment, as `meetsCutoff` takes the mutex once per vote and a worker of
`loadGovernanceData` reads while other workers merge. `Reachable` is every state a run of steps reaches
from the empty state, and `reachable_wellKeyed_hasVote` is the representation invariant:
every entry sits under its own hash.
-/

namespace Gov

/-- The two maps of `Governance`, guarded by `mu`. -/
structure GovState where
  proposals : StdMap Proposal
  votes : StdMap Vote
  deriving DecidableEq

namespace GovState

/-- A new `Governance`, and what `reset` leaves. -/
def empty : GovState := ⟨.empty, .empty⟩

/-- `Governance::hasProposal`. -/
def hasProposal (S : GovState) (hash : Nat) : Bool := (S.proposals.find? hash).isSome

/-- `Governance::hasVote(const uint256 & hash)`: a keyed lookup. -/
def hasVote (S : GovState) (hash : Nat) : Bool := (S.votes.find? hash).isSome

/-- `Governance::hasVote(const uint256 & proposal, const COutPoint & utxo)`: a scan of every
stored vote. -/
def hasVoteFor (S : GovState) (proposal : Nat) (utxo : OutPoint) : Bool :=
  S.votes.values.any fun v => v.utxo == utxo && v.proposal == proposal

/-- `Governance::getVotes()`. -/
def getVotes (S : GovState) : List Vote := S.votes.values

/-- `Governance::getVote`: the stored vote, or `Vote{}`. -/
def getVote (S : GovState) (hash : Nat) : Vote := (S.votes.find? hash).getD {}

/-- `Governance::getProposals()`. -/
def getProposals (S : GovState) : List Proposal := S.proposals.values

/-- `Governance::getVotes(const uint256 & hash)`: the stored votes on one proposal. -/
def getVotesFor (S : GovState) (hash : Nat) : List Vote :=
  S.votes.values.filter fun v => v.proposal == hash

/-- `Governance::getProposalsSince`: appends to `allProposals` and `allVotes` the stored
proposals and votes of the blocks from `sinceBlock` on. -/
def getProposalsSince (S : GovState) (sinceBlock : CInt) (allProposals : List Proposal)
    (allVotes : List Vote) : List Proposal × List Vote :=
  (allProposals ++ S.getProposals.filter (fun p => decide (sinceBlock ≤ p.blockNumber)),
    allVotes ++ S.getVotes.filter fun v => decide (sinceBlock ≤ v.blockNumber))

end GovState

/-- The hash of a vote `(NETWORK_VERSION, VOTE, proposal, utxo)`. -/
def voteHash (env : Env) (proposal : Nat) (utxo : OutPoint) : Nat :=
  Vote.getHash env { proposal := proposal, utxo := utxo }

/-- The prevouts of every input of the block, the coinbase's included: the set
`BlockConnected` erases votes by. -/
def blockPrevouts (block : Block) : List OutPoint :=
  block.vtx.flatMap fun tx => tx.vin.map (·.prevout)

/-- The vote merge of `BlockConnected` for one vote: skipped when its proposal is not
stored, stored when its hash is new, and replacing the stored vote when its time is
later, or else when its `sigHash` is larger. -/
def mergeVote (env : Env) (proposals : StdMap Proposal) (votes : StdMap Vote) (v : Vote) :
    StdMap Vote :=
  if (proposals.find? v.proposal).isNone then votes
  else
    match votes.find? (v.getHash env) with
    | some w =>
      if w.time < v.time then votes.insert (v.getHash env) v
      else if w.sigHash env < v.sigHash env then votes.insert (v.getHash env) v
      else votes
    | none => votes.insert (v.getHash env) v

/-- The critical section of `BlockConnected`, given what `dataFromBlock` returned: insert
the proposals, merge the votes, then erase the votes whose output the block spends. -/
def connectData (env : Env) (S : GovState) (ps : List Proposal) (vs : List Vote)
    (block : Block) : GovState :=
  let proposals := ps.foldl (fun m p => m.insert (p.getHash env) p) S.proposals
  let votes := vs.foldl (mergeVote env proposals) S.votes
  ⟨proposals, votes.filter fun v => !(blockPrevouts block).contains v.utxo⟩

/-- `Governance::BlockConnected(block, pindex)` for a block at height `height`. An
exception in `dataFromBlock` leaves the call before the state is touched. -/
def blockConnected (params : Params) (env : Env) (view : CoinView) (S : GovState)
    (block : Block) (height : CInt) : Except Failure GovState := do
  let (ps, vs) ← dataFromBlock params env view S.proposals block (some height)
  pure (connectData env S ps vs block)

/-- The critical section of `BlockDisconnected`: erase by hash what was extracted. -/
def disconnectData (env : Env) (S : GovState) (ps : List Proposal) (vs : List Vote) :
    GovState :=
  ⟨ps.foldl (fun m p => m.erase (p.getHash env)) S.proposals,
    vs.foldl (fun m v => m.erase (v.getHash env)) S.votes⟩

/-- `Governance::BlockDisconnected(block)`: extraction without a block index, so without
cutoffs. -/
def blockDisconnected (params : Params) (env : Env) (view : CoinView) (S : GovState)
    (block : Block) : Except Failure GovState := do
  let (ps, vs) ← dataFromBlock params env view S.proposals block none
  pure (disconnectData env S ps vs)

/-- The second pass of `loadGovernanceData`: every vote of the snapshot whose output is
spent (without the mempool check) is erased by its hash. -/
def pruneSpent (env : Env) (view : CoinView) (snapshot : List Vote) (votes : StdMap Vote) :
    StdMap Vote :=
  snapshot.foldl (fun m v => if Vote.isUTXOSpent view v.utxo false then m.erase (v.getHash env)
    else m) votes

/-! ## Runs -/

/-- One mutation of the governance state. -/
inductive Step (params : Params) (env : Env) : GovState → GovState → Prop
  /-- `BlockConnected`, the cutoff check of the `i`-th output its extraction visits having
  read the proposals `reads[i]`. -/
  | connect {S : GovState} {ps : List Proposal} {vs : List Vote} (view : CoinView)
      (block : Block) (height : CInt) (reads : List (StdMap Proposal)) :
      reads.length = (blockOutputs block).length →
      dataFromBlockReads params env view reads block (some height) = .ok (ps, vs) →
      Step params env S (connectData env S ps vs block)
  /-- `BlockDisconnected`. -/
  | disconnect {S : GovState} {ps : List Proposal} {vs : List Vote} (view : CoinView)
      (block : Block) :
      dataFromBlock params env view S.proposals block none = .ok (ps, vs) →
      Step params env S (disconnectData env S ps vs)
  /-- `reset`. -/
  | reset (S : GovState) : Step params env S GovState.empty
  /-- The vote-pruning pass of `loadGovernanceData`, over a snapshot of the votes. -/
  | prune (S : GovState) (view : CoinView) :
      Step params env S ⟨S.proposals, pruneSpent env view S.votes.values S.votes⟩

/-- The states runs of steps reach from a new `Governance`. -/
def Reachable (params : Params) (env : Env) (S : GovState) : Prop :=
  Relation.ReflTransGen (Step params env) GovState.empty S

theorem Step.connect_read {params : Params} {env : Env} {S : GovState} {ps : List Proposal}
    {vs : List Vote} (view : CoinView) (block : Block) (height : CInt) (read : StdMap Proposal)
    (hd : dataFromBlock params env view read block (some height) = .ok (ps, vs)) :
    Step params env S (connectData env S ps vs block) :=
  .connect view block height _ (List.length_replicate _ _) (dataFromBlock_eq_reads ▸ hd)

theorem blockConnected_step {params : Params} {env : Env} {view : CoinView} {S S' : GovState}
    {block : Block} {height : CInt} (h : blockConnected params env view S block height = .ok S') :
    Step params env S S' := by
  obtain ⟨⟨ps, vs⟩, hd, h⟩ := except_bind_ok h
  cases h
  exact .connect_read view block height S.proposals hd

theorem blockDisconnected_step {params : Params} {env : Env} {view : CoinView}
    {S S' : GovState} {block : Block} (h : blockDisconnected params env view S block = .ok S') :
    Step params env S S' := by
  obtain ⟨⟨ps, vs⟩, hd, h⟩ := except_bind_ok h
  cases h
  exact .disconnect view block hd

/-! ## Lookup lemmas -/

theorem mergeVote_cases (env : Env) (proposals : StdMap Proposal) (votes : StdMap Vote)
    (v : Vote) : mergeVote env proposals votes v = votes ∨
      mergeVote env proposals votes v = votes.insert (v.getHash env) v := by
  unfold mergeVote
  split_ifs
  · exact .inl rfl
  · split
    · split_ifs
      · exact .inr rfl
      · exact .inr rfl
      · exact .inl rfl
    · exact .inr rfl

/-- A merge stores the vote under its hash exactly when its proposal is stored and it is
new, or later than the stored vote, or else of a larger `sigHash`: the times of the two
votes are not compared when the `sigHash`es decide. -/
theorem find?_mergeVote (env : Env) (proposals : StdMap Proposal) (votes : StdMap Vote)
    (v : Vote) (k : Nat) :
    (mergeVote env proposals votes v).find? k =
      if (proposals.find? v.proposal).isSome ∧ v.getHash env = k ∧
          ∀ w, votes.find? k = some w → w.time < v.time ∨ w.sigHash env < v.sigHash env
      then some v else votes.find? k := by
  by_cases hvk : v.getHash env = k
  · subst hvk
    unfold mergeVote
    cases hp : proposals.find? v.proposal with
    | none => simp
    | some _ =>
      cases hw : votes.find? (v.getHash env) with
      | none => simp
      | some w =>
        simp only [hw, Option.isNone_some, Option.isSome_some, Bool.false_eq_true, if_false,
          true_and, Option.some.injEq, forall_eq']
        by_cases h1 : w.time < v.time
        · rw [if_pos h1, if_pos (.inl h1), StdMap.find?_insert, if_pos rfl]
        · by_cases h2 : w.sigHash env < v.sigHash env
          · rw [if_neg h1, if_pos h2, if_pos (.inr h2), StdMap.find?_insert, if_pos rfl]
          · rw [if_neg h1, if_neg h2, if_neg (not_or.mpr ⟨h1, h2⟩), hw]
  · rw [if_neg fun h => hvk h.2.1]
    rcases mergeVote_cases env proposals votes v with h | h <;> rw [h]
    rw [StdMap.find?_insert, if_neg hvk]

/-- A vote the merges leave under a key was there before, or is one of the merged votes and
its proposal is stored. -/
theorem find?_foldl_mergeVote_cases (env : Env) (proposals : StdMap Proposal) {k : Nat}
    {w : Vote} : ∀ (vs : List Vote) (m : StdMap Vote),
      (vs.foldl (mergeVote env proposals) m).find? k = some w →
        m.find? k = some w ∨ w ∈ vs ∧ (proposals.find? w.proposal).isSome
  | [], _, h => .inl h
  | v :: vs, m, h => by
    rcases find?_foldl_mergeVote_cases env proposals vs _ h with h | ⟨hw, hp⟩
    · rw [find?_mergeVote] at h
      split_ifs at h with hv
      · cases h; exact .inr ⟨.head _, hv.1⟩
      · exact .inl h
    · exact .inr ⟨.tail _ hw, hp⟩

theorem find?_foldl_mergeVote_congr (env : Env) (proposals : StdMap Proposal) {k : Nat} :
    ∀ (vs : List Vote) {m m' : StdMap Vote}, m.find? k = m'.find? k →
      (vs.foldl (mergeVote env proposals) m).find? k =
        (vs.foldl (mergeVote env proposals) m').find? k
  | [], _, _, h => h
  | _ :: vs, _, _, h =>
    find?_foldl_mergeVote_congr env proposals vs (by rw [find?_mergeVote, find?_mergeVote, h])

theorem find?_foldl_mergeVote_key (env : Env) (proposals : StdMap Proposal) (k : Nat) :
    ∀ (vs : List Vote) (m : StdMap Vote), (vs.foldl (mergeVote env proposals) m).find? k =
      ((vs.filter (·.getHash env == k)).foldl (mergeVote env proposals) m).find? k
  | [], _ => rfl
  | v :: vs, m => by
    by_cases hv : v.getHash env = k
    · simp only [List.foldl_cons, List.filter_cons, hv, beq_self_eq_true, if_true]
      exact find?_foldl_mergeVote_key env proposals k vs _
    · simp only [List.foldl_cons, List.filter_cons, beq_iff_eq, hv, if_false]
      rw [find?_foldl_mergeVote_key env proposals k vs]
      exact find?_foldl_mergeVote_congr env proposals _
        (by rw [find?_mergeVote, if_neg fun h => hv h.2.1])

theorem find?_foldl_mergeVote_filter (env : Env) (proposals : StdMap Proposal) (g : Nat → Bool)
    (vs : List Vote) (m : StdMap Vote) (k : Nat) :
    ((vs.filter fun v => g (v.getHash env)).foldl (mergeVote env proposals) m).find? k =
      if g k then (vs.foldl (mergeVote env proposals) m).find? k else m.find? k := by
  rw [find?_foldl_mergeVote_key env proposals k, find?_foldl_mergeVote_key env proposals k vs,
    List.filter_filter]
  split_ifs with hg
  · congr 2
    exact List.filter_congr fun v _ => by
      by_cases hv : v.getHash env = k <;> simp [hv, hg]
  · rw [List.filter_eq_nil_iff.mpr fun v _ => by
      by_cases hv : v.getHash env = k <;> simp [hv, hg]]
    rfl

theorem find?_foldl_insert_of_not_mem {V : Type} (key : V → Nat) (k : Nat) :
    ∀ (xs : List V) (m : StdMap V), k ∉ xs.map key →
      (xs.foldl (fun m x => m.insert (key x) x) m).find? k = m.find? k
  | [], _, _ => rfl
  | x :: xs, m, h => by
    simp only [List.map_cons, List.mem_cons, not_or] at h
    rw [List.foldl_cons, find?_foldl_insert_of_not_mem key k xs _ h.2, StdMap.find?_insert,
      if_neg (Ne.symm h.1)]

theorem find?_foldl_insert_of_mem {V : Type} (key : V → Nat) {x : V} :
    ∀ (xs : List V) (m : StdMap V), (xs.map key).Nodup → x ∈ xs →
      (xs.foldl (fun m x => m.insert (key x) x) m).find? (key x) = some x
  | [], _, _, hx => absurd hx (List.not_mem_nil x)
  | y :: ys, m, hnd, hx => by
    rw [List.map_cons, List.nodup_cons] at hnd
    rw [List.foldl_cons]
    rcases List.mem_cons.mp hx with rfl | hx
    · rw [find?_foldl_insert_of_not_mem key _ ys _ hnd.1, StdMap.find?_insert, if_pos rfl]
    · exact find?_foldl_insert_of_mem key ys _ hnd.2 hx

theorem isSome_find?_foldl_insert {V : Type} (key : V → Nat) (k : Nat) :
    ∀ (xs : List V) (m : StdMap V),
      ((xs.foldl (fun m x => m.insert (key x) x) m).find? k).isSome ↔
        (m.find? k).isSome ∨ k ∈ xs.map key
  | [], _ => by simp
  | x :: xs, m => by
    rw [List.foldl_cons, isSome_find?_foldl_insert key k xs, StdMap.find?_insert]
    by_cases h : key x = k <;> simp [h, Ne.symm]

theorem isSome_find?_foldl_mergeVote (env : Env) (proposals : StdMap Proposal) (k : Nat) :
    ∀ (vs : List Vote) (m : StdMap Vote), (m.find? k).isSome →
      ((vs.foldl (mergeVote env proposals) m).find? k).isSome
  | [], _, h => h
  | v :: vs, m, h => by
    refine isSome_find?_foldl_mergeVote env proposals k vs _ ?_
    rw [find?_mergeVote]
    split_ifs <;> simp [h]

theorem keyedBy_foldl_insert {V : Type} {key : V → Nat} {P : V → Prop} :
    ∀ (xs : List V) (m : StdMap V), m.KeyedBy key P → (∀ x ∈ xs, P x) →
      (xs.foldl (fun m x => m.insert (key x) x) m).KeyedBy key P := by
  intro xs
  induction xs with
  | nil => intro m hm _; exact hm
  | cons x xs ih =>
    intro m hm hx
    exact ih _ (hm.insert (hx x (.head _))) fun y hy => hx y (.tail _ hy)

theorem keyedBy_foldl_erase {V W : Type} {key : V → Nat} {P : V → Prop} (f : W → Nat) :
    ∀ (xs : List W) (m : StdMap V), m.KeyedBy key P →
      (xs.foldl (fun m x => m.erase (f x)) m).KeyedBy key P := by
  intro xs
  induction xs with
  | nil => intro m hm; exact hm
  | cons x xs ih => intro m hm; exact ih _ (hm.erase _)

theorem keyedBy_foldl_mergeVote {env : Env} {P : Vote → Prop} (proposals : StdMap Proposal) :
    ∀ (vs : List Vote) (m : StdMap Vote), m.KeyedBy (Vote.getHash env) P → (∀ v ∈ vs, P v) →
      (vs.foldl (mergeVote env proposals) m).KeyedBy (Vote.getHash env) P := by
  intro vs
  induction vs with
  | nil => intro m hm _; exact hm
  | cons v vs ih =>
    intro m hm hv
    refine ih _ ?_ fun w hw => hv w (.tail _ hw)
    rcases mergeVote_cases env proposals m v with h | h <;> rw [h]
    · exact hm
    · exact hm.insert (hv v (.head _))

theorem keyedBy_pruneSpent {env : Env} {P : Vote → Prop} (view : CoinView) :
    ∀ (snapshot : List Vote) (m : StdMap Vote), m.KeyedBy (Vote.getHash env) P →
      (pruneSpent env view snapshot m).KeyedBy (Vote.getHash env) P := by
  intro snapshot
  induction snapshot with
  | nil => intro m hm; exact hm
  | cons v vs ih =>
    intro m hm
    simp only [pruneSpent, List.foldl_cons] at ih ⊢
    split_ifs
    · exact ih _ (hm.erase _)
    · exact ih _ hm

/-! ## The representation invariant -/

/-- What a stored vote always satisfies: the network version, the vote type, and 256-bit
hashes, as it was read from a payload. -/
def StoredVote (v : Vote) : Prop :=
  v.version = networkVersion ∧ v.type = typeVote ∧ v.proposal < 2 ^ 256 ∧ v.utxo.hash < 2 ^ 256

/-- Every entry is stored under its own hash, and every stored vote is a `StoredVote`. -/
structure WellKeyed (env : Env) (S : GovState) : Prop where
  proposals : S.proposals.KeyedBy (Proposal.getHash env) fun _ => True
  votes : S.votes.KeyedBy (Vote.getHash env) StoredVote

theorem VoteKept.storedVote {params : Params} {env : Env} {view : CoinView}
    {proposals : StdMap Proposal} {index : Option CInt} {v : Vote}
    (h : VoteKept params env view proposals index v) : StoredVote v := by
  obtain ⟨hvalid, -, hp, hu⟩ := h
  simp only [Vote.isValid, Bool.and_eq_true, beq_iff_eq] at hvalid
  exact ⟨hvalid.1.1.1.1.1.1, hvalid.1.1.1.1.1.2, hp, hu⟩

theorem wellKeyed_empty (env : Env) : WellKeyed env GovState.empty :=
  ⟨StdMap.keyedBy_empty, StdMap.keyedBy_empty⟩

theorem WellKeyed.step {params : Params} {env : Env} {S S' : GovState}
    (hS : WellKeyed env S) (h : Step params env S S') : WellKeyed env S' := by
  cases h with
  | connect view block height reads _ hd =>
    have hk := dataFromBlockReads_kept hd
    exact ⟨keyedBy_foldl_insert _ _ hS.proposals fun _ _ => trivial,
      (keyedBy_foldl_mergeVote _ _ _ hS.votes fun v hv =>
        (hk v hv).elim fun _ hv => hv.storedVote).filter _⟩
  | disconnect view block hd =>
    exact ⟨keyedBy_foldl_erase _ _ _ hS.proposals, keyedBy_foldl_erase _ _ _ hS.votes⟩
  | reset => exact wellKeyed_empty env
  | prune view => exact ⟨hS.proposals, keyedBy_pruneSpent view _ _ hS.votes⟩

theorem Reachable.wellKeyed {params : Params} {env : Env} {S : GovState}
    (h : Reachable params env S) : WellKeyed env S := by
  induction h with
  | refl => exact wellKeyed_empty env
  | tail _ hstep ih => exact ih.step hstep

/-- The bytes a vote's hash covers, read back: two votes of the network version and the
vote type with 256-bit hashes have the same hash bytes only if they vote on the same
proposal from the same output. -/
theorem voteHashBytes_inj {p p' : Nat} {u u' : OutPoint} (hp : p < 2 ^ 256)
    (hu : u.hash < 2 ^ 256) (hp' : p' < 2 ^ 256) (hu' : u'.hash < 2 ^ 256)
    (h : serUint256 p ++ serOutPoint u = serUint256 p' ++ serOutPoint u') : p = p' ∧ u = u' := by
  have r1 := readUint256_run hp (serOutPoint u ++ [])
  have r2 := readUint256_run hp' (serOutPoint u' ++ [])
  simp only [← List.append_assoc, List.append_nil, h] at r1 r2
  rw [r1] at r2
  simp only [Except.ok.injEq, Prod.mk.injEq] at r2
  obtain ⟨rfl, hs⟩ := r2
  have q1 := readOutPoint_run hu []
  have q2 := readOutPoint_run hu' []
  rw [List.append_nil, hs] at q1
  rw [List.append_nil, q1] at q2
  simp only [Except.ok.injEq, Prod.mk.injEq] at q2
  exact ⟨rfl, q2.1⟩

theorem voteHash_inj {env : Env} (hinj : Function.Injective env.hash256) {p p' : Nat}
    {u u' : OutPoint} (hp : p < 2 ^ 256) (hu : u.hash < 2 ^ 256) (hp' : p' < 2 ^ 256)
    (hu' : u'.hash < 2 ^ 256) (h : voteHash env p u = voteHash env p' u') : p = p' ∧ u = u' := by
  have hb := hinj h
  simp only [List.cons_append, List.cons.injEq, true_and, List.nil_append] at hb
  exact voteHashBytes_inj hp hu hp' hu' hb

theorem getHash_of_storedVote (env : Env) {v : Vote} (hv : StoredVote v) :
    v.getHash env = voteHash env v.proposal v.utxo :=
  Vote.getHash_congr env hv.1 hv.2.1 rfl rfl

/-- **The representation invariant.** A reachable store keeps every entry under its own
hash, one vote per proposal and output, and for an injective hash its scanning `hasVote`
agrees with the keyed one. -/
theorem reachable_wellKeyed_hasVote {params : Params} {env : Env} {S : GovState}
    (hS : Reachable params env S) :
    WellKeyed env S ∧
      (∀ k k' v v', S.votes.find? k = some v → S.votes.find? k' = some v' →
        v.proposal = v'.proposal → v.utxo = v'.utxo → k = k') ∧
      (Function.Injective env.hash256 → ∀ (proposal : Nat) (utxo : OutPoint),
        proposal < 2 ^ 256 → utxo.hash < 2 ^ 256 →
          S.hasVoteFor proposal utxo = S.hasVote (voteHash env proposal utxo)) := by
  have hw := hS.wellKeyed
  refine ⟨hw, fun k k' v v' hk hk' hp hu => ?_, fun hinj p u hp hu => ?_⟩
  · obtain ⟨rfl, hv⟩ := hw.votes k v hk
    obtain ⟨rfl, hv'⟩ := hw.votes k' v' hk'
    rw [getHash_of_storedVote env hv, getHash_of_storedVote env hv', hp, hu]
  · apply Bool.eq_iff_iff.mpr
    simp only [GovState.hasVoteFor, GovState.hasVote, List.any_eq_true, Bool.and_eq_true,
      beq_iff_eq, Option.isSome_iff_exists, StdMap.mem_values]
    constructor
    · rintro ⟨v, ⟨k, hk⟩, rfl, rfl⟩
      obtain ⟨rfl, hv⟩ := hw.votes k v hk
      exact ⟨v, getHash_of_storedVote env hv ▸ hk⟩
    · rintro ⟨v, hk⟩
      obtain ⟨hkv, hv⟩ := hw.votes _ v hk
      rw [getHash_of_storedVote env hv] at hkv
      obtain ⟨rfl, rfl⟩ := voteHash_inj hinj hp hu hv.2.2.1 hv.2.2.2 hkv
      exact ⟨v, ⟨_, hk⟩, rfl, rfl⟩

/-- The state after `proposalBlock` at height 10 and `voteBlock 200 voteYes` at height 11. -/
def sampleState : GovState :=
  connectData sampleEnv
    (connectData sampleEnv .empty [{ sampleProposal with blockNumber := 10 }] [] proposalBlock)
    [] [sampleVoteRead 200 voteYes 11] (voteBlock 200 voteYes)

set_option maxRecDepth 10000 in
theorem sampleState_reachable : Reachable sampleParams sampleEnv sampleState :=
  .tail (.tail .refl (.connect_read sampleView proposalBlock 10 .empty (by decide)))
    (.connect_read sampleView (voteBlock 200 voteYes) 11
      (connectData sampleEnv .empty [{ sampleProposal with blockNumber := 10 }] [] proposalBlock).proposals
      (by decide))

set_option maxRecDepth 10000 in
theorem sampleState_wellKeyed_hasVote :
    sampleState.hasVote ((sampleVote voteYes).getHash sampleEnv) = true ∧
      WellKeyed sampleEnv sampleState ∧
      (∀ k k' v v', sampleState.votes.find? k = some v → sampleState.votes.find? k' = some v' →
        v.proposal = v'.proposal → v.utxo = v'.utxo → k = k') ∧
      (Function.Injective sampleEnv.hash256 → ∀ (proposal : Nat) (utxo : OutPoint),
        proposal < 2 ^ 256 → utxo.hash < 2 ^ 256 →
          sampleState.hasVoteFor proposal utxo =
            sampleState.hasVote (voteHash sampleEnv proposal utxo)) :=
  ⟨by decide, reachable_wellKeyed_hasVote sampleState_reachable⟩

/-! ## Vote changes -/

set_option maxRecDepth 10000 in
/-- A vote with an earlier time replaces the stored vote when its `sigHash` is larger, so the
stored vote depends on the order its blocks connect in. -/
theorem blockConnected_earlier_vote_replaces :
    (do
      let S ← blockConnected sampleParams sampleEnv sampleView .empty proposalBlock 10
      let S₁ ← blockConnected sampleParams sampleEnv sampleView S (voteBlock 200 voteYes) 11
      let S₂ ← blockConnected sampleParams sampleEnv sampleView S₁ (voteBlock 150 voteNo) 12
      let T₁ ← blockConnected sampleParams sampleEnv sampleView S (voteBlock 150 voteNo) 11
      let T₂ ← blockConnected sampleParams sampleEnv sampleView T₁ (voteBlock 200 voteYes) 12
      let h := (sampleVote voteYes).getHash sampleEnv
      pure (S₁.votes.find? h, S₂.votes.find? h, T₂.votes.find? h)) =
      .ok (some (sampleVoteRead 200 voteYes 11), some (sampleVoteRead 150 voteNo 12),
        some (sampleVoteRead 200 voteYes 12)) := by
  decide

/-- A block with two vote transactions on `sampleProposal` from `sampleUtxo`: the vote
`first`, then the vote `second`. -/
def twoVoteBlock (first second : UInt8) : Block :=
  sampleBlock 200 [opReturnTx ⟨5, 1⟩ (sampleVote first).ser, opReturnTx ⟨5, 2⟩ (sampleVote second).ser]

set_option maxRecDepth 10000 in
/-- Of two votes of one block under one hash, `dataFromBlock` keeps the first, whatever
their `sigHash`es (`addVote_eq_insertVote`), and so does the store. -/
theorem dataFromBlock_keeps_first_vote :
    (sampleVote voteYes).getHash sampleEnv = (sampleVote voteNo).getHash sampleEnv ∧
      (sampleVote voteYes).sigHash sampleEnv < (sampleVote voteNo).sigHash sampleEnv ∧
      (do
        let S ← blockConnected sampleParams sampleEnv sampleView .empty proposalBlock 10
        let r₁ ← dataFromBlock sampleParams sampleEnv sampleView S.proposals
          (twoVoteBlock voteYes voteNo) (some 11)
        let r₂ ← dataFromBlock sampleParams sampleEnv sampleView S.proposals
          (twoVoteBlock voteNo voteYes) (some 11)
        let S₁ ← blockConnected sampleParams sampleEnv sampleView S (twoVoteBlock voteYes voteNo) 11
        let S₂ ← blockConnected sampleParams sampleEnv sampleView S (twoVoteBlock voteNo voteYes) 11
        pure (r₁.2.map Vote.vote, r₂.2.map Vote.vote, S₁.getVotes.map Vote.vote,
          S₂.getVotes.map Vote.vote)) =
        .ok ([voteYes], [voteNo], [voteYes], [voteNo]) := by
  decide

/-! ## Cutoffs in `int` -/

/-- **Cutoffs in `int`.** When a superblock less the proposal cutoff is below `INT_MIN`,
the `int` subtraction in `meetsCutoff` wraps to a large positive number, and every block up
to it meets the cutoff, though it lies past the superblock less the cutoff. -/
theorem meetsCutoff_past_cutoff (params : Params) (p : Proposal) (b : CInt)
    (hw : p.superblock.val - params.proposalCutoff.val < -2 ^ 31)
    (hb : b.val ≤ p.superblock.val - params.proposalCutoff.val + 2 ^ 32) :
    p.meetsCutoff params b = true ∧ p.superblock.val < b.val + params.proposalCutoff.val := by
  have hs : -2 ^ 31 ≤ p.superblock.val := p.superblock.lo
  have hc : params.proposalCutoff.val < 2 ^ 31 := params.proposalCutoff.hi
  have hlo : -2 ^ 31 ≤ b.val := b.lo
  have hsub : (p.superblock - params.proposalCutoff).val =
      p.superblock.val - params.proposalCutoff.val + 2 ^ 32 := by
    rw [SInt.sub_def, ← SInt.wrap_add_period]
    exact SInt.wrap_val_of_mem (by omega) (by omega)
  refine ⟨?_, by omega⟩
  simp only [Proposal.meetsCutoff, decide_eq_true_eq, SInt.le_def, hsub]
  exact hb

def cutoffParams : Params := { sampleParams with proposalCutoff := 200 }

/-- `sampleProposal` for the superblock `-2147483520`, the multiple of 144 nearest
`INT_MIN`. -/
def intMinProposal : Proposal := { sampleProposal with superblock := -2147483520 }

theorem intMinProposal_meetsCutoff :
    intMinProposal.superblock.val - cutoffParams.proposalCutoff.val < -2 ^ 31 ∧
      (1 : CInt).val ≤ intMinProposal.superblock.val - cutoffParams.proposalCutoff.val + 2 ^ 32 ∧
      (intMinProposal.meetsCutoff cutoffParams 1 = true ∧
        intMinProposal.superblock.val < (1 : CInt).val + cutoffParams.proposalCutoff.val) :=
  ⟨by decide, by decide, meetsCutoff_past_cutoff cutoffParams intMinProposal 1 (by decide) (by decide)⟩

set_option maxRecDepth 10000 in
/-- A block at height 1 that submits `intMinProposal` stores it, with its negative
superblock and its block number far past the cutoff. -/
theorem blockConnected_stores_negative_superblock :
    (blockConnected cutoffParams sampleEnv sampleView .empty
        (sampleBlock 100 [opReturnTx ⟨5, 0⟩ intMinProposal.ser]) 1).map
      (fun S => S.proposals.values.map fun p => (p.superblock.val, p.blockNumber.val)) =
      .ok [(-2147483520, 1)] := by
  decide

end Gov
