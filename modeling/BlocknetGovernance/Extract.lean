import BlocknetGovernance.StdMap

/-!
# `Governance::dataFromBlock`

The proposals and votes a block carries. For every output of every non-coinbase
transaction, `dataFromBlock` reads `scriptPubKey[0]`, takes the first non-empty push of an
`OP_RETURN` script, reads a `NetworkObject` and then a `Proposal` or a `Vote` from it,
and keeps the object if it is valid, meets its cutoff (when a block index is given) and,
for a vote, is bound to an input of its transaction. The two result sets are
`std::set`s ordered by hash, where an insert of an object whose hash is present does
nothing.

The loop is split in two: `readOutput` reads the object (and is where the code can stop
short), `acceptObject` decides whether it is kept. Nothing in `dataFromBlock` catches an
exception: a failed read ends the whole call, and with it `BlockConnected`
(`dataFromBlock_throws_of_readOutput`).
-/

namespace Gov

/-- `Governance::getProposal`: the stored proposal, or `Proposal{}`. -/
def getProposal (proposals : StdMap Proposal) (hash : Nat) : Proposal :=
  (proposals.find? hash).getD {}

/-- `Governance::meetsCutoff(const Vote &, blockNumber, params)`: the proposal
`instance().getProposal` finds is not null and the block lies at or before its
superblock less the voting cutoff, computed in `int`. -/
def Vote.meetsCutoff (params : Params) (proposals : StdMap Proposal) (v : Vote)
    (blockNumber : CInt) : Bool :=
  let p := getProposal proposals v.proposal
  !p.isNull && decide (blockNumber ≤ p.superblock - params.votingCutoff)

/-- A governance object read from a payload. -/
inductive GovObject
  | proposal (p : Proposal)
  | vote (v : Vote)
  deriving DecidableEq, Repr

/-- `std::set<Proposal>::insert`: nothing happens when a proposal with the same hash is
there. -/
def insertProposal (env : Env) (p : Proposal) (ps : List Proposal) : List Proposal :=
  if ps.any (·.getHash env == p.getHash env) then ps else ps ++ [p]

/-- `std::set<Vote>::insert`: nothing happens when a vote with the same hash is there. -/
def insertVote (env : Env) (v : Vote) (vs : List Vote) : List Vote :=
  if vs.any (·.getHash env == v.getHash env) then vs else vs ++ [v]

/-- The vote-conflict branch of `dataFromBlock`: a vote whose hash is present is inserted
only if its `sigHash` is larger, and that insert is the no-op above. -/
def addVote (env : Env) (v : Vote) (vs : List Vote) : List Vote :=
  match vs.find? (·.getHash env == v.getHash env) with
  | some w => if w.sigHash env < v.sigHash env then insertVote env v vs else vs
  | none => insertVote env v vs

/-- What `dataFromBlock` reads from one output script: nothing unless it starts with
`OP_RETURN` and holds a payload of the current version and a known type, else the proposal
or vote constructed with the given outpoint, time and height. -/
def readOutput (env : Env) (view : CoinView) (height : CInt) (outpoint : OutPoint)
    (time : CAmount) (script : Bytes) : Except Failure (Option GovObject) :=
  match script with
  | [] => throw Failure.emptyScript
  | op :: _ =>
    if op != opReturn then pure none
    else do
      let data := opReturnData script
      let obj ← NetworkObject.read.run' data
      if !obj.isValid then pure none
      else if obj.type == typeProposal then
        (some ∘ GovObject.proposal) <$> (Proposal.read height).run' data
      else if obj.type == typeVote then
        (some ∘ GovObject.vote) <$> (Vote.read env view outpoint time height).run' data
      else pure none

/-- Whether `dataFromBlock` keeps what it read: a valid proposal meeting its cutoff, or a
valid vote meeting its cutoff against `proposals` and bound to an input of `tx`. -/
def acceptObject (params : Params) (env : Env) (view : CoinView)
    (proposals : StdMap Proposal) (index : Option CInt) (tx : Transaction)
    (acc : List Proposal × List Vote) : Option GovObject → List Proposal × List Vote
  | none => acc
  | some (.proposal p) =>
    if p.isValid params env && index.all (p.meetsCutoff params) then
      (insertProposal env p acc.1, acc.2)
    else acc
  | some (.vote v) =>
    if v.isValid params env view &&
        index.all (v.meetsCutoff params proposals) &&
        tx.vin.any (v.matchesVinPubKey env) then
      (acc.1, addVote env v acc.2)
    else acc

/-- The loop over the outputs of one transaction, from output `n` on. -/
def dataFromOutputs (params : Params) (env : Env) (view : CoinView)
    (proposals : StdMap Proposal) (block : Block) (index : Option CInt) (tx : Transaction) :
    Nat → List TxOut → List Proposal × List Vote → Except Failure (List Proposal × List Vote)
  | _, [], acc => pure acc
  | n, out :: outs, acc => do
    let obj ← readOutput env view (index.getD 0) ⟨env.txHash tx, n.toUInt32⟩ block.time
      out.scriptPubKey
    dataFromOutputs params env view proposals block index tx (n + 1) outs
      (acceptObject params env view proposals index tx acc obj)

/-- The loop over the transactions, coinbase skipped. -/
def dataFromTxs (params : Params) (env : Env) (view : CoinView) (proposals : StdMap Proposal)
    (block : Block) (index : Option CInt) :
    List Transaction → List Proposal × List Vote → Except Failure (List Proposal × List Vote)
  | [], acc => pure acc
  | tx :: txs, acc => do
    let acc ← if tx.isCoinBase then pure acc
      else dataFromOutputs params env view proposals block index tx 0 tx.vout acc
    dataFromTxs params env view proposals block index txs acc

/-- `Governance::dataFromBlock(block, proposalsRet, votesRet, blockIndex)`: `index` is the
block index's height when one is passed. `proposals` is the store `meetsCutoff` reads
through `instance().getProposal`. -/
def dataFromBlock (params : Params) (env : Env) (view : CoinView) (proposals : StdMap Proposal)
    (block : Block) (index : Option CInt) : Except Failure (List Proposal × List Vote) :=
  dataFromTxs params env view proposals block index block.vtx ([], [])

/-! ## Where the loop stops short -/

section Throws

variable {params : Params} {env : Env} {view : CoinView} {proposals : StdMap Proposal}
  {block : Block} {index : Option CInt}

theorem dataFromOutputs_throws {tx : Transaction} {out : TxOut} {e : Failure}
    (hread : ∀ n : Nat, readOutput env view (index.getD 0) ⟨env.txHash tx, n.toUInt32⟩ block.time
      out.scriptPubKey = .error e) :
    ∀ (outs : List TxOut) (n : Nat) (acc : List Proposal × List Vote), out ∈ outs →
      ∃ e', dataFromOutputs params env view proposals block index tx n outs acc = .error e' := by
  intro outs
  induction outs with
  | nil => simp
  | cons o outs ih =>
    intro n acc hmem
    simp only [dataFromOutputs]
    rcases List.mem_cons.mp hmem with rfl | hmem
    · exact ⟨e, by rw [hread n]; rfl⟩
    · cases readOutput env view (index.getD 0) ⟨env.txHash tx, n.toUInt32⟩ block.time
        o.scriptPubKey with
      | error e' => exact ⟨e', rfl⟩
      | ok obj => exact ih _ _ hmem

theorem dataFromTxs_throws {tx : Transaction} (hcb : tx.isCoinBase = false)
    (hthrow : ∀ acc, ∃ e, dataFromOutputs params env view proposals block index tx 0 tx.vout acc
      = .error e) :
    ∀ (txs : List Transaction) (acc : List Proposal × List Vote), tx ∈ txs →
      ∃ e, dataFromTxs params env view proposals block index txs acc = .error e := by
  intro txs
  induction txs with
  | nil => simp
  | cons t txs ih =>
    intro acc hmem
    simp only [dataFromTxs]
    rcases List.mem_cons.mp hmem with rfl | hmem
    · obtain ⟨e, he⟩ := hthrow acc
      exact ⟨e, by simp [hcb, he]; rfl⟩
    · by_cases hc : t.isCoinBase
      · simpa [hc] using ih acc hmem
      · simp only [hc]
        cases dataFromOutputs params env view proposals block index t 0 t.vout acc with
        | error e => exact ⟨e, rfl⟩
        | ok acc' => exact ih acc' hmem

theorem dataFromBlock_throws_of_readOutput {tx : Transaction} {out : TxOut} {e : Failure}
    (htx : tx ∈ block.vtx) (hcb : tx.isCoinBase = false) (hout : out ∈ tx.vout)
    (hread : ∀ n : Nat, readOutput env view (index.getD 0) ⟨env.txHash tx, n.toUInt32⟩ block.time
      out.scriptPubKey = .error e) :
    ∃ e', dataFromBlock params env view proposals block index = .error e' :=
  dataFromTxs_throws hcb (fun acc => dataFromOutputs_throws hread _ 0 acc hout) _ _ htx

end Throws

/-! ## What the loop keeps -/

section Induct

variable {params : Params} {env : Env} {view : CoinView} {proposals : StdMap Proposal}
  {block : Block} {index : Option CInt}

/-- A property of the two sets that `acceptObject` keeps for every object `readOutput`
returns from an output of the block. -/
def Keeps (params : Params) (env : Env) (view : CoinView) (proposals : StdMap Proposal)
    (block : Block) (index : Option CInt) (Inv : List Proposal × List Vote → Prop) : Prop :=
  ∀ tx ∈ block.vtx, ∀ out ∈ tx.vout, ∀ (n : Nat) (obj : Option GovObject),
    readOutput env view (index.getD 0) ⟨env.txHash tx, n.toUInt32⟩ block.time out.scriptPubKey =
      .ok obj → ∀ acc, Inv acc → Inv (acceptObject params env view proposals index tx acc obj)

/-- A property of the two sets that holds of the empty sets and that `acceptObject`
keeps. -/
def KeptBy (params : Params) (env : Env) (view : CoinView) (proposals : StdMap Proposal)
    (block : Block) (index : Option CInt) (Inv : List Proposal × List Vote → Prop) : Prop :=
  Inv ([], []) ∧ Keeps params env view proposals block index Inv

theorem dataFromOutputs_inv {Inv : List Proposal × List Vote → Prop}
    (h : Keeps params env view proposals block index Inv) {tx : Transaction}
    (htx : tx ∈ block.vtx) :
    ∀ (outs : List TxOut) (n : Nat) (acc r : List Proposal × List Vote), outs ⊆ tx.vout →
      Inv acc → dataFromOutputs params env view proposals block index tx n outs acc = .ok r →
        Inv r := by
  intro outs
  induction outs with
  | nil => intro n acc r _ hacc hr; cases hr; exact hacc
  | cons o outs ih =>
    intro n acc r hsub hacc hr
    simp only [dataFromOutputs] at hr
    obtain ⟨obj, hread, hr⟩ := except_bind_ok hr
    exact ih (n + 1) _ r (fun x hx => hsub (.tail _ hx))
      (h tx htx o (hsub (.head _)) n obj hread acc hacc) hr

theorem dataFromTxs_inv {Inv : List Proposal × List Vote → Prop}
    (h : Keeps params env view proposals block index Inv) :
    ∀ (txs : List Transaction) (acc r : List Proposal × List Vote), txs ⊆ block.vtx →
      Inv acc → dataFromTxs params env view proposals block index txs acc = .ok r → Inv r := by
  intro txs
  induction txs with
  | nil => intro acc r _ hacc hr; cases hr; exact hacc
  | cons t txs ih =>
    intro acc r hsub hacc hr
    simp only [dataFromTxs] at hr
    by_cases hc : t.isCoinBase
    · simp only [hc, if_true] at hr
      exact ih acc r (fun x hx => hsub (.tail _ hx)) hacc hr
    · simp only [hc] at hr
      obtain ⟨acc', ho, hr⟩ := except_bind_ok hr
      exact ih acc' r (fun x hx => hsub (.tail _ hx))
        (dataFromOutputs_inv h (hsub (.head _)) _ 0 acc acc' (fun _ hx => hx) hacc ho) hr

theorem dataFromBlock_inv {Inv : List Proposal × List Vote → Prop}
    (h : KeptBy params env view proposals block index Inv) {r : List Proposal × List Vote}
    (hr : dataFromBlock params env view proposals block index = .ok r) : Inv r :=
  dataFromTxs_inv h.2 _ _ r (fun _ hx => hx) h.1 hr

/-- The object read from output `n + k` of a transaction, when every set it is accepted
into has `P`, gives `P` to what the loop from output `n` returns. -/
theorem dataFromOutputs_hit {P : List Proposal × List Vote → Prop}
    (h : Keeps params env view proposals block index P) {tx : Transaction} (htx : tx ∈ block.vtx)
    {obj : Option GovObject} (hobj : ∀ acc, P (acceptObject params env view proposals index tx acc obj)) :
    ∀ (outs : List TxOut) (n k : Nat) (acc r : List Proposal × List Vote), outs ⊆ tx.vout →
      (∃ out, outs[k]? = some out ∧ readOutput env view (index.getD 0)
        ⟨env.txHash tx, (n + k).toUInt32⟩ block.time out.scriptPubKey = .ok obj) →
      dataFromOutputs params env view proposals block index tx n outs acc = .ok r → P r
  | [], _, _, _, _, _, ⟨_, hk, _⟩, _ => by cases hk
  | o :: outs, n, 0, acc, r, hsub, ⟨out, hk, hread⟩, hr => by
    obtain rfl : o = out := by simpa using hk
    simp only [dataFromOutputs] at hr
    obtain ⟨obj', hread', hr⟩ := except_bind_ok hr
    rw [Nat.add_zero, hread'] at hread
    cases hread
    exact dataFromOutputs_inv h htx outs (n + 1) _ r (fun x hx => hsub (.tail _ hx)) (hobj acc) hr
  | o :: outs, n, k + 1, acc, r, hsub, ⟨out, hk, hread⟩, hr => by
    simp only [dataFromOutputs] at hr
    obtain ⟨obj', -, hr⟩ := except_bind_ok hr
    exact dataFromOutputs_hit h htx hobj outs (n + 1) k _ r (fun x hx => hsub (.tail _ hx))
      ⟨out, by simpa using hk, by rwa [Nat.add_right_comm, Nat.add_assoc]⟩ hr

theorem dataFromTxs_hit {P : List Proposal × List Vote → Prop}
    (h : Keeps params env view proposals block index P) {tx : Transaction}
    (hcb : tx.isCoinBase = false) {n : Nat} {out : TxOut} (hout : tx.vout[n]? = some out)
    {obj : Option GovObject}
    (hread : readOutput env view (index.getD 0) ⟨env.txHash tx, n.toUInt32⟩ block.time
      out.scriptPubKey = .ok obj)
    (hobj : ∀ acc, P (acceptObject params env view proposals index tx acc obj)) :
    ∀ (txs : List Transaction) (acc r : List Proposal × List Vote), txs ⊆ block.vtx →
      tx ∈ txs → dataFromTxs params env view proposals block index txs acc = .ok r → P r
  | [], _, _, _, hmem, _ => by cases hmem
  | t :: txs, acc, r, hsub, hmem, hr => by
    have htxs : txs ⊆ block.vtx := fun x hx => hsub (.tail _ hx)
    simp only [dataFromTxs] at hr
    by_cases hc : t.isCoinBase
    · simp only [hc, if_true] at hr
      have hmem : tx ∈ txs :=
        (List.mem_cons.mp hmem).resolve_left fun ht => by simp [ht, hc] at hcb
      exact dataFromTxs_hit h hcb hout hread hobj txs acc r htxs hmem hr
    · rw [if_neg hc] at hr
      obtain ⟨acc', ho, hrest⟩ := except_bind_ok hr
      rcases List.mem_cons.mp hmem with rfl | hmem
      · exact dataFromTxs_inv h txs acc' r htxs
          (dataFromOutputs_hit h (hsub (.head _)) hobj _ 0 n acc acc' (fun _ hx => hx)
            ⟨out, hout, by rwa [Nat.zero_add]⟩ ho) hrest
      · exact dataFromTxs_hit h hcb hout hread hobj txs acc' r htxs hmem hrest

/-- Induction over `dataFromBlock` from one object: when the object read from an output of
a non-coinbase transaction gives `P` to every set it is accepted into, and `acceptObject`
keeps `P`, the result has `P`. -/
theorem dataFromBlock_hit {P : List Proposal × List Vote → Prop}
    (h : Keeps params env view proposals block index P) {tx : Transaction}
    (htx : tx ∈ block.vtx) (hcb : tx.isCoinBase = false) {n : Nat} {out : TxOut}
    (hout : tx.vout[n]? = some out) {obj : Option GovObject}
    (hread : readOutput env view (index.getD 0) ⟨env.txHash tx, n.toUInt32⟩ block.time
      out.scriptPubKey = .ok obj)
    (hobj : ∀ acc, P (acceptObject params env view proposals index tx acc obj))
    {r : List Proposal × List Vote} (hr : dataFromBlock params env view proposals block index = .ok r) :
    P r :=
  dataFromTxs_hit h hcb hout hread hobj _ _ r (fun _ hx => hx) htx hr

end Induct

/-! ## The sets `dataFromBlock` returns -/

theorem mem_insertProposal {env : Env} {p q : Proposal} {ps : List Proposal}
    (h : q ∈ insertProposal env p ps) : q ∈ ps ∨ q = p := by
  unfold insertProposal at h
  split_ifs at h
  · exact .inl h
  · simpa using h

theorem mem_insertVote {env : Env} {v w : Vote} {vs : List Vote}
    (h : w ∈ insertVote env v vs) : w ∈ vs ∨ w = v := by
  unfold insertVote at h
  split_ifs at h
  · exact .inl h
  · simpa using h

theorem nodup_insertProposal {env : Env} {p : Proposal} {ps : List Proposal}
    (h : (ps.map (·.getHash env)).Nodup) : ((insertProposal env p ps).map (·.getHash env)).Nodup := by
  unfold insertProposal
  split_ifs with hp
  · exact h
  · simp only [List.any_eq_true, beq_iff_eq, not_exists, not_and] at hp
    simpa [List.nodup_append, h] using fun q hq => hp q hq

theorem nodup_insertVote {env : Env} {v : Vote} {vs : List Vote}
    (h : (vs.map (·.getHash env)).Nodup) : ((insertVote env v vs).map (·.getHash env)).Nodup := by
  unfold insertVote
  split_ifs with hv
  · exact h
  · simp only [List.any_eq_true, beq_iff_eq, not_exists, not_and] at hv
    simpa [List.nodup_append, h] using fun q hq => hv q hq

/-- The `sigHash` comparison of `dataFromBlock` decides nothing: when the hash is present
both of its branches leave the set as it is. -/
theorem addVote_eq_insertVote (env : Env) (v : Vote) (vs : List Vote) :
    addVote env v vs = insertVote env v vs := by
  unfold addVote
  split
  · rename_i w hw
    have hw' := List.find?_some hw
    have hany : vs.any (·.getHash env == v.getHash env) = true :=
      List.any_eq_true.mpr ⟨w, List.mem_of_find?_eq_some hw, hw'⟩
    split_ifs <;> simp [insertVote, hany]
  · rfl

theorem readOutput_vote {env : Env} {view : CoinView} {height : CInt} {outpoint : OutPoint}
    {time : CAmount} {script : Bytes} {v : Vote}
    (h : readOutput env view height outpoint time script = .ok (some (.vote v))) :
    ∃ data s', (Vote.read env view outpoint time height).run data = .ok (v, s') := by
  cases script with
  | nil => cases h
  | cons op tail =>
    simp only [readOutput] at h
    split_ifs at h
    · cases h
    · generalize opReturnData (op :: tail) = data at h
      obtain ⟨obj, -, h⟩ := except_bind_ok h
      split_ifs at h
      · cases h
      · obtain ⟨p, -, h⟩ := except_map_eq_ok h
        cases h
      · obtain ⟨a, ha, hav⟩ := except_map_eq_ok h
        obtain ⟨⟨a', s'⟩, hr, rfl⟩ := except_map_eq_ok ha
        cases hav
        exact ⟨data, s', hr⟩
      · cases h

/-- What `readOutput` reads a proposal or a vote from: an OP_RETURN script whose data holds
a network object of the current version, then the object of its type. -/
theorem readOutput_some {env : Env} {view : CoinView} {height : CInt} {outpoint : OutPoint}
    {time : CAmount} {script : Bytes} {obj : GovObject}
    (h : readOutput env view height outpoint time script = .ok (some obj)) :
    ∃ tail o, script = opReturn :: tail ∧ NetworkObject.read.run' (opReturnData script) = .ok o ∧
      o.version = networkVersion ∧
      ((∃ p, obj = .proposal p ∧ o.type = typeProposal ∧
          (Proposal.read height).run' (opReturnData script) = .ok p) ∨
        (∃ v, obj = .vote v ∧ o.type = typeVote ∧
          (Vote.read env view outpoint time height).run' (opReturnData script) = .ok v)) := by
  cases script with
  | nil => cases h
  | cons op tail =>
    simp only [readOutput] at h
    split_ifs at h with hop
    · cases h
    · obtain ⟨o, ho, h⟩ := except_bind_ok h
      refine ⟨tail, o, by simpa using hop, ho, ?_⟩
      split_ifs at h with hv ht ht'
      · cases h
      · have hver : o.version = networkVersion := by simpa [NetworkObject.isValid] using hv
        obtain ⟨p, hp, h⟩ := except_map_eq_ok h
        cases h
        exact ⟨hver, .inl ⟨p, rfl, beq_iff_eq.mp ht, hp⟩⟩
      · have hver : o.version = networkVersion := by simpa [NetworkObject.isValid] using hv
        obtain ⟨v, hv, h⟩ := except_map_eq_ok h
        cases h
        exact ⟨hver, .inr ⟨v, rfl, beq_iff_eq.mp ht', hv⟩⟩
      · cases h

/-- What a vote `dataFromBlock` keeps satisfies. -/
def VoteKept (params : Params) (env : Env) (view : CoinView) (proposals : StdMap Proposal)
    (index : Option CInt) (v : Vote) : Prop :=
  v.isValid params env view = true ∧ index.all (v.meetsCutoff params proposals) = true ∧
    v.proposal < 2 ^ 256 ∧ v.utxo.hash < 2 ^ 256

/-- What a proposal `dataFromBlock` keeps satisfies. -/
def ProposalKept (params : Params) (env : Env) (index : Option CInt) (p : Proposal) : Prop :=
  p.isValid params env = true ∧ index.all (p.meetsCutoff params) = true

/-- Every kept object passed its checks, and no two kept objects share a hash. -/
def Kept (params : Params) (env : Env) (view : CoinView) (proposals : StdMap Proposal)
    (index : Option CInt) (r : List Proposal × List Vote) : Prop :=
  (∀ p ∈ r.1, ProposalKept params env index p) ∧
    (∀ v ∈ r.2, VoteKept params env view proposals index v) ∧
    (r.1.map (·.getHash env)).Nodup ∧ (r.2.map (·.getHash env)).Nodup

theorem acceptObject_kept {params : Params} {env : Env} {view : CoinView}
    {proposals : StdMap Proposal} {index : Option CInt} (block : Block) :
    KeptBy params env view proposals block index (Kept params env view proposals index) := by
  refine ⟨⟨by simp, by simp, by simp, by simp⟩, ?_⟩
  intro tx _ out _ n obj hread acc ⟨hp, hv, hnp, hnv⟩
  match obj, hread with
  | none, _ => exact ⟨hp, hv, hnp, hnv⟩
  | some (.proposal p), _ =>
    simp only [acceptObject]
    split_ifs with hacc
    · simp only [Bool.and_eq_true] at hacc
      refine ⟨fun q hq => ?_, hv, nodup_insertProposal hnp, hnv⟩
      rcases mem_insertProposal hq with hq | rfl
      · exact hp q hq
      · exact hacc
    · exact ⟨hp, hv, hnp, hnv⟩
  | some (.vote v), hread =>
    simp only [acceptObject, addVote_eq_insertVote]
    split_ifs with hacc
    · simp only [Bool.and_eq_true] at hacc
      obtain ⟨data, s', hrun⟩ := readOutput_vote hread
      have hfits := Vote.read_returns env view _ _ _ data v s' hrun
      refine ⟨hp, fun w hw => ?_, hnp, nodup_insertVote hnv⟩
      rcases mem_insertVote hw with hw | rfl
      · exact hv w hw
      · exact ⟨hacc.1.1, hacc.1.2, hfits.1, hfits.2.1⟩
    · exact ⟨hp, hv, hnp, hnv⟩

theorem mem_acceptObject_vote {params : Params} {env : Env} {view : CoinView}
    {proposals : StdMap Proposal} {index : Option CInt} {tx : Transaction}
    {outpoint : OutPoint} {time : CAmount} {script : Bytes} {obj : Option GovObject}
    (hread : readOutput env view (index.getD 0) outpoint time script = .ok obj)
    {acc : List Proposal × List Vote} {v : Vote}
    (hv : v ∈ (acceptObject params env view proposals index tx acc obj).2) :
    v ∈ acc.2 ∨ VoteKept params env view proposals index v := by
  match obj, hread with
  | none, _ => exact .inl hv
  | some (.proposal p), _ =>
    simp only [acceptObject] at hv
    split_ifs at hv <;> exact .inl hv
  | some (.vote w), hread =>
    simp only [acceptObject, addVote_eq_insertVote] at hv
    split_ifs at hv with hacc
    · rcases mem_insertVote hv with hv | rfl
      · exact .inl hv
      · simp only [Bool.and_eq_true] at hacc
        obtain ⟨data, s', hrun⟩ := readOutput_vote hread
        have hfits := Vote.read_returns env view _ _ _ data v s' hrun
        exact .inr ⟨hacc.1.1, hacc.1.2, hfits.1, hfits.2.1⟩
    · exact .inl hv

theorem dataFromBlock_kept {params : Params} {env : Env} {view : CoinView}
    {proposals : StdMap Proposal} {block : Block} {index : Option CInt}
    {r : List Proposal × List Vote}
    (h : dataFromBlock params env view proposals block index = .ok r) :
    Kept params env view proposals index r :=
  dataFromBlock_inv (acceptObject_kept block) h

/-! ## What the loop does not drop -/

theorem mem_insertProposal_of_mem {env : Env} {p q : Proposal} {ps : List Proposal}
    (h : q ∈ ps) : q ∈ insertProposal env p ps := by
  unfold insertProposal
  split_ifs
  exacts [h, List.mem_append_left _ h]

theorem mem_insertVote_of_mem {env : Env} {v w : Vote} {vs : List Vote} (h : w ∈ vs) :
    w ∈ insertVote env v vs := by
  unfold insertVote
  split_ifs
  exacts [h, List.mem_append_left _ h]

theorem exists_hash_insertProposal (env : Env) (p : Proposal) (ps : List Proposal) :
    ∃ q ∈ insertProposal env p ps, q.getHash env = p.getHash env := by
  unfold insertProposal
  split_ifs with hp
  · simpa using hp
  · exact ⟨p, by simp, rfl⟩

theorem acceptObject_mono {params : Params} {env : Env} {view : CoinView}
    {proposals : StdMap Proposal} {index : Option CInt} {tx : Transaction}
    (acc : List Proposal × List Vote) (obj : Option GovObject) :
    acc.1 ⊆ (acceptObject params env view proposals index tx acc obj).1 ∧
      acc.2 ⊆ (acceptObject params env view proposals index tx acc obj).2 := by
  match obj with
  | none => exact ⟨fun _ h => h, fun _ h => h⟩
  | some (.proposal p) =>
    simp only [acceptObject]
    split_ifs
    · exact ⟨fun _ h => mem_insertProposal_of_mem h, fun _ h => h⟩
    · exact ⟨fun _ h => h, fun _ h => h⟩
  | some (.vote v) =>
    simp only [acceptObject, addVote_eq_insertVote]
    split_ifs
    · exact ⟨fun _ h => h, fun _ h => mem_insertVote_of_mem h⟩
    · exact ⟨fun _ h => h, fun _ h => h⟩

section Complete

variable {params : Params} {env : Env} {view : CoinView} {proposals : StdMap Proposal}
  {block : Block} {index : Option CInt} {tx : Transaction} {n : Nat} {out : TxOut}
  {r : List Proposal × List Vote}

/-- A proposal read from an output of a non-coinbase transaction that is valid and meets
its cutoff leaves a proposal of its hash in what `dataFromBlock` returns. -/
theorem dataFromBlock_proposal_hash
    (hr : dataFromBlock params env view proposals block index = .ok r) (htx : tx ∈ block.vtx)
    (hcb : tx.isCoinBase = false) (hout : tx.vout[n]? = some out) {p : Proposal}
    (hread : readOutput env view (index.getD 0) ⟨env.txHash tx, n.toUInt32⟩ block.time
      out.scriptPubKey = .ok (some (.proposal p)))
    (hp : ProposalKept params env index p) :
    ∃ q ∈ r.1, q.getHash env = p.getHash env := by
  refine dataFromBlock_hit (P := fun acc => ∃ q ∈ acc.1, q.getHash env = p.getHash env)
    (fun _ _ _ _ _ obj _ acc ⟨q, hq, hk⟩ => ⟨q, (acceptObject_mono acc obj).1 hq, hk⟩)
    htx hcb hout hread (fun acc => ?_) hr
  simp only [acceptObject, hp.1, hp.2, Bool.and_self, if_true]
  exact exists_hash_insertProposal env p acc.1

end Complete

/-! ## One output at a time

Nothing in the loop of `dataFromBlock` touches the store but `meetsCutoff` on a vote, and
that takes `mu` once per vote, through `instance().getProposal`: another thread may merge
between two outputs of one extraction. `dataFromBlockReads` is the loop as a fold over the
outputs it visits (`blockOutputs`), the cutoff check of each reading a store of its own;
with one store for all of them it is `dataFromBlock` (`dataFromBlock_eq_reads`). -/

/-- The outputs of `tx` from output `n` on, with their indices. -/
def txOutputs (tx : Transaction) : Nat → List TxOut → List (Transaction × Nat × TxOut)
  | _, [] => []
  | n, out :: outs => (tx, n, out) :: txOutputs tx (n + 1) outs

/-- The outputs `dataFromBlock` visits, in order: those of every transaction but the
coinbase. -/
def blockOutputs (block : Block) : List (Transaction × Nat × TxOut) :=
  block.vtx.flatMap fun tx => if tx.isCoinBase then [] else txOutputs tx 0 tx.vout

/-- One turn of the loop, on output `n` of `tx`, its cutoff checked against `proposals`. -/
def dataFromOutput (params : Params) (env : Env) (view : CoinView)
    (proposals : StdMap Proposal) (block : Block) (index : Option CInt)
    (acc : List Proposal × List Vote) (o : Transaction × Nat × TxOut) :
    Except Failure (List Proposal × List Vote) := do
  let obj ← readOutput env view (index.getD 0) ⟨env.txHash o.1, o.2.1.toUInt32⟩ block.time
    o.2.2.scriptPubKey
  pure (acceptObject params env view proposals index o.1 acc obj)

/-- The loop of `dataFromBlock`, the cutoff check of the `i`-th output it visits reading the
proposals `reads[i]`. -/
def dataFromBlockReads (params : Params) (env : Env) (view : CoinView)
    (reads : List (StdMap Proposal)) (block : Block) (index : Option CInt) :
    Except Failure (List Proposal × List Vote) :=
  ((blockOutputs block).zip reads).foldlM
    (fun acc o => dataFromOutput params env view o.2 block index acc o.1) ([], [])

section Outputs

variable {params : Params} {env : Env} {view : CoinView} {proposals : StdMap Proposal}
  {block : Block} {index : Option CInt}

theorem dataFromOutputs_eq_foldlM (tx : Transaction) :
    ∀ (n : Nat) (outs : List TxOut) (acc : List Proposal × List Vote),
      dataFromOutputs params env view proposals block index tx n outs acc =
        (txOutputs tx n outs).foldlM (dataFromOutput params env view proposals block index) acc
  | _, [], _ => rfl
  | n, out :: outs, acc => by
    simp only [dataFromOutputs, txOutputs, List.foldlM_cons, dataFromOutput, bind_assoc,
      pure_bind, dataFromOutputs_eq_foldlM tx (n + 1) outs]

theorem dataFromTxs_eq_foldlM :
    ∀ (txs : List Transaction) (acc : List Proposal × List Vote),
      dataFromTxs params env view proposals block index txs acc =
        (txs.flatMap fun tx => if tx.isCoinBase then [] else txOutputs tx 0 tx.vout).foldlM
          (dataFromOutput params env view proposals block index) acc
  | [], _ => rfl
  | tx :: txs, acc => by
    rw [dataFromTxs, List.flatMap_cons, List.foldlM_append]
    cases tx.isCoinBase <;> simp [dataFromOutputs_eq_foldlM, dataFromTxs_eq_foldlM txs]

theorem zip_replicate_length {α β : Type} (b : β) :
    ∀ l : List α, l.zip (List.replicate l.length b) = l.map (·, b)
  | [] => rfl
  | a :: l => by
    rw [List.length_cons, List.replicate_succ, List.zip_cons_cons, zip_replicate_length b l,
      List.map_cons]

theorem dataFromBlock_eq_foldlM : dataFromBlock params env view proposals block index =
    (blockOutputs block).foldlM (dataFromOutput params env view proposals block index) ([], []) :=
  dataFromTxs_eq_foldlM _ _

/-- With one store read for every output, the loop is `dataFromBlock`. -/
theorem dataFromBlock_eq_reads : dataFromBlock params env view proposals block index =
    dataFromBlockReads params env view (List.replicate (blockOutputs block).length proposals)
      block index := by
  rw [dataFromBlock_eq_foldlM, dataFromBlockReads, zip_replicate_length, List.foldlM_map]

/-- Every vote the loop keeps passed its checks against the store its own cutoff check
read. -/
theorem dataFromBlockReads_kept {reads : List (StdMap Proposal)} {r : List Proposal × List Vote}
    (h : dataFromBlockReads params env view reads block index = .ok r) :
    ∀ v ∈ r.2, ∃ read, VoteKept params env view read index v := by
  refine foldlM_except_inv (fun acc : List Proposal × List Vote =>
    ∀ v ∈ acc.2, ∃ read, VoteKept params env view read index v) (fun acc o acc' hacc h' v hv => ?_)
    _ (fun _ hv => absurd hv (List.not_mem_nil _)) h
  obtain ⟨obj, hread, h'⟩ := except_bind_ok h'
  cases h'
  exact (mem_acceptObject_vote hread hv).elim (hacc v) fun hk => ⟨_, hk⟩

end Outputs

/-! ## Chain states -/

/-- The chain state of `blocks`, with an empty mempool: an output is a coin when a
transaction of the blocks creates it, it is not an `OP_RETURN`, and no input spends it. -/
def chainView (env : Env) (blocks : List Block) : CoinView where
  getTransaction := fun h => (blocks.flatMap (·.vtx)).find? (env.txHash · == h)
  haveCoin := fun o =>
    (blocks.flatMap (·.vtx)).any (fun tx => env.txHash tx == o.hash &&
      (tx.vout[o.n.toNat]?).any (·.scriptPubKey.head? != some opReturn)) &&
    !(blocks.flatMap (·.vtx)).any (·.vin.any (·.prevout == o))
  mempoolTx := fun _ => none
  mempoolSpent := fun _ => false

/-! ## A sample chain

Blocks to evaluate the model on. Under `sampleEnv`, `sampleKey` is a compressed key with key
id 7 and `sampleCoin` pays 50 to that key id; every governance transaction spends an input
whose script pushes the key, as a transaction `submitVotes` signs does. -/

def coinbaseTx : Transaction := ⟨[⟨OutPoint.null, []⟩], [⟨50, [0x51]⟩]⟩

/-- A compressed key whose id under `sampleEnv` is 7. -/
def sampleKey : Bytes := 2 :: 7 :: List.replicate 31 0

/-- A transaction paying 50 to key id 7. -/
def sampleCoin : Transaction := ⟨[], [⟨50, [0x76, 7]⟩]⟩

def sampleUtxo : OutPoint := ⟨sampleEnv.txHash sampleCoin, 0⟩

def sampleBlock (time : CAmount) (txs : List Transaction) : Block := ⟨coinbaseTx :: txs, time⟩

/-- The chain state after a block with `sampleCoin`: its one coin of interest is
`sampleUtxo`. -/
def sampleView : CoinView := chainView sampleEnv [sampleBlock 50 [sampleCoin]]

/-- A valid proposal for the superblock 144 of `sampleParams`. -/
def sampleProposal : Proposal :=
  { name := [97, 98], superblock := 144, amount := 500, address := [1] }

/-- A vote on `sampleProposal` from `sampleUtxo`, signed with `sampleKey`. -/
def sampleVote (vote : UInt8) : Vote :=
  { proposal := sampleProposal.getHash sampleEnv, vote := vote, utxo := sampleUtxo,
    signature := sampleKey }

/-- A transaction spending `prevout` with a script that pushes `sampleKey`, whose output
carries `payload` after `OP_RETURN`. -/
def opReturnTx (prevout : OutPoint) (payload : Bytes) : Transaction :=
  ⟨[⟨prevout, pushData sampleKey⟩], [⟨0, opReturn :: pushData payload⟩]⟩

def proposalBlock : Block := sampleBlock 100 [opReturnTx ⟨5, 0⟩ sampleProposal.ser]

/-- A block with time `time` that submits `sampleVote vote`. -/
def voteBlock (time : CAmount) (vote : UInt8) : Block :=
  sampleBlock time [opReturnTx ⟨5, 1⟩ (sampleVote vote).ser]

/-- `sampleVote vote` as `dataFromBlock` reads it from `voteBlock time vote` at height
`height`: with the recovered key, the key id and value of `sampleUtxo`, and the outpoint,
time and height it was read at. -/
def sampleVoteRead (time : CAmount) (vote : UInt8) (height : CInt) : Vote :=
  { sampleVote vote with
    pubkey := sampleKey, keyid := 7, amount := 50, time := time, blockNumber := height,
    outpoint := ⟨sampleEnv.txHash (opReturnTx ⟨5, 1⟩ (sampleVote vote).ser), 0⟩ }

/-! ## Scripts the loop cannot read -/

theorem readOutput_bare_opReturn (env : Env) (view : CoinView) (height : CInt)
    (outpoint : OutPoint) (time : CAmount) :
    readOutput env view height outpoint time [opReturn] = .error .endOfData := rfl

theorem readOutput_empty (env : Env) (view : CoinView) (height : CInt) (outpoint : OutPoint)
    (time : CAmount) : readOutput env view height outpoint time [] = .error .emptyScript := rfl

/-- A bare `OP_RETURN` output in a non-coinbase transaction makes `dataFromBlock` throw,
with a block index or without: the stream's exception is not caught. -/
theorem dataFromBlock_throws_bare_opReturn (params : Params) (env : Env) (view : CoinView)
    (proposals : StdMap Proposal) (block : Block) (tx : Transaction) (value : CAmount)
    (htx : tx ∈ block.vtx) (hcb : tx.isCoinBase = false) (hout : ⟨value, [opReturn]⟩ ∈ tx.vout)
    (index : Option CInt) : ∃ e, dataFromBlock params env view proposals block index = .error e :=
  dataFromBlock_throws_of_readOutput htx hcb hout fun _ => readOutput_bare_opReturn ..

def bareOpReturnTx : Transaction := ⟨[⟨⟨5, 0⟩, []⟩], [⟨0, [opReturn]⟩]⟩

theorem sampleBlock_bare_opReturn_throws :
    bareOpReturnTx ∈ (sampleBlock 100 [bareOpReturnTx]).vtx ∧ bareOpReturnTx.isCoinBase = false ∧
      (⟨0, [opReturn]⟩ : TxOut) ∈ bareOpReturnTx.vout ∧
      ∃ e, dataFromBlock sampleParams sampleEnv emptyView .empty
        (sampleBlock 100 [bareOpReturnTx]) (some 1) = .error e :=
  ⟨by decide, rfl, by decide, dataFromBlock_throws_bare_opReturn sampleParams sampleEnv emptyView
    .empty _ bareOpReturnTx 0 (by decide) rfl (by decide) (some 1)⟩

end Gov
