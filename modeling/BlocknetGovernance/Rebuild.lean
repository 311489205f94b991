import BlocknetGovernance.Consistency

/-!
# The store is rebuilt from the chain

A node that follows the chain connects each block against the chain state that ends with
that block. A node that restarts runs `loadGovernanceData`: its workers connect every block
from `governanceBlock` on against the state of the whole chain, and the erasing pass then
drops the votes on spent outputs. `connectChain` is that replay with the workers run one
after another.

* `dataFromBlock_later`: against a state that has also spent the outputs `later`, a block
  gives the same proposals, and the same votes less those on an output of `later`, provided
  its votes name no transaction the later blocks hold.
* `connectData_dropSpent`: block after block, the loader's store is the listener's store
  less the votes on outputs the later blocks spend.
* `connectChain_runEvents`: the replay returns the listener's store, and fails where the
  listener fails, when the blocks below `governanceBlock` carry no payload, no vote names a
  transaction of a later block, and the vote hash of each vote payload of the chain names
  its output.

The conditions are needed. The listener stores what the blocks below `governanceBlock` carry,
and the loader never reads them. A vote on an output of a later block finds no coin when its
block connects, so the listener drops it; the loader looks the output up in the whole chain
and keeps it (`lateCoinChain`, at the end of this module).
-/

namespace Gov

/-! ## The state of a chain and of its prefixes -/

theorem isUTXOSpent_chainView (env : Env) (blocks : List Block) (u : OutPoint) (b : Bool) :
    Vote.isUTXOSpent (chainView env blocks) u b = !(chainView env blocks).haveCoin u := by
  cases b <;> simp [Vote.isUTXOSpent, chainView]

theorem getTransaction_chainView_append (env : Env) (pre post : List Block) {h : Nat}
    (hpost : ∀ b ∈ post, ∀ tx ∈ b.vtx, env.txHash tx ≠ h) :
    (chainView env (pre ++ post)).getTransaction h = (chainView env pre).getTransaction h := by
  have hnone : (post.flatMap (·.vtx)).find? (env.txHash · == h) = none :=
    List.find?_eq_none.mpr fun tx htx => by
      obtain ⟨b, hb, htx⟩ := List.mem_flatMap.mp htx
      simpa using hpost b hb tx htx
  simp only [chainView, List.flatMap_append, List.find?_append, hnone, Option.or_none]

theorem haveCoin_chainView_append (env : Env) (pre post : List Block) {o : OutPoint}
    (hpost : ∀ b ∈ post, ∀ tx ∈ b.vtx, env.txHash tx ≠ o.hash) :
    (chainView env (pre ++ post)).haveCoin o =
      ((chainView env pre).haveCoin o && !(post.flatMap blockPrevouts).contains o) := by
  have hmade : (post.flatMap (·.vtx)).any (fun tx => env.txHash tx == o.hash &&
      (tx.vout[o.n.toNat]?).any (·.scriptPubKey.head? != some opReturn)) = false :=
    List.any_eq_false.mpr fun tx htx => by
      obtain ⟨b, hb, htx⟩ := List.mem_flatMap.mp htx
      simp [hpost b hb tx htx]
  have hspent : (post.flatMap (·.vtx)).any (·.vin.any (·.prevout == o)) =
      (post.flatMap blockPrevouts).contains o := by
    rw [Bool.eq_iff_iff]
    simp only [List.any_eq_true, List.mem_flatMap, beq_iff_eq, blockPrevouts, List.mem_map,
      List.elem_iff]
    constructor
    · rintro ⟨tx, ⟨b, hb, htx⟩, i, hi, rfl⟩; exact ⟨b, hb, tx, htx, i, hi, rfl⟩
    · rintro ⟨b, hb, tx, htx, i, hi, rfl⟩; exact ⟨tx, ⟨b, hb, htx⟩, i, hi, rfl⟩
  simp only [chainView, List.flatMap_append, List.any_append, hmade, hspent, Bool.or_false,
    Bool.not_or, Bool.and_assoc]

/-! ## Vote payloads -/

/-- The vote an output's payload holds, its fields as `Vote::SerializationOp` reads them. -/
def payloadVote (script : Bytes) : Option Vote :=
  ((Vote.readFields OutPoint.null 0 0).run' (opReturnData script)).toOption

/-- The votes the outputs of a block hold. -/
def payloadVotes (block : Block) : List Vote :=
  block.vtx.flatMap fun tx => tx.vout.filterMap fun out => payloadVote out.scriptPubKey

theorem readFields_run_eq (o : OutPoint) (t : CAmount) (h : CInt) (data : Bytes) :
    (Vote.readFields o t h).run data = ((Vote.readFields OutPoint.null 0 0).run data).map
      fun p => ({ p.1 with outpoint := o, time := t, blockNumber := h }, p.2) := by
  have : Vote.readFields o t h =
      (fun v => { v with outpoint := o, time := t, blockNumber := h }) <$>
        Vote.readFields OutPoint.null 0 0 := by
    simp [Vote.readFields]
  rw [this, StateT.run_map]
  rfl

theorem readOutput_payloadVote {env : Env} {view : CoinView} {height : CInt} {outpoint : OutPoint}
    {time : CAmount} {script : Bytes} {v : Vote}
    (h : readOutput env view height outpoint time script = .ok (some (.vote v))) :
    ∃ p, payloadVote script = some p ∧ p.getHash env = v.getHash env ∧ p.utxo = v.utxo := by
  cases script with
  | nil => cases h
  | cons op tail =>
    simp only [readOutput] at h
    split_ifs at h
    · cases h
    · obtain ⟨obj, -, h⟩ := except_bind_ok h
      split_ifs at h
      · cases h
      · obtain ⟨p, -, h⟩ := except_map_eq_ok h
        cases h
      · obtain ⟨a, ha, hav⟩ := except_map_eq_ok h
        obtain ⟨⟨a', s'⟩, hr, rfl⟩ := except_map_eq_ok ha
        cases hav
        change StateT.run (Vote.read env view outpoint time height) _ = _ at hr
        rw [Vote.read_run, readFields_run_eq] at hr
        obtain ⟨⟨w, r⟩, hw, hr⟩ := except_bind_ok hr
        obtain ⟨⟨w', r'⟩, hw', hwr⟩ := except_map_eq_ok hw
        cases hwr
        obtain ⟨v', hrec, hv⟩ := except_map_eq_ok hr
        cases hv
        obtain ⟨h1, h2, h3, -, h5, -⟩ := Vote.recover_fields hrec
        refine ⟨w', by rw [payloadVote, StateT.run'_eq, hw']; rfl, ?_, h5.symm⟩
        exact Vote.getHash_congr env h1.symm h2.symm h3.symm h5.symm
      · cases h

theorem recover_congr (env : Env) {view view' : CoinView} {v : Vote}
    (h : view'.getTransaction v.utxo.hash = view.getTransaction v.utxo.hash) :
    Vote.recover env view' v = Vote.recover env view v := by
  simp only [Vote.recover, Vote.loadKeyID, Vote.getKeyIDForUTXO_congr env h]

/-- `readOutput` reads the chain state only through the transaction of the output a vote
payload names. -/
theorem readOutput_congr (env : Env) {view view' : CoinView} (height : CInt)
    (outpoint : OutPoint) (time : CAmount) {script : Bytes}
    (h : ∀ p, payloadVote script = some p →
      view'.getTransaction p.utxo.hash = view.getTransaction p.utxo.hash) :
    readOutput env view' height outpoint time script =
      readOutput env view height outpoint time script := by
  have hread : (Vote.read env view' outpoint time height).run' (opReturnData script) =
      (Vote.read env view outpoint time height).run' (opReturnData script) := by
    rw [StateT.run'_eq, StateT.run'_eq, Vote.read_run, Vote.read_run, readFields_run_eq]
    cases hr : (Vote.readFields OutPoint.null 0 0).run (opReturnData script) with
    | error e => rfl
    | ok p =>
      have hp := h p.1 (by rw [payloadVote, StateT.run'_eq, hr]; rfl)
      simp only [except_map_ok_eq, except_ok_bind]
      rw [@recover_congr env view view' { p.1 with outpoint, time, blockNumber := height } hp]
  cases script with
  | nil => rfl
  | cons op tail => simp only [readOutput, hread]

/-! ## One block against two chain states -/

/-- The vote's output is not one of `spends`. -/
def unspentBy (spends : List OutPoint) (v : Vote) : Bool := !spends.contains v.utxo

/-- The vote's hash and output are a pair of `keys`. -/
def InKeys (env : Env) (keys : List (Nat × OutPoint)) (v : Vote) : Prop :=
  (v.getHash env, v.utxo) ∈ keys

/-- In `keys` a hash names one output. -/
def KeysFunctional (keys : List (Nat × OutPoint)) : Prop :=
  ∀ a ∈ keys, ∀ b ∈ keys, a.1 = b.1 → a.2 = b.2

theorem InKeys.utxo_eq {env : Env} {keys : List (Nat × OutPoint)} (hK : KeysFunctional keys)
    {v w : Vote} (hv : InKeys env keys v) (hw : InKeys env keys w)
    (h : w.getHash env = v.getHash env) : w.utxo = v.utxo :=
  hK _ hw _ hv h

theorem insertVote_filter {env : Env} {s : Vote → Bool} {v : Vote} {vs : List Vote}
    (hv : s v = true) (hs : ∀ w ∈ vs, w.getHash env = v.getHash env → s w = true) :
    insertVote env v (vs.filter s) = (insertVote env v vs).filter s := by
  have hany : (vs.filter s).any (·.getHash env == v.getHash env) =
      vs.any (·.getHash env == v.getHash env) := by
    rw [Bool.eq_iff_iff]
    simp only [List.any_eq_true, List.mem_filter, beq_iff_eq]
    exact ⟨fun ⟨w, ⟨hw, _⟩, he⟩ => ⟨w, hw, he⟩,
      fun ⟨w, hw, he⟩ => ⟨w, ⟨hw, hs w hw he⟩, he⟩⟩
  unfold insertVote
  rw [hany]
  split_ifs <;> simp [List.filter_append, hv]

theorem insertVote_filter_of_false {env : Env} {s : Vote → Bool} {v : Vote} {vs : List Vote}
    (hv : s v = false) : (insertVote env v vs).filter s = vs.filter s := by
  unfold insertVote
  split_ifs <;> simp [List.filter_append, hv]

section Extraction

variable {params : Params} {env : Env} {view view' : CoinView} {proposals : StdMap Proposal}
  {block : Block} {index : Option CInt} {later : List OutPoint} {keys : List (Nat × OutPoint)}

theorem isValid_later {v : Vote}
    (h : Vote.isUTXOSpent view' v.utxo true =
      (Vote.isUTXOSpent view v.utxo true || later.contains v.utxo)) :
    v.isValid params env view' = (v.isValid params env view && unspentBy later v) := by
  simp only [Vote.isValid, h, unspentBy, Bool.not_or, Bool.and_assoc]

/-- One object against two chain states: the later state drops the votes whose output
`later` spends, and keeps the rest as the earlier state does. -/
theorem acceptObject_later (hK : KeysFunctional keys) (tx : Transaction)
    {acc : List Proposal × List Vote} (hacc : ∀ w ∈ acc.2, InKeys env keys w)
    {obj : Option GovObject}
    (hobj : ∀ v, obj = some (.vote v) → InKeys env keys v ∧
      Vote.isUTXOSpent view' v.utxo true =
        (Vote.isUTXOSpent view v.utxo true || later.contains v.utxo)) :
    acceptObject params env view' proposals index tx (acc.1, acc.2.filter (unspentBy later)) obj =
      ((acceptObject params env view proposals index tx acc obj).1,
        (acceptObject params env view proposals index tx acc obj).2.filter (unspentBy later)) := by
  match obj, hobj with
  | none, _ => rfl
  | some (.proposal p), _ =>
    simp only [acceptObject]
    split_ifs <;> rfl
  | some (.vote v), hobj =>
    obtain ⟨hv, hspent⟩ := hobj v rfl
    simp only [acceptObject, addVote_eq_insertVote, isValid_later hspent]
    cases hs : unspentBy later v
    · simp only [Bool.and_false, Bool.false_and, Bool.false_eq_true, if_false]
      split_ifs <;> simp [insertVote_filter_of_false hs]
    · simp only [Bool.and_true]
      split_ifs
      · exact congrArg _ (insertVote_filter hs fun w hw he => by
          rw [unspentBy, hv.utxo_eq hK (hacc w hw) he]; exact hs)
      · rfl

/-- What the votes of `block` read from `view'` against `view`: the same transactions, and
`view'` has spent the outputs `later` as well; and their hashes and outputs are pairs of
`keys`. -/
structure ReadsAsLater (env : Env) (view view' : CoinView) (later : List OutPoint)
    (keys : List (Nat × OutPoint)) (block : Block) : Prop where
  getTransaction : ∀ p ∈ payloadVotes block,
    view'.getTransaction p.utxo.hash = view.getTransaction p.utxo.hash
  spent : ∀ p ∈ payloadVotes block, Vote.isUTXOSpent view' p.utxo true =
    (Vote.isUTXOSpent view p.utxo true || later.contains p.utxo)
  keys : ∀ p ∈ payloadVotes block, InKeys env keys p

theorem mem_payloadVotes {tx : Transaction} (htx : tx ∈ block.vtx) {out : TxOut}
    (hout : out ∈ tx.vout) {p : Vote} (hp : payloadVote out.scriptPubKey = some p) :
    p ∈ payloadVotes block :=
  List.mem_flatMap.mpr ⟨tx, htx, List.mem_filterMap.mpr ⟨out, hout, hp⟩⟩

theorem inKeys_of_readOutput (hkeys : ∀ p ∈ payloadVotes block, InKeys env keys p)
    {tx : Transaction} (htx : tx ∈ block.vtx) {out : TxOut} (hout : out ∈ tx.vout)
    {height : CInt} {outpoint : OutPoint} {time : CAmount} {v : Vote}
    (hr : readOutput env view height outpoint time out.scriptPubKey = .ok (some (.vote v))) :
    InKeys env keys v := by
  obtain ⟨p, hp, hh, hu⟩ := readOutput_payloadVote hr
  have hk := hkeys p (mem_payloadVotes htx hout hp)
  rwa [InKeys, hh, hu] at hk

theorem ReadsAsLater.vote (h : ReadsAsLater env view view' later keys block) {tx : Transaction}
    (htx : tx ∈ block.vtx) {out : TxOut} (hout : out ∈ tx.vout) {height : CInt}
    {outpoint : OutPoint} {time : CAmount} {v : Vote}
    (hr : readOutput env view height outpoint time out.scriptPubKey = .ok (some (.vote v))) :
    InKeys env keys v ∧ Vote.isUTXOSpent view' v.utxo true =
      (Vote.isUTXOSpent view v.utxo true || later.contains v.utxo) := by
  obtain ⟨p, hp, -, hu⟩ := readOutput_payloadVote hr
  exact ⟨inKeys_of_readOutput h.keys htx hout hr, hu ▸ h.spent p (mem_payloadVotes htx hout hp)⟩

theorem keptBy_inKeys (hkeys : ∀ p ∈ payloadVotes block, InKeys env keys p) :
    KeptBy params env view proposals block index fun acc => ∀ w ∈ acc.2, InKeys env keys w := by
  refine ⟨by simp, fun tx htx out hout n obj hread acc hacc => ?_⟩
  match obj, hread with
  | none, _ => exact hacc
  | some (.proposal p), _ =>
    simp only [acceptObject]
    split_ifs <;> exact hacc
  | some (.vote v), hread =>
    simp only [acceptObject, addVote_eq_insertVote]
    split_ifs
    · intro w hw
      rcases mem_insertVote hw with hw | rfl
      · exact hacc w hw
      · exact inKeys_of_readOutput hkeys htx hout hread
    · exact hacc

theorem dataFromOutputs_later (h : ReadsAsLater env view view' later keys block)
    (hK : KeysFunctional keys) {tx : Transaction} (htx : tx ∈ block.vtx) :
    ∀ (outs : List TxOut) (n : Nat) (acc : List Proposal × List Vote), outs ⊆ tx.vout →
      (∀ w ∈ acc.2, InKeys env keys w) →
      dataFromOutputs params env view' proposals block index tx n outs
          (acc.1, acc.2.filter (unspentBy later)) =
        (dataFromOutputs params env view proposals block index tx n outs acc).map
          fun r => (r.1, r.2.filter (unspentBy later))
  | [], _, _, _, _ => rfl
  | out :: outs, n, acc, hsub, hacc => by
    have hout := hsub (.head _)
    simp only [dataFromOutputs]
    rw [readOutput_congr env _ _ _ fun p hp => h.getTransaction p (mem_payloadVotes htx hout hp)]
    cases hr : readOutput env view (index.getD 0) ⟨env.txHash tx, n.toUInt32⟩ block.time
      out.scriptPubKey with
    | error e => rfl
    | ok obj =>
      simp only [except_ok_bind]
      rw [acceptObject_later hK tx hacc fun v hv => h.vote htx hout (hv ▸ hr)]
      exact dataFromOutputs_later h hK htx outs (n + 1) _ (fun x hx => hsub (.tail _ hx))
        ((keptBy_inKeys h.keys).2 tx htx out hout n obj hr acc hacc)

theorem dataFromTxs_later (h : ReadsAsLater env view view' later keys block)
    (hK : KeysFunctional keys) :
    ∀ (txs : List Transaction) (acc : List Proposal × List Vote), txs ⊆ block.vtx →
      (∀ w ∈ acc.2, InKeys env keys w) →
      dataFromTxs params env view' proposals block index txs
          (acc.1, acc.2.filter (unspentBy later)) =
        (dataFromTxs params env view proposals block index txs acc).map
          fun r => (r.1, r.2.filter (unspentBy later))
  | [], _, _, _ => rfl
  | tx :: txs, acc, hsub, hacc => by
    have htxs : txs ⊆ block.vtx := fun x hx => hsub (.tail _ hx)
    simp only [dataFromTxs]
    by_cases hc : tx.isCoinBase
    · simp only [hc, if_true, except_ok_bind]
      exact dataFromTxs_later h hK txs acc htxs hacc
    · simp only [hc, Bool.false_eq_true, if_false]
      rw [dataFromOutputs_later h hK (hsub (.head _)) tx.vout 0 acc (fun _ hx => hx) hacc]
      cases ho : dataFromOutputs params env view proposals block index tx 0 tx.vout acc with
      | error e => rfl
      | ok acc' =>
        simp only [except_map_ok_eq, except_ok_bind]
        exact dataFromTxs_later h hK txs acc' htxs
          (dataFromOutputs_inv (keptBy_inKeys h.keys).2 (hsub (.head _)) _ 0 acc acc' (fun _ hx => hx)
            hacc ho)

/-- **One block against two chain states.** Extracted against a state that has also spent
the outputs `later`, a block gives the same proposals and the same votes less those on an
output of `later`, and fails where it fails. -/
theorem dataFromBlock_later (h : ReadsAsLater env view view' later keys block)
    (hK : KeysFunctional keys) :
    dataFromBlock params env view' proposals block index =
      (dataFromBlock params env view proposals block index).map
        fun r => (r.1, r.2.filter (unspentBy later)) :=
  dataFromTxs_later h hK block.vtx ([], []) (fun _ hx => hx) (by simp)

end Extraction

/-! ## One block on the two stores -/

/-- `unspentBy spends` read off a hash: whether `keys` pairs it with an output outside
`spends`. -/
def keyUnspentBy (keys : List (Nat × OutPoint)) (spends : List OutPoint) (k : Nat) : Bool :=
  (keys.lookup k).all fun u => !spends.contains u

theorem lookup_of_mem {keys : List (Nat × OutPoint)} (hK : KeysFunctional keys) {k : Nat}
    {u : OutPoint} (h : (k, u) ∈ keys) : keys.lookup k = some u := by
  induction keys with
  | nil => cases h
  | cons a rest ih =>
    obtain ⟨k', u'⟩ := a
    by_cases hk : k = k'
    · subst hk
      simp only [List.lookup_cons, beq_self_eq_true, Option.some.injEq]
      exact hK _ (.head _) _ h rfl
    · have hb : (k == k') = false := by simpa using hk
      simp only [List.lookup_cons, hb]
      exact ih (fun a ha b hb => hK a (.tail _ ha) b (.tail _ hb))
        (by simpa [hk] using h)

theorem unspentBy_eq_key {env : Env} {keys : List (Nat × OutPoint)} (hK : KeysFunctional keys)
    {v : Vote} (hv : InKeys env keys v) (spends : List OutPoint) :
    unspentBy spends v = keyUnspentBy keys spends (v.getHash env) := by
  rw [keyUnspentBy, lookup_of_mem hK hv]
  rfl

theorem keyUnspentBy_append (keys : List (Nat × OutPoint)) (a b : List OutPoint) (k : Nat) :
    keyUnspentBy keys (a ++ b) k = (keyUnspentBy keys a k && keyUnspentBy keys b k) := by
  simp only [keyUnspentBy]
  cases keys.lookup k <;> simp

theorem find?_filter_unspentBy {env : Env} {keys : List (Nat × OutPoint)}
    (hK : KeysFunctional keys) {m : StdMap Vote}
    (hm : m.KeyedBy (Vote.getHash env) (InKeys env keys)) (spends : List OutPoint) (k : Nat) :
    (m.find? k).filter (unspentBy spends) =
      if keyUnspentBy keys spends k then m.find? k else none := by
  cases h : m.find? k with
  | none => simp
  | some w =>
    obtain ⟨rfl, hw⟩ := hm k w h
    rw [Option.filter, unspentBy_eq_key hK hw]

/-- The store less the votes on an output of `spends`. -/
def GovState.dropSpent (S : GovState) (spends : List OutPoint) : GovState :=
  ⟨S.proposals, S.votes.filter (unspentBy spends)⟩

/-- **One block on both stores.** A loader store that is the live store less the votes
spent later stays so after both connect the block. -/
theorem connectData_dropSpent {env : Env} {keys : List (Nat × OutPoint)} (hK : KeysFunctional keys)
    {S : GovState} (hS : S.votes.KeyedBy (Vote.getHash env) (InKeys env keys))
    (ps : List Proposal) {vs : List Vote} (hvs : ∀ v ∈ vs, InKeys env keys v) (block : Block)
    (later : List OutPoint) :
    connectData env (S.dropSpent (blockPrevouts block ++ later)) ps (vs.filter (unspentBy later))
        block = (connectData env S ps vs block).dropSpent later := by
  simp only [connectData, GovState.dropSpent, GovState.mk.injEq, true_and]
  set proposals := ps.foldl (fun m p => m.insert (p.getHash env) p) S.proposals
  have hvs' : vs.filter (unspentBy later) =
      vs.filter fun v => keyUnspentBy keys later (v.getHash env) :=
    List.filter_congr fun v hv => unspentBy_eq_key hK (hvs v hv) later
  have hkeyed : ∀ m : StdMap Vote, m.KeyedBy (Vote.getHash env) (InKeys env keys) →
      (vs.foldl (mergeVote env proposals) m).KeyedBy (Vote.getHash env) (InKeys env keys) :=
    fun m hm => keyedBy_foldl_mergeVote proposals vs m hm hvs
  have hS' := hS.filter (unspentBy (blockPrevouts block ++ later))
  apply StdMap.ext_find?
  intro k
  have hr : ∀ m : StdMap Vote, m.KeyedBy (Vote.getHash env) (InKeys env keys) →
      (m.find? k).filter (fun v => !(blockPrevouts block).contains v.utxo) =
        if keyUnspentBy keys (blockPrevouts block) k then m.find? k else none :=
    fun m hm => find?_filter_unspentBy hK hm _ k
  rw [StdMap.find?_filter, hvs', find?_foldl_mergeVote_filter, StdMap.find?_filter,
    StdMap.find?_filter, StdMap.find?_filter, find?_filter_unspentBy hK hS,
    keyUnspentBy_append]
  rw [hr _ (hkeyed _ hS)]
  by_cases hB : keyUnspentBy keys later k = true
  · rw [if_pos hB, hr _ (hkeyed _ hS')]
    by_cases hA : keyUnspentBy keys (blockPrevouts block) k = true
    · rw [if_pos hA, if_pos hA, find?_filter_unspentBy hK (hkeyed _ hS) later k, if_pos hB]
      refine find?_foldl_mergeVote_congr _ _ vs ?_
      rw [StdMap.find?_filter, find?_filter_unspentBy hK hS, keyUnspentBy_append, hA, hB]
      rfl
    · simp [hA]
  · rw [if_neg hB, if_neg (by simp [hB])]
    split_ifs
    · rw [find?_filter_unspentBy hK (hkeyed _ hS) later k, if_neg hB]
      rfl
    · rfl

/-! ## Blocks without payloads -/

/-- No output of the block is empty or starts with `OP_RETURN`: it carries no governance
payload, and `dataFromBlock` reads nothing from it. -/
def Payloadless (block : Block) : Prop :=
  ∀ tx ∈ block.vtx, ∀ out ∈ tx.vout,
    out.scriptPubKey ≠ [] ∧ out.scriptPubKey.head? ≠ some opReturn

section Payloadless

variable {params : Params} {env : Env} {view : CoinView} {proposals : StdMap Proposal}
  {block : Block} {index : Option CInt}

theorem readOutput_payloadless {height : CInt} {outpoint : OutPoint} {time : CAmount}
    {script : Bytes}
    (h : script ≠ [] ∧ script.head? ≠ some opReturn) :
    readOutput env view height outpoint time script = .ok none := by
  cases script with
  | nil => exact absurd rfl h.1
  | cons op tail =>
    have hop : op ≠ opReturn := fun hop => h.2 (by rw [hop]; rfl)
    simp [readOutput, hop]

theorem dataFromOutputs_payloadless {tx : Transaction} :
    ∀ (outs : List TxOut) (n : Nat) (acc : List Proposal × List Vote),
      (∀ out ∈ outs, out.scriptPubKey ≠ [] ∧ out.scriptPubKey.head? ≠ some opReturn) →
      dataFromOutputs params env view proposals block index tx n outs acc = .ok acc
  | [], _, _, _ => rfl
  | out :: outs, n, acc, h => by
    simp only [dataFromOutputs, readOutput_payloadless (h out (.head _)), except_ok_bind]
    exact dataFromOutputs_payloadless outs (n + 1) acc fun o ho => h o (.tail _ ho)

theorem dataFromTxs_payloadless (h : Payloadless block) :
    ∀ (txs : List Transaction) (acc : List Proposal × List Vote), txs ⊆ block.vtx →
      dataFromTxs params env view proposals block index txs acc = .ok acc
  | [], _, _ => rfl
  | tx :: txs, acc, hsub => by
    have hrest := dataFromTxs_payloadless h txs acc fun x hx => hsub (.tail _ hx)
    by_cases hc : tx.isCoinBase
    · simpa [dataFromTxs, hc] using hrest
    · simpa [dataFromTxs, hc, dataFromOutputs_payloadless tx.vout 0 acc (h tx (hsub (.head _)))]
        using hrest

theorem dataFromBlock_payloadless (h : Payloadless block) :
    dataFromBlock params env view proposals block index = .ok ([], []) :=
  dataFromTxs_payloadless h block.vtx ([], []) fun _ hx => hx

theorem foldlM_connect_payloadless :
    ∀ (blocks pre : List Block), (∀ b ∈ blocks, Payloadless b) →
    (blocks.map .connect).foldlM (applyEvent params env) (pre, GovState.empty) =
      .ok (pre ++ blocks, GovState.empty)
  | [], pre, _ => by simp
  | b :: blocks, pre, h => by
    simp only [List.map_cons, List.foldlM_cons, applyEvent, blockConnected,
      dataFromBlock_payloadless (h b (.head _)), except_ok_bind, except_pure]
    rw [show connectData env GovState.empty [] [] b = GovState.empty from rfl,
      foldlM_connect_payloadless blocks (pre ++ [b]) fun b' hb' => h b' (.tail _ hb')]
    simp

end Payloadless

/-! ## The live listener and the loader -/

/-- The hash and output of every vote payload of the chain. -/
def payloadKeys (env : Env) (chain : List Block) : List (Nat × OutPoint) :=
  (chain.flatMap payloadVotes).map fun p => (p.getHash env, p.utxo)

/-- A vote payload of a block of the chain names no transaction of a later block. -/
def NamesEarlierCoins (env : Env) (chain : List Block) : Prop :=
  ∀ (i : Nat) (hi : i < chain.length), ∀ p ∈ payloadVotes chain[i],
    ∀ b ∈ chain.drop (i + 1), ∀ tx ∈ b.vtx, env.txHash tx ≠ p.utxo.hash

section Run

variable {params : Params} {env : Env} {chain : List Block}

theorem foldlM_connect_chain :
    ∀ (blocks pre : List Block) (S : GovState) (c : List Block) (S' : GovState),
      (blocks.map .connect).foldlM (applyEvent params env) (pre, S) = .ok (c, S') →
        c = pre ++ blocks
  | [], _, _, _, _, h => by cases h; simp
  | b :: blocks, pre, S, c, S', h => by
    simp only [List.map_cons, List.foldlM_cons, applyEvent] at h
    obtain ⟨⟨c₁, S₁⟩, h₁, h⟩ := except_bind_ok h
    obtain ⟨T, -, h₁⟩ := except_bind_ok h₁
    cases h₁
    simpa using foldlM_connect_chain blocks (pre ++ [b]) _ c S' h

/-- The chain state of the prefix up to a block, against that of the whole chain: the block's
votes find the same transactions, and the whole chain has spent, besides, what the later
blocks spend. -/
theorem readsAsLater_chainView (hnamed : NamesEarlierCoins env chain) {pre post : List Block}
    {b : Block} (hchain : pre ++ b :: post = chain) :
    ReadsAsLater env (chainView env (pre ++ [b])) (chainView env chain)
      (post.flatMap blockPrevouts) (payloadKeys env chain) b := by
  have hi : pre.length < chain.length := by rw [← hchain]; simp
  have hb : chain[pre.length] = b := by simp [← hchain, List.getElem_append_right]
  have hpost : chain.drop (pre.length + 1) = post := by simp [← hchain]
  have hsplit : chain = (pre ++ [b]) ++ post := by simp [← hchain]
  have hfresh :
      ∀ p ∈ payloadVotes b, ∀ b' ∈ post, ∀ tx ∈ b'.vtx, env.txHash tx ≠ p.utxo.hash :=
    fun p hp => hpost ▸ hnamed pre.length hi p (hb ▸ hp)
  refine ⟨fun p hp => ?_, fun p hp => ?_, fun p hp => ?_⟩
  · rw [hsplit, getTransaction_chainView_append env _ _ (hfresh p hp)]
  · rw [hsplit, isUTXOSpent_chainView, isUTXOSpent_chainView,
      haveCoin_chainView_append env _ _ (hfresh p hp), Bool.not_and, Bool.not_not]
  · exact List.mem_map.mpr ⟨p, List.mem_flatMap.mpr ⟨b, by simp [← hchain], hp⟩, rfl⟩

/-- **The live run and the loader's replay, block by block.** From stores related as in
`connectData_dropSpent`, connecting `post` in the loader gives the live final store. -/
theorem foldlM_connectEnum_dropSpent (hK : KeysFunctional (payloadKeys env chain))
    (hnamed : NamesEarlierCoins env chain) :
    ∀ (post pre : List Block) (S : GovState), pre ++ post = chain →
      S.votes.KeyedBy (Vote.getHash env) (InKeys env (payloadKeys env chain)) →
      (chain.enum.drop pre.length).foldlM (connectEnum params env (chainView env chain))
          (S.dropSpent (post.flatMap blockPrevouts)) =
        ((post.map .connect).foldlM (applyEvent params env) (pre, S)).map
          fun r => r.2.dropSpent []
  | [], pre, S, hchain, _ => by
    subst hchain
    simp [List.drop_of_length_le]
  | b :: post, pre, S, hchain, hS => by
    have hi : pre.length < chain.length := by rw [← hchain]; simp
    have hb : chain[pre.length] = b := by simp [← hchain, List.getElem_append_right]
    have hread := readsAsLater_chainView hnamed hchain
    rw [List.drop_eq_getElem_cons (by simpa using hi), List.getElem_enum, hb, List.foldlM_cons,
      List.map_cons, List.foldlM_cons, List.flatMap_cons]
    simp only [connectEnum, blockConnected, applyEvent, GovState.dropSpent]
    rw [dataFromBlock_later hread hK]
    cases hd : dataFromBlock params env (chainView env (pre ++ [b])) S.proposals b
      (some (SInt.wrap 32 pre.length)) with
    | error e => rfl
    | ok r =>
      obtain ⟨ps, vs⟩ := r
      have hvs : ∀ v ∈ vs, InKeys env (payloadKeys env chain) v :=
        dataFromBlock_inv (keptBy_inKeys hread.keys) hd
      simp only [except_map_ok_eq, except_ok_bind, except_pure]
      have hstep := connectData_dropSpent hK hS ps hvs b (post.flatMap blockPrevouts)
      simp only [GovState.dropSpent] at hstep
      rw [hstep]
      have ih := foldlM_connectEnum_dropSpent hK hnamed post (pre ++ [b])
        (connectData env S ps vs b) (by simp [← hchain])
        ((keyedBy_foldl_mergeVote _ vs S.votes hS hvs).filter _)
      simpa only [GovState.dropSpent, List.length_append, List.length_singleton] using ih

end Run

theorem GovState.dropSpent_nil (S : GovState) : S.dropSpent [] = S := by
  obtain ⟨proposals, votes⟩ := S
  simp [GovState.dropSpent, StdMap.filter, unspentBy]

theorem pruneSpent_of_coins {env : Env} {view : CoinView} :
    ∀ (snapshot : List Vote) (m : StdMap Vote),
      (∀ v ∈ snapshot, view.haveCoin v.utxo = true) →
      pruneSpent env view snapshot m = m
  | [], _, _ => rfl
  | v :: vs, m, h => by
    simp only [pruneSpent, List.foldl_cons, Vote.isUTXOSpent, h v (.head _), Bool.not_true,
      Bool.false_eq_true, if_false]
    exact pruneSpent_of_coins vs m fun w hw => h w (.tail _ hw)

/-- **The store is rebuilt from the chain.** On a chain without payloads below
`governanceBlock`, whose votes name earlier coins by hashes that name their outputs, the
loader's replay returns the live listener's store, and fails where it fails. -/
theorem connectChain_runEvents (params : Params) (env : Env) (chain : List Block)
    (hbelow : ∀ b ∈ chain.take params.governanceBlock.val.toNat, Payloadless b)
    (hnamed : NamesEarlierCoins env chain) (hkeys : KeysFunctional (payloadKeys env chain)) :
    connectChain params env (chainView env chain) chain params.governanceBlock.val.toNat =
      (runEvents params env (chain.map .connect)).map Prod.snd := by
  set gb := params.governanceBlock.val.toNat
  have hevents : chain.map ChainEvent.connect =
      (chain.take gb).map ChainEvent.connect ++ (chain.drop gb).map ChainEvent.connect := by
    rw [← List.map_append, List.take_append_drop]
  have hdrop : chain.enum.drop (chain.take gb).length = chain.enum.drop gb := by
    rw [List.length_take]
    rcases Nat.le_total gb chain.length with h | h
    · rw [Nat.min_eq_left h]
    · rw [Nat.min_eq_right h, List.drop_of_length_le (by simp),
        List.drop_of_length_le (by simp; omega)]
  have hrun := @foldlM_connectEnum_dropSpent params env chain hkeys hnamed (chain.drop gb)
    (chain.take gb) GovState.empty (List.take_append_drop gb chain) StdMap.keyedBy_empty
  rw [hdrop, show GovState.empty.dropSpent ((chain.drop gb).flatMap blockPrevouts) =
    GovState.empty from rfl] at hrun
  rw [runEvents, hevents, List.foldlM_append, foldlM_connect_payloadless _ [] hbelow,
    List.nil_append, except_ok_bind, connectChain, hrun]
  cases hlive : ((chain.drop gb).map ChainEvent.connect).foldlM (applyEvent params env)
    (chain.take gb, GovState.empty) with
  | error e => rfl
  | ok r =>
    obtain ⟨c, L⟩ := r
    have hc : c = chain :=
      (foldlM_connect_chain _ _ _ c L hlive).trans (List.take_append_drop gb chain)
    have hL := foldlM_applyEvent_consistent _ _ c _ L
      (fun e he => by obtain ⟨b, -, rfl⟩ := List.mem_map.mp he; simp) (consistent_empty _) hlive
    simp only [except_map_ok_eq, except_ok_bind, except_pure, GovState.dropSpent_nil]
    rw [pruneSpent_of_coins _ _ fun v hv => hc ▸ hL.coin v hv]

set_option maxRecDepth 10000 in
/-- `loaderChain` meets the three conditions: its first block carries no payload, its vote
names `sampleCoin` of the first block, and it holds one vote payload. The listener stores the
proposal and the yes vote, and so does the replay. -/
theorem loaderChain_rebuilt :
    (∀ b ∈ loaderChain.take sampleParams.governanceBlock.val.toNat, Payloadless b) ∧
      NamesEarlierCoins sampleEnv loaderChain ∧
      KeysFunctional (payloadKeys sampleEnv loaderChain) ∧
      (runEvents sampleParams sampleEnv (loaderChain.map .connect)).map Prod.snd =
        .ok ⟨StdMap.empty.insert (sampleProposal.getHash sampleEnv)
            { sampleProposal with blockNumber := 1 },
          StdMap.empty.insert ((sampleVote voteYes).getHash sampleEnv)
            (sampleVoteRead 200 voteYes 2)⟩ ∧
      connectChain sampleParams sampleEnv (chainView sampleEnv loaderChain) loaderChain
          sampleParams.governanceBlock.val.toNat =
        (runEvents sampleParams sampleEnv (loaderChain.map .connect)).map Prod.snd :=
  have h1 : ∀ b ∈ loaderChain.take sampleParams.governanceBlock.val.toNat, Payloadless b := by
    unfold Payloadless; decide
  have h2 : NamesEarlierCoins sampleEnv loaderChain := by unfold NamesEarlierCoins; decide
  have h3 : KeysFunctional (payloadKeys sampleEnv loaderChain) := by
    unfold KeysFunctional; decide
  ⟨h1, h2, h3, by decide, connectChain_runEvents sampleParams sampleEnv loaderChain h1 h2 h3⟩

/-- A chain whose vote, in its third block, names `sampleCoin`, which the fourth block
creates. -/
def lateCoinChain : List Block :=
  [sampleBlock 0 [], proposalBlock, voteBlock 200 voteYes, coinBlock]

set_option maxRecDepth 10000 in
/-- A restart counts a vote the chain's listeners dropped. On `lateCoinChain` the listener
finds no coin for the vote when its block connects and stores no vote, while the loader on
one core, which looks the output up in the whole chain, stores the yes vote. -/
example :
    (runEvents sampleParams sampleEnv (lateCoinChain.map .connect)).map (·.2.getVotes) =
        .ok [] ∧
      (loadGovernanceData sampleParams sampleEnv lateCoinChain 1 (List.replicate 9 0)).map
        (·.map (·.2.getVotes)) = .ok (some [sampleVoteRead 200 voteYes 2]) :=
  ⟨by decide, by decide⟩

end Gov
