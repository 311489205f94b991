import BlocknetGovernance.Submit
import BlocknetGovernance.Store
import Mathlib.Data.List.Sort
import Mathlib.Data.List.InsertIdx

/-!
# `Governance::submitVotes`

`submitVotes` casts every vote of a list of `(proposal, vote)` pairs from every coin of every
wallet, as OP_RETURN outputs of voting transactions. Within one wallet it makes passes until
a pass ends on the last vote: each pass takes the wallet's available coins, sorted by value,
and picks for each address the smallest coin worth `inputThreshold` (60% of
`-voteinputamount`) as that address's input; the other coins worth `voteMinUtxoAmount` vote,
each on each proposal, skipping a pair already in `usedUtxos` or already in the store, until
`MAX_OP_RETURN_IN_TRANSACTION` votes fill the transaction. The inputs pay their value back,
less a share of the fee, and the transaction is created and committed. `usedUtxos` is
shared by all wallets and passes.

The coins of the next pass are the wallet's coins less the spent inputs, with the outputs of
the committed transaction that pay to the wallet. A loop that may not end is run on fuel: a
run of `submitVotes` is every prefix of its passes.

* `submitVotes_votes`: every committed transaction carries at least one vote output and at
  most `MAX_OP_RETURN_IN_TRANSACTION`, and over the whole run no (coin, proposal) pair is
  voted twice, nor a pair the store already holds.
* `votePass_inputs_disjoint`: within one pass no coin both votes and pays as an input.
* `submitVotes_spends_voted_coin`: across passes it can. Once an input's change falls below
  the input threshold, a coin that voted in an earlier pass is the smallest coin of its
  address worth the threshold, and the next transaction spends it, dropping its vote.
* `votePass_votes_have_inputs`: with the input threshold at most `voteMinUtxoAmount`, every
  vote is cast with a coin of an address that pays one of the transaction's inputs, the
  input `matchesVinPubKey` looks for the vote's key in. Above it, an address whose coins
  all lie between the two amounts votes with none (the example after the theorem).
-/

namespace Gov

/-- `COutput`, a coin `AvailableCoins` lists: its outpoint and output, and `fSpendable`. -/
structure COutput where
  outpoint : OutPoint
  txout : TxOut
  spendable : Bool
  deriving DecidableEq, Repr

/-- `ProposalVote`: a proposal and the vote to cast on it. -/
structure ProposalVote where
  proposal : Proposal
  vote : UInt8
  deriving DecidableEq, Repr

/-- Modelled from the spec: `GetScriptForDestination(CKeyID)`, the pay-to-key-hash script
`OP_DUP OP_HASH160 <id> OP_EQUALVERIFY OP_CHECKSIG`. -/
def getScriptForDestination (id : Nat) : Bytes :=
  [0x76, 0xa9, 0x14] ++ leBytes 20 id ++ [0x88, 0xac]

/-- What `submitVotes` calls on one wallet. -/
structure Wallet where
  /-- `IsLocked()`. -/
  locked : Bool
  /-- `GetBalance()`. -/
  balance : CAmount
  /-- `AvailableCoins` when the call starts. -/
  coins : List COutput
  /-- `GetKeyForDestination`, then `GetKey`: the key, none for a null key id or a key the
  wallet does not hold. -/
  getKey : TxDestination → Option Nat
  /-- `CKey::SignCompact(hash, signature)` with a key of the wallet. -/
  signCompact : Nat → Nat → Option Bytes
  /-- `GetMinimumFee` for a transaction of the given size. -/
  getMinimumFee : Nat → CAmount
  /-- `CreateTransaction` with the recipients and only the selected inputs: its failure
  text, or the change output it adds to `destChange`, by position and value. -/
  createTransaction : List TxOut → List OutPoint → Except String (Option (Nat × CAmount))
  /-- `GetBroadcastTransactions()`. -/
  broadcast : Bool
  /-- `CommitTransaction`: none, or the rejection `FormatStateMessage(state)`. -/
  commitTransaction : Transaction → Option String

/-- The node around `submitVotes`. -/
structure VoteContext where
  params : Params
  env : Env
  /-- The chain state the `Vote` constructor reads the coin's key id and amount from, the
  same for every pass: what a pass commits does not reach the next pass's view. -/
  view : CoinView
  /-- The store `instance().hasVote` reads. -/
  store : GovState
  /-- `static_cast<CAmount>((double)voteMinAmount*0.6)`, `voteMinAmount` being
  `-voteinputamount`. -/
  inputThreshold : CAmount
  /-- `GetWallets()`. -/
  loadedWallets : List Wallet
  /-- `g_connman` is set. -/
  connman : Bool

/-- How `submitVotes` returns `false`, with the reason it writes, or fails. -/
inductive SubmitVotesError
  /-- No proposals: `false` without a reason. -/
  | noProposals
  /-- "Failed to vote on proposal (%s) because it's invalid" -/
  | invalidProposal (name : Bytes)
  /-- "No wallets were found" -/
  | noWallets
  /-- "All wallets must be unlocked to vote" -/
  | walletLocked
  /-- "Not enough coin to cast a vote, %s is required" -/
  | notEnoughCoin (voteBalance : CAmount)
  /-- "Failed to create the proposal submission transaction: %s" -/
  | createFailed (strError : String)
  /-- "Peer-to-peer functionality missing or disabled" -/
  | p2pMissing
  /-- "Failed to create the proposal submission transaction, it was rejected: %s" -/
  | commitRejected (state : String)
  /-- "Failed to submit votes, no votes were created, is the wallet unlocked and have
  sufficient funds? Funds required: %s" -/
  | noVotes (voteBalance : CAmount)
  /-- An exception or undefined behaviour. -/
  | failure (f : Failure)
  deriving DecidableEq, Repr

/-! ## One pass -/

/-- One coin of the selection loop: a spendable coin paying to a key id becomes its
address's input when the address has none and it is worth `inputThreshold`, and else joins
`filtered` when it is worth `voteMinUtxoAmount`. -/
def selectCoin (ctx : VoteContext) (acc : StdMap COutput × List COutput) (coin : COutput) :
    Except Failure (StdMap COutput × List COutput) :=
  if !coin.spendable then pure acc
  else match ctx.env.extractDestination coin.txout.scriptPubKey with
    | none => pure acc
    | some (.keyID addr) =>
      if (acc.1.find? addr).isNone && ctx.inputThreshold.val ≤ coin.txout.nValue.val then
        pure (acc.1.insert addr coin, acc.2)
      else if coin.txout.nValue.val < ctx.params.voteMinUtxoAmount.val then pure acc
      else pure (acc.1, acc.2 ++ [coin])
    | some _ => throw .badGet

/-- What the voting loops carry: the vote outputs so far, each with its coin and proposal
hash, `usedUtxos` as the (coin, proposal hash) pairs it holds, and the two flags. -/
structure VoteLoop where
  voteOuts : List (Bytes × OutPoint × Nat)
  usedUtxos : List (OutPoint × Nat)
  completelyDone : Bool
  doneWithPendingVotes : Bool

/-- `Vote vote(hash, pv.vote, outpoint)`, which loads the coin's key id and amount, then
`vote.sign(key)` (`SignCompact`, then the recovery) and `vote.isValid(params)`: the vote's
script, or none when signing or validation fails. -/
def castVote (ctx : VoteContext) (w : Wallet) (key : Nat) (pv : ProposalVote)
    (utxo : OutPoint) : Except Failure (Option Bytes) := do
  let v ← Vote.loadKeyID ctx.env ctx.view
    { proposal := pv.proposal.getHash ctx.env, vote := pv.vote, utxo }
  match w.signCompact key (v.sigHash ctx.env) with
  | none => pure none
  | some signature => voteScript ctx.params ctx.env ctx.view pv.proposal pv.vote utxo signature

/-- The loop over the proposals for one coin; `lastCoin` is `i == filtered.size() - 1`, and
`j == proposals.size() - 1` is that no proposal is left after this one. -/
def voteProposals (ctx : VoteContext) (w : Wallet) (key : Nat) (coin : COutput)
    (lastCoin : Bool) : List ProposalVote → VoteLoop → Except Failure VoteLoop
  | [], s => pure s
  | pv :: rest, s =>
    let hash := pv.proposal.getHash ctx.env
    if (coin.outpoint, hash) ∈ s.usedUtxos then voteProposals ctx w key coin lastCoin rest s
    else if ctx.store.hasVoteFor hash coin.outpoint then
      voteProposals ctx w key coin lastCoin rest s
    else do
      match ← castVote ctx w key pv coin.outpoint with
      | none => voteProposals ctx w key coin lastCoin rest s
      | some script =>
        let s : VoteLoop := { s with
          voteOuts := s.voteOuts ++ [(script, coin.outpoint, hash)]
          usedUtxos := s.usedUtxos ++ [(coin.outpoint, hash)]
          completelyDone := lastCoin && rest.isEmpty }
        if s.voteOuts.length = ctx.params.maxOpReturnInTransaction then
          let s := { s with doneWithPendingVotes := !s.completelyDone }
          if s.doneWithPendingVotes then pure s else voteProposals ctx w key coin lastCoin rest s
        else voteProposals ctx w key coin lastCoin rest s

/-- The loop over the filtered coins, each with the key of its destination. -/
def voteCoins (ctx : VoteContext) (w : Wallet) (proposals : List ProposalVote) :
    List COutput → VoteLoop → Except Failure VoteLoop
  | [], s => pure s
  | coin :: rest, s =>
    match ctx.env.extractDestination coin.txout.scriptPubKey with
    | none => voteCoins ctx w proposals rest s
    | some dest =>
      match w.getKey dest with
      | none => voteCoins ctx w proposals rest s
      | some key => do
        let s ← voteProposals ctx w key coin rest.isEmpty proposals s
        if s.doneWithPendingVotes then pure s else voteCoins ctx w proposals rest s

/-- A transaction `submitVotes` committed (`txsRet`), with the (coin, proposal hash) pair of
each vote output, in order, and the coins `cc.Select` chose as its inputs. -/
structure VoteTx where
  tx : Transaction
  votes : List (OutPoint × Nat)
  inputs : List OutPoint
  deriving DecidableEq

/-- How a pass ends: a `break` out of the do-while, or a committed transaction with
`usedUtxos`, `completelyDone` and the wallet's coins after it. -/
inductive PassEnd
  | stop
  | committed (t : VoteTx) (usedUtxos : List (OutPoint × Nat)) (completelyDone : Bool)
      (coins : List COutput)

/-- The outputs `CreateTransaction` makes of the recipients: its change output, if any, to
`destChange` at the position it chose. -/
def addChange (destChange : Nat) (change : Option (Nat × CAmount)) (vout : List TxOut) :
    List TxOut :=
  match change with
  | none => vout
  | some (pos, value) => vout.insertIdx pos ⟨value, getScriptForDestination destChange⟩

/-- The wallet's coins after it commits `tx`: the previous ones less the spent inputs, and
the outputs of `tx` that pay to the wallet, all but the `OP_RETURN`s. -/
def coinsAfterCommit (env : Env) (coins : List COutput) (tx : Transaction) : List COutput :=
  coins.filter (fun c => !tx.vin.any (·.prevout == c.outpoint)) ++
    ((tx.vout.enum.filter fun o => o.2.scriptPubKey.head? != some opReturn).map fun o =>
      { outpoint := ⟨env.txHash tx, o.1.toUInt32⟩, txout := o.2, spendable := true })

/-- One pass of the do-while for a wallet with coins `coins`. `inputCoins` is visited in its
`CKeyID` order, so `destChange` is the first address in that order. -/
def votePass (ctx : VoteContext) (w : Wallet) (proposals : List ProposalVote)
    (coins : List COutput) (usedUtxos : List (OutPoint × Nat)) (completelyDone : Bool) :
    Except SubmitVotesError PassEnd := do
  let sorted := coins.insertionSort fun a b => a.txout.nValue.val ≤ b.txout.nValue.val
  if sorted.isEmpty then return .stop
  let (inputCoins, filtered) ←
    (sorted.foldlM (selectCoin ctx) (StdMap.empty, [])).mapError .failure
  if filtered.isEmpty || inputCoins.entries.isEmpty then return .stop
  let s ← (voteCoins ctx w proposals filtered ⟨[], usedUtxos, completelyDone, false⟩).mapError
    .failure
  if s.voteOuts.isEmpty then return .stop
  let feeBytes := inputCoins.entries.length * 150 + s.voteOuts.length * ctx.params.maxOpReturnRelay
  let estimatedFeePerInput : CAmount :=
    SInt.wrap 64 ((w.getMinimumFee feeBytes).val.tdiv inputCoins.entries.length)
  let selected := inputCoins.values.map (·.outpoint)
  let recipients := s.voteOuts.map (fun v => (⟨0, v.1⟩ : TxOut)) ++
    inputCoins.entries.map fun e =>
      ⟨e.2.txout.nValue - estimatedFeePerInput, getScriptForDestination e.1⟩
  let change ← (w.createTransaction recipients selected).mapError .createFailed
  let tx : Transaction :=
    ⟨selected.map (⟨·, []⟩), addChange ((inputCoins.entries.map (·.1)).headD 0) change recipients⟩
  if w.broadcast && !ctx.connman then throw .p2pMissing
  if let some state := w.commitTransaction tx then throw (.commitRejected state)
  return .committed ⟨tx, s.voteOuts.map (·.2), selected⟩ s.usedUtxos s.completelyDone
    (coinsAfterCommit ctx.env coins tx)

/-! ## The voting loops -/

section Loops

variable {ctx : VoteContext} {w : Wallet}

theorem castVote_script {key : Nat} {pv : ProposalVote} {utxo : OutPoint} {script : Bytes}
    (h : castVote ctx w key pv utxo = .ok (some script)) : script.head? = some opReturn := by
  obtain ⟨v, -, h⟩ := except_bind_ok h
  split at h
  · cases h
  · obtain ⟨-, rfl⟩ := voteScript_ok h
    rfl

/-- A vote output of a pass: its pair is not in the store, its coin is one of `outs`, and
its script is an `OP_RETURN` script. -/
def VoteOk (ctx : VoteContext) (outs : List OutPoint) (v : Bytes × OutPoint × Nat) : Prop :=
  ctx.store.hasVoteFor v.2.2 v.2.1 = false ∧ v.2.1 ∈ outs ∧ v.1.head? = some opReturn

/-- What the voting loops keep within a pass that starts from `usedUtxos = U`, voting with
coins of `outs`: `usedUtxos` is `U` followed by the vote outputs' pairs, with no pair twice
when `U` has none twice. -/
structure VoteLoop.Inv (ctx : VoteContext) (U : List (OutPoint × Nat)) (outs : List OutPoint)
    (s : VoteLoop) : Prop where
  used : s.usedUtxos = U ++ s.voteOuts.map (·.2)
  nodup : U.Nodup → s.usedUtxos.Nodup
  votes : ∀ v ∈ s.voteOuts, VoteOk ctx outs v

theorem VoteLoop.Inv.push {U : List (OutPoint × Nat)} {outs : List OutPoint} {s s₂ : VoteLoop}
    (hs : s.Inv ctx U outs) {script : Bytes} {o : OutPoint} {hash : Nat}
    (hu : (o, hash) ∉ s.usedUtxos) (hv : VoteOk ctx outs (script, o, hash))
    (hvo : s₂.voteOuts = s.voteOuts ++ [(script, o, hash)])
    (husd : s₂.usedUtxos = s.usedUtxos ++ [(o, hash)]) : s₂.Inv ctx U outs where
  used := by simp [husd, hvo, hs.used]
  nodup hU := by
    rw [husd]
    exact (hs.nodup hU).append (List.nodup_singleton _) (List.disjoint_singleton.mpr hu)
  votes := by
    rw [hvo]
    intro v hmem
    rcases List.mem_append.mp hmem with hmem | hmem
    · exact hs.votes v hmem
    · rw [List.mem_singleton.mp hmem]
      exact hv

/-- What one proposal of the loop does: it is skipped, or its vote is pushed (a pair new to
`usedUtxos` and not in the store) and the loop either stops, the vote filling the
transaction before the last vote, or goes on. -/
theorem voteProposals_cons {key : Nat} {coin : COutput} {lastCoin : Bool} {pv : ProposalVote}
    {rest : List ProposalVote} {s s' : VoteLoop}
    (h : voteProposals ctx w key coin lastCoin (pv :: rest) s = .ok s') :
    voteProposals ctx w key coin lastCoin rest s = .ok s' ∨
      ∃ script s₂, (coin.outpoint, pv.proposal.getHash ctx.env) ∉ s.usedUtxos ∧
        ctx.store.hasVoteFor (pv.proposal.getHash ctx.env) coin.outpoint = false ∧
        script.head? = some opReturn ∧
        s₂.voteOuts = s.voteOuts ++ [(script, coin.outpoint, pv.proposal.getHash ctx.env)] ∧
        s₂.usedUtxos = s.usedUtxos ++ [(coin.outpoint, pv.proposal.getHash ctx.env)] ∧
        (s₂.voteOuts.length = ctx.params.maxOpReturnInTransaction ∧
            s₂.doneWithPendingVotes = true ∧ s' = s₂ ∨
          (s₂.voteOuts.length = ctx.params.maxOpReturnInTransaction →
              lastCoin = true ∧ rest = []) ∧
            voteProposals ctx w key coin lastCoin rest s₂ = .ok s') := by
  simp only [voteProposals] at h
  by_cases hu : (coin.outpoint, pv.proposal.getHash ctx.env) ∈ s.usedUtxos
  · rw [if_pos hu] at h
    exact .inl h
  rw [if_neg hu] at h
  cases hv : ctx.store.hasVoteFor (pv.proposal.getHash ctx.env) coin.outpoint with
  | true =>
    rw [hv, if_pos rfl] at h
    exact .inl h
  | false =>
    rw [hv, if_neg Bool.false_ne_true] at h
    obtain ⟨r, hc, h⟩ := except_bind_ok h
    cases r with
    | none => exact .inl h
    | some script =>
      refine .inr ⟨script, ?_⟩
      dsimp only at h
      split_ifs at h with hmax hdone
      · cases h
        exact ⟨_, hu, rfl, castVote_script hc, rfl, rfl, .inl ⟨hmax, hdone, rfl⟩⟩
      · exact ⟨_, hu, rfl, castVote_script hc, rfl, rfl, .inr ⟨fun _ => by simpa using hdone, h⟩⟩
      · exact ⟨_, hu, rfl, castVote_script hc, rfl, rfl, .inr ⟨fun h' => absurd h' hmax, h⟩⟩

theorem voteProposals_inv {key : Nat} {coin : COutput} {lastCoin : Bool}
    {U : List (OutPoint × Nat)} {outs : List OutPoint} (ho : coin.outpoint ∈ outs) :
    ∀ {ps : List ProposalVote} {s s' : VoteLoop}, s.Inv ctx U outs →
      voteProposals ctx w key coin lastCoin ps s = .ok s' → s'.Inv ctx U outs
  | [], _, _, hs, h => by cases h; exact hs
  | _ :: _, _, _, hs, h => by
    rcases voteProposals_cons h with h | ⟨script, s₂, hu, hv, hsc, hvo, husd, hend⟩
    · exact voteProposals_inv ho hs h
    · have hs₂ := hs.push hu ⟨hv, ho, hsc⟩ hvo husd
      rcases hend with ⟨-, -, rfl⟩ | ⟨-, h⟩
      · exact hs₂
      · exact voteProposals_inv ho hs₂ h

/-- The loop over the proposals of one coin, started below the cap, ends at most at the cap,
and at the cap only with `doneWithPendingVotes` set or on the last coin. -/
theorem voteProposals_cap {key : Nat} {coin : COutput} {lastCoin : Bool} :
    ∀ {ps : List ProposalVote} {s s' : VoteLoop},
      s.voteOuts.length < ctx.params.maxOpReturnInTransaction →
      voteProposals ctx w key coin lastCoin ps s = .ok s' →
      s'.voteOuts.length ≤ ctx.params.maxOpReturnInTransaction ∧
        (s'.voteOuts.length = ctx.params.maxOpReturnInTransaction →
          s'.doneWithPendingVotes = true ∨ lastCoin = true)
  | [], _, _, hs, h => by cases h; exact ⟨hs.le, fun h => absurd h hs.ne⟩
  | _ :: _, s, _, hs, h => by
    rcases voteProposals_cons h with h | ⟨script, s₂, -, -, -, hvo, -, hend⟩
    · exact voteProposals_cap hs h
    · have hlen : s₂.voteOuts.length = s.voteOuts.length + 1 := by simp [hvo]
      rcases hend with ⟨hmax, hdone, rfl⟩ | ⟨hlast, h⟩
      · exact ⟨hmax.le, fun _ => .inl hdone⟩
      · rcases Nat.lt_or_ge s₂.voteOuts.length ctx.params.maxOpReturnInTransaction with hlt | hge
        · exact voteProposals_cap hlt h
        · obtain ⟨hl, rfl⟩ := hlast (by omega)
          cases h
          exact ⟨by omega, fun _ => .inr hl⟩

/-- What one coin of the loop does: it is skipped, or its proposals' loop runs and the coin
loop stops there, when it set `doneWithPendingVotes`, or goes on. -/
theorem voteCoins_cons {proposals : List ProposalVote} {coin : COutput} {rest : List COutput}
    {s s' : VoteLoop} (h : voteCoins ctx w proposals (coin :: rest) s = .ok s') :
    voteCoins ctx w proposals rest s = .ok s' ∨
      ∃ key s₁, voteProposals ctx w key coin rest.isEmpty proposals s = .ok s₁ ∧
        (s₁.doneWithPendingVotes = true ∧ s' = s₁ ∨
          s₁.doneWithPendingVotes = false ∧ voteCoins ctx w proposals rest s₁ = .ok s') := by
  simp only [voteCoins] at h
  split at h
  · exact .inl h
  · split at h
    · exact .inl h
    · rename_i key _
      obtain ⟨s₁, h₁, h⟩ := except_bind_ok h
      refine .inr ⟨key, s₁, h₁, ?_⟩
      cases hd : s₁.doneWithPendingVotes
      · simp only [hd] at h
        exact .inr ⟨rfl, h⟩
      · simp only [hd] at h
        cases h
        exact .inl ⟨rfl, rfl⟩

theorem voteCoins_inv {proposals : List ProposalVote} {U : List (OutPoint × Nat)}
    {outs : List OutPoint} :
    ∀ {coins : List COutput} {s s' : VoteLoop}, (∀ c ∈ coins, c.outpoint ∈ outs) →
      s.Inv ctx U outs → voteCoins ctx w proposals coins s = .ok s' → s'.Inv ctx U outs
  | [], _, _, _, hs, h => by cases h; exact hs
  | coin :: _, _, _, ho, hs, h => by
    have ho' := fun c hc => ho c (List.mem_cons_of_mem coin hc)
    rcases voteCoins_cons h with h | ⟨key, s₁, h₁, hend⟩
    · exact voteCoins_inv ho' hs h
    · have hs₁ := voteProposals_inv (ho coin (List.mem_cons_self _ _)) hs h₁
      rcases hend with ⟨-, rfl⟩ | ⟨-, h⟩
      · exact hs₁
      · exact voteCoins_inv ho' hs₁ h

/-- **The cap.** Started below the cap with no pending votes, the coin loop pushes at most
`MAX_OP_RETURN_IN_TRANSACTION` vote outputs: a vote that fills the transaction either sets
`doneWithPendingVotes`, which ends both loops, or is the last vote of the last coin. -/
theorem voteCoins_cap {proposals : List ProposalVote} :
    ∀ {coins : List COutput} {s s' : VoteLoop},
      s.voteOuts.length < ctx.params.maxOpReturnInTransaction → s.doneWithPendingVotes = false →
      voteCoins ctx w proposals coins s = .ok s' →
      s'.voteOuts.length ≤ ctx.params.maxOpReturnInTransaction
  | [], _, _, hs, _, h => by cases h; exact hs.le
  | _ :: rest, _, _, hs, hd, h => by
    rcases voteCoins_cons h with h | ⟨key, s₁, h₁, hend⟩
    · exact voteCoins_cap hs hd h
    · obtain ⟨hle, hmax⟩ := voteProposals_cap hs h₁
      rcases hend with ⟨-, rfl⟩ | ⟨hd₁, h⟩
      · exact hle
      · rcases Nat.lt_or_ge s₁.voteOuts.length ctx.params.maxOpReturnInTransaction with hlt | hge
        · exact voteCoins_cap hlt hd₁ h
        · rcases hmax (by omega) with hd' | hl
          · simp [hd₁] at hd'
          · rw [List.isEmpty_iff.mp hl] at h
            cases h
            exact hle

end Loops

/-! ## The pass -/

section Pass

variable {ctx : VoteContext} {w : Wallet}

theorem selectCoin_cases {acc acc' : StdMap COutput × List COutput} {coin : COutput}
    (h : selectCoin ctx acc coin = .ok acc') :
    acc' = acc ∨ (∃ addr, acc.1.find? addr = none ∧ acc' = (acc.1.insert addr coin, acc.2)) ∨
      acc' = (acc.1, acc.2 ++ [coin]) := by
  unfold selectCoin at h
  split at h
  · cases h
    exact .inl rfl
  split at h
  · cases h
    exact .inl rfl
  · rename_i addr _
    split at h
    · rename_i hin
      cases h
      simp only [Bool.and_eq_true, Option.isNone_iff_eq_none] at hin
      exact .inr (.inl ⟨addr, hin.1, rfl⟩)
    split at h
    · cases h
      exact .inl rfl
    · cases h
      exact .inr (.inr rfl)
  · cases h

/-- The selection loop keeps its input coins and filtered coins apart: both together are a
sub-multiset of the coins it went through. -/
theorem selectCoin_subperm {acc acc' : StdMap COutput × List COutput} {coin : COutput}
    (h : selectCoin ctx acc coin = .ok acc') :
    (acc'.2 ++ acc'.1.values).Subperm (acc.2 ++ acc.1.values ++ [coin]) := by
  rcases selectCoin_cases h with rfl | ⟨addr, hnone, rfl⟩ | rfl
  · exact (List.sublist_append_left _ _).subperm
  · exact (((StdMap.values_insert_perm coin hnone).append_left acc.2).trans
      (List.perm_middle.trans (List.perm_append_singleton _ _).symm)).subperm
  · refine List.Perm.subperm ?_
    simpa only [List.append_assoc] using List.perm_append_comm.append_left acc.2

theorem foldlM_selectCoin_subperm :
    ∀ (coins : List COutput) {acc acc' : StdMap COutput × List COutput},
      coins.foldlM (selectCoin ctx) acc = .ok acc' →
      (acc'.2 ++ acc'.1.values).Subperm (acc.2 ++ acc.1.values ++ coins)
  | [], _, _, h => by
    cases h
    simpa using List.Subperm.refl _
  | coin :: rest, acc, _, h => by
    rw [List.foldlM_cons] at h
    obtain ⟨acc₁, h₁, h⟩ := except_bind_ok h
    refine (foldlM_selectCoin_subperm rest h).trans ?_
    simpa using (List.subperm_append_right rest).mpr (selectCoin_subperm h₁)

/-- What a pass that commits did: the selection, the vote outputs of its coin loop (at least
one), and the transaction spending exactly the input coins. -/
theorem votePass_committed {proposals : List ProposalVote} {coins : List COutput}
    {U : List (OutPoint × Nat)} {cd done : Bool} {t : VoteTx} {used : List (OutPoint × Nat)}
    {coins' : List COutput}
    (h : votePass ctx w proposals coins U cd = .ok (.committed t used done coins')) :
    ∃ (inputCoins : StdMap COutput) (filtered : List COutput) (s : VoteLoop) (fee : CAmount)
      (d : Nat) (change : Option (Nat × CAmount)),
      (coins.insertionSort fun a b => a.txout.nValue.val ≤ b.txout.nValue.val).foldlM
          (selectCoin ctx) (StdMap.empty, []) = .ok (inputCoins, filtered) ∧
      voteCoins ctx w proposals filtered ⟨[], U, cd, false⟩ = .ok s ∧ s.voteOuts ≠ [] ∧
      t.votes = s.voteOuts.map (·.2) ∧ t.inputs = inputCoins.values.map (·.outpoint) ∧
      t.tx.vin = t.inputs.map (⟨·, []⟩) ∧
      t.tx.vout = addChange d change (s.voteOuts.map (fun v => (⟨0, v.1⟩ : TxOut)) ++
        inputCoins.entries.map fun e => ⟨e.2.txout.nValue - fee, getScriptForDestination e.1⟩) ∧
      used = s.usedUtxos := by
  simp only [votePass] at h
  obtain ⟨-, h⟩ | ⟨-, h⟩ := except_ite_ok h
  · cases h
  obtain ⟨-, -, h⟩ := except_bind_ok h
  obtain ⟨⟨inputCoins, filtered⟩, hsel, h⟩ := except_bind_ok h
  obtain ⟨-, h⟩ | ⟨-, h⟩ := except_ite_ok h
  · cases h
  obtain ⟨-, -, h⟩ := except_bind_ok h
  obtain ⟨s, hs, h⟩ := except_bind_ok h
  obtain ⟨-, h⟩ | ⟨hne, h⟩ := except_ite_ok h
  · cases h
  obtain ⟨-, -, h⟩ := except_bind_ok h
  obtain ⟨change, -, h⟩ := except_bind_ok h
  obtain ⟨-, h⟩ | ⟨-, h⟩ := except_ite_ok h
  · obtain ⟨_, h, -⟩ := except_bind_ok h
    cases h
  obtain ⟨-, -, h⟩ := except_bind_ok h
  split at h
  · obtain ⟨_, h, -⟩ := except_bind_ok h
    cases h
  · cases h
    exact ⟨inputCoins, filtered, s, _, _, change, except_mapError_ok hsel, except_mapError_ok hs,
      by simpa using hne, rfl, rfl, rfl, rfl, rfl⟩

/-- A committed transaction: at least one vote output and, under a positive cap, at most
`MAX_OP_RETURN_IN_TRANSACTION`; its `OP_RETURN` outputs are its vote outputs. -/
def VoteTx.Ok (cap : Nat) (t : VoteTx) : Prop :=
  1 ≤ t.votes.length ∧ (1 ≤ cap → t.votes.length ≤ cap) ∧
    (t.tx.vout.filter fun o => o.scriptPubKey.head? == some opReturn).length = t.votes.length

theorem length_filter_addChange (d : Nat) (change : Option (Nat × CAmount)) (outs : List TxOut) :
    ((addChange d change outs).filter fun o => o.scriptPubKey.head? == some opReturn).length =
      (outs.filter fun o => o.scriptPubKey.head? == some opReturn).length := by
  rcases change with _ | ⟨pos, value⟩
  · rfl
  simp only [addChange]
  rcases Nat.lt_or_ge outs.length pos with hlt | hle
  · rw [List.insertIdx_of_length_lt _ _ _ hlt]
  · rw [← List.countP_eq_length_filter, ← List.countP_eq_length_filter,
      (List.perm_insertIdx _ _ hle).countP_eq]
    simp [getScriptForDestination, opReturn]

/-- **One pass.** A pass that commits, from `usedUtxos = U`, returns `U` followed by the pairs
of its votes, none in the store and, when `U` has no pair twice, none twice; and its
transaction is well formed. -/
theorem votePass_inv {proposals : List ProposalVote} {coins : List COutput}
    {U : List (OutPoint × Nat)} {cd done : Bool} {t : VoteTx} {used : List (OutPoint × Nat)}
    {coins' : List COutput}
    (h : votePass ctx w proposals coins U cd = .ok (.committed t used done coins')) :
    used = U ++ t.votes ∧ (U.Nodup → used.Nodup) ∧
      (∀ p ∈ t.votes, ctx.store.hasVoteFor p.2 p.1 = false) ∧
      t.Ok ctx.params.maxOpReturnInTransaction := by
  obtain ⟨inputCoins, filtered, s, fee, d, change, -, hs, hne, hvotes, -, -, hvout, rfl⟩ :=
    votePass_committed h
  have hinv : s.Inv ctx U (filtered.map (·.outpoint)) :=
    voteCoins_inv (fun c hc => List.mem_map_of_mem _ hc) ⟨by simp, id, by simp⟩ hs
  refine ⟨by rw [hinv.used, hvotes], hinv.nodup, ?_, ?_, fun hcap => ?_, ?_⟩
  · rw [hvotes]
    intro p hp
    obtain ⟨v, hv, rfl⟩ := List.mem_map.mp hp
    exact (hinv.votes v hv).1
  · rw [hvotes, List.length_map]
    exact List.length_pos.mpr hne
  · rw [hvotes, List.length_map]
    exact voteCoins_cap (by simp only [List.length_nil]; omega) rfl hs
  · rw [hvout, length_filter_addChange, List.filter_append, hvotes, List.length_map,
      List.filter_eq_self.mpr, List.filter_eq_nil_iff.mpr]
    · simp
    · intro o ho
      obtain ⟨e, -, rfl⟩ := List.mem_map.mp ho
      simp [getScriptForDestination, opReturn]
    · intro o ho
      obtain ⟨v, hv, rfl⟩ := List.mem_map.mp ho
      simp [(hinv.votes v hv).2.2]

/-- **Within one pass** a coin either pays as an input or votes: when the wallet lists each
coin once, the inputs of a committed transaction are the coins `cc.Select` chose, and none of
them is a coin one of its votes is cast with. -/
theorem votePass_inputs_disjoint {proposals : List ProposalVote} {coins : List COutput}
    {U : List (OutPoint × Nat)} {cd done : Bool} {t : VoteTx} {used : List (OutPoint × Nat)}
    {coins' : List COutput} (hcoins : (coins.map (·.outpoint)).Nodup)
    (h : votePass ctx w proposals coins U cd = .ok (.committed t used done coins')) :
    t.tx.vin.map (·.prevout) = t.inputs ∧ ∀ o ∈ t.inputs, o ∉ t.votes.map Prod.fst := by
  obtain ⟨inputCoins, filtered, s, -, -, -, hsel, hs, -, hvotes, hinputs, hvin, -, -⟩ :=
    votePass_committed h
  have hinv : s.Inv ctx U (filtered.map (·.outpoint)) :=
    voteCoins_inv (fun c hc => List.mem_map_of_mem _ hc) ⟨by simp, id, by simp⟩ hs
  obtain ⟨l, hperm, hsl⟩ := foldlM_selectCoin_subperm _ hsel
  have hsorted := ((List.perm_insertionSort
    (fun a b : COutput => a.txout.nValue.val ≤ b.txout.nValue.val) coins).map
      (·.outpoint)).nodup_iff.mpr hcoins
  have hnd := (hperm.map (·.outpoint)).nodup_iff.mp (hsorted.sublist (by simpa using hsl.map _))
  rw [List.map_append, List.nodup_append] at hnd
  refine ⟨by simp [hvin, Function.comp_def], fun o ho hv => ?_⟩
  rw [hinputs] at ho
  rw [hvotes, List.map_map] at hv
  obtain ⟨v, hvm, rfl⟩ := List.mem_map.mp hv
  exact hnd.2.2 (hinv.votes v hvm).2.1 ho

end Pass

/-! ## The run -/

/-- What the run has done: `usedUtxos` and the committed transactions (`txsRet`, whose
length is `txCounter`). They stay when the call later fails. -/
structure VoteRun where
  usedUtxos : List (OutPoint × Nat)
  txs : List VoteTx

/-- The do-while of one wallet, on `fuel` passes; none when the fuel runs out first. -/
def walletPasses (ctx : VoteContext) (w : Wallet) (proposals : List ProposalVote) :
    Nat → List COutput → Bool → VoteRun → VoteRun × Option (Except SubmitVotesError Unit)
  | 0, _, _, run => (run, none)
  | fuel + 1, coins, completelyDone, run =>
    match votePass ctx w proposals coins run.usedUtxos completelyDone with
    | .error e => (run, some (.error e))
    | .ok .stop => (run, some (.ok ()))
    | .ok (.committed t usedUtxos completelyDone coins) =>
      let run := ⟨usedUtxos, run.txs ++ [t]⟩
      if completelyDone then (run, some (.ok ()))
      else walletPasses ctx w proposals fuel coins completelyDone run

/-- The loop over the wallets, each from its available coins and `completelyDone = false`. -/
def walletsLoop (ctx : VoteContext) (proposals : List ProposalVote) (fuel : Nat) :
    List Wallet → VoteRun → VoteRun × Option (Except SubmitVotesError Unit)
  | [], run => (run, some (.ok ()))
  | w :: ws, run =>
    match walletPasses ctx w proposals fuel w.coins false run with
    | (run, some (.ok ())) => walletsLoop ctx proposals fuel ws run
    | r => r

/-- The checks `submitVotes` makes before any vote: proposals given and all valid, wallets
found (`GetWallets()` when none are given), all unlocked, and enough balance in total; the
wallets to vote from. -/
def submitVotesChecks (ctx : VoteContext) (proposals : List ProposalVote)
    (vwallets : List Wallet) : Except SubmitVotesError (List Wallet) := do
  if proposals.isEmpty then throw .noProposals
  if let some pv := proposals.find? fun pv => !pv.proposal.isValid ctx.params ctx.env then
    throw (.invalidProposal pv.proposal.name)
  let wallets := if vwallets.isEmpty then ctx.loadedWallets else vwallets
  if wallets.isEmpty then throw .noWallets
  if wallets.any (·.locked) then throw .walletLocked
  if (wallets.foldl (fun (total : CAmount) (w : Wallet) => total + w.balance) 0).val <
      ctx.params.voteBalance.val then
    throw (.notEnoughCoin ctx.params.voteBalance)
  return wallets

/-- `Governance::submitVotes(proposals, vwallets, params, txsRet, failReasonRet)`, each
wallet's do-while on `fuel` passes: the run, and how the call ends (none when the fuel
runs out first). -/
def submitVotes (ctx : VoteContext) (proposals : List ProposalVote) (vwallets : List Wallet)
    (fuel : Nat) : VoteRun × Option (Except SubmitVotesError Unit) :=
  match submitVotesChecks ctx proposals vwallets with
  | .error e => (⟨[], []⟩, some (.error e))
  | .ok wallets =>
    match walletsLoop ctx proposals fuel wallets ⟨[], []⟩ with
    | (run, some (.ok ())) =>
      (run, some (if run.txs.isEmpty then .error (.noVotes ctx.params.voteBalance) else .ok ()))
    | r => r

/-! ## Every run -/

section Runs

variable {ctx : VoteContext}

/-- What every run keeps: `usedUtxos` lists the pairs of the committed votes, with no pair
twice and none the store holds, and every committed transaction is well formed. -/
structure VoteRun.Inv (ctx : VoteContext) (run : VoteRun) : Prop where
  used : run.usedUtxos = run.txs.flatMap VoteTx.votes
  nodup : run.usedUtxos.Nodup
  fresh : ∀ p ∈ run.usedUtxos, ctx.store.hasVoteFor p.2 p.1 = false
  txs : ∀ t ∈ run.txs, t.Ok ctx.params.maxOpReturnInTransaction

theorem VoteRun.Inv.commit {w : Wallet} {proposals : List ProposalVote} {coins : List COutput}
    {cd done : Bool} {t : VoteTx} {used : List (OutPoint × Nat)} {coins' : List COutput}
    {run : VoteRun} (hr : run.Inv ctx)
    (h : votePass ctx w proposals coins run.usedUtxos cd = .ok (.committed t used done coins')) :
    (⟨used, run.txs ++ [t]⟩ : VoteRun).Inv ctx := by
  obtain ⟨hused, hnodup, hfresh, hok⟩ := votePass_inv h
  refine ⟨by simp [hused, hr.used], hnodup hr.nodup, fun p hp => ?_, fun t' ht' => ?_⟩
  · rw [hused] at hp
    rcases List.mem_append.mp hp with hp | hp
    · exact hr.fresh p hp
    · exact hfresh p hp
  · rcases List.mem_append.mp ht' with ht' | ht'
    · exact hr.txs t' ht'
    · rw [List.mem_singleton.mp ht']
      exact hok

theorem walletPasses_inv {w : Wallet} {proposals : List ProposalVote} :
    ∀ (fuel : Nat) (coins : List COutput) (cd : Bool) {run : VoteRun}, run.Inv ctx →
      (walletPasses ctx w proposals fuel coins cd run).1.Inv ctx
  | 0, _, _, _, hr => hr
  | fuel + 1, coins, cd, run, hr => by
    simp only [walletPasses]
    split
    · exact hr
    · exact hr
    · rename_i t used done coins' h
      have hr' := hr.commit h
      split
      · exact hr'
      · exact walletPasses_inv fuel coins' done hr'

theorem walletsLoop_inv {proposals : List ProposalVote} {fuel : Nat} :
    ∀ (ws : List Wallet) {run : VoteRun}, run.Inv ctx → (walletsLoop ctx proposals fuel ws run).1.Inv ctx
  | [], _, hr => hr
  | w :: ws, run, hr => by
    have hw : (walletPasses ctx w proposals fuel w.coins false run).1.Inv ctx :=
      walletPasses_inv fuel w.coins false hr
    simp only [walletsLoop]
    split
    · rename_i run' heq
      rw [heq] at hw
      exact walletsLoop_inv ws hw
    · exact hw

theorem submitVotes_inv (ctx : VoteContext) (proposals : List ProposalVote)
    (vwallets : List Wallet) (fuel : Nat) : (submitVotes ctx proposals vwallets fuel).1.Inv ctx := by
  have h₀ : (⟨[], []⟩ : VoteRun).Inv ctx := ⟨rfl, List.nodup_nil, by simp, by simp⟩
  have hl (ws : List Wallet) : (walletsLoop ctx proposals fuel ws ⟨[], []⟩).1.Inv ctx :=
    walletsLoop_inv ws h₀
  unfold submitVotes
  split
  · exact h₀
  · rename_i wallets _
    split
    · rename_i run heq
      have h := hl wallets
      rw [heq] at h
      exact h
    · exact hl wallets

/-- **Every run votes each pair once.** Every committed transaction carries between one and
`MAX_OP_RETURN_IN_TRANSACTION` vote outputs, no (coin, proposal) pair is voted twice, and
none the store already holds, also when the call fails after committing. -/
theorem submitVotes_votes (ctx : VoteContext) (proposals : List ProposalVote)
    (vwallets : List Wallet) (fuel : Nat) :
    (∀ t ∈ (submitVotes ctx proposals vwallets fuel).1.txs,
      1 ≤ t.votes.length ∧
        (1 ≤ ctx.params.maxOpReturnInTransaction →
          t.votes.length ≤ ctx.params.maxOpReturnInTransaction) ∧
        (t.tx.vout.filter fun o => o.scriptPubKey.head? == some opReturn).length =
          t.votes.length) ∧
      ((submitVotes ctx proposals vwallets fuel).1.txs.flatMap VoteTx.votes).Nodup ∧
      ∀ p ∈ (submitVotes ctx proposals vwallets fuel).1.txs.flatMap VoteTx.votes,
        ctx.store.hasVoteFor p.2 p.1 = false := by
  have h := submitVotes_inv ctx proposals vwallets fuel
  rw [← h.used]
  exact ⟨h.txs, h.nodup, h.fresh⟩

end Runs

/-! ## A run that spends its own vote -/

def walletFunding : Transaction := ⟨[], [⟨70, [0x76, 7]⟩, ⟨80, [0x76, 7]⟩, ⟨90, [0x76, 7]⟩]⟩

def fundingCoin (n : UInt32) (value : CAmount) : COutput :=
  ⟨⟨sampleEnv.txHash walletFunding, n⟩, ⟨value, [0x76, 7]⟩, true⟩

/-- A wallet holding the key of key id 7 and the three coins of `walletFunding`, paying a fee
of a tenth of the byte count; its transactions are created and committed as they are. -/
def sampleWallet : Wallet where
  locked := false
  balance := 240
  coins := [fundingCoin 0 70, fundingCoin 1 80, fundingCoin 2 90]
  getKey := fun d => if d = .keyID 7 then some 7 else none
  signCompact := fun _ _ => some sampleKey
  getMinimumFee := fun bytes => SInt.wrap 64 (bytes / 10)
  createTransaction := fun _ _ => .ok none
  broadcast := false
  commitTransaction := fun _ => none

/-- One vote per transaction, an input threshold of 60, the chain of `walletFunding` and an
empty store. -/
def oneVoteContext : VoteContext where
  params := { sampleParams with maxOpReturnInTransaction := 1 }
  env := sampleEnv
  view := chainView sampleEnv [sampleBlock 50 [walletFunding]]
  store := .empty
  inputThreshold := 60
  loadedWallets := []
  connman := true

set_option maxRecDepth 10000 in
theorem sampleWallet_pass_inputs_disjoint :
    ((sampleWallet.coins.map (·.outpoint)).Nodup ∧
      ∃ t used done coins', votePass oneVoteContext sampleWallet [⟨sampleProposal, voteYes⟩]
          sampleWallet.coins [] false = .ok (.committed t used done coins') ∧
        t.tx.vin.map (·.prevout) = t.inputs ∧ ∀ o ∈ t.inputs, o ∉ t.votes.map Prod.fst) := by
  have hc : (sampleWallet.coins.map (·.outpoint)).Nodup := by decide
  obtain ⟨t, used, done, coins', h⟩ : ∃ t used done coins', votePass oneVoteContext sampleWallet
      [⟨sampleProposal, voteYes⟩] sampleWallet.coins [] false =
        .ok (.committed t used done coins') := ⟨_, _, _, _, rfl⟩
  exact ⟨hc, t, used, done, coins', h, votePass_inputs_disjoint hc h⟩

set_option maxRecDepth 10000 in
/-- **A later pass spends a coin that voted.** The first pass votes with the 80 coin and
leaves change below the threshold, so the second takes the 80 coin as its input. -/
theorem submitVotes_spends_voted_coin :
    (submitVotes oneVoteContext [⟨sampleProposal, voteYes⟩] [sampleWallet] 5).2 = some (.ok ()) ∧
      (submitVotes oneVoteContext [⟨sampleProposal, voteYes⟩] [sampleWallet] 5).1.txs.map
          (fun t => (t.votes.map Prod.fst, t.tx.vin.map (·.prevout))) =
        [([(fundingCoin 1 80).outpoint], [(fundingCoin 0 70).outpoint]),
          ([(fundingCoin 2 90).outpoint], [(fundingCoin 1 80).outpoint])] := by
  decide

/-! ## Votes and their inputs -/

section Inputs

variable {ctx : VoteContext} {w : Wallet}

/-- What the selection loop keeps: each input coin pays to the address it is the input of,
and each filtered coin pays to an address that has an input coin. -/
def Selected (ctx : VoteContext) (acc : StdMap COutput × List COutput) : Prop :=
  (∀ addr c, acc.1.find? addr = some c →
    ctx.env.extractDestination c.txout.scriptPubKey = some (.keyID addr)) ∧
  ∀ c ∈ acc.2, ∃ addr, ctx.env.extractDestination c.txout.scriptPubKey = some (.keyID addr) ∧
    (acc.1.find? addr).isSome

/-- A coin that votes is worth `voteMinUtxoAmount`, so with the input threshold at most that
it becomes its address's input unless the address has one already. -/
theorem selectCoin_selected (hthr : ctx.inputThreshold.val ≤ ctx.params.voteMinUtxoAmount.val)
    {acc acc' : StdMap COutput × List COutput} {coin : COutput}
    (h : selectCoin ctx acc coin = .ok acc') (hacc : Selected ctx acc) : Selected ctx acc' := by
  unfold selectCoin at h
  split at h
  · cases h
    exact hacc
  split at h
  · cases h
    exact hacc
  · rename_i addr hdest
    split at h
    · cases h
      refine ⟨fun a c hc => ?_, fun c hc => ?_⟩
      · rw [StdMap.find?_insert] at hc
        split_ifs at hc with ha
        · cases hc
          exact ha ▸ hdest
        · exact hacc.1 a c hc
      · obtain ⟨a, ha, hs⟩ := hacc.2 c hc
        refine ⟨a, ha, ?_⟩
        rw [StdMap.find?_insert]
        split_ifs <;> simp [hs]
    split at h
    · cases h
      exact hacc
    · rename_i hin hlt
      cases h
      refine ⟨hacc.1, fun c hc => ?_⟩
      rcases List.mem_append.mp hc with hc | hc
      · exact hacc.2 c hc
      · obtain rfl := List.mem_singleton.mp hc
        refine ⟨addr, hdest, ?_⟩
        simp only [Bool.and_eq_true, decide_eq_true_eq, not_and, Option.isNone_iff_eq_none] at hin
        simp only [SInt.lt_def, not_lt] at hlt
        cases hf : acc.1.find? addr with
        | none => exact absurd (hthr.trans hlt) (hin hf)
        | some _ => rfl
  · cases h

theorem foldlM_selectCoin_selected
    (hthr : ctx.inputThreshold.val ≤ ctx.params.voteMinUtxoAmount.val) :
    ∀ (coins : List COutput) {acc acc' : StdMap COutput × List COutput}, Selected ctx acc →
      coins.foldlM (selectCoin ctx) acc = .ok acc' → Selected ctx acc'
  | [], _, _, hacc, h => by cases h; exact hacc
  | coin :: rest, acc, _, hacc, h => by
    rw [List.foldlM_cons] at h
    obtain ⟨acc₁, h₁, h⟩ := except_bind_ok h
    exact foldlM_selectCoin_selected hthr rest (selectCoin_selected hthr h₁ hacc) h

/-- **Every vote has an input of its address.** With the input threshold at most
`voteMinUtxoAmount`, every vote of a committed transaction is on a coin whose address pays
one of the transaction's inputs, the input `matchesVinPubKey` searches. -/
theorem votePass_votes_have_inputs
    (hthr : ctx.inputThreshold.val ≤ ctx.params.voteMinUtxoAmount.val)
    {proposals : List ProposalVote} {coins : List COutput} {U : List (OutPoint × Nat)}
    {cd done : Bool} {t : VoteTx} {used : List (OutPoint × Nat)} {coins' : List COutput}
    (h : votePass ctx w proposals coins U cd = .ok (.committed t used done coins')) :
    ∀ p ∈ t.votes, ∃ c ∈ coins, c.outpoint = p.1 ∧ ∃ addr,
      ctx.env.extractDestination c.txout.scriptPubKey = some (.keyID addr) ∧
      ∃ c' ∈ coins, c'.outpoint ∈ t.inputs ∧
        ctx.env.extractDestination c'.txout.scriptPubKey = some (.keyID addr) := by
  obtain ⟨inputCoins, filtered, s, -, -, -, hsel, hs, -, hvotes, hinputs, -, -, -⟩ :=
    votePass_committed h
  have hinv : s.Inv ctx U (filtered.map (·.outpoint)) :=
    voteCoins_inv (fun c hc => List.mem_map_of_mem _ hc) ⟨by simp, id, by simp⟩ hs
  have hsl := foldlM_selectCoin_selected hthr _ ⟨by simp, by simp⟩ hsel
  have hmem : ∀ c ∈ filtered ++ inputCoins.values, c ∈ coins := fun c hc => by
    have := (foldlM_selectCoin_subperm _ hsel).subset hc
    simp only [List.nil_append, StdMap.values, StdMap.empty, List.map_nil] at this
    exact (List.perm_insertionSort _ coins).mem_iff.mp this
  intro p hp
  rw [hvotes] at hp
  obtain ⟨v, hv, rfl⟩ := List.mem_map.mp hp
  obtain ⟨c, hc, hco⟩ := List.mem_map.mp (hinv.votes v hv).2.1
  obtain ⟨addr, hdest, hin⟩ := hsl.2 c hc
  obtain ⟨c', hc'⟩ := Option.isSome_iff_exists.mp hin
  have hval : c' ∈ inputCoins.values := StdMap.mem_values.mpr ⟨addr, hc'⟩
  refine ⟨c, hmem c (List.mem_append_left _ hc), hco, addr, hdest, c',
    hmem c' (List.mem_append_right _ hval), ?_, hsl.1 addr c' hc'⟩
  rw [hinputs]
  exact List.mem_map_of_mem _ hval

set_option maxRecDepth 10000 in
theorem sampleWallet_votes_have_inputs :
    ({ oneVoteContext with inputThreshold := 10 } : VoteContext).inputThreshold.val ≤
        ({ oneVoteContext with inputThreshold := 10 } : VoteContext).params.voteMinUtxoAmount.val ∧
      ∃ t used done coins', votePass { oneVoteContext with inputThreshold := 10 } sampleWallet
          [⟨sampleProposal, voteYes⟩] sampleWallet.coins [] false =
          .ok (.committed t used done coins') ∧
        ∀ p ∈ t.votes, ∃ c ∈ sampleWallet.coins, c.outpoint = p.1 ∧ ∃ addr,
          sampleEnv.extractDestination c.txout.scriptPubKey = some (.keyID addr) ∧
          ∃ c' ∈ sampleWallet.coins, c'.outpoint ∈ t.inputs ∧
            sampleEnv.extractDestination c'.txout.scriptPubKey = some (.keyID addr) := by
  have hthr : ({ oneVoteContext with inputThreshold := 10 } : VoteContext).inputThreshold.val ≤
      ({ oneVoteContext with inputThreshold := 10 } : VoteContext).params.voteMinUtxoAmount.val := by
    decide
  obtain ⟨t, used, done, coins', h⟩ : ∃ t used done coins',
      votePass { oneVoteContext with inputThreshold := 10 } sampleWallet
        [⟨sampleProposal, voteYes⟩] sampleWallet.coins [] false =
        .ok (.committed t used done coins') := ⟨_, _, _, _, rfl⟩
  exact ⟨hthr, t, used, done, coins', h, votePass_votes_have_inputs hthr h⟩

/-- A transaction paying 70 and 80 to key id 7 and 30 to key id 8. -/
def twoKeyFunding : Transaction := ⟨[], [⟨70, [0x76, 7]⟩, ⟨80, [0x76, 7]⟩, ⟨30, [0x76, 8]⟩]⟩

def twoKeyCoin (n : UInt32) (value : CAmount) (key : UInt8) : COutput :=
  ⟨⟨sampleEnv.txHash twoKeyFunding, n⟩, ⟨value, [0x76, key]⟩, true⟩

/-- A wallet holding the keys of key ids 7 and 8 and the coins of `twoKeyFunding`; a key's
signature recovers to the key itself. -/
def twoKeyWallet : Wallet :=
  { sampleWallet with
    coins := [twoKeyCoin 0 70 7, twoKeyCoin 1 80 7, twoKeyCoin 2 30 8]
    getKey := fun d => if d = .keyID 7 then some 7 else if d = .keyID 8 then some 8 else none
    signCompact := fun key _ => some (2 :: key.toUInt8 :: List.replicate 31 0) }

def twoKeyContext : VoteContext :=
  { oneVoteContext with view := chainView sampleEnv [sampleBlock 50 [twoKeyFunding]] }

set_option maxRecDepth 10000 in
/-- **The threshold bound matters.** With the input threshold 60 above `voteMinUtxoAmount`
10, the coin of key id 8, worth 30, is no input and votes; the run ends as it should, and the
transaction that carries the vote spends only the coin of key id 7 worth 70, so none of its
inputs bears the key `matchesVinPubKey` looks for. -/
example : (submitVotes twoKeyContext [⟨sampleProposal, voteYes⟩] [twoKeyWallet] 5).2 =
      some (.ok ()) ∧
    (submitVotes twoKeyContext [⟨sampleProposal, voteYes⟩] [twoKeyWallet] 5).1.txs.map
        (fun t => (t.votes.map Prod.fst, t.inputs)) =
      [([(twoKeyCoin 2 30 8).outpoint], [(twoKeyCoin 0 70 7).outpoint])] := by
  decide

end Inputs

end Gov
