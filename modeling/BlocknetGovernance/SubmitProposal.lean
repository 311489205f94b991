import BlocknetGovernance.SubmitVotes

/-!
# `Governance::submitProposal`

`submitProposal` checks the proposal and, when `-proposaladdress` is set, that the address is
a valid pay-to-key-hash address, then walks the wallets. A wallet is passed over when its
available balance does not exceed the proposal fee, it is locked, it has no coins, or, with a
proposal address, the spendable coins paying to that address, taken from the smallest up
until their sum passes the fee, never pass it. The first wallet not passed over is asked for
the transaction: one recipient, the proposal's OP_RETURN script paying the fee, from the
coins selected at the proposal address with the change back to it, or, without an address,
from coins the wallet picks with the change to the destination of its largest coin. That
wallet failing to create or commit ends the call: no later wallet is asked.

* `proposalCoinControl_selected`: with a proposal address, the coins the wallet is given are
  the shortest run, from the smallest value up, of the coins paying to the address whose
  running amount passes the fee; when no run passes it, the wallet is passed over.
* `largestCoinDestination_max`: without an address, the change goes to the destination of a
  coin of the largest value among the coins that have one.
* `submitProposal_ok`: a committed proposal transaction was created by a wallet above the
  fee and unlocked, for the proposal's script paying the fee, from coins at the proposal
  address that pass the fee, with the change to that address or to the largest coin's.
-/

namespace Gov

/-- What `submitProposal` calls on one wallet. -/
structure ProposalWallet where
  /-- `GetAvailableBalance()`. -/
  availableBalance : CAmount
  /-- `IsLocked()`. -/
  locked : Bool
  /-- `GetBroadcastTransactions()`. -/
  broadcast : Bool
  /-- `AvailableCoins(*locked_chain, coins, true)`. -/
  coins : List COutput
  /-- `CreateTransaction(vecSend, tx, ..., nFeeRequired, nChangePosRet, strError, cc)`, given
  the recipients, the coin control's selected inputs and its change destination: the
  transaction, or `nFeeRequired` and `strError`. -/
  createTransaction : List TxOut → List OutPoint → TxDestination →
    Except (CAmount × String) Transaction
  /-- `CommitTransaction`: none, or the rejection `FormatStateMessage(state)`. -/
  commitTransaction : Transaction → Option String

/-- The node around `submitProposal`. -/
structure ProposalContext where
  params : Params
  env : Env
  /-- `gArgs.GetArg("-proposaladdress", "")`. -/
  proposalAddress : Bytes
  /-- `DecodeDestination`. -/
  decodeDestination : Bytes → TxDestination
  /-- `GetWallets()`. -/
  loadedWallets : List ProposalWallet
  /-- `g_connman` is set. -/
  connman : Bool

/-- How `submitProposal` returns `false`, with the reason it writes. -/
inductive SubmitProposalError
  /-- "Proposal is not valid" -/
  | invalidProposal (reason : String)
  /-- "Bad proposal address specified in 'proposaladdress' config option. Make sure it's a
  valid legacy address" -/
  | badAddress
  /-- "Bad proposal address specified in 'proposaladdress' config option. Only p2pkh
  (pay-to-pubkey-hash) addresses are accepted" -/
  | notPayToKeyHash
  /-- "Peer-to-peer functionality missing or disabled" -/
  | p2pMissing
  /-- "This transaction requires a transaction fee of at least %s: %s" -/
  | feeRequired (nFeeRequired : CAmount) (strError : String)
  /-- `error("Failed to create the proposal submission transaction: %s", strError)`: `false`
  with `failReasonRet` left as it was. -/
  | createFailed (strError : String)
  /-- "Failed to create the proposal submission transaction, it was rejected: %s" -/
  | commitRejected (state : String)
  /-- "Failed to create proposal, check that your wallet is unlocked with a balance of at
  least %s" -/
  | notSent (proposalFee : CAmount)
  deriving DecidableEq, Repr

/-- Modelled from the spec: `Solver(GetScriptForDestination(dest)) == TX_PUBKEYHASH`, which
holds exactly for a key id, whose script is the pay-to-key-hash template. -/
def isPayToKeyHash : TxDestination → Bool
  | .keyID _ => true
  | _ => false

/-- The coin loop of the branch with a proposal address, over the coins sorted by value: a
spendable coin whose destination is `address` is selected (`cc.Select`) and its value added
to `selectedAmount`, until the amount passes the fee. -/
def selectProposalCoins (env : Env) (address : TxDestination) (fee : CAmount) :
    List COutput → List OutPoint × CAmount → List OutPoint × CAmount
  | [], acc => acc
  | out :: rest, acc =>
    if !out.spendable then selectProposalCoins env address fee rest acc
    else match env.extractDestination out.txout.scriptPubKey with
      | none => selectProposalCoins env address fee rest acc
      | some dest =>
        if dest != address then selectProposalCoins env address fee rest acc
        else
          let acc := (acc.1 ++ [out.outpoint], acc.2 + out.txout.nValue)
          if fee < acc.2 then acc else selectProposalCoins env address fee rest acc

/-- The change destination of the branch without a proposal address: the destination of the
first coin, from the largest value down, that has one, or `address` when none has. -/
def largestCoinDestination (env : Env) (address : TxDestination) (coins : List COutput) :
    TxDestination :=
  ((coins.insertionSort fun a b => b.txout.nValue.val ≤ a.txout.nValue.val).findSome? fun c =>
    env.extractDestination c.txout.scriptPubKey).getD address

/-- The coin control `cc` the wallet is given, as its selected inputs and change destination,
or none when, with a proposal address, the coins there do not pass the fee (`continue`). -/
def proposalCoinControl (env : Env) (specified : Bool) (address : TxDestination)
    (fee : CAmount) (coins : List COutput) : Option (List OutPoint × TxDestination) :=
  if specified then
    let selection := selectProposalCoins env address fee
      (coins.insertionSort fun a b => a.txout.nValue.val ≤ b.txout.nValue.val) ([], 0)
    if selection.2 ≤ fee then none else some (selection.1, address)
  else some ([], largestCoinDestination env address coins)

/-- The body of the wallet loop for one wallet: passed over (none), or the end of the call. -/
def proposalWalletStep (ctx : ProposalContext) (script : Bytes) (specified : Bool)
    (address : TxDestination) (w : ProposalWallet) :
    Option (Except SubmitProposalError Transaction) :=
  let fee := ctx.params.proposalFee
  if w.availableBalance ≤ fee ∨ w.locked = true then none
  else if w.broadcast && !ctx.connman then some (throw .p2pMissing)
  else if w.coins.isEmpty then none
  else (proposalCoinControl ctx.env specified address fee w.coins).map fun cc =>
    match w.createTransaction [⟨fee, script⟩] cc.1 cc.2 with
    | .error (nFeeRequired, strError) =>
      if w.availableBalance < fee + nFeeRequired then throw (.feeRequired nFeeRequired strError)
      else throw (.createFailed strError)
    | .ok tx =>
      match w.commitTransaction tx with
      | some state => throw (.commitRejected state)
      | none => pure tx

/-- The loop over the wallets: the first wallet not passed over ends the call. -/
def proposalWallets (ctx : ProposalContext) (script : Bytes) (specified : Bool)
    (address : TxDestination) : List ProposalWallet → Except SubmitProposalError Transaction
  | [] => throw (.notSent ctx.params.proposalFee)
  | w :: ws =>
    match proposalWalletStep ctx script specified address w with
    | some r => r
    | none => proposalWallets ctx script specified address ws

/-- `Governance::submitProposal(proposal, params, tx, failReasonRet)`: the committed
transaction, or how the call fails. -/
def submitProposal (ctx : ProposalContext) (p : Proposal) :
    Except SubmitProposalError Transaction := do
  let script ← (proposalScript ctx.params ctx.env p).mapError .invalidProposal
  let specified := !ctx.proposalAddress.isEmpty
  let address := if specified then ctx.decodeDestination ctx.proposalAddress else .noDestination
  if specified then
    if !ctx.env.isValidDestinationString ctx.proposalAddress then throw .badAddress
    if !isPayToKeyHash address then throw .notPayToKeyHash
  proposalWallets ctx script specified address ctx.loadedWallets

/-! ## Samples -/

/-- Coins at key id 7 worth 30, 5 and 8 (the last not spendable), and one at key id 8 worth
20, as `AvailableCoins` lists them. -/
def proposalCoins : List COutput :=
  [⟨⟨1, 0⟩, ⟨30, [0x76, 7]⟩, true⟩, ⟨⟨1, 1⟩, ⟨5, [0x76, 7]⟩, true⟩,
    ⟨⟨1, 2⟩, ⟨20, [0x76, 8]⟩, true⟩, ⟨⟨1, 3⟩, ⟨8, [0x76, 7]⟩, false⟩]

/-- A wallet holding `proposalCoins`, whose transactions spend the selected inputs and pay the
recipients, and are committed as they are. -/
def proposalWallet : ProposalWallet where
  availableBalance := 63
  locked := false
  broadcast := false
  coins := proposalCoins
  createTransaction := fun recipients inputs _ => .ok ⟨inputs.map (⟨·, []⟩), recipients⟩
  commitTransaction := fun _ => none

/-- `-proposaladdress` decoding to key id 7, a wallet whose balance does not pass the fee,
then `proposalWallet`. -/
def proposalContext : ProposalContext where
  params := sampleParams
  env := sampleEnv
  proposalAddress := [7]
  decodeDestination := fun _ => .keyID 7
  loadedWallets := [{ proposalWallet with availableBalance := 10 }, proposalWallet]
  connman := true

/-! ## The coins selected at the proposal address -/

/-- A coin the loop of the branch with a proposal address selects: spendable, and paying to
the address. -/
def paysTo (env : Env) (address : TxDestination) (c : COutput) : Bool :=
  c.spendable && env.extractDestination c.txout.scriptPubKey == some address

def runningAmount (a : CAmount) (cs : List COutput) : CAmount :=
  cs.foldl (fun x c => x + c.txout.nValue) a

section Selection

variable (env : Env) (address : TxDestination) (fee : CAmount)

/-- The loop selects a run of the coins paying to the address from the first: up to the first
whose running amount passes the fee, or all of them. -/
theorem selectProposalCoins_take :
    ∀ (coins : List COutput) (s : List OutPoint) (a : CAmount),
      ∃ k ≤ (coins.filter (paysTo env address)).length,
        selectProposalCoins env address fee coins (s, a) =
          (s ++ ((coins.filter (paysTo env address)).take k).map (·.outpoint),
            runningAmount a ((coins.filter (paysTo env address)).take k)) ∧
        (∀ j, 0 < j → j < k →
          runningAmount a ((coins.filter (paysTo env address)).take j) ≤ fee) ∧
        (k = (coins.filter (paysTo env address)).length ∨
          0 < k ∧ fee < runningAmount a ((coins.filter (paysTo env address)).take k))
  | [], s, a => ⟨0, le_rfl, by simp [selectProposalCoins, runningAmount], by omega, .inl rfl⟩
  | c :: rest, s, a => by
    by_cases hc : paysTo env address c = true
    · have hsp : c.spendable = true := by simp_all [paysTo]
      have hd : env.extractDestination c.txout.scriptPubKey = some address := by
        simpa [paysTo, hsp] using hc
      rw [List.filter_cons_of_pos hc]
      by_cases hf : fee < a + c.txout.nValue
      · refine ⟨1, by simp, ?_, fun j h0 h1 => by omega, .inr ⟨by omega, by simpa [runningAmount]⟩⟩
        simp [selectProposalCoins, hsp, hd, hf, runningAmount]
      · obtain ⟨k, hk, heq, hpre, hend⟩ :=
          selectProposalCoins_take rest (s ++ [c.outpoint]) (a + c.txout.nValue)
        refine ⟨k + 1, by simpa using hk, ?_, fun j h0 h1 => ?_, ?_⟩
        · simp only [selectProposalCoins, hsp, Bool.not_true, Bool.false_eq_true, if_false, hd,
            bne_self_eq_false, hf, heq]
          simp [runningAmount]
        · obtain ⟨j, rfl⟩ : ∃ j', j = j' + 1 := ⟨j - 1, by omega⟩
          rcases Nat.eq_zero_or_pos j with rfl | hj
          · simpa [runningAmount] using not_lt.mp hf
          · simpa [runningAmount] using hpre j hj (by omega)
        · rcases hend with h | ⟨-, h⟩
          · exact .inl (by simp [h])
          · exact .inr ⟨by omega, by simpa [runningAmount] using h⟩
    · rw [List.filter_cons_of_neg hc]
      have hskip : selectProposalCoins env address fee (c :: rest) (s, a) =
          selectProposalCoins env address fee rest (s, a) := by
        simp only [paysTo, Bool.and_eq_true, beq_iff_eq, not_and] at hc
        cases hsp : c.spendable
        · simp [selectProposalCoins, hsp]
        · cases hd : env.extractDestination c.txout.scriptPubKey with
          | none => simp [selectProposalCoins, hsp, hd]
          | some d => simp [selectProposalCoins, hsp, hd, show d ≠ address from
              fun h => hc hsp (h ▸ hd)]
      rw [hskip]
      exact selectProposalCoins_take rest s a

/-- The coins the loop of the branch with a proposal address can select, in the order it
meets them: the coins paying to the address, by value from the smallest. -/
def proposalEligible (env : Env) (address : TxDestination) (coins : List COutput) :
    List COutput :=
  (coins.insertionSort fun a b => a.txout.nValue.val ≤ b.txout.nValue.val).filter
    (paysTo env address)

theorem sorted_proposalEligible (coins : List COutput) :
    (proposalEligible env address coins).Sorted
      fun a b => a.txout.nValue.val ≤ b.txout.nValue.val := by
  haveI : IsTotal COutput fun a b => a.txout.nValue.val ≤ b.txout.nValue.val :=
    ⟨fun _ _ => le_total _ _⟩
  haveI : IsTrans COutput fun a b => a.txout.nValue.val ≤ b.txout.nValue.val :=
    ⟨fun _ _ _ => le_trans⟩
  exact (List.sorted_insertionSort _ coins).filter _

theorem mem_proposalEligible {coins : List COutput} {c : COutput}
    (h : c ∈ proposalEligible env address coins) : c ∈ coins ∧ paysTo env address c = true := by
  obtain ⟨hc, hp⟩ := List.mem_filter.mp h
  exact ⟨(List.perm_insertionSort _ coins).mem_iff.mp hc, hp⟩

/-- **The coins selected at the proposal address.** The wallet is given the shortest run of
the address's coins, smallest first, whose running amount passes the fee, with change to the
address; without such a run it is passed over. -/
theorem proposalCoinControl_selected (coins : List COutput) :
    (∀ selected destChange, proposalCoinControl env true address fee coins =
        some (selected, destChange) →
      destChange = address ∧ ∃ k,
        selected = ((proposalEligible env address coins).take k).map (·.outpoint) ∧
        fee < runningAmount 0 ((proposalEligible env address coins).take k) ∧
        (∀ j, 0 < j → j < k →
          runningAmount 0 ((proposalEligible env address coins).take j) ≤ fee) ∧
        ∀ c ∈ (proposalEligible env address coins).take k,
          ∀ c' ∈ (proposalEligible env address coins).drop k,
            c.txout.nValue.val ≤ c'.txout.nValue.val) ∧
      (proposalCoinControl env true address fee coins = none →
        ∀ j, 0 < j → j ≤ (proposalEligible env address coins).length →
          runningAmount 0 ((proposalEligible env address coins).take j) ≤ fee) := by
  obtain ⟨k, hk, heq, hpre, hend⟩ := selectProposalCoins_take env address fee
    (coins.insertionSort fun a b => a.txout.nValue.val ≤ b.txout.nValue.val) [] 0
  have hE : (coins.insertionSort fun a b => a.txout.nValue.val ≤ b.txout.nValue.val).filter
      (paysTo env address) = proposalEligible env address coins := rfl
  rw [hE] at hk heq hpre hend
  simp only [proposalCoinControl, if_true, heq, List.nil_append]
  refine ⟨fun selected destChange h => ?_, fun h j h0 hj => ?_⟩
  · split_ifs at h with hle
    obtain ⟨rfl, rfl⟩ := Prod.mk.inj (Option.some.inj h)
    have hsorted := sorted_proposalEligible env address coins
    rw [← List.take_append_drop k (proposalEligible env address coins)] at hsorted
    exact ⟨rfl, k, rfl, by simp only [SInt.le_def, SInt.lt_def] at hle ⊢; omega, hpre,
      (List.pairwise_append.mp hsorted).2.2⟩
  · split_ifs at h with hle
    have hk' : k = (proposalEligible env address coins).length := by
      rcases hend with h' | ⟨-, h'⟩
      · exact h'
      · exact absurd h' (by simp only [SInt.le_def, SInt.lt_def] at hle ⊢; omega)
    rcases Nat.lt_or_ge j k with hjk | hjk
    · exact hpre j h0 hjk
    · rwa [show j = k by omega]

/-- At key id 7 under a fee of 10 the coins worth 5 and 30 are selected, in that order: the
unspendable coin and the coin at key id 8 are passed by. -/
theorem proposalCoins_selected :
    proposalCoinControl sampleEnv true (.keyID 7) 10 proposalCoins =
        some ([⟨1, 1⟩, ⟨1, 0⟩], .keyID 7) ∧
      (∀ selected destChange, proposalCoinControl sampleEnv true (.keyID 7) 10 proposalCoins =
          some (selected, destChange) →
        destChange = .keyID 7 ∧ ∃ k,
          selected = ((proposalEligible sampleEnv (.keyID 7) proposalCoins).take k).map
            (·.outpoint) ∧
          10 < runningAmount 0 ((proposalEligible sampleEnv (.keyID 7) proposalCoins).take k) ∧
          (∀ j, 0 < j → j < k → runningAmount 0
            ((proposalEligible sampleEnv (.keyID 7) proposalCoins).take j) ≤ 10) ∧
          ∀ c ∈ (proposalEligible sampleEnv (.keyID 7) proposalCoins).take k,
            ∀ c' ∈ (proposalEligible sampleEnv (.keyID 7) proposalCoins).drop k,
              c.txout.nValue.val ≤ c'.txout.nValue.val) ∧
        (proposalCoinControl sampleEnv true (.keyID 7) 10 proposalCoins = none →
          ∀ j, 0 < j → j ≤ (proposalEligible sampleEnv (.keyID 7) proposalCoins).length →
            runningAmount 0 ((proposalEligible sampleEnv (.keyID 7) proposalCoins).take j) ≤ 10) :=
  ⟨by decide, proposalCoinControl_selected sampleEnv (.keyID 7) 10 proposalCoins⟩

end Selection

/-- Without a proposal address the change goes to the destination of a coin of the largest
value among the coins that have one, and to `address` when none has. -/
theorem largestCoinDestination_max (env : Env) (address : TxDestination)
    (coins : List COutput) :
    (∃ c ∈ coins, env.extractDestination c.txout.scriptPubKey =
        some (largestCoinDestination env address coins) ∧
      ∀ c' ∈ coins, (env.extractDestination c'.txout.scriptPubKey).isSome →
        c'.txout.nValue.val ≤ c.txout.nValue.val) ∨
      (∀ c ∈ coins, env.extractDestination c.txout.scriptPubKey = none) ∧
        largestCoinDestination env address coins = address := by
  set r : COutput → COutput → Prop := fun a b => b.txout.nValue.val ≤ a.txout.nValue.val
  haveI : IsTotal COutput r := ⟨fun _ _ => le_total _ _⟩
  haveI : IsTrans COutput r := ⟨fun _ _ _ h1 h2 => le_trans h2 h1⟩
  have hperm := List.perm_insertionSort r coins
  have hsorted := List.sorted_insertionSort r coins
  unfold largestCoinDestination
  cases hf : (coins.insertionSort r).findSome?
      fun c => env.extractDestination c.txout.scriptPubKey with
  | none =>
    exact .inr ⟨fun c hc => List.findSome?_eq_none_iff.mp hf c (hperm.mem_iff.mpr hc), rfl⟩
  | some d =>
    obtain ⟨l₁, c, l₂, hl, hc, hl₁⟩ := List.findSome?_eq_some_iff.mp hf
    rw [hl] at hsorted hperm
    refine .inl ⟨c, hperm.mem_iff.mp (by simp), hc, fun c' hc' hd => ?_⟩
    rcases List.mem_append.mp (hperm.mem_iff.mpr hc') with h1 | h2
    · simp [hl₁ c' h1] at hd
    · rcases List.mem_cons.mp h2 with rfl | h3
      · exact le_rfl
      · exact List.rel_of_pairwise_cons (List.pairwise_append.mp hsorted).2.1 h3

/-! ## A committed proposal -/

section Success

variable {ctx : ProposalContext} {script : Bytes} {specified : Bool} {address : TxDestination}

theorem proposalWalletStep_ok {w : ProposalWallet} {tx : Transaction}
    (h : proposalWalletStep ctx script specified address w = some (.ok tx)) :
    ctx.params.proposalFee < w.availableBalance ∧ w.locked = false ∧ ∃ cc,
      proposalCoinControl ctx.env specified address ctx.params.proposalFee w.coins = some cc ∧
      w.createTransaction [⟨ctx.params.proposalFee, script⟩] cc.1 cc.2 = .ok tx ∧
      w.commitTransaction tx = none := by
  unfold proposalWalletStep at h
  dsimp only at h
  by_cases h1 : w.availableBalance ≤ ctx.params.proposalFee ∨ w.locked = true
  · rw [if_pos h1] at h; cases h
  rw [if_neg h1] at h
  by_cases h2 : (w.broadcast && !ctx.connman) = true
  · rw [if_pos h2] at h; cases h
  rw [if_neg h2] at h
  by_cases h3 : w.coins.isEmpty = true
  · rw [if_pos h3] at h; cases h
  rw [if_neg h3] at h
  obtain ⟨cc, hcc, h⟩ := Option.map_eq_some'.mp h
  push_neg at h1
  refine ⟨by simpa using h1.1, by simpa using h1.2, cc, hcc, ?_⟩
  split at h
  · split_ifs at h
  · rename_i tx' hcreate
    split at h
    · cases h
    · rename_i hcommit
      cases h
      exact ⟨hcreate, hcommit⟩

theorem proposalWallets_ok {tx : Transaction} :
    ∀ {ws : List ProposalWallet}, proposalWallets ctx script specified address ws = .ok tx →
      ∃ w ∈ ws, proposalWalletStep ctx script specified address w = some (.ok tx)
  | [], h => by cases h
  | w :: ws, h => by
    simp only [proposalWallets] at h
    split at h
    · rename_i r hr
      exact ⟨w, .head _, hr.trans (congrArg some h)⟩
    · obtain ⟨w', hw', h'⟩ := proposalWallets_ok h
      exact ⟨w', .tail _ hw', h'⟩

/-- **A committed proposal transaction.** A successful `submitProposal` had a valid proposal
and one unlocked wallet with enough balance that created and committed the transaction
paying the fee to the proposal's script, with the inputs and change its branch chose. -/
theorem submitProposal_ok {ctx : ProposalContext} {p : Proposal} {tx : Transaction}
    (h : submitProposal ctx p = .ok tx) :
    p.isValid ctx.params ctx.env = true ∧
      ∃ w ∈ ctx.loadedWallets, ∃ selected destChange,
        ctx.params.proposalFee < w.availableBalance ∧ w.locked = false ∧
        w.createTransaction [⟨ctx.params.proposalFee, opReturn :: pushData p.ser⟩] selected
          destChange = .ok tx ∧ w.commitTransaction tx = none ∧
        (ctx.proposalAddress ≠ [] →
          ctx.env.isValidDestinationString ctx.proposalAddress = true ∧
          destChange = ctx.decodeDestination ctx.proposalAddress ∧
          isPayToKeyHash destChange = true ∧
          ∃ cs : List COutput, selected = cs.map (·.outpoint) ∧
            (∀ c ∈ cs, c ∈ w.coins ∧ paysTo ctx.env destChange c = true) ∧
            ctx.params.proposalFee < runningAmount 0 cs) ∧
        (ctx.proposalAddress = [] → selected = [] ∧
          ((∃ c ∈ w.coins, ctx.env.extractDestination c.txout.scriptPubKey = some destChange ∧
            ∀ c' ∈ w.coins, (ctx.env.extractDestination c'.txout.scriptPubKey).isSome →
              c'.txout.nValue.val ≤ c.txout.nValue.val) ∨
            (∀ c ∈ w.coins, ctx.env.extractDestination c.txout.scriptPubKey = none) ∧
              destChange = .noDestination)) := by
  simp only [submitProposal] at h
  obtain ⟨script, hs, h⟩ := except_bind_ok h
  have hs' := except_mapError_ok hs
  unfold proposalScript at hs'
  split_ifs at hs' with hv
  cases hs'
  refine ⟨hv, ?_⟩
  by_cases hspec : ctx.proposalAddress = []
  · simp only [hspec, List.isEmpty_nil, Bool.not_true, Bool.false_eq_true, if_false,
      except_pure, except_ok_bind] at h
    obtain ⟨w, hw, hstep⟩ := proposalWallets_ok h
    obtain ⟨hbal, hlock, cc, hcc, hcreate, hcommit⟩ := proposalWalletStep_ok hstep
    simp only [proposalCoinControl, Bool.false_eq_true, if_false, Option.some.injEq] at hcc
    subst hcc
    exact ⟨w, hw, _, _, hbal, hlock, hcreate, hcommit, fun h' => absurd hspec h',
      fun _ => ⟨rfl, largestCoinDestination_max ctx.env _ w.coins⟩⟩
  · have hne : (!ctx.proposalAddress.isEmpty) = true := by
      cases h' : ctx.proposalAddress <;> simp_all
    simp only [hne, if_true] at h
    cases hva : ctx.env.isValidDestinationString ctx.proposalAddress
    · simp [hva] at h; cases h
    cases hpk : isPayToKeyHash (ctx.decodeDestination ctx.proposalAddress)
    · simp [hva, hpk] at h; cases h
    simp only [hva, hpk, Bool.not_true, Bool.false_eq_true, if_false, except_pure,
      except_ok_bind] at h
    obtain ⟨w, hw, hstep⟩ := proposalWallets_ok h
    obtain ⟨hbal, hlock, ⟨selected, destChange⟩, hcc, hcreate, hcommit⟩ :=
      proposalWalletStep_ok hstep
    obtain ⟨rfl, k, rfl, hfee, -, -⟩ :=
      (proposalCoinControl_selected ctx.env _ _ w.coins).1 _ _ hcc
    exact ⟨w, hw, _, _, hbal, hlock, hcreate, hcommit, fun _ => ⟨rfl, rfl, hpk,
      _, rfl, fun c hc => mem_proposalEligible _ _ (List.mem_of_mem_take hc), hfee⟩,
      fun h' => absurd h' hspec⟩

end Success

set_option maxRecDepth 10000 in
/-- Under `proposalContext` the first wallet is passed over and `proposalWallet` pays the fee
of 10 from its coins worth 5 and 30 at key id 7. -/
theorem proposalContext_submitted :
    submitProposal proposalContext sampleProposal =
        .ok ⟨[⟨⟨1, 1⟩, []⟩, ⟨⟨1, 0⟩, []⟩], [⟨10, opReturn :: pushData sampleProposal.ser⟩]⟩ ∧
      sampleProposal.isValid sampleParams sampleEnv = true :=
  have h : submitProposal proposalContext sampleProposal =
      .ok ⟨[⟨⟨1, 1⟩, []⟩, ⟨⟨1, 0⟩, []⟩], [⟨10, opReturn :: pushData sampleProposal.ser⟩]⟩ := by
    decide
  ⟨h, (submitProposal_ok h).1⟩

end Gov
