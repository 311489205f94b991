import BlocknetGovernance.Extract

/-!
# `Governance::getTally`

The votes on a proposal are grouped by the hash of the transaction that carried them
(`userVotes`) and by the key id of the key recovered from their signature
(`userVotesDest`). The loop over the transaction groups extends each group by the
destination groups of its votes, drops the votes already counted, and tallies the rest
as one user; the final tally adds the users' tallies. Every container is a
`std::set<Vote>`, ordered and deduplicated by `getHash`, and the groups are visited in the
order of the maps' `uint256` and `CKeyID` keys (`StdMap`, by `keyRank`).

`getTally_sums` is the exact-once property: for votes with distinct hashes and
non-negative amounts whose total fits an `int64_t`, the three amounts of the final tally
are the sums of the amounts of the proposal's yes, no and abstain votes, however the
transaction and destination groups overlap. The counted votes are, up to order, the
proposal's votes (`countGroups_perm`).

`getTally_no_overflow` is the range result: the tallies are those of a partition of the
proposal's votes into users (`tallies_users`), and for amounts within a money limit every
sum the code adds and every count it casts is the exact value, in range; the final counts
are at most the final coins over the vote balance.
-/

namespace Gov

/-- `Tally`. -/
structure Tally where
  cyes : CAmount := 0
  cno : CAmount := 0
  cabstain : CAmount := 0
  yes : CInt := 0
  no : CInt := 0
  abstain : CInt := 0
  deriving DecidableEq, Repr

/-- `m[k].insert(vote)` on a `std::map<K, std::set<Vote>>`. -/
def groupInsert (env : Env) (m : StdMap (List Vote)) (k : Nat) (v : Vote) : StdMap (List Vote) :=
  m.insert k (insertVote env v ((m.find? k).getD []))

/-- The votes grouped by `key`, as `getTally`'s first loop fills `userVotes` (by the
outpoint's transaction hash) and `userVotesDest` (by the recovered key's id), one vote at a
time. -/
def groupBy (env : Env) (key : Vote → Nat) (votes : List Vote) : StdMap (List Vote) :=
  votes.foldl (fun m v => groupInsert env m (key v) v) .empty

/-- One vote added to a user's tally, by its type. -/
def tallyStep (t : Tally) (v : Vote) : Tally :=
  if v.vote = voteYes then { t with cyes := t.cyes + v.amount }
  else if v.vote = voteNo then { t with cno := t.cno + v.amount }
  else if v.vote = voteAbstain then { t with cabstain := t.cabstain + v.amount }
  else t

/-- One user's tally: the amounts of the group's votes by vote type, and the vote counts,
`static_cast<int>(amount / voteBalance)`. -/
def tallyOf (params : Params) (group : List Vote) : Tally :=
  let t : Tally := group.foldl tallyStep {}
  { t with
    yes := SInt.wrap 32 (t.cyes.val.tdiv params.voteBalance.val)
    no := SInt.wrap 32 (t.cno.val.tdiv params.voteBalance.val)
    abstain := SInt.wrap 32 (t.cabstain.val.tdiv params.voteBalance.val) }

/-- The body of the loop over `userVotes` for one transaction group: the group with the
destination groups of its votes (`allUnique`), less the votes in `counted`; a non-empty
rest joins `counted` and is tallied. -/
def countGroup (env : Env) (params : Params) (userVotesDest : StdMap (List Vote))
    (acc : List Vote × List Tally) (group : List Vote) : List Vote × List Tally :=
  let allUnique := group.foldl (fun all v =>
    ((userVotesDest.find? (keyIDOf env v.pubkey)).getD []).foldl (fun all w => insertVote env w all)
      all) group
  let allUnique := allUnique.filter fun v => !acc.1.any (·.getHash env == v.getHash env)
  if allUnique.isEmpty then acc
  else (allUnique.foldl (fun c v => insertVote env v c) acc.1, acc.2 ++ [tallyOf params allUnique])

/-- `finalTally` plus one user's tally. -/
def addTally (a b : Tally) : Tally :=
  { yes := a.yes + b.yes, no := a.no + b.no, abstain := a.abstain + b.abstain,
    cyes := a.cyes + b.cyes, cno := a.cno + b.cno, cabstain := a.cabstain + b.cabstain }

/-- `Governance::getTally(proposal, votes, params)`. The source fills the two maps in one
loop; each map depends only on its own inserts. -/
def getTally (env : Env) (proposal : Nat) (votes : List Vote) (params : Params) : Tally :=
  let proposalVotes := votes.filter (·.proposal == proposal)
  let userVotes := groupBy env (·.outpoint.hash) proposalVotes
  let userVotesDest := groupBy env (fun v => keyIDOf env v.pubkey) proposalVotes
  let counted := userVotes.values.foldl (countGroup env params userVotesDest) ([], [])
  counted.2.foldl addTally {}

/-- The vector `tallies` of `getTally`: one tally per user with votes left to count, in the
order of the transaction groups. -/
def tallies (env : Env) (proposal : Nat) (votes : List Vote) (params : Params) : List Tally :=
  let proposalVotes := votes.filter (·.proposal == proposal)
  ((groupBy env (·.outpoint.hash) proposalVotes).values.foldl
    (countGroup env params (groupBy env (fun v => keyIDOf env v.pubkey) proposalVotes)) ([], [])).2

/-- The three vote types of a tally, each with the coin sum and the count it fills. -/
def tallyFields : List (UInt8 × (Tally → CAmount) × (Tally → CInt)) :=
  [(voteYes, Tally.cyes, Tally.yes), (voteNo, Tally.cno, Tally.no),
    (voteAbstain, Tally.cabstain, Tally.abstain)]

/-! ## Sums in `int64_t` -/

theorem SInt.wrap_val_emod (w : Nat) (x : Int) :
    (SInt.wrap w x).val % (2 * 2 ^ (w - 1)) = x % (2 * 2 ^ (w - 1)) := by
  simp only [SInt.wrap]
  rw [Int.sub_emod, Int.emod_emod, ← Int.sub_emod, add_sub_cancel_right]

theorem SInt.wrap_val (a : SInt w) : SInt.wrap w a.val = a :=
  SInt.ext (SInt.wrap_val_of_mem a.lo a.hi)

theorem SInt.wrap_add_wrap (x y : Int) :
    SInt.wrap w x + SInt.wrap w y = SInt.wrap w (x + y) := by
  rw [SInt.add_def]
  exact SInt.wrap_eq_of_emod_eq (by rw [Int.add_emod, SInt.wrap_val_emod, SInt.wrap_val_emod,
    ← Int.add_emod])

/-- The sum of the amounts of the votes of type `t`. -/
def typeSum (t : UInt8) (vs : List Vote) : Int :=
  ((vs.filter (·.vote = t)).map (·.amount.val)).sum

@[simp] theorem typeSum_nil (t : UInt8) : typeSum t [] = 0 := rfl

@[simp] theorem typeSum_append (t : UInt8) (l₁ l₂ : List Vote) :
    typeSum t (l₁ ++ l₂) = typeSum t l₁ + typeSum t l₂ := by
  simp [typeSum]

theorem typeSum_cons (t : UInt8) (v : Vote) (vs : List Vote) :
    typeSum t (v :: vs) = (if v.vote = t then v.amount.val else 0) + typeSum t vs := by
  by_cases h : v.vote = t <;> simp [typeSum, List.filter_cons, h]

theorem typeSum_perm (t : UInt8) {l₁ l₂ : List Vote} (h : l₁.Perm l₂) :
    typeSum t l₁ = typeSum t l₂ :=
  ((h.filter _).map _).sum_eq

/-- The three amounts of a tally, each the wrapped sum of its type. -/
def TallyIs (t : Tally) (vs : List Vote) : Prop :=
  t.cyes = SInt.wrap 64 (typeSum voteYes vs) ∧ t.cno = SInt.wrap 64 (typeSum voteNo vs) ∧
    t.cabstain = SInt.wrap 64 (typeSum voteAbstain vs)

theorem tallyIs_nil : TallyIs {} [] := ⟨rfl, rfl, rfl⟩

theorem SInt.wrap_add (x : Int) (a : SInt w) : SInt.wrap w x + a = SInt.wrap w (x + a.val) := by
  conv_lhs => rw [← SInt.wrap_val a]
  exact SInt.wrap_add_wrap x a.val

theorem typeSum_append_single (t : UInt8) (vs : List Vote) (v : Vote) :
    typeSum t (vs ++ [v]) = typeSum t vs + if v.vote = t then v.amount.val else 0 := by
  rw [typeSum_append, typeSum_cons, typeSum_nil, add_zero]

theorem tallyStep_tallyIs {t : Tally} {acc : List Vote} (v : Vote) (h : TallyIs t acc) :
    TallyIs (tallyStep t v) (acc ++ [v]) := by
  obtain ⟨hy, hn, ha⟩ := h
  simp only [TallyIs, typeSum_append_single]
  unfold tallyStep
  by_cases h1 : v.vote = voteYes
  · rw [if_pos h1, if_pos h1, if_neg (by rw [h1]; decide), if_neg (by rw [h1]; decide)]
    exact ⟨by rw [hy, SInt.wrap_add], by rw [hn, add_zero], by rw [ha, add_zero]⟩
  by_cases h2 : v.vote = voteNo
  · rw [if_neg h1, if_pos h2, if_neg h1, if_pos h2, if_neg (by rw [h2]; decide)]
    exact ⟨by rw [hy, add_zero], by rw [hn, SInt.wrap_add], by rw [ha, add_zero]⟩
  by_cases h3 : v.vote = voteAbstain
  · rw [if_neg h1, if_neg h2, if_pos h3, if_neg h1, if_neg h2, if_pos h3]
    exact ⟨by rw [hy, add_zero], by rw [hn, add_zero], by rw [ha, SInt.wrap_add]⟩
  · rw [if_neg h1, if_neg h2, if_neg h3, if_neg h1, if_neg h2, if_neg h3]
    exact ⟨by rw [hy, add_zero], by rw [hn, add_zero], by rw [ha, add_zero]⟩

theorem tallyOf_tallyIs (params : Params) (group : List Vote) :
    TallyIs (tallyOf params group) group := by
  suffices h : ∀ (vs : List Vote) (t : Tally) (acc : List Vote), TallyIs t acc →
      TallyIs (vs.foldl tallyStep t) (acc ++ vs) from
    h group {} [] tallyIs_nil
  intro vs
  induction vs with
  | nil => intro t acc h; simpa using h
  | cons v vs ih =>
    intro t acc h
    rw [List.foldl_cons, List.append_cons]
    exact ih _ _ (tallyStep_tallyIs v h)

theorem addTally_tallyIs {a b : Tally} {l₁ l₂ : List Vote} (ha : TallyIs a l₁)
    (hb : TallyIs b l₂) : TallyIs (addTally a b) (l₁ ++ l₂) := by
  obtain ⟨ha₁, ha₂, ha₃⟩ := ha
  obtain ⟨hb₁, hb₂, hb₃⟩ := hb
  simp only [TallyIs, addTally, typeSum_append, ha₁, ha₂, ha₃, hb₁, hb₂, hb₃,
    SInt.wrap_add_wrap, and_self]

/-! ## The grouping -/

section Groups

variable {env : Env} {key : Vote → Nat}

theorem find?_groupInsert (m : StdMap (List Vote)) (k k' : Nat) (v : Vote) :
    (groupInsert env m k v).find? k' =
      if k = k' then some (insertVote env v ((m.find? k).getD [])) else m.find? k' :=
  StdMap.find?_insert _ _ _ _

theorem insertVote_of_fresh {v : Vote} {vs : List Vote} (h : ∀ w ∈ vs, w.getHash env ≠ v.getHash env) :
    insertVote env v vs = vs ++ [v] := by
  unfold insertVote
  rw [if_neg]
  simpa using h

theorem mem_groupBy {votes : List Vote} {k : Nat} {w : Vote}
    (h : w ∈ ((groupBy env key votes).find? k).getD []) : w ∈ votes ∧ key w = k := by
  refine List.foldlRecOn (motive := fun m => w ∈ (m.find? k).getD [] → w ∈ votes ∧ key w = k)
    votes (fun m v => groupInsert env m (key v) v) .empty (by simp) (fun m hm v hv hw => ?_) h
  rw [find?_groupInsert] at hw
  split_ifs at hw with hvk
  · rcases mem_insertVote (by simpa using hw) with hw | rfl
    · exact hm (by rw [← hvk]; simpa using hw)
    · exact ⟨hv, hvk⟩
  · exact hm hw

theorem nodup_groupBy {votes : List Vote} (k : Nat) :
    ((((groupBy env key votes).find? k).getD []).map (Vote.getHash env)).Nodup := by
  refine List.foldlRecOn (motive := fun m => ∀ k, (((m.find? k).getD []).map (Vote.getHash env)).Nodup)
    votes (fun m v => groupInsert env m (key v) v) .empty (by simp) (fun m hm v _ k' => ?_) k
  rw [find?_groupInsert]
  split_ifs
  · exact nodup_insertVote (hm _)
  · exact hm k'

theorem foldl_groupInsert_keep (vs : List Vote) {m : StdMap (List Vote)} {k : Nat} {w : Vote}
    (h : w ∈ (m.find? k).getD []) :
    w ∈ ((vs.foldl (fun m v => groupInsert env m (key v) v) m).find? k).getD [] := by
  refine List.foldlRecOn (motive := fun m => w ∈ (m.find? k).getD []) vs _ m h
    fun m' hm u _ => ?_
  dsimp only at hm ⊢
  rw [find?_groupInsert]
  split_ifs with hk
  · subst hk; exact mem_insertVote_of_mem hm
  · exact hm

theorem mem_groupBy_self {votes : List Vote} (hd : (votes.map (Vote.getHash env)).Nodup)
    {v : Vote} (hv : v ∈ votes) : v ∈ ((groupBy env key votes).find? (key v)).getD [] := by
  suffices ∀ (vs : List Vote) (m : StdMap (List Vote)), (vs.map (Vote.getHash env)).Nodup →
      (∀ k w, w ∈ (m.find? k).getD [] → w.getHash env ∉ vs.map (Vote.getHash env)) →
      ∀ v ∈ vs, v ∈ (((vs.foldl (fun m v => groupInsert env m (key v) v) m).find? (key v)).getD [])
    from this votes .empty hd (by simp) v hv
  intro vs
  induction vs with
  | nil => intro m _ _ v hv; cases hv
  | cons u vs ih =>
    intro m hd hm v hv
    simp only [List.map_cons, List.nodup_cons] at hd
    rcases List.mem_cons.mp hv with rfl | hv
    · refine foldl_groupInsert_keep vs ?_
      rw [find?_groupInsert, if_pos rfl, insertVote_of_fresh fun w hw h => hm _ w hw (h ▸ .head _)]
      simp
    · refine ih _ hd.2 (fun k w hw => ?_) v hv
      rw [find?_groupInsert] at hw
      split_ifs at hw
      · rcases mem_insertVote (by simpa using hw) with hw | rfl
        · exact fun h => hm _ w hw (.tail _ h)
        · exact hd.1
      · exact fun h => hm _ w hw (.tail _ h)

end Groups

/-! ## Counting -/

section Count

variable {env : Env} (params : Params) {votes : List Vote}

/-- What the loop over `userVotes` keeps: the counted votes are votes of `votes` with
distinct hashes, and the tallies so far add up to their sums. -/
def CountInv (env : Env) (votes : List Vote) (acc : List Vote × List Tally) : Prop :=
  (∀ v ∈ acc.1, v ∈ votes) ∧ (acc.1.map (Vote.getHash env)).Nodup ∧
    TallyIs (acc.2.foldl addTally {}) acc.1

theorem countInv_nil : CountInv env votes ([], []) :=
  ⟨fun _ h => (List.not_mem_nil _ h).elim, List.nodup_nil, tallyIs_nil⟩

theorem foldl_insertVote_of_fresh : ∀ (l c : List Vote), (l.map (Vote.getHash env)).Nodup →
    (∀ v ∈ l, v.getHash env ∉ c.map (Vote.getHash env)) →
      l.foldl (fun c v => insertVote env v c) c = c ++ l
  | [], c, _, _ => by simp
  | v :: l, c, hd, hf => by
    simp only [List.map_cons, List.nodup_cons] at hd
    rw [List.foldl_cons, insertVote_of_fresh fun w hw h => hf v (.head _) (h ▸ List.mem_map_of_mem _ hw),
      foldl_insertVote_of_fresh l _ hd.2 fun u hu h => ?_]
    · simp
    · simp only [List.map_append, List.mem_append, List.map_cons, List.mem_singleton,
        List.map_nil] at h
      rcases h with h | h
      · exact hf u (.tail _ hu) h
      · exact hd.1 (h ▸ List.mem_map_of_mem _ hu)

theorem mem_foldl_insertVote {ws all : List Vote} {w : Vote}
    (h : w ∈ ws.foldl (fun all w => insertVote env w all) all) : w ∈ all ∨ w ∈ ws :=
  List.foldlRecOn (motive := fun a => w ∈ a → w ∈ all ∨ w ∈ ws) ws _ all .inl
    (fun _ ha _ hu hw => (mem_insertVote hw).elim ha fun h => .inr (h ▸ hu)) h

theorem mem_allUnique {byDest : StdMap (List Vote)} {group : List Vote} {w : Vote}
    (h : w ∈ group.foldl (fun all v =>
      ((byDest.find? (keyIDOf env v.pubkey)).getD []).foldl (fun all w => insertVote env w all)
        all) group) :
    w ∈ group ∨ ∃ v ∈ group, w ∈ (byDest.find? (keyIDOf env v.pubkey)).getD [] :=
  List.foldlRecOn (motive := fun all => w ∈ all →
      w ∈ group ∨ ∃ v ∈ group, w ∈ (byDest.find? (keyIDOf env v.pubkey)).getD [])
    group _ group .inl
    (fun _ hall v hv hw => (mem_foldl_insertVote hw).elim hall fun hw => .inr ⟨v, hv, hw⟩) h

theorem group_subset_allUnique {byDest : StdMap (List Vote)} {group : List Vote} {w : Vote}
    (h : w ∈ group) : w ∈ group.foldl (fun all v =>
      ((byDest.find? (keyIDOf env v.pubkey)).getD []).foldl (fun all w => insertVote env w all)
        all) group :=
  List.foldlRecOn (motive := (w ∈ ·)) group _ group h fun all hall _ _ =>
    List.foldlRecOn (motive := (w ∈ ·)) _ _ all hall fun _ hall' _ _ => mem_insertVote_of_mem hall'

theorem nodup_allUnique {byDest : StdMap (List Vote)} {group : List Vote}
    (hg : (group.map (Vote.getHash env)).Nodup) :
    ((group.foldl (fun all v =>
      ((byDest.find? (keyIDOf env v.pubkey)).getD []).foldl (fun all w => insertVote env w all)
        all) group).map (Vote.getHash env)).Nodup :=
  List.foldlRecOn (motive := fun all => (all.map (Vote.getHash env)).Nodup) group _ group hg
    fun all hall _ _ => List.foldlRecOn (motive := fun all => (all.map (Vote.getHash env)).Nodup)
      _ _ all hall fun _ hall' _ _ => nodup_insertVote hall'

/-- **The loop body, said once.** The votes a group adds are new, from the group and its
destination groups, and every vote of the group is counted afterwards. -/
theorem countGroup_cases (byDest : StdMap (List Vote)) (acc : List Vote × List Tally)
    {group : List Vote} (hgd : (group.map (Vote.getHash env)).Nodup) :
    ∃ rest : List Vote,
      (∀ w ∈ rest, w ∈ group ∨ ∃ v ∈ group, w ∈ (byDest.find? (keyIDOf env v.pubkey)).getD []) ∧
      (rest.map (Vote.getHash env)).Nodup ∧
      (∀ v ∈ rest, v.getHash env ∉ acc.1.map (Vote.getHash env)) ∧
      (∀ w ∈ group, w.getHash env ∈ acc.1.map (Vote.getHash env) ∨ w ∈ rest) ∧
      countGroup env params byDest acc group =
        if rest = [] then acc else (acc.1 ++ rest, acc.2 ++ [tallyOf params rest]) := by
  set rest := (group.foldl (fun all v =>
    ((byDest.find? (keyIDOf env v.pubkey)).getD []).foldl (fun all w => insertVote env w all)
      all) group).filter (fun v => !acc.1.any (·.getHash env == v.getHash env))
  have hfresh : ∀ v ∈ rest, v.getHash env ∉ acc.1.map (Vote.getHash env) := fun v hv => by
    simpa [List.any_eq_true] using (List.mem_filter.mp hv).2
  have hrnd : (rest.map (Vote.getHash env)).Nodup :=
    (nodup_allUnique hgd).sublist ((List.filter_sublist _).map _)
  refine ⟨rest, fun w hw => mem_allUnique (List.mem_filter.mp hw).1, hrnd, hfresh,
    fun w hw => ?_, ?_⟩
  · by_cases hc : w.getHash env ∈ acc.1.map (Vote.getHash env)
    · exact .inl hc
    · exact .inr (List.mem_filter.mpr ⟨group_subset_allUnique hw,
        by simpa [List.any_eq_true] using hc⟩)
  · show (if rest.isEmpty then acc
      else (rest.foldl (fun c v => insertVote env v c) acc.1, acc.2 ++ [tallyOf params rest])) = _
    rw [foldl_insertVote_of_fresh rest acc.1 hrnd hfresh]
    by_cases h : rest = []
    · rw [if_pos h, if_pos (List.isEmpty_iff.mpr h)]
    · rw [if_neg h, if_neg (mt List.isEmpty_iff.mp h)]

/-- **The loop body.** Counting one group keeps the invariant, and afterwards every vote of
the group is counted, when every vote of the group and of the destination groups is a vote
of `votes` and the hashes of `votes` are distinct. -/
theorem countGroup_inv {byDest : StdMap (List Vote)} {group : List Vote}
    {acc : List Vote × List Tally} (hd : (votes.map (Vote.getHash env)).Nodup)
    (hg : ∀ w ∈ group, w ∈ votes) (hgd : (group.map (Vote.getHash env)).Nodup)
    (hdest : ∀ k, ∀ w ∈ (byDest.find? k).getD [], w ∈ votes) (hacc : CountInv env votes acc) :
    CountInv env votes (countGroup env params byDest acc group) ∧
      (∀ w ∈ group, w ∈ (countGroup env params byDest acc group).1) ∧
      ∀ w ∈ acc.1, w ∈ (countGroup env params byDest acc group).1 := by
  obtain ⟨hsub, hnd, htally⟩ := hacc
  obtain ⟨rest, hmem, hrnd, hfresh, hcover, hcg⟩ := countGroup_cases params byDest acc hgd
  /- a vote of the group whose hash is counted is itself counted, the hashes being distinct -/
  have hcover' : ∀ w ∈ group, w ∈ acc.1 ∨ w ∈ rest := fun w hw =>
    (hcover w hw).imp_left fun hc => by
      obtain ⟨u, hu, hh⟩ := List.mem_map.mp hc
      rwa [← List.inj_on_of_nodup_map hd (hsub u hu) (hg w hw) hh]
  rw [hcg]
  split_ifs with hempty
  · exact ⟨⟨hsub, hnd, htally⟩, fun w hw => (hcover' w hw).resolve_right (hempty ▸ List.not_mem_nil w),
      fun w hw => hw⟩
  · refine ⟨⟨fun v hv => ?_, ?_, ?_⟩, fun w hw => List.mem_append.mpr (hcover' w hw),
      fun w hw => List.mem_append_left _ hw⟩
    · rcases List.mem_append.mp hv with hv | hv
      · exact hsub v hv
      · rcases hmem v hv with hv | ⟨u, -, hv⟩
        · exact hg v hv
        · exact hdest _ v hv
    · rw [List.map_append, List.nodup_append]
      exact ⟨hnd, hrnd, fun a ha hb => by
        obtain ⟨v, hv, rfl⟩ := List.mem_map.mp hb
        exact hfresh v hv ha⟩
    · rw [List.foldl_append, List.foldl_cons, List.foldl_nil]
      exact addTally_tallyIs htally (tallyOf_tallyIs params rest)

/-- **The loop.** Over groups of votes of `votes`, each duplicate-free, the loop keeps the
invariant and ends with every vote of every group counted. -/
theorem foldl_countGroup {byDest : StdMap (List Vote)} (hd : (votes.map (Vote.getHash env)).Nodup)
    (hdest : ∀ k, ∀ w ∈ (byDest.find? k).getD [], w ∈ votes) :
    ∀ (groups : List (List Vote)) (acc : List Vote × List Tally),
      (∀ g ∈ groups, (∀ w ∈ g, w ∈ votes) ∧ (g.map (Vote.getHash env)).Nodup) →
      CountInv env votes acc →
      CountInv env votes (groups.foldl (countGroup env params byDest) acc) ∧
        (∀ g ∈ groups, ∀ w ∈ g, w ∈ (groups.foldl (countGroup env params byDest) acc).1) ∧
        ∀ w ∈ acc.1, w ∈ (groups.foldl (countGroup env params byDest) acc).1
  | [], acc, _, hacc => ⟨hacc, fun g hg => (List.not_mem_nil g hg).elim, fun _ h => h⟩
  | g :: gs, acc, hgs, hacc => by
    obtain ⟨hinv, hg, hkeep⟩ := countGroup_inv params hd (hgs g (.head _)).1
      (hgs g (.head _)).2 hdest hacc
    obtain ⟨hinv', hgs', hkeep'⟩ :=
      foldl_countGroup hd hdest gs _ (fun g' hg' => hgs g' (.tail _ hg')) hinv
    refine ⟨hinv', fun g' hg' w hw => ?_, fun w hw => hkeep' w (hkeep w hw)⟩
    rcases List.mem_cons.mp hg' with rfl | hg'
    · exact hkeep' w (hg w hw)
    · exact hgs' g' hg' w hw

/-- **The counted votes.** For votes with distinct hashes, the loop over the transaction
groups ends with its invariant and with, up to order, exactly the votes grouped. -/
theorem countGroups_perm (hd : (votes.map (Vote.getHash env)).Nodup) :
    let counted := (groupBy env (·.outpoint.hash) votes).values.foldl
      (countGroup env params (groupBy env (fun v => keyIDOf env v.pubkey) votes)) ([], [])
    CountInv env votes counted ∧ counted.1.Perm votes := by
  intro counted
  have hgroups : ∀ g ∈ (groupBy env (·.outpoint.hash) votes).values,
      (∀ w ∈ g, w ∈ votes) ∧ (g.map (Vote.getHash env)).Nodup := by
    intro g hg
    obtain ⟨k, hk⟩ := StdMap.mem_values.mp hg
    have hgk : g = ((groupBy env (·.outpoint.hash) votes).find? k).getD [] := by rw [hk]; rfl
    exact ⟨fun w hw => (mem_groupBy (hgk ▸ hw)).1, hgk ▸ nodup_groupBy k⟩
  obtain ⟨hinv, hall, -⟩ := foldl_countGroup params hd
    (fun k w hw => (mem_groupBy hw).1) _ ([], []) hgroups countInv_nil
  refine ⟨hinv, (List.perm_ext_iff_of_nodup hinv.2.1.of_map hd.of_map).mpr fun v =>
    ⟨hinv.1 v, fun hv => ?_⟩⟩
  /- every vote sits in the group of its transaction, and every group is counted -/
  have hself : v ∈ ((groupBy env (·.outpoint.hash) votes).find? v.outpoint.hash).getD [] :=
    mem_groupBy_self hd hv
  cases hk : (groupBy env (·.outpoint.hash) votes).find? v.outpoint.hash with
  | none => rw [hk] at hself; cases hself
  | some g =>
    rw [hk] at hself
    exact hall g (StdMap.mem_values.mpr ⟨_, hk⟩) v hself

/-- The counted votes are the users' groups one after another, and the tallies are the
groups' tallies in the same order. -/
def Grouped (params : Params) (acc : List Vote × List Tally) : Prop :=
  ∃ users : List (List Vote), acc.1 = users.flatten ∧ acc.2 = users.map (tallyOf params)

theorem foldl_countGroup_grouped (byDest : StdMap (List Vote)) :
    ∀ (groups : List (List Vote)) (acc : List Vote × List Tally),
      (∀ g ∈ groups, (g.map (Vote.getHash env)).Nodup) → Grouped params acc →
      Grouped params (groups.foldl (countGroup env params byDest) acc)
  | [], _, _, hacc => hacc
  | g :: gs, acc, hgs, ⟨users, h1, h2⟩ => by
    refine foldl_countGroup_grouped byDest gs _ (fun g' hg' => hgs g' (.tail _ hg')) ?_
    obtain ⟨rest, -, -, -, -, hcg⟩ := countGroup_cases params byDest acc (hgs g (.head _))
    rw [hcg]
    split_ifs
    · exact ⟨users, h1, h2⟩
    · exact ⟨users ++ [rest], by simp [h1], by simp [h2]⟩

end Count

theorem typeSum_filter_proposal (proposal : Nat) (t : UInt8) (votes : List Vote) :
    typeSum t (votes.filter (·.proposal == proposal)) =
      ((votes.filter fun v => v.proposal = proposal ∧ v.vote = t).map (·.amount.val)).sum := by
  simp only [typeSum, List.filter_filter]
  congr 2
  exact List.filter_congr fun v _ => by
    by_cases h₁ : v.proposal = proposal <;> by_cases h₂ : v.vote = t <;> simp [h₁, h₂]

/-- **Exact-once counting.** For distinct hashes and non-negative amounts whose total fits
an `int64_t`, `getTally` sums the amounts of each vote type, counting each vote once. -/
theorem getTally_sums (env : Env) (params : Params) (proposal : Nat) (votes : List Vote)
    (hd : (votes.map (Vote.getHash env)).Nodup) (hamt : ∀ v ∈ votes, 0 ≤ v.amount.val)
    (htot : (votes.map (·.amount.val)).sum < 2 ^ 63) :
    (getTally env proposal votes params).cyes.val =
        ((votes.filter fun v => v.proposal = proposal ∧ v.vote = voteYes).map (·.amount.val)).sum ∧
      (getTally env proposal votes params).cno.val =
        ((votes.filter fun v => v.proposal = proposal ∧ v.vote = voteNo).map (·.amount.val)).sum ∧
      (getTally env proposal votes params).cabstain.val =
        ((votes.filter fun v => v.proposal = proposal ∧ v.vote = voteAbstain).map
          (·.amount.val)).sum := by
  set pv := votes.filter (·.proposal == proposal)
  have hpd : (pv.map (Vote.getHash env)).Nodup := hd.sublist ((List.filter_sublist _).map _)
  obtain ⟨⟨-, -, htally⟩, hperm⟩ := countGroups_perm params hpd
  /- each sum is a part of the total, so it fits an `int64_t` and the wrapping is exact -/
  have hexact : ∀ t, (SInt.wrap 64 (typeSum t pv)).val =
      ((votes.filter fun v => v.proposal = proposal ∧ v.vote = t).map (·.amount.val)).sum := by
    intro t
    have hle : typeSum t pv ≤ (votes.map (·.amount.val)).sum :=
      List.Sublist.sum_le_sum (((List.filter_sublist _).trans (List.filter_sublist _)).map _)
        fun a ha => by obtain ⟨v, hv, rfl⟩ := List.mem_map.mp ha; exact hamt v hv
    have hpos : 0 ≤ typeSum t pv := List.sum_nonneg fun a ha => by
      obtain ⟨v, hv, rfl⟩ := List.mem_map.mp ha
      exact hamt v (List.mem_filter.mp (List.mem_filter.mp hv).1).1
    rw [SInt.wrap_val_of_mem (by omega) (by omega), typeSum_filter_proposal]
  simp only [getTally]
  obtain ⟨h₁, h₂, h₃⟩ := htally
  rw [h₁, h₂, h₃, typeSum_perm _ hperm, typeSum_perm _ hperm, typeSum_perm _ hperm]
  exact ⟨hexact voteYes, hexact voteNo, hexact voteAbstain⟩

/-- Votes on proposal 1, two from one transaction and a third from another transaction with
the key of the first, and a vote on proposal 2. -/
def tallyVotes : List Vote :=
  [{ proposal := 1, vote := voteYes, utxo := ⟨20, 0⟩, pubkey := [2, 7], outpoint := ⟨10, 0⟩,
     amount := 50 },
   { proposal := 1, vote := voteNo, utxo := ⟨20, 1⟩, pubkey := [2, 8], outpoint := ⟨10, 1⟩,
     amount := 60 },
   { proposal := 1, vote := voteYes, utxo := ⟨21, 0⟩, pubkey := [2, 7], outpoint := ⟨11, 0⟩,
     amount := 70 },
   { proposal := 2, vote := voteYes, utxo := ⟨22, 0⟩, pubkey := [2, 9], outpoint := ⟨12, 0⟩,
     amount := 80 }]

set_option maxRecDepth 10000 in
theorem getTally_sums_tallyVotes :
    (tallyVotes.map (Vote.getHash sampleEnv)).Nodup ∧ (∀ v ∈ tallyVotes, 0 ≤ v.amount.val) ∧
      (tallyVotes.map (·.amount.val)).sum < 2 ^ 63 ∧
      ((getTally sampleEnv 1 tallyVotes sampleParams).cyes.val =
          ((tallyVotes.filter fun v => v.proposal = 1 ∧ v.vote = voteYes).map (·.amount.val)).sum ∧
        (getTally sampleEnv 1 tallyVotes sampleParams).cno.val =
          ((tallyVotes.filter fun v => v.proposal = 1 ∧ v.vote = voteNo).map (·.amount.val)).sum ∧
        (getTally sampleEnv 1 tallyVotes sampleParams).cabstain.val =
          ((tallyVotes.filter fun v => v.proposal = 1 ∧ v.vote = voteAbstain).map
            (·.amount.val)).sum) :=
  have hd : (tallyVotes.map (Vote.getHash sampleEnv)).Nodup := by decide
  have hamt : ∀ v ∈ tallyVotes, 0 ≤ v.amount.val := by decide
  have htot : (tallyVotes.map (·.amount.val)).sum < 2 ^ 63 := by decide
  ⟨hd, hamt, htot, getTally_sums sampleEnv sampleParams 1 tallyVotes hd hamt htot⟩

set_option maxRecDepth 10000 in
example : (getTally sampleEnv 1 tallyVotes sampleParams).cyes = 120 := by decide

/-! ## Ranges

The coin sums are `int64_t` and the counts `int`; the model wraps them as the machine does.
For amounts between `0` and a money limit that total at most that limit, every value the
code adds or casts is the exact value and lies in range, so nothing wraps. -/

/-- Adding `xs` one at a time to `0` in `w`-bit arithmetic stays in range: every partial sum
is a `w`-bit value, so no addition overflows. -/
def SumsInRange (w : Nat) (xs : List Int) : Prop :=
  ∀ n, -2 ^ (w - 1) ≤ (xs.take n).sum ∧ (xs.take n).sum < 2 ^ (w - 1)

theorem sumsInRange_of_nonneg {w : Nat} {xs : List Int} (hnn : ∀ x ∈ xs, 0 ≤ x)
    (hlt : xs.sum < 2 ^ (w - 1)) : SumsInRange w xs := by
  intro n
  have h0 : 0 ≤ (xs.take n).sum := List.sum_nonneg fun x hx => hnn x (List.mem_of_mem_take hx)
  have hle : (xs.take n).sum ≤ xs.sum := (List.take_sublist n xs).sum_le_sum hnn
  have hpow : (0 : Int) ≤ 2 ^ (w - 1) := by positivity
  omega

theorem SInt.foldl_add_val {w : Nat} {α : Type} (f : α → SInt w) :
    ∀ (xs : List α) (a : SInt w), 0 ≤ a.val → (∀ x ∈ xs, 0 ≤ (f x).val) →
      a.val + (xs.map fun x => (f x).val).sum < 2 ^ (w - 1) →
      (xs.foldl (fun c x => c + f x) a).val = a.val + (xs.map fun x => (f x).val).sum
  | [], a, _, _, _ => by simp
  | x :: xs, a, ha, hx, hlt => by
    have hfx := hx x (.head _)
    have hrest : 0 ≤ (xs.map fun x => (f x).val).sum :=
      List.sum_nonneg fun y hy => by
        obtain ⟨z, hz, rfl⟩ := List.mem_map.mp hy
        exact hx z (.tail _ hz)
    have hpow : (0 : Int) ≤ 2 ^ (w - 1) := by positivity
    simp only [List.map_cons, List.sum_cons] at hlt ⊢
    have hval : (a + f x).val = a.val + (f x).val := by
      rw [SInt.add_def]
      exact SInt.wrap_val_of_mem (by omega) (by omega)
    rw [List.foldl_cons, SInt.foldl_add_val f xs (a + f x) (by omega)
      (fun y hy => hx y (.tail _ hy)) (by omega), hval]
    omega

theorem foldl_addTally_field {w : Nat} (proj : Tally → SInt w)
    (hproj : ∀ a b, proj (addTally a b) = proj a + proj b) :
    ∀ (ts : List Tally) (a : Tally), proj (ts.foldl addTally a) = ts.foldl (fun c t => c + proj t) (proj a)
  | [], _ => rfl
  | t :: ts, a => by rw [List.foldl_cons, foldl_addTally_field proj hproj ts, hproj]; rfl

/-- What each entry of `tallyFields` is: the coin sum of its type in a `TallyIs`, the count
cast from it in `tallyOf`, and two fields `addTally` adds. -/
theorem tallyFields_spec {ty : UInt8} {coin : Tally → CAmount} {count : Tally → CInt}
    (h : (ty, coin, count) ∈ tallyFields) :
    (∀ t vs, TallyIs t vs → coin t = SInt.wrap 64 (typeSum ty vs)) ∧
      (∀ params g, count (tallyOf params g) =
        SInt.wrap 32 ((coin (tallyOf params g)).val.tdiv params.voteBalance.val)) ∧
      (∀ a b, coin (addTally a b) = coin a + coin b) ∧
      (∀ a b, count (addTally a b) = count a + count b) ∧
      (coin {}).val = 0 ∧ (count {}).val = 0 := by
  simp only [tallyFields, List.mem_cons, Prod.mk.injEq, List.mem_singleton, List.not_mem_nil,
    or_false] at h
  rcases h with ⟨rfl, rfl, rfl⟩ | ⟨rfl, rfl, rfl⟩ | ⟨rfl, rfl, rfl⟩
  · exact ⟨fun _ _ h => h.1, fun _ _ => rfl, fun _ _ => rfl, fun _ _ => rfl, rfl, rfl⟩
  · exact ⟨fun _ _ h => h.2.1, fun _ _ => rfl, fun _ _ => rfl, fun _ _ => rfl, rfl, rfl⟩
  · exact ⟨fun _ _ h => h.2.2, fun _ _ => rfl, fun _ _ => rfl, fun _ _ => rfl, rfl, rfl⟩

theorem typeSum_nonneg (t : UInt8) {vs : List Vote} (h : ∀ v ∈ vs, 0 ≤ v.amount.val) :
    0 ≤ typeSum t vs :=
  List.sum_nonneg fun a ha => by
    obtain ⟨v, hv, rfl⟩ := List.mem_map.mp ha
    exact h v (List.mem_filter.mp hv).1

theorem typeSum_le_sum (t : UInt8) {vs : List Vote} (h : ∀ v ∈ vs, 0 ≤ v.amount.val) :
    typeSum t vs ≤ (vs.map (·.amount.val)).sum :=
  ((List.filter_sublist _).map _).sum_le_sum fun a ha => by
    obtain ⟨v, hv, rfl⟩ := List.mem_map.mp ha
    exact h v hv

theorem typeSum_flatten (t : UInt8) (users : List (List Vote)) :
    typeSum t users.flatten = (users.map (typeSum t)).sum := by
  induction users with
  | nil => rfl
  | cons g users ih => simp [ih]

theorem sum_map_ediv_le {α : Type} (f : α → Int) {c : Int} (hc : 0 < c) :
    ∀ xs : List α, (xs.map fun x => f x / c).sum ≤ (xs.map f).sum / c
  | [] => by simp
  | x :: xs => by
    have ih := sum_map_ediv_le f hc xs
    have hx := Int.ediv_mul_le (f x) (ne_of_gt hc)
    have hs := Int.ediv_mul_le (xs.map f).sum (ne_of_gt hc)
    simp only [List.map_cons, List.sum_cons]
    calc f x / c + (xs.map fun x => f x / c).sum ≤ f x / c + (xs.map f).sum / c := by omega
      _ ≤ (f x + (xs.map f).sum) / c :=
        Int.le_ediv_of_mul_le hc (by rw [Int.add_mul]; omega)

/-- One user's tally: for non-negative amounts within a money limit, every coin sum is exact
in `int64_t` and the count cast from it is the quotient, in range. -/
theorem tallyOf_in_range {ty : UInt8} {coin : Tally → CAmount} {count : Tally → CInt}
    (hf : (ty, coin, count) ∈ tallyFields) (params : Params) (maxMoney : CAmount)
    {g : List Vote} (hamt : ∀ v ∈ g, 0 ≤ v.amount.val) (hle : typeSum ty g ≤ maxMoney.val)
    (hvb : 1 ≤ params.voteBalance.val)
    (hcast : maxMoney.val / params.voteBalance.val ≤ 2 ^ 31 - 1) :
    SumsInRange 64 ((g.filter (·.vote = ty)).map (·.amount.val)) ∧
      (coin (tallyOf params g)).val = typeSum ty g ∧
      0 ≤ (typeSum ty g).tdiv params.voteBalance.val ∧
      (typeSum ty g).tdiv params.voteBalance.val < 2 ^ 31 ∧
      (count (tallyOf params g)).val = (typeSum ty g).tdiv params.voteBalance.val := by
  obtain ⟨hcoin, hcount, -⟩ := tallyFields_spec hf
  have hM := maxMoney.hi
  have h0 := typeSum_nonneg ty hamt
  have hq : (typeSum ty g).tdiv params.voteBalance.val = typeSum ty g / params.voteBalance.val :=
    Int.tdiv_eq_ediv h0 (by omega)
  have hq0 : 0 ≤ typeSum ty g / params.voteBalance.val := Int.ediv_nonneg h0 (by omega)
  have hqM : typeSum ty g / params.voteBalance.val ≤ maxMoney.val / params.voteBalance.val :=
    Int.ediv_le_ediv (by omega) hle
  have hc : (coin (tallyOf params g)).val = typeSum ty g := by
    rw [hcoin _ _ (tallyOf_tallyIs params g)]
    exact SInt.wrap_val_of_mem (by omega) (by omega)
  refine ⟨sumsInRange_of_nonneg (fun x hx => ?_) (lt_of_le_of_lt hle hM), hc, hq ▸ hq0,
    by omega, ?_⟩
  · obtain ⟨v, hv, rfl⟩ := List.mem_map.mp hx
    exact hamt v (List.mem_filter.mp hv).1
  · rw [hcount, hc, hq]
    exact SInt.wrap_val_of_mem (by omega) (by omega)

/-- The final loop over the users' tallies: when each user's field is an exact non-negative
value and the values' total fits, the final field is their sum. -/
theorem foldl_tallyOf_field {w : Nat} (proj : Tally → SInt w)
    (hproj : ∀ a b, proj (addTally a b) = proj a + proj b) (h0 : (proj {}).val = 0)
    (params : Params) (users : List (List Vote)) (f : List Vote → Int)
    (hf : ∀ g ∈ users, (proj (tallyOf params g)).val = f g) (hnn : ∀ g ∈ users, 0 ≤ f g)
    (hlt : (users.map f).sum < 2 ^ (w - 1)) :
    (proj ((users.map (tallyOf params)).foldl addTally {})).val = (users.map f).sum := by
  rw [foldl_addTally_field proj hproj, List.foldl_map,
    SInt.foldl_add_val (fun g => proj (tallyOf params g)) users _ (by omega)
      (fun g hg => by rw [hf g hg]; exact hnn g hg) (by rw [h0, List.map_congr_left hf]; omega),
    h0, List.map_congr_left hf, zero_add]

section Users

variable {env : Env} {params : Params} {proposal : Nat} {votes : List Vote}

/-- For votes with distinct hashes, the tallies are those of users whose groups, one after
another, are the proposal's votes up to order. -/
theorem tallies_users (hd : (votes.map (Vote.getHash env)).Nodup) :
    ∃ users : List (List Vote), users.flatten.Perm (votes.filter (·.proposal == proposal)) ∧
      tallies env proposal votes params = users.map (tallyOf params) := by
  have hpd : ((votes.filter (·.proposal == proposal)).map (Vote.getHash env)).Nodup :=
    hd.sublist ((List.filter_sublist _).map _)
  obtain ⟨users, h1, h2⟩ := foldl_countGroup_grouped params
    (groupBy env (fun v => keyIDOf env v.pubkey) (votes.filter (·.proposal == proposal)))
    _ ([], []) (fun g hg => by
      obtain ⟨k, hk⟩ := StdMap.mem_values.mp hg
      have hgk : g = ((groupBy env (·.outpoint.hash) (votes.filter (·.proposal == proposal))).find?
        k).getD [] := by rw [hk]; rfl
      exact hgk ▸ nodup_groupBy k) ⟨[], rfl, rfl⟩
  exact ⟨users, h1 ▸ (countGroups_perm params hpd).2, h2⟩

end Users

/-- **No overflow, and counts within the pooled coin.** For amounts within a money limit,
every sum `getTally` adds and every count it casts is exact and in range, and each final
count is at most the final coins over the vote balance. -/
theorem getTally_no_overflow (env : Env) (params : Params) (proposal : Nat) (votes : List Vote)
    (maxMoney : CAmount) (hd : (votes.map (Vote.getHash env)).Nodup)
    (hamt : ∀ v ∈ votes, 0 ≤ v.amount.val ∧ v.amount.val ≤ maxMoney.val)
    (htot : (votes.map (·.amount.val)).sum ≤ maxMoney.val) (hvb : 1 ≤ params.voteBalance.val)
    (hcast : maxMoney.val / params.voteBalance.val ≤ 2 ^ 31 - 1) :
    ∃ users : List (List Vote),
      users.flatten.Perm (votes.filter (·.proposal == proposal)) ∧
      tallies env proposal votes params = users.map (tallyOf params) ∧
      ∀ ty coin count, (ty, coin, count) ∈ tallyFields →
        (∀ g ∈ users,
          SumsInRange 64 ((g.filter (·.vote = ty)).map (·.amount.val)) ∧
          (coin (tallyOf params g)).val = typeSum ty g ∧
          0 ≤ (typeSum ty g).tdiv params.voteBalance.val ∧
          (typeSum ty g).tdiv params.voteBalance.val < 2 ^ 31 ∧
          (count (tallyOf params g)).val = (typeSum ty g).tdiv params.voteBalance.val) ∧
        SumsInRange 64 (users.map (typeSum ty)) ∧
        SumsInRange 32 (users.map fun g => (typeSum ty g).tdiv params.voteBalance.val) ∧
        (coin (getTally env proposal votes params)).val = (users.map (typeSum ty)).sum ∧
        (count (getTally env proposal votes params)).val =
          (users.map fun g => (typeSum ty g).tdiv params.voteBalance.val).sum ∧
        (count (getTally env proposal votes params)).val ≤
          (coin (getTally env proposal votes params)).val / params.voteBalance.val := by
  obtain ⟨users, hperm, htal⟩ := @tallies_users env params proposal votes hd
  refine ⟨users, hperm, htal, fun ty coin count hf => ?_⟩
  obtain ⟨-, -, hcoinAdd, hcountAdd, hcoin0, hcount0⟩ := tallyFields_spec hf
  have hpos : ∀ g ∈ users, ∀ v ∈ g, 0 ≤ v.amount.val := fun g hg v hv =>
    (hamt v (List.mem_filter.mp (hperm.subset (List.mem_flatten.mpr ⟨g, hg, hv⟩))).1).1
  have hnn : ∀ g ∈ users, 0 ≤ typeSum ty g := fun g hg => typeSum_nonneg ty (hpos g hg)
  have hnn' : ∀ x ∈ users.map (typeSum ty), 0 ≤ x := List.forall_mem_map.mpr hnn
  /- the users' sums of a type are the proposal's, at most the total -/
  have hsum : (users.map (typeSum ty)).sum ≤ maxMoney.val := by
    rw [← typeSum_flatten, typeSum_perm ty hperm]
    refine le_trans (typeSum_le_sum ty fun v hv => (hamt v (List.mem_filter.mp hv).1).1) (le_trans ?_ htot)
    exact ((List.filter_sublist _).map _).sum_le_sum fun a ha => by
      obtain ⟨v, hv, rfl⟩ := List.mem_map.mp ha
      exact (hamt v hv).1
  have huser : ∀ g ∈ users, _ := fun g hg => tallyOf_in_range hf params maxMoney (hpos g hg)
    ((List.single_le_sum hnn' _ (List.mem_map_of_mem _ hg)).trans hsum) hvb hcast
  have hqsum : (users.map fun g => (typeSum ty g).tdiv params.voteBalance.val).sum ≤
      (users.map (typeSum ty)).sum / params.voteBalance.val := by
    rw [List.map_congr_left fun g hg => Int.tdiv_eq_ediv (hnn g hg) (by omega)]
    exact sum_map_ediv_le _ (by omega) users
  have hqM := Int.ediv_le_ediv (by omega : (0 : Int) < params.voteBalance.val) hsum
  have hM := maxMoney.hi
  have hgt : getTally env proposal votes params = (users.map (tallyOf params)).foldl addTally {} := by
    rw [← htal]
    rfl
  rw [hgt, foldl_tallyOf_field coin hcoinAdd hcoin0 params users (typeSum ty)
      (fun g hg => (huser g hg).2.1) hnn (by omega),
    foldl_tallyOf_field count hcountAdd hcount0 params users _ (fun g hg => (huser g hg).2.2.2.2)
      (fun g hg => (huser g hg).2.2.1) (by omega)]
  exact ⟨huser, sumsInRange_of_nonneg hnn' (by omega),
    sumsInRange_of_nonneg (List.forall_mem_map.mpr fun g hg => (huser g hg).2.2.1) (by omega),
    rfl, rfl, hqsum⟩

set_option maxRecDepth 10000 in
theorem getTally_no_overflow_tallyVotes :
    (tallyVotes.map (Vote.getHash sampleEnv)).Nodup ∧
      (∀ v ∈ tallyVotes, 0 ≤ v.amount.val ∧ v.amount.val ≤ (1000 : CAmount).val) ∧
      (tallyVotes.map (·.amount.val)).sum ≤ (1000 : CAmount).val ∧
      1 ≤ sampleParams.voteBalance.val ∧
      (1000 : CAmount).val / sampleParams.voteBalance.val ≤ 2 ^ 31 - 1 ∧
      ∃ users : List (List Vote),
        users.flatten.Perm (tallyVotes.filter (·.proposal == 1)) ∧
        tallies sampleEnv 1 tallyVotes sampleParams = users.map (tallyOf sampleParams) ∧
        ∀ ty coin count, (ty, coin, count) ∈ tallyFields →
          (∀ g ∈ users,
            SumsInRange 64 ((g.filter (·.vote = ty)).map (·.amount.val)) ∧
            (coin (tallyOf sampleParams g)).val = typeSum ty g ∧
            0 ≤ (typeSum ty g).tdiv sampleParams.voteBalance.val ∧
            (typeSum ty g).tdiv sampleParams.voteBalance.val < 2 ^ 31 ∧
            (count (tallyOf sampleParams g)).val = (typeSum ty g).tdiv sampleParams.voteBalance.val) ∧
          SumsInRange 64 (users.map (typeSum ty)) ∧
          SumsInRange 32 (users.map fun g => (typeSum ty g).tdiv sampleParams.voteBalance.val) ∧
          (coin (getTally sampleEnv 1 tallyVotes sampleParams)).val = (users.map (typeSum ty)).sum ∧
          (count (getTally sampleEnv 1 tallyVotes sampleParams)).val =
            (users.map fun g => (typeSum ty g).tdiv sampleParams.voteBalance.val).sum ∧
          (count (getTally sampleEnv 1 tallyVotes sampleParams)).val ≤
            (coin (getTally sampleEnv 1 tallyVotes sampleParams)).val / sampleParams.voteBalance.val :=
  have hd : (tallyVotes.map (Vote.getHash sampleEnv)).Nodup := by decide
  have hamt : ∀ v ∈ tallyVotes, 0 ≤ v.amount.val ∧ v.amount.val ≤ (1000 : CAmount).val := by decide
  have htot : (tallyVotes.map (·.amount.val)).sum ≤ (1000 : CAmount).val := by decide
  have hvb : 1 ≤ sampleParams.voteBalance.val := by decide
  have hcast : (1000 : CAmount).val / sampleParams.voteBalance.val ≤ 2 ^ 31 - 1 := by decide
  ⟨hd, hamt, htot, hvb, hcast,
    getTally_no_overflow sampleEnv sampleParams 1 tallyVotes 1000 hd hamt htot hvb hcast⟩

end Gov
