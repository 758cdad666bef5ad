import CentNode.Library.Runs
import CentNode.Masternode.Broadcasts

/-!
# The collateral of a listed masternode

A broadcast goes through three checks of its input: a transaction with the id
has an output that pays the collateral amount to the key, the output that the
input names is unspent, and its transaction is confirmed.  Only the last two
look at the index of the output.
-/

namespace CentNode

open List Option

/-- What is read from pool, index and block files is what has the id, and the
coins of the chain come from it. -/
structure PoolContext.Faithful (txOf : Uint256 → CTransaction) (context : PoolContext) : Prop where
  traced : context.pcoinsTip.Traced txOf
  indexed : ∀ hash tx hashBlock, context.readTxIndex hash = some (tx, hashBlock) → tx = txOf hash
  stored : ∀ pindex block, context.readBlockFromDisk pindex = some block →
    ∀ tx ∈ block.vtx, tx = txOf tx.hash

namespace MnContext

/-- The input names an unspent output of the collateral amount that pays to the
hash of the collateral key, and nothing in the pool spends it. -/
structure HasCollateral (context : MnContext) (mn : CMasternode) : Prop where
  unspent : ∃ txout,
    (context.pool.pcoinsTip.coins mn.vin.prevout.hash).output mn.vin.prevout.n = some txout ∧
      context.isCollateral mn.pubKeyCollateralAddress txout = true
  unpooled : context.pool.mempool.mapNextTx.lookup mn.vin.prevout = none

/-- If the transaction that a broadcast names has an output of the collateral
amount for its key, then the output that it names is one. -/
def namesCollateral (context : MnContext) (mnb : CMasternodeBroadcast) : Bool :=
  match context.pool.getTransaction mnb.vin.prevout.hash with
  | none => true
  | some (txVin, _) =>
    !txVin.vout.any (context.isCollateral mnb.pubKeyCollateralAddress) ||
      txVin.vout[mnb.vin.prevout.n]?.any (context.isCollateral mnb.pubKeyCollateralAddress)

end MnContext

namespace PoolContext

variable {context : PoolContext} {txOf : Uint256 → CTransaction} {hash hashBlock : Uint256}
  {tx : CTransaction}

theorem getTransaction_eq (faithful : context.Faithful txOf)
    (unpooled : context.mempool.mapTx.lookup hash = none)
    (found : context.getTransaction hash = some (tx, hashBlock)) : tx = txOf hash := by
  rw [getTransaction, unpooled] at found
  dsimp only at found
  split at found
  · exact faithful.indexed hash tx hashBlock found
  split at found
  · obtain ⟨pindexSlow, _, found⟩ := bind_eq_some_iff.mp found
    obtain ⟨block, read, found⟩ := bind_eq_some_iff.mp found
    obtain ⟨other, inBlock, same⟩ := bind_eq_some_iff.mp found
    cases same
    have hash_eq : tx.hash = hash := by simpa using find?_some inBlock
    rw [faithful.stored pindexSlow block read tx (mem_of_find?_eq_some inBlock), hash_eq]
  · cases found

end PoolContext

namespace MnContext

variable {context : MnContext} {state : MnState} {mnb : CMasternodeBroadcast}
  {outcome : MnOutcome} {mn : CMasternode}

/-! ## What was checked of an added masternode -/

/-- The checks that a masternode has passed when `Add` appends it. -/
structure Vetted (context : MnContext) (mnb : CMasternodeBroadcast) (mn : CMasternode) : Prop where
  from_mnb : mn = mnb.toMasternode
  acceptable : context.pool.acceptableInputs (context.collateralTx mnb.vin) = .ok ()
  confirmed : ∃ age, context.pool.getInputAge mnb.vin = some age ∧ masternodeMinConfirmations ≤ age

theorem Vetted.unspent (vetted : Vetted context mnb mn) :
    context.pool.mempool.mapTx.lookup mnb.vin.prevout.hash = none ∧
      context.pool.mempool.mapNextTx.lookup mnb.vin.prevout = none ∧
        ∃ txout, (context.pool.pcoinsTip.coins mnb.vin.prevout.hash).output mnb.vin.prevout.n =
          some txout := by
  obtain ⟨age, age_eq, deep⟩ := vetted.confirmed
  obtain ⟨loose, there, unpooled⟩ := PoolContext.unspent_of_acceptable vetted.acceptable
  have single : mnb.vin ∈ (context.collateralTx mnb.vin).vin := mem_singleton_self mnb.vin
  have confirmed := PoolContext.not_pooled_of_age age_eq (lt_of_lt_of_le (by decide) deep)
  have available := FlatCoins.available_of_haveInputs there loose single
  rw [PoolContext.view_coins_of_not_pooled confirmed, CCoins.isAvailable_eq,
    isSome_iff_exists] at available
  exact ⟨confirmed, unpooled mnb.vin single, available⟩

end MnContext

/-! ## What else stands in the list -/

namespace CMasternodeMan

/-- Every masternode of the second list is one of the first, with its input and
collateral key. -/
def Continues (before after : CMasternodeMan) : Prop :=
  ∀ mn ∈ after.vMasternodes, ∃ old ∈ before.vMasternodes,
    old.vin = mn.vin ∧ old.pubKeyCollateralAddress = mn.pubKeyCollateralAddress

variable {before middle after man : CMasternodeMan}

theorem Continues.refl (man : CMasternodeMan) : Continues man man := by
  intro mn member
  exact ⟨mn, member, rfl, rfl⟩

theorem Continues.trans (first : Continues before middle) (second : Continues middle after) :
    Continues before after := by
  intro mn member
  obtain ⟨old, inMiddle, vin_eq, key_eq⟩ := second mn member
  obtain ⟨oldest, inBefore, vin_eq', key_eq'⟩ := first old inMiddle
  exact ⟨oldest, inBefore, vin_eq'.trans vin_eq, key_eq'.trans key_eq⟩

theorem continues_updateAt {vin : CTxIn} (change : CMasternode → CMasternode)
    (keeps : ∀ mn, (change mn).vin = mn.vin)
    (key : ∀ mn ∈ man.vMasternodes, mn.vin.prevout = vin.prevout →
      (change mn).pubKeyCollateralAddress = mn.pubKeyCollateralAddress) :
    Continues man (man.updateAt vin change keeps) := by
  intro mn member
  obtain ⟨old, inside, rfl⟩ := List.mem_map.mp member
  refine ⟨old, inside, ?_⟩
  split
  next named => exact ⟨(keeps old).symm, (key old inside named).symm⟩
  next => exact ⟨rfl, rfl⟩

theorem continues_remove (man : CMasternodeMan) (vin : CTxIn) :
    Continues man (man.remove vin) := by
  intro mn member
  exact ⟨mn, mem_of_mem_eraseP member, rfl, rfl⟩

end CMasternodeMan

namespace CMasternode

theorem check_pubKeyCollateralAddress (context : CheckContext) (mn : CMasternode)
    (forceCheck : Bool) :
    (mn.check context forceCheck).pubKeyCollateralAddress = mn.pubKeyCollateralAddress := by
  obtain ⟨state, time, shape⟩ := mn.check_shape context forceCheck
  rw [shape]

end CMasternode

namespace MnContext

open CMasternodeMan

variable (context : MnContext) {state : MnState} {mnb : CMasternodeBroadcast}
  {outcome : MnOutcome} {mn : CMasternode}

theorem acceptPing_continues (pmn : CMasternode) (ping : CMasternodePing) :
    Continues state.man (context.acceptPing state pmn ping).2.man := by
  unfold acceptPing
  split
  · exact Continues.refl _
  split
  · exact Continues.refl _
  split
  · exact Continues.refl _
  · exact continues_updateAt (fun mn => (mn.pinged ping).check context.checkContext true)
      (fun mn => CMasternode.check_vin _ (mn.pinged ping) true)
      fun mn _ _ => CMasternode.check_pubKeyCollateralAddress _ (mn.pinged ping) true

theorem checkAndUpdatePing_continues (ping : CMasternodePing) (fRequireEnabled : Bool) :
    Continues state.man (context.checkAndUpdatePing state ping fRequireEnabled).2.man := by
  unfold checkAndUpdatePing
  split
  · exact Continues.refl _
  split
  · exact Continues.refl _
  split
  · exact Continues.refl _
  split
  · exact Continues.refl _
  split
  · exact Continues.refl _
  split
  · exact Continues.refl _
  · exact acceptPing_continues context _ ping

theorem broadcastPing_continues (state : MnState) (mnb : CMasternodeBroadcast) :
    Continues state.man (context.broadcastPing state mnb).2.man := by
  unfold broadcastPing
  split
  · exact Continues.refl _
  · exact checkAndUpdatePing_continues context _ false

theorem takePing_continues (state : MnState) (mnb : CMasternodeBroadcast) :
    Continues state.man (context.takePing state mnb).man := by
  have pinged := broadcastPing_continues context state mnb
  unfold takePing
  dsimp only
  split
  · exact pinged.trans (continues_updateAt (CMasternode.pinged mnb.lastPing) (fun _ => rfl)
      fun _ _ _ => rfl)
  · exact pinged

theorem updateFromNewBroadcast_continues {pmn : CMasternode}
    (found : state.man.find mnb.vin = some pmn)
    (key : pmn.pubKeyCollateralAddress = mnb.pubKeyCollateralAddress) :
    Continues state.man (context.updateFromNewBroadcast state pmn mnb).2.man := by
  have renewed : Continues state.man (state.man.updateAt mnb.vin mnb.renew (fun _ => rfl)) := by
    refine continues_updateAt mnb.renew (fun _ => rfl) fun other member named => ?_
    have same := find_eq_some_iff.mpr ⟨member, named⟩
    rw [found] at same
    cases same
    exact key.symm
  unfold updateFromNewBroadcast
  split
  · exact renewed.trans (takePing_continues context _ mnb)
  · exact Continues.refl _

theorem checkAndUpdate_continues (state : MnState) (mnb : CMasternodeBroadcast) :
    Continues state.man (context.checkAndUpdate state mnb).2.2.man := by
  unfold checkAndUpdate
  -- the checks before the search of the list
  iterate 6
    refine iteInduction
      (motive := fun result : Bool × Int × MnState => Continues state.man result.2.2.man)
      (fun _ => Continues.refl _) fun _ => ?_
  split
  · exact Continues.refl _
  next pmn found =>
  split
  · exact Continues.refl _
  split
  · exact Continues.refl _
  split
  · next renewable =>
    rw [Bool.and_eq_true, decide_eq_true_eq] at renewable
    have updated := updateFromNewBroadcast_continues context found renewable.1
    dsimp only
    split
    · exact updated.trans (continues_updateAt (fun mn => mn.check context.checkContext false)
        (fun mn => CMasternode.check_vin _ mn false)
        fun mn _ _ => CMasternode.check_pubKeyCollateralAddress _ mn false)
    · exact updated
  · exact Continues.refl _

/-- What is listed after a step was added by it, or was listed before with its
input and collateral key. -/
def ListedOrAdded (before : CMasternodeMan) (outcome : MnOutcome) : Prop :=
  ∀ mn ∈ outcome.state.man.vMasternodes, outcome.added = some mn ∨
    ∃ old ∈ before.vMasternodes,
      old.vin = mn.vin ∧ old.pubKeyCollateralAddress = mn.pubKeyCollateralAddress

/-- What a step adds passed some checks, and what else is listed after it was
listed before. -/
structure Accounts (before : CMasternodeMan) (outcome : MnOutcome)
    (checked : CMasternode → Prop) : Prop where
  listed : ListedOrAdded before outcome
  vetted : ∀ mn, outcome.added = some mn → checked mn

variable {checked : CMasternode → Prop}

theorem Accounts.of_continues {before : CMasternodeMan}
    (continues : Continues before outcome.state.man) (none_added : outcome.added = none) :
    Accounts before outcome checked := by
  refine ⟨fun mn member => Or.inr (continues mn member), fun mn added => ?_⟩
  rw [none_added] at added
  cases added

theorem Accounts.unchanged (state : MnState) (nDoS : Int) :
    Accounts state.man { nDoS := nDoS, state := state } checked :=
  Accounts.of_continues (Continues.refl _) rfl

theorem Accounts.after {before middle : CMasternodeMan} (continues : Continues before middle)
    (later : Accounts middle outcome checked) : Accounts before outcome checked := by
  refine ⟨fun mn member => (later.listed mn member).imp_right ?_, later.vetted⟩
  rintro ⟨old, inMiddle, vin_eq, key_eq⟩
  obtain ⟨oldest, inBefore, vin_eq', key_eq'⟩ := continues old inMiddle
  exact ⟨oldest, inBefore, vin_eq'.trans vin_eq, key_eq'.trans key_eq⟩

/-- `Add` appends its argument or leaves the list alone. -/
theorem Accounts.of_add (state : MnState) {mn : CMasternode} (passed : checked mn) :
    Accounts state.man
      { state := { state with man := state.man.add mn }
        added := if state.man.adds mn then some mn else none } checked := by
  constructor
  · intro other member
    dsimp only at member ⊢
    unfold add at member
    split at member
    next new =>
      rcases mem_append.mp member with old | last
      · exact Or.inr (Continues.refl state.man other old)
      · rw [if_pos new, mem_singleton.mp last]
        exact Or.inl rfl
    next => exact Or.inr (Continues.refl state.man other member)
  · intro other added
    dsimp only at added
    split at added
    · cases added
      exact passed
    · cases added

variable {context}

theorem addMasternode_accounts
    (acceptable : context.pool.acceptableInputs (context.collateralTx mnb.vin) = .ok ())
    (done : context.addMasternode state mnb = some outcome) :
    Accounts state.man outcome (Vetted context mnb) := by
  obtain ⟨age, age_eq, done⟩ := bind_eq_some_iff.mp done
  split at done
  · cases done
    exact Accounts.of_continues (Continues.refl _) rfl
  next confirmed =>
  obtain ⟨early, _, done⟩ := bind_eq_some_iff.mp done
  split at done
  · cases done
    exact Accounts.unchanged _ _
  · cases done
    exact Accounts.of_add state ⟨rfl, acceptable, age, age_eq, not_lt.mp confirmed⟩

theorem checkInputsAndAddNew_accounts
    (done : context.checkInputsAndAddNew state mnb = some outcome) :
    Accounts state.man outcome (Vetted context mnb) := by
  unfold checkInputsAndAddNew at done
  split at done
  · cases done
    exact Accounts.of_continues (Continues.refl _) rfl
  split at done
  · cases done
    exact Accounts.unchanged _ _
  · cases done
  · cases done
    exact Accounts.unchanged _ _
  next acceptable => exact addMasternode_accounts acceptable done

theorem checkInputsAndAdd_accounts (done : context.checkInputsAndAdd state mnb = some outcome) :
    Accounts state.man outcome (Vetted context mnb) := by
  unfold checkInputsAndAdd at done
  split at done
  · cases done
    exact Accounts.unchanged _ _
  split at done
  · exact checkInputsAndAddNew_accounts done
  split at done
  · cases done
    exact Accounts.unchanged _ _
  next pmn _ _ =>
    exact Accounts.after (continues_remove state.man pmn.vin) (checkInputsAndAddNew_accounts done)

/-- The list gets a masternode by `Add` only, after the checks. -/
theorem processMnb_accounts (done : context.processMnb state mnb = some outcome) :
    Accounts state.man outcome fun mn =>
      context.isVinAssociatedWithPubkey mnb.vin mnb.pubKeyCollateralAddress = true ∧
        Vetted context mnb mn := by
  unfold processMnb at done
  dsimp only at done
  split at done
  · cases done
    exact Accounts.unchanged _ _
  split at done
  · cases done
    exact Accounts.unchanged _ _
  have updated := checkAndUpdate_continues context (context.remember state mnb) mnb
  split at done
  · cases done
    exact Accounts.of_continues updated rfl
  split at done
  · cases done
    exact Accounts.of_continues updated rfl
  next associated =>
  have accounts := checkInputsAndAdd_accounts done
  refine Accounts.after updated ⟨accounts.listed, fun mn added => ⟨?_, accounts.vetted mn added⟩⟩
  simpa using associated

theorem hasCollateral_of_added {txOf : Uint256 → CTransaction}
    (faithful : context.pool.Faithful txOf) (named : context.namesCollateral mnb = true)
    (done : context.processMnb state mnb = some outcome) (added : outcome.added = some mn) :
    context.HasCollateral mn := by
  obtain ⟨associated, vetted⟩ := (processMnb_accounts done).vetted mn added
  obtain ⟨confirmed, unpooled, txout, unspent⟩ := vetted.unspent
  rw [vetted.from_mnb]
  refine ⟨⟨txout, unspent, ?_⟩, unpooled⟩
  unfold isVinAssociatedWithPubkey at associated
  unfold namesCollateral at named
  split at associated
  · cases associated
  next txVin hashBlock found =>
  rw [found] at named
  dsimp only at named
  rw [associated, Bool.not_true, Bool.false_or] at named
  -- the unspent output is the one of that index
  have output_eq := faithful.traced _ _ _ unspent
  have vout_eq := (filter_eq_some_iff.mp output_eq).1
  rw [← PoolContext.getTransaction_eq faithful confirmed found] at vout_eq
  rw [vout_eq] at named
  exact named

end MnContext

/-! ## Runs -/

/-- The list of masternodes, and what broadcasts added to it, each with the node
at that moment. -/
structure MnRun where
  state : MnState := {}
  additions : List (MnContext × CMasternode) := []

/-- A broadcast, or any change that the rest of the node makes to the list. -/
inductive MnInput where
  | mnb (context : MnContext) (message : CMasternodeBroadcast)
  | elsewhere (state : MnState)

namespace MnInput

/-- Ids stand for transactions, in the node that takes the message. -/
def Faithful (txOf : Uint256 → CTransaction) : MnInput → Prop
  | .mnb context _ => context.pool.Faithful txOf
  | .elsewhere _ => True

def namesCollateral : MnInput → Bool
  | .mnb context message => context.namesCollateral message
  | .elsewhere _ => true

end MnInput

namespace MnRun

def step (run : MnRun) : MnInput → Option MnRun
  | .mnb context message =>
    (context.processMnb run.state message).map fun outcome =>
      { state := outcome.state
        additions := run.additions ++ outcome.added.toList.map (Prod.mk context) }
  | .elsewhere state => some { run with state := state }

/-- Every masternode had its collateral at the moment it was added. -/
def Collateralised (run : MnRun) : Prop :=
  ∀ addition ∈ run.additions, addition.1.HasCollateral addition.2

theorem step_collateralised {txOf : Uint256 → CTransaction} {run next : MnRun} {input : MnInput}
    (holds : run.Collateralised) (faithful : input.Faithful txOf)
    (named : input.namesCollateral = true) (stepped : run.step input = some next) :
    next.Collateralised := by
  cases input with
  | elsewhere state =>
    cases stepped
    exact holds
  | mnb context message =>
    obtain ⟨outcome, done, rfl⟩ := map_eq_some_iff.mp stepped
    intro addition member
    rcases mem_append.mp member with earlier | now
    · exact holds addition earlier
    · obtain ⟨mn, added, rfl⟩ := List.mem_map.mp now
      exact MnContext.hasCollateral_of_added faithful named done (mem_toList.mp added)

/-- In a run whose broadcasts name the output that pays their key, every
masternode has its collateral when it is added. -/
theorem collateralised_throughout (txOf : Uint256 → CTransaction) {start : MnRun}
    {inputs : List MnInput} (new : start.additions = [])
    (faithful : ∀ input ∈ inputs, input.Faithful txOf)
    (named : ∀ input ∈ inputs, input.namesCollateral = true) :
    Runs.Throughout step Collateralised start inputs := by
  have holds : start.Collateralised := by
    intro addition member
    rw [new] at member
    cases member
  have meets : Runs.Meets step
      (fun _ input => input.Faithful txOf ∧ input.namesCollateral = true) start inputs :=
    Runs.Meets.of_mem (fun input member _ => ⟨faithful input member, named input member⟩) start
  refine Runs.throughout_of_kept (fun _ kept => kept) ?_ holds meets
  intro run input next kept met stepped
  exact step_collateralised kept met.1 met.2 stepped

end MnRun

/-! ## A broadcast that names another output -/

namespace CollateralSample

def getID (pubkey : CPubKey) : CKeyID := ⟨List.replicate 20 (pubkey.headD 0), List.length_replicate⟩

/-- A transaction that pays a collateral to a key, and more than that to someone else. -/
def funding : CTransaction where
  hash := 7
  vin := []
  vout := [⟨200 * coin, getScriptForDestination (getID [1])⟩,
    ⟨500 * coin, getScriptForDestination (getID [2])⟩]

def entry (hash : Uint256) (nHeight : Nat) : CBlockIndex :=
  { phashBlock := some hash, nHeight := nHeight, nTime := 1000 }

def node : Node where
  params := mainParams
  prim :=
    { verifyScript := fun _ _ _ _ => false
      getLegacySigOpCount := fun _ => 1
      getP2SHSigOpCount := fun _ _ => 0
      checkProofOfWork := fun _ _ => true
      buildMerkleTree := fun _ => (0, false)
      blockSize := fun _ => 1000
      txSize := fun _ => 100
      masternodePaymentValid := fun _ _ => true }
  tip := some (entry 99 300000)
  mapBlockIndex := fun hash =>
    if hash = 99 then some (entry 99 300000)
    else if hash = 10 then some (entry 10 290000)
    else none
  adjustedTime := 6000

/-- The transaction was confirmed ten thousand blocks ago. -/
def pool : PoolContext where
  node := node
  pcoinsTip :=
    { coins := fun txid =>
        if txid = 7 then { vout := funding.vout, nHeight := 290000, nVersion := 1 }
        else CCoins.cleared
      bestBlock := 99 }
  relayed := fun _ _ => true
  chainActive := fun nHeight => some (entry 10 nHeight.toNat)
  readBlockFromDisk := fun _ => some { hash := 10, hashPrevBlock := 0, vtx := [funding] }
  tipHeight_lt := by
    rintro tip same
    cases same
    decide

def context : MnContext where
  pool := pool
  getTime := 6000
  collateralPubKey := [1]
  hashOf := fun _ _ => 1000
  getID := getID
  broadcastSigned := fun _ => true
  pingSigned := fun _ _ => true
  broadcastHash := fun _ _ => 2000
  minPaymentsProto := 70000

/-- The key of the first output, with an output of the transaction. -/
def broadcast (n : Nat) : CMasternodeBroadcast where
  vin := { prevout := ⟨7, n⟩ }
  pubKeyCollateralAddress := [1]
  pubKeyMasternode := [3]
  sigTime := 5000
  protocolVersion := 70100

def txOf (hash : Uint256) : CTransaction := if hash = 7 then funding else CTransaction.empty

theorem faithful : pool.Faithful txOf := by
  refine ⟨?_, ?_, ?_⟩
  · intro txid n txout unspent
    by_cases same : txid = 7
    · subst same
      match n, unspent with
      | 0, unspent => exact unspent
      | 1, unspent => exact unspent
      | _ + 2, unspent => exact unspent
    · have nothing : pool.pcoinsTip.coins txid = CCoins.cleared := if_neg same
      rw [nothing] at unspent
      cases unspent
  · intro hash tx hashBlock impossible
    cases impossible
  · intro pindex block read tx member
    cases read
    rw [mem_singleton.mp member]
    rfl

end CollateralSample

namespace MnRun

open CollateralSample

theorem collateralised_throughout_one :
    ((step {} (.mnb context (broadcast 0))).map fun run => run.additions.map (·.2)) =
        some [(broadcast 0).toMasternode] ∧
      Runs.Throughout step Collateralised {} [.mnb context (broadcast 0)] := by
  refine ⟨by decide +kernel, collateralised_throughout txOf rfl ?_ ?_⟩
  · intro input member
    rw [mem_singleton.mp member]
    exact faithful
  · intro input member
    rw [mem_singleton.mp member]
    decide +kernel

/-- The second output is not the collateral, and is taken for it. -/
theorem collateral_of_another_output :
    pool.Faithful txOf ∧
      ¬ Runs.Throughout step Collateralised {} [.mnb context (broadcast 1)] := by
  refine ⟨faithful, fun along => ?_⟩
  have added : ((step {} (.mnb context (broadcast 1))).map fun run => run.additions.map (·.2)) =
      some [(broadcast 1).toMasternode] := by decide +kernel
  obtain ⟨next, stepped, additions⟩ := map_eq_some_iff.mp added
  have holds : next.Collateralised := along.2 next stepped
  rw [step] at stepped
  obtain ⟨outcome, _, rfl⟩ := map_eq_some_iff.mp stepped
  have inside : (context, (broadcast 1).toMasternode) ∈
      outcome.added.toList.map (Prod.mk context) := by
    rw [nil_append, List.map_map] at additions
    have whole : outcome.added.toList = [(broadcast 1).toMasternode] :=
      (List.map_id _).symm.trans additions
    rw [whole]
    exact mem_singleton_self _
  obtain ⟨txout, unspent, pays⟩ := (holds _ (mem_append_right [] inside)).unspent
  cases unspent
  revert pays
  decide +kernel

end MnRun

end CentNode
