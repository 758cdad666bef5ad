import CentNode.Validation.Accepted

/-!
# What the inputs of an accepted block are worth

The inputs of every transaction are there when it is applied.  Maturity,
scripts and the balance of values are checked by `CheckInputs`, which does
nothing below a fixed height of the parent.
-/

namespace CentNode

open List

/-- The value of the output an input spends. -/
def FlatCoins.valueOf (view : FlatCoins) (txin : CTxIn) : Int :=
  ((view.getOutputFor txin).map (·.nValue)).getD 0

/-- The values a transaction takes in and gives out, as integers. -/
def FlatCoins.valueIn (view : FlatCoins) (tx : CTransaction) : Int := (tx.vin.map view.valueOf).sum

def CTransaction.valueOut (tx : CTransaction) : Int := (tx.vout.map (·.nValue)).sum

/-- `CheckInputs` is at the height from which it compares values, by the index entry that it
looks up for the best block of the coins. -/
def Node.comparesInputs (node : Node) (pprev : CBlockIndex) : Prop :=
  ∃ best, node.mapBlockIndex pprev.getBlockHash = some best ∧ checkInputsHeight ≤ best.nHeight

/-- The checks of `CheckInputs`, with the flags and the height they are made at. -/
structure Authorised (node : Node) (flags : ScriptFlags) (nSpendHeight : Int) (view : FlatCoins)
    (tx : CTransaction) : Prop where
  mature : ∀ txin ∈ tx.vin,
    (view.coins txin.prevout.hash).fCoinBase = true ∨
        (view.coins txin.prevout.hash).fCoinStake = true →
      node.params.coinbaseMaturity ≤ nSpendHeight - (view.coins txin.prevout.hash).nHeight
  verified : ∀ i txin, tx.vin[i]? = some txin →
    ∃ txout, view.getOutputFor txin = some txout ∧
      node.prim.verifyScript tx i txout.scriptPubKey flags = true
  conserves : tx.isCoinStake = false → tx.valueOut ≤ view.valueIn tx

/-! ## Values -/

variable {total : Int}

/-- The loop of `GetValueOut` returns the sum, or throws. -/
theorem foldlM_addValueOut {outs : List CTxOut} {start : Int}
    (int64 : ∀ out ∈ outs, out.nValue < 2 ^ 63) (low : 0 ≤ start) (high : start < 2 ^ 63)
    (summed : outs.foldlM CTransaction.addValueOut start = some total) :
    total = start + (outs.map (·.nValue)).sum := by
  induction outs generalizing start with
  | nil =>
    cases summed
    simp
  | cons out rest ih =>
    rw [foldlM_cons] at summed
    obtain ⟨next, added, followed⟩ := Option.bind_eq_some_iff.mp summed
    have small := int64 out mem_cons_self
    unfold CTransaction.addValueOut at added
    split at added
    · cases added
    next positive =>
    split at added
    · cases added
    next grown =>
    cases added
    have exact_sum : toInt64 (start + out.nValue) = start + out.nValue := by
      unfold toInt64 at grown ⊢
      omega
    have bound : start + out.nValue < 2 ^ 63 := by
      rw [← exact_sum]
      unfold toInt64
      omega
    rw [exact_sum] at followed
    have total_eq := ih (fun other member => int64 other (mem_cons_of_mem out member))
      (by omega) bound followed
    rw [total_eq, map_cons, sum_cons]
    omega

variable {tx : CTransaction}

theorem getValueOut_eq (int64 : ∀ out ∈ tx.vout, out.nValue < 2 ^ 63)
    (summed : tx.getValueOut = some total) : total = tx.valueOut := by
  have sum_eq := foldlM_addValueOut int64 (le_refl 0) (by decide) summed
  rw [sum_eq, Int.zero_add]
  rfl

variable {params : CChainParams}

/-- What one input of the first loop of `CheckInputs` went through. -/
theorem checkInput_ok {view : FlatCoins} {nSpendHeight : Int} {nValueIn next : Int} {txin : CTxIn}
    (available : (view.coins txin.prevout.hash).isAvailable txin.prevout.n = true)
    (low : 0 ≤ nValueIn) (high : nValueIn < 2 ^ 63)
    (passed : checkInput params view nSpendHeight nValueIn txin = .ok next) :
    ((view.coins txin.prevout.hash).fCoinBase = true ∨
        (view.coins txin.prevout.hash).fCoinStake = true →
      params.coinbaseMaturity ≤ nSpendHeight - (view.coins txin.prevout.hash).nHeight) ∧
      next = nValueIn + view.valueOf txin ∧ 0 ≤ next ∧ next < 2 ^ 63 := by
  simp only [checkInput] at passed
  split at passed
  · cases passed
  next matured =>
  split at passed
  · cases passed
  next txout found =>
  split at passed
  · cases passed
  next ranged =>
  cases passed
  have value_eq : view.valueOf txin = txout.nValue := by
    simp [FlatCoins.valueOf, FlatCoins.getOutputFor, available, found]
  have limit := params.maxMoneyOut_lt
  simp only [CChainParams.moneyRange, Bool.or_eq_true, Bool.not_eq_true', Bool.and_eq_false_iff,
    decide_eq_false_iff_not, not_or, not_le, not_lt] at ranged
  simp only [Bool.and_eq_true, Bool.or_eq_true, decide_eq_true_eq, not_and, not_lt] at matured
  have exact_sum : toInt64 (nValueIn + txout.nValue) = nValueIn + txout.nValue := by
    unfold toInt64 at ranged ⊢
    omega
  rw [value_eq, exact_sum]
  rw [exact_sum] at ranged
  refine ⟨matured, rfl, ?_, ?_⟩ <;> omega

/-- The first loop of `CheckInputs` sums the values and checks maturity. -/
theorem foldlM_checkInput {view : FlatCoins} {nSpendHeight : Int} {vin : List CTxIn} {start : Int}
    (available : ∀ txin ∈ vin,
      (view.coins txin.prevout.hash).isAvailable txin.prevout.n = true) (low : 0 ≤ start)
    (high : start < 2 ^ 63)
    (passed : vin.foldlM (checkInput params view nSpendHeight) start = .ok total) :
    total = start + (vin.map view.valueOf).sum ∧
      ∀ txin ∈ vin, (view.coins txin.prevout.hash).fCoinBase = true ∨
          (view.coins txin.prevout.hash).fCoinStake = true →
        params.coinbaseMaturity ≤ nSpendHeight - (view.coins txin.prevout.hash).nHeight := by
  induction vin generalizing start with
  | nil =>
    cases passed
    simp
  | cons txin rest ih =>
    rw [foldlM_cons] at passed
    obtain ⟨next, here, followed⟩ := Checked.bind_ok.mp passed
    obtain ⟨mature, next_eq, nextLow, nextHigh⟩ :=
      checkInput_ok (available txin mem_cons_self) low high here
    obtain ⟨total_eq, others⟩ :=
      ih (fun other member => available other (mem_cons_of_mem txin member)) nextLow nextHigh
        followed
    refine ⟨?_, fun other member => ?_⟩
    · rw [total_eq, next_eq, map_cons, sum_cons]
      omega
    · rcases mem_cons.mp member with rfl | later
      · exact mature
      · exact others other later

theorem checkFee_ok {pindexPrev : CBlockIndex} {nValueIn : Int}
    (passed : checkFee params pindexPrev tx nValueIn = .ok ())
    (active : checkInputsHeight ≤ pindexPrev.nHeight) (spends : tx.isCoinStake = false) :
    ∃ nValueOut, tx.getValueOut = some nValueOut ∧ nValueOut ≤ nValueIn := by
  simp only [checkFee, spends, Bool.false_eq_true, if_false] at passed
  split at passed
  · cases passed
  next nValueOut summed =>
  split at passed
  · cases passed
  next enough =>
  exact ⟨nValueOut, summed, by
    by_contra short
    exact enough ⟨not_le.mp short, active⟩⟩

/-! ## Scripts -/

variable {checks : List CScriptCheck}

theorem forM_runCheck {prim : Primitives} (passed : checks.forM (runCheck prim) = .ok ()) :
    ∀ check ∈ checks, check.passes prim = true := by
  induction checks with
  | nil => simp
  | cons first rest ih =>
    rw [forM_eq_forM, forM_cons] at passed
    obtain ⟨done, here, followed⟩ := Checked.bind_ok.mp passed
    intro check member
    rcases mem_cons.mp member with rfl | later
    · by_contra failed
      unfold runCheck at here
      rw [if_neg failed] at here
      split at here <;> cases here
    · exact ih followed check later

variable {deferred : List CScriptCheck}

theorem verifyScripts_ok {node : Node} (passed : verifyScripts node true checks = .ok deferred)
    (later : ∀ check ∈ deferred, check.passes node.prim = true) :
    ∀ check ∈ checks, check.passes node.prim = true := by
  simp only [verifyScripts, Bool.not_true, Bool.false_eq_true, if_false] at passed
  split at passed
  · cases passed
    exact later
  · obtain ⟨done, ran, _⟩ := Checked.bind_ok.mp passed
    exact forM_runCheck ran

section

variable {node : Node} {view : FlatCoins} {flags : ScriptFlags}

theorem scriptChecks_verify (available : ∀ txin ∈ tx.vin,
      (view.coins txin.prevout.hash).isAvailable txin.prevout.n = true)
    (passed : ∀ check ∈ scriptChecks tx view flags, check.passes node.prim = true) {i : Nat}
    {txin : CTxIn} (input : tx.vin[i]? = some txin) :
    ∃ txout, view.getOutputFor txin = some txout ∧
      node.prim.verifyScript tx i txout.scriptPubKey flags = true := by
  have here := available txin (mem_of_getElem? input)
  obtain ⟨txout, found⟩ : ∃ txout,
      (view.coins txin.prevout.hash).vout[txin.prevout.n]? = some txout := by
    unfold CCoins.isAvailable at here
    split at here
    · cases here
    · next txout found => exact ⟨txout, found⟩
  refine ⟨txout, by simp [FlatCoins.getOutputFor, here, found], ?_⟩
  have check := passed ⟨txout.scriptPubKey, tx, i, flags⟩ (by
    refine mem_map.mpr ⟨(txin, i), ?_, by simp [found]⟩
    exact mem_zipIdx_iff_getElem?.mpr input)
  exact check

/-- A transaction that passed `CheckInputs` above the height from which it checks anything
spends mature outputs and does not give out more than it takes in, scripts or not. -/
theorem checkInputs_values {pindexPrev : CBlockIndex} {fScriptChecks : Bool}
    (int64 : ∀ out ∈ tx.vout, out.nValue < 2 ^ 63)
    (best : node.mapBlockIndex view.bestBlock = some pindexPrev)
    (active : checkInputsHeight ≤ pindexPrev.nHeight) (spends : tx.isCoinBase = false)
    (passed : checkInputs node tx view fScriptChecks flags = .ok deferred) :
    (∀ txin ∈ tx.vin, (view.coins txin.prevout.hash).isAvailable txin.prevout.n = true) ∧
      (∀ txin ∈ tx.vin, (view.coins txin.prevout.hash).fCoinBase = true ∨
          (view.coins txin.prevout.hash).fCoinStake = true →
        node.params.coinbaseMaturity ≤
          (pindexPrev.nHeight : Int) + 1 - (view.coins txin.prevout.hash).nHeight) ∧
      (tx.isCoinStake = false → tx.valueOut ≤ view.valueIn tx) ∧
      verifyScripts node fScriptChecks (scriptChecks tx view flags) = .ok deferred := by
  simp only [checkInputs, best, spends, Bool.not_false, Bool.true_and, decide_eq_true_eq,
    ge_iff_le, if_pos active] at passed
  split at passed
  · cases passed
  next present =>
  obtain ⟨nValueIn, summed, rest⟩ := Checked.bind_ok.mp passed
  obtain ⟨_, fee, verified⟩ := Checked.bind_ok.mp rest
  have available : ∀ txin ∈ tx.vin,
      (view.coins txin.prevout.hash).isAvailable txin.prevout.n = true :=
    fun txin member => FlatCoins.available_of_haveInputs (by simpa using present) spends member
  obtain ⟨total_eq, mature⟩ := foldlM_checkInput available (le_refl 0) (by decide) summed
  refine ⟨available, mature, fun notStake => ?_, verified⟩
  obtain ⟨nValueOut, out_eq, enough⟩ := checkFee_ok fee active notStake
  rw [← getValueOut_eq int64 out_eq]
  rw [total_eq, Int.zero_add] at enough
  exact enough

/-- Where the scripts are checked too, it is authorised once the deferred checks pass. -/
theorem checkInputs_authorises
    {pindexPrev : CBlockIndex} (int64 : ∀ out ∈ tx.vout, out.nValue < 2 ^ 63)
    (best : node.mapBlockIndex view.bestBlock = some pindexPrev)
    (active : checkInputsHeight ≤ pindexPrev.nHeight) (spends : tx.isCoinBase = false)
    (passed : checkInputs node tx view true flags = .ok deferred)
    (later : ∀ check ∈ deferred, check.passes node.prim = true) :
    Authorised node flags (pindexPrev.nHeight + 1) view tx := by
  obtain ⟨available, mature, conserves, verified⟩ :=
    checkInputs_values int64 best active spends passed
  exact ⟨mature, fun i txin input =>
    scriptChecks_verify available (verifyScripts_ok verified later) input, conserves⟩

end

/-! ## Accepted blocks -/

/-- Every transaction of a block accepted at or above the last checkpoint finds
its inputs, and is authorised when the parent is at height 270000 or above. -/
theorem connectBlock_checks_inputs {node : Node} {disk : DiskWrites} {block : CBlock}
    {context : BlockContext node} {view : FlatCoins} {mapStakeSpent : StakeSpent}
    {fAlreadyChecked : Bool} {result : Connected}
    (accepted : Accepted node disk block context view mapStakeSpent fAlreadyChecked result)
    (checkpoint : node.params.totalBlocksEstimate ≤ context.pindex.nHeight)
    (int64 : ∀ tx ∈ block.vtx, ∀ out ∈ tx.vout, out.nValue < 2 ^ 63)
    (before after : List CTransaction) (tx : CTransaction)
    (position : block.vtx = before ++ tx :: after) (spends : tx.isCoinBase = false) :
    ∃ current, coinsAfter context.pindex.nHeight view before = some current ∧
      (∀ txin ∈ tx.vin,
        (current.coins txin.prevout.hash).isAvailable txin.prevout.n = true) ∧
        (270000 ≤ context.pprev.nHeight →
          Authorised node (context.rules block).flags context.pindex.nHeight current tx) := by
  obtain ⟨state, steps⟩ := accepted.steps
  have looped := steps.looped
  rw [position] at looped
  obtain ⟨current, next, reached, connected, deferred⟩ := connectTxs_at looped
  obtain ⟨checked, facts, checks_eq⟩ := connected.checked
  obtain ⟨present, vChecks, passed, added⟩ := facts.inputs spends
  refine ⟨current.view, reached, fun txin member =>
    FlatCoins.available_of_haveInputs present spends member, fun active => ?_⟩
  have best : node.mapBlockIndex current.view.bestBlock = some context.pprev := by
    rw [coinsAfter_bestBlock reached, ← steps.onParent]
    exact context.registered
  have scripts : (context.rules block).fScriptChecks = true := by
    simpa [BlockContext.rules, blockRules] using checkpoint
  rw [scripts] at passed
  have height_eq : (context.pindex.nHeight : Int) = context.pprev.nHeight + 1 := by
    rw [context.height]
    simp
  rw [height_eq]
  refine checkInputs_authorises (int64 tx (by rw [position]; simp)) best active spends passed ?_
  intro check member
  refine (finished_of_ok steps.finished).scripts check (deferred.subset ?_)
  rw [checks_eq, added]
  exact mem_append_right _ member

/-! ## A block on either side of the height -/

namespace Sample

/-- A node on the main network whose script interpreter gives one answer to all. -/
def prim (verifies : Bool) : Primitives where
  verifyScript := fun _ _ _ _ => verifies
  getLegacySigOpCount := fun _ => 1
  getP2SHSigOpCount := fun _ _ => 0
  checkProofOfWork := fun _ _ => true
  buildMerkleTree := fun _ => (0, false)
  blockSize := fun _ => 1000
  txSize := fun _ => 200
  masternodePaymentValid := fun _ _ => true

def parent (nHeight : Nat) : CBlockIndex := { phashBlock := some 1, nHeight := nHeight }

def node (verifies : Bool) (parentHeight : Nat) : Node where
  params := mainParams
  prim := prim verifies
  tip := some (parent parentHeight)
  mapBlockIndex := fun hash => if hash = 1 then some (parent parentHeight) else none

def context (verifies : Bool) (parentHeight : Nat) : BlockContext (node verifies parentHeight) where
  pindex := { phashBlock := some 2, nHeight := parentHeight + 1 }
  pprev := parent parentHeight
  rest := []
  registered := rfl
  height := rfl

def coinbase : CTransaction :=
  { hash := 20, vin := [{ prevout := COutPoint.null, scriptSig := [0, 0] }], vout := [⟨0, []⟩] }

def coinstake : CTransaction :=
  { hash := 21, vin := [{ prevout := ⟨10, 0⟩ }], vout := [⟨0, []⟩, ⟨100, [1]⟩] }

/-- Spends five units of an output of a coinbase. -/
def spend (nValue : Int) : CTransaction :=
  { hash := 22, vin := [{ prevout := ⟨11, 0⟩ }], vout := [⟨nValue, [2]⟩] }

def overspend : CTransaction := spend 1000

def block (vtx : List CTransaction) : CBlock := { hash := 2, hashPrevBlock := 1, vtx := vtx }

/-- An old output, and one of a coinbase of height 4990. -/
def view : FlatCoins where
  coins := fun txid =>
    if txid = 10 then { vout := [⟨100, [3]⟩], nHeight := 1, nVersion := 1 }
    else if txid = 11 then { fCoinBase := true, vout := [⟨5, [4]⟩], nHeight := 4990, nVersion := 1 }
    else CCoins.cleared
  bestBlock := 1

end Sample

/-- The coinbase of height 4990 is spent after the coinstake, and four of the five units are
given out. -/
theorem connectBlock_checks_inputs_matured :
    ∃ current, coinsAfter 270001 Sample.view [Sample.coinbase, Sample.coinstake] = some current ∧
      (current.coins 11).fCoinBase = true ∧ (Sample.spend 4).isCoinStake = false ∧
        Authorised (Sample.node true 270000) {} 270001 current (Sample.spend 4) := by
  have accepted : ∃ result, Accepted (Sample.node true 270000) {}
      (Sample.block [Sample.coinbase, Sample.coinstake, Sample.spend 4])
      (Sample.context true 270000) Sample.view ∅ false result := ⟨_, by decide, rfl⟩
  obtain ⟨result, ok⟩ := accepted
  obtain ⟨current, reached, _, authorised⟩ :=
    connectBlock_checks_inputs ok (by decide) (by decide) [Sample.coinbase, Sample.coinstake] []
      (Sample.spend 4) rfl (by decide)
  refine ⟨current, reached, ?_, rfl, authorised (by decide)⟩
  cases reached
  rfl

/-- At height 5000, above the last checkpoint, a transaction is accepted that
spends an immature coinbase without a valid script and makes money. -/
theorem overspend_accepted :
    ∃ result current, Accepted (Sample.node false 4999) {}
        (Sample.block [Sample.coinbase, Sample.coinstake, Sample.overspend])
        (Sample.context false 4999) Sample.view ∅ false result ∧
      (Sample.node false 4999).params.totalBlocksEstimate ≤
          (Sample.context false 4999).pindex.nHeight ∧
        coinsAfter 5000 Sample.view [Sample.coinbase, Sample.coinstake] = some current ∧
          Sample.overspend.isCoinBase = false ∧ Sample.overspend.isCoinStake = false ∧
            (current.coins 11).fCoinBase = true ∧ (current.coins 11).nHeight = 4990 ∧
              current.valueIn Sample.overspend < Sample.overspend.valueOut ∧
                ∀ flags, ¬ Authorised (Sample.node false 4999) flags 5000 current
                  Sample.overspend := by
  refine ⟨_, _, ⟨by decide, rfl⟩, by decide, rfl, rfl, rfl, rfl, rfl, by decide, ?_⟩
  intro flags authorised
  obtain ⟨txout, _, verified⟩ := authorised.verified 0 _ rfl
  cases verified

end CentNode
