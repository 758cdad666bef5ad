import CentNode.Wallet.CreateTransaction

/-!
# Created transactions conserve value

A pass ends with a transaction that spends what its outputs and the fee add up to exactly when
the outputs of the payees add up to the sum asked for and nothing has left the range of a
`CAmount`.  The splitter neither looks for negative amounts nor for a count that makes no
outputs.
-/

namespace CentNode

open List

/-- The amounts fit in a `CAmount`. -/
def AmountsFit (vecSend : List (CScript × Int)) : Prop :=
  ∀ send ∈ vecSend, -2 ^ 63 ≤ send.2 ∧ send.2 < 2 ^ 63

/-- What all payees are to get. -/
def requested (vecSend : List (CScript × Int)) : Int := (vecSend.map Prod.snd).sum

variable {vecSend : List (CScript × Int)} {nValue : Int}

theorem foldlM_addAmount_nonneg {start : Int} (run : vecSend.foldlM addAmount start = .ok nValue)
    (nonneg : 0 ≤ nValue) : 0 ≤ start := by
  cases vecSend with
  | nil =>
    obtain rfl := Except.ok.inj run
    exact nonneg
  | cons send rest =>
    rw [foldlM_cons] at run
    unfold addAmount at run
    split_ifs at run with low
    · exact absurd run (by simp [bind, Except.bind])
    · exact not_lt.mp low

theorem foldlM_addAmount (vecSend : List (CScript × Int)) (fits : AmountsFit vecSend)
    {start : Int} (run : vecSend.foldlM addAmount start = .ok nValue) (begins : start < 2 ^ 63)
    (nonneg : 0 ≤ nValue) : nValue = start + requested vecSend ∧ nValue < 2 ^ 63 := by
  induction vecSend generalizing start with
  | nil =>
    obtain rfl := Except.ok.inj run
    exact ⟨(Int.add_zero _).symm, begins⟩
  | cons send rest ih =>
    have bounds := fits send mem_cons_self
    have low := foldlM_addAmount_nonneg run nonneg
    rw [foldlM_cons, addAmount, if_neg (by omega)] at run
    have later : 0 ≤ toInt64 (start + send.2) := foldlM_addAmount_nonneg run nonneg
    have small : toInt64 (start + send.2) = start + send.2 := by
      unfold toInt64 at later ⊢
      omega
    obtain ⟨sum, inside⟩ :=
      ih (fun other member => fits other (mem_cons_of_mem _ member)) run
        (by unfold toInt64; omega)
    refine ⟨?_, inside⟩
    rw [sum, small, requested, requested, map_cons, sum_cons, add_assoc]

theorem addAmounts_spec (fits : AmountsFit vecSend) (run : addAmounts vecSend = .ok nValue) :
    nValue = requested vecSend ∧ 0 ≤ nValue ∧ nValue < 2 ^ 63 := by
  unfold addAmounts at run
  cases added : vecSend.foldlM addAmount 0 with
  | error strFailReason =>
    rw [added] at run
    exact absurd run (by simp [Except.bind])
  | ok total =>
    rw [added] at run
    simp only [Except.bind] at run
    split_ifs at run with bad
    obtain rfl := Except.ok.inj run
    have nonneg : 0 ≤ total := by
      rw [Bool.or_eq_true, not_or, decide_eq_true_eq] at bad
      exact not_lt.mp bad.2
    obtain ⟨sum, small⟩ := foldlM_addAmount vecSend fits added (by decide) nonneg
    exact ⟨sum.trans (Int.zero_add _), nonneg, small⟩

/-! ## The outputs of the payees -/

/-- The value of outputs together. -/
def valueOut (vout : List CTxOut) : Int := (vout.map CTxOut.nValue).sum

/-- The outputs fall into one group for each payee, in order, that pays the payee's script and
adds up to the payee's amount. -/
def PaysEach (vecSend : List (CScript × Int)) (vout : List CTxOut) : Prop :=
  ∃ groups : List (List CTxOut), groups.flatten = vout ∧
    List.Forall₂ (fun group send => (∀ out ∈ group, out.scriptPubKey = send.1) ∧
      valueOut group = send.2) groups vecSend

def NoneNegative (vout : List CTxOut) : Prop := ∀ out ∈ vout, 0 ≤ out.nValue

theorem valueOut_append (first second : List CTxOut) :
    valueOut (first ++ second) = valueOut first + valueOut second := by
  unfold valueOut
  rw [map_append, sum_append]

variable {vout : List CTxOut}

theorem valueOut_nonneg (nonneg : NoneNegative vout) : 0 ≤ valueOut vout := by
  refine List.sum_nonneg ?_
  intro value member
  obtain ⟨out, listed, rfl⟩ := mem_map.mp member
  exact nonneg out listed

theorem PaysEach.value (pays : PaysEach vecSend vout) : valueOut vout = requested vecSend := by
  obtain ⟨groups, rfl, each⟩ := pays
  induction each with
  | nil => rfl
  | cons paid rest ih =>
    rw [flatten_cons, valueOut_append, ih, paid.2, requested, requested, map_cons,
      sum_cons]

theorem PaysEach.amounts_nonneg (pays : PaysEach vecSend vout) (nonneg : NoneNegative vout) :
    ∀ send ∈ vecSend, 0 ≤ send.2 := by
  obtain ⟨groups, rfl, each⟩ := pays
  induction each with
  | nil => exact fun send member => (nomatch member)
  | cons paid rest ih =>
    rw [flatten_cons] at nonneg
    intro send member
    rcases mem_cons.mp member with rfl | later
    · rw [← paid.2]
      exact valueOut_nonneg fun out listed => nonneg out (mem_append_left _ listed)
    · exact ih (fun out listed => nonneg out (mem_append_right _ listed)) send later

theorem amounts_zero (nonneg : ∀ send ∈ vecSend, 0 ≤ send.2) (nothing : requested vecSend = 0) :
    ∀ send ∈ vecSend, send.2 = 0 := by
  induction vecSend with
  | nil => exact fun send member => (nomatch member)
  | cons first rest ih =>
    have others : ∀ send ∈ rest, 0 ≤ send.2 :=
      fun send member => nonneg send (mem_cons_of_mem _ member)
    have head := nonneg first mem_cons_self
    have tail : 0 ≤ requested rest := by
      refine List.sum_nonneg ?_
      intro value member
      obtain ⟨send, listed, rfl⟩ := mem_map.mp member
      exact others send listed
    have split : requested (first :: rest) = first.2 + requested rest := sum_cons
    intro send member
    rcases mem_cons.mp member with rfl | later
    · omega
    · exact ih others (by omega) send later

theorem paysEach_flatMap {outputs : CScript × Int → List CTxOut}
    (paid : ∀ send ∈ vecSend, (∀ out ∈ outputs send, out.scriptPubKey = send.1) ∧
      valueOut (outputs send) = send.2) : PaysEach vecSend (vecSend.flatMap outputs) := by
  refine ⟨vecSend.map outputs, flatMap_def.symm, ?_⟩
  rw [List.forall₂_map_left_iff, List.forall₂_same]
  exact paid

section

variable {send : CScript × Int} {nSplitBlock : Int}

/-- An amount divides into the outputs of the splitter. -/
theorem valueOut_splitOutputs (many : 1 ≤ nSplitBlock) (nonneg : 0 ≤ send.2)
    (small : send.2 < 2 ^ 63) :
    valueOut (splitOutputs nSplitBlock send) = send.2 ∧
      NoneNegative (splitOutputs nSplitBlock send) := by
  obtain ⟨count, rfl⟩ : ∃ count : Nat, nSplitBlock = count + 1 :=
    ⟨(nSplitBlock - 1).toNat, by omega⟩
  have quotient : 0 ≤ send.2.tdiv (count + 1) := Int.tdiv_nonneg nonneg (by omega)
  have remainder : 0 ≤ send.2.tmod (count + 1) := Int.tmod_nonneg _ nonneg
  have divided : send.2.tdiv (count + 1) * (count + 1) + send.2.tmod (count + 1) = send.2 :=
    Int.tdiv_mul_add_tmod send.2 (count + 1)
  have part : send.2.tdiv (count + 1) * (count + 1) =
      count * send.2.tdiv (count + 1) + send.2.tdiv (count + 1) := by
    rw [mul_add, mul_one, mul_comm]
  have spread : 0 ≤ count * send.2.tdiv (count + 1) := mul_nonneg (by omega) quotient
  have last : toInt64 (send.2.tdiv (count + 1) + send.2.tmod (count + 1)) =
      send.2.tdiv (count + 1) + send.2.tmod (count + 1) :=
    toInt64_of_range (by omega) (by omega)
  have shape : splitOutputs (count + 1) send =
      replicate count ⟨send.2.tdiv (count + 1), send.1⟩ ++
        [⟨send.2.tdiv (count + 1) + send.2.tmod (count + 1), send.1⟩] := by
    have early : ∀ i ∈ List.range count, ((i : Int) = (count + 1 : Int) - 1) = False := by
      intro i member
      have below := mem_range.mp member
      exact eq_false (by omega)
    have counted : (count + 1 : Int).toNat = count + 1 := by omega
    unfold splitOutputs
    rw [counted, range_succ, map_append, map_singleton, if_pos (by omega), last]
    congr 1
    rw [eq_replicate_iff]
    refine ⟨by rw [length_map, length_range], ?_⟩
    intro out member
    obtain ⟨i, listed, rfl⟩ := mem_map.mp member
    rw [if_neg (by rw [early i listed]; exact id)]
  rw [shape]
  refine ⟨?_, ?_⟩
  · rw [valueOut_append]
    simp only [valueOut, map_replicate, sum_replicate, map_singleton,
      sum_singleton, nsmul_eq_mul]
    omega
  · intro out member
    rcases mem_append.mp member with early | final
    · rw [(mem_replicate.mp early).2]
      exact quotient
    · rw [mem_singleton.mp final]
      exact add_nonneg quotient remainder

theorem splitOutputs_script : ∀ out ∈ splitOutputs nSplitBlock send, out.scriptPubKey = send.1 := by
  intro out member
  obtain ⟨i, _, rfl⟩ := mem_map.mp member
  split <;> rfl

theorem splitOutputs_eq_nil (few : nSplitBlock < 1) : splitOutputs nSplitBlock send = [] := by
  have counted : nSplitBlock.toNat = 0 := by omega
  rw [splitOutputs, counted]
  rfl

end

/-- The count with which the splitter runs; under coin control it may be off. -/
def splitCount : Option CCoinControl → Option Int
  | none => some 1
  | some coinControl => if !coinControl.fSplitBlock then none else some coinControl.nSplitBlock

/-- The splitter, when it runs, gets no negative amount, and makes outputs unless every amount
is zero. -/
def SplitSafe (coinControl : Option CCoinControl) (vecSend : List (CScript × Int)) : Prop :=
  ∀ nSplitBlock, splitCount coinControl = some nSplitBlock →
    (∀ send ∈ vecSend, 0 ≤ send.2) ∧ (1 ≤ nSplitBlock ∨ ∀ send ∈ vecSend, send.2 = 0)

theorem payeesOutputs_eq (minRelayTxFee : Int) (coinControl : Option CCoinControl)
    (vecSend : List (CScript × Int)) :
    payeesOutputs minRelayTxFee coinControl vecSend =
      (splitCount coinControl).elim (vecSend.mapM (payeeOutput minRelayTxFee))
        fun nSplitBlock => .ok (vecSend.flatMap (splitOutputs nSplitBlock)) := by
  cases coinControl with
  | none => rfl
  | some coinControl => cases on : coinControl.fSplitBlock <;> simp [payeesOutputs, splitCount, on]

theorem parseMoneyMax_eq : parseMoneyMax = 1000000000000000000 := by decide

theorem getFee_range {nSatoshisPerK : Int}
    (range : 0 ≤ nSatoshisPerK ∧ nSatoshisPerK ≤ parseMoneyMax) (nSize : Nat) :
    0 ≤ getFee nSatoshisPerK nSize ∧ getFee nSatoshisPerK nSize ≤ parseMoneyMax := by
  rw [parseMoneyMax_eq] at range ⊢
  unfold getFee
  have least : 0 ≤ nSatoshisPerK * nSize % 2 ^ 64 := Int.emod_nonneg _ (by decide)
  have most : nSatoshisPerK * nSize % 2 ^ 64 < 2 ^ 64 := Int.emod_lt_of_pos _ (by decide)
  generalize nSatoshisPerK * nSize % 2 ^ 64 = product at least most
  have exact_fee : toInt64 (product / 1000) = product / 1000 :=
    toInt64_of_range (by omega) (by omega)
  dsimp only
  rw [exact_fee]
  split
  case isTrue => exact range
  case isFalse => exact ⟨by omega, by omega⟩

variable {minRelayTxFee : Int}

section

variable (range : 0 ≤ minRelayTxFee ∧ minRelayTxFee ≤ parseMoneyMax)

include range

theorem dustLimit_range (nSize : Nat) :
    0 ≤ toInt64 (3 * getFee minRelayTxFee nSize) ∧
      toInt64 (3 * getFee minRelayTxFee nSize) ≤ 3 * parseMoneyMax := by
  have fee := getFee_range range nSize
  rw [parseMoneyMax_eq] at fee ⊢
  rw [toInt64_of_range (by omega) (by omega)]
  omega

theorem CTxOut.nonneg_of_not_dust
    {out : CTxOut} (kept : ¬ out.isDust minRelayTxFee = true) : 0 ≤ out.nValue := by
  have limit := dustLimit_range range (out.serializeSize + 148)
  unfold CTxOut.isDust at kept
  rw [decide_eq_true_eq] at kept
  omega

theorem mapM_payeeOutput (run : vecSend.mapM (payeeOutput minRelayTxFee) = .ok vout) :
    vout = vecSend.flatMap (fun send => [⟨send.2, send.1⟩]) ∧ NoneNegative vout := by
  induction vecSend generalizing vout with
  | nil =>
    obtain rfl := Except.ok.inj run
    exact ⟨rfl, fun out member => (nomatch member)⟩
  | cons send rest ih =>
    rw [mapM_cons] at run
    unfold payeeOutput at run
    dsimp only at run
    split_ifs at run with dust
    · exact absurd run (by simp [bind, Except.bind])
    · cases others : rest.mapM (payeeOutput minRelayTxFee) with
      | error strFailReason =>
        unfold payeeOutput at others
        rw [others] at run
        exact absurd run (by simp [bind, Except.bind])
      | ok outs =>
        obtain ⟨shape, nonneg⟩ := ih others
        unfold payeeOutput at others
        rw [others] at run
        obtain rfl := Except.ok.inj run
        refine ⟨by rw [flatMap_cons, ← shape]; rfl, ?_⟩
        intro out member
        rcases mem_cons.mp member with rfl | later
        · exact CTxOut.nonneg_of_not_dust range dust
        · exact nonneg out later

/-- The outputs of the payees are what was asked for, and none is negative, exactly when the
splitter is safe to run. -/
theorem payeesOutputs_iff {coinControl : Option CCoinControl} (fits : AmountsFit vecSend)
    (run : payeesOutputs minRelayTxFee coinControl vecSend = .ok vout) :
    NoneNegative vout ∧ PaysEach vecSend vout ↔ SplitSafe coinControl vecSend := by
  rw [payeesOutputs_eq] at run
  unfold SplitSafe
  cases count : splitCount coinControl with
  | none =>
    rw [count] at run
    obtain ⟨rfl, nonneg⟩ := mapM_payeeOutput range run
    refine ⟨fun _ nSplitBlock impossible => (nomatch impossible), fun _ => ⟨nonneg, ?_⟩⟩
    exact paysEach_flatMap fun send _ => ⟨by simp, by simp [valueOut]⟩
  | some nSplitBlock =>
    rw [count] at run
    obtain rfl := Except.ok.inj run
    constructor
    · rintro ⟨nonneg, pays⟩ other same
      obtain rfl := Option.some.inj same
      have amounts := pays.amounts_nonneg nonneg
      refine ⟨amounts, ?_⟩
      by_contra few
      rw [not_or, not_le] at few
      have none_made : vecSend.flatMap (splitOutputs nSplitBlock) = [] :=
        flatMap_eq_nil_iff.mpr fun send _ => splitOutputs_eq_nil few.1
      have sum := pays.value
      simp only [none_made] at sum
      exact few.2 (amounts_zero amounts sum.symm)
    · intro safe
      obtain ⟨positive, makes⟩ := safe nSplitBlock rfl
      have each : ∀ send ∈ vecSend, valueOut (splitOutputs nSplitBlock send) = send.2 ∧
          NoneNegative (splitOutputs nSplitBlock send) := by
        intro send member
        by_cases many : 1 ≤ nSplitBlock
        · exact valueOut_splitOutputs many (positive send member) (fits send member).2
        · rw [splitOutputs_eq_nil (not_le.mp many)]
          refine ⟨?_, fun out listed => (nomatch listed)⟩
          exact ((makes.resolve_left many) send member).symm
      refine ⟨?_, paysEach_flatMap fun send member => ⟨splitOutputs_script, (each send member).1⟩⟩
      intro out member
      obtain ⟨send, listed, made⟩ := mem_flatMap.mp member
      exact (each send listed).2 out made

end

/-! ## The change -/

/-- The law: no output is negative, the coins are spent on the outputs and the fee, and the
outputs other than the change pay each payee what was asked for. -/
structure Conserves (vecSend : List (CScript × Int)) (created : Created) : Prop where
  inputs : created.wtxNew.prevouts = created.setCoins.map Coin.outpoint
  nonneg : NoneNegative created.wtxNew.vout
  balance : (created.setCoins.map Coin.value).sum = valueOut created.wtxNew.vout + created.nFeeRet
  payees : PaysEach vecSend created.payeeOutputs

section

variable {Priority : Type} {context : SendContext Priority} {wallet : CWallet}
  {node : WalletNode} {request : SendRequest} {nFeePay nValue nFeeRet : Int} {nPass : Nat}
  {vout : List CTxOut}

/-- The change is nothing, or dust that the fee grows by, or one output more. -/
theorem addChange_cases (context : SendContext Priority) (request : SendRequest) (nPass : Nat)
    (vout : List CTxOut) (nChange nFeeRet : Int) :
    (nChange ≤ 0 ∧ addChange context request nPass vout nChange nFeeRet =
        { vout := vout, nFeeRet := nFeeRet }) ∨
      (0 < nChange ∧ nChange < 3 * parseMoneyMax ∧
        addChange context request nPass vout nChange nFeeRet =
          { vout := vout, nFeeRet := toInt64 (nFeeRet + nChange) }) ∨
      (0 < nChange ∧ ∃ position out, position ≤ vout.length ∧ out.nValue = nChange ∧
        addChange context request nPass vout nChange nFeeRet =
          { vout := vout.insertIdx position out, nChangePos := some position,
            nFeeRet := nFeeRet }) := by
  unfold addChange
  by_cases positive : nChange > 0
  case neg => exact Or.inl ⟨not_lt.mp positive, if_neg positive⟩
  case pos =>
    rw [if_pos positive]
    dsimp only
    by_cases dust : CTxOut.isDust context.policy.minRelayTxFee
        ⟨nChange, changeScript context request nPass⟩ = true
    case pos =>
      refine Or.inr (Or.inl ⟨positive, ?_, if_pos dust⟩)
      have limit := dustLimit_range context.policy.minRelayTxFee_range
        (CTxOut.serializeSize ⟨nChange, changeScript context request nPass⟩ + 148)
      unfold CTxOut.isDust at dust
      exact (of_decide_eq_true dust).trans_le limit.2
    case neg =>
      refine Or.inr (Or.inr ⟨positive, _, _, ?_, rfl, if_neg dust⟩)
      exact Nat.lt_succ_iff.mp (context.changePosition nPass vout.length).isLt

theorem valueOut_insertIdx {position : Nat} (out : CTxOut) (inside : position ≤ vout.length) :
    valueOut (vout.insertIdx position out) = out.nValue + valueOut vout :=
  ((perm_insertIdx out vout inside).map CTxOut.nValue).sum_eq

theorem passCreated_payeeOutputs (setCoins : List Coin) (vin : List CTxIn)
    (nValueIn : Int) :
    (passCreated context setCoins vin
      (passChanged context request nPass vout nValueIn nValue nFeeRet)).payeeOutputs = vout := by
  unfold passChanged
  rcases addChange_cases context request nPass vout
      (toInt64 (toInt64 (nValueIn - nValue) - nFeeRet)) nFeeRet with
    ⟨_, changed⟩ | ⟨_, _, changed⟩ | ⟨_, position, out, _, _, changed⟩
  · rw [changed]
    rfl
  · rw [changed]
    rfl
  · rw [changed]
    exact eraseIdx_insertIdx_self out

theorem passCreated_nonneg_iff (setCoins : List Coin) (vin : List CTxIn) (nValueIn : Int) :
    NoneNegative (passCreated context setCoins vin
        (passChanged context request nPass vout nValueIn nValue nFeeRet)).wtxNew.vout ↔
      NoneNegative vout := by
  unfold passChanged
  rcases addChange_cases context request nPass vout
      (toInt64 (toInt64 (nValueIn - nValue) - nFeeRet)) nFeeRet with
    ⟨_, changed⟩ | ⟨_, _, changed⟩ | ⟨positive, position, out, inside, worth, changed⟩
  · rw [changed]
    rfl
  · rw [changed]
    rfl
  · rw [changed]
    have same := perm_insertIdx out vout inside
    constructor
    · exact fun nonneg other member => nonneg other (same.mem_iff.mpr (mem_cons_of_mem _ member))
    · intro nonneg other member
      rcases mem_cons.mp (same.mem_iff.mp member) with rfl | later
      · omega
      · exact nonneg other later

/-- When the outputs of the payees add up to what was asked for, the pass balances exactly as
long as the amounts, the fee and `CENT` stay in range together. -/
theorem passCreated_balance_iff {setCoins : List Coin} {vin : List CTxIn} {nValueIn : Int}
    (value : nValueIn = (setCoins.map Coin.value).sum)
    (money : 0 ≤ nValueIn ∧ nValueIn ≤ mainParams.maxMoneyOut)
    (amount : 0 ≤ nValue ∧ nValue < 2 ^ 63) (fee : 0 ≤ nFeeRet ∧ nFeeRet ≤ parseMoneyMax)
    (enough : toInt64 (nValue + nFeeRet) + cent < 2 ^ 63 → toInt64 (nValue + nFeeRet) ≤ nValueIn)
    (paid : valueOut vout = nValue) :
    ((passCreated context setCoins vin
          (passChanged context request nPass vout nValueIn nValue nFeeRet)).setCoins.map
            Coin.value).sum =
        valueOut (passCreated context setCoins vin
          (passChanged context request nPass vout nValueIn nValue nFeeRet)).wtxNew.vout +
          (passCreated context setCoins vin
            (passChanged context request nPass vout nValueIn nValue nFeeRet)).nFeeRet ↔
      nValue + nFeeRet + cent < 2 ^ 63 := by
  rw [maxMoneyOut_eq] at money
  rw [parseMoneyMax_eq] at fee
  have cent_eq : cent = 100000000 := rfl
  have taken : toInt64 (nValueIn - nValue) = nValueIn - nValue :=
    toInt64_of_range (by omega) (by omega)
  unfold passChanged
  rw [taken]
  show (setCoins.map Coin.value).sum = valueOut (addChange context request nPass vout
    (toInt64 (nValueIn - nValue - nFeeRet)) nFeeRet).vout + (addChange context request nPass vout
    (toInt64 (nValueIn - nValue - nFeeRet)) nFeeRet).nFeeRet ↔ _
  rw [← value]
  rcases addChange_cases context request nPass vout
      (toInt64 (nValueIn - nValue - nFeeRet)) nFeeRet with
    ⟨low, changed⟩ | ⟨positive, small, changed⟩ | ⟨positive, position, out, inside, worth, changed⟩
  · rw [changed, paid]
    dsimp only
    unfold toInt64 at enough low
    omega
  · rw [changed, paid]
    dsimp only
    rw [parseMoneyMax_eq] at small
    unfold toInt64 at enough positive small ⊢
    omega
  · rw [changed]
    dsimp only
    rw [valueOut_insertIdx out inside, worth, paid]
    unfold toInt64 at enough positive ⊢
    omega

/-! ## The loop -/

theorem getMinimumFee_range (policy : FeePolicy Priority) (nTxBytes : Nat) :
    0 ≤ policy.getMinimumFee nTxBytes ∧ policy.getMinimumFee nTxBytes ≤ parseMoneyMax := by
  have relay := getFee_range policy.minRelayTxFee_range nTxBytes
  have most := policy.maxTxFee_range
  unfold FeePolicy.getMinimumFee
  dsimp only
  by_cases low : policy.wantedFee nTxBytes < getFee policy.minRelayTxFee nTxBytes
  case pos =>
    rw [if_pos low]
    split
    · exact most
    · exact relay
  case neg =>
    rw [if_neg low]
    split
    · exact most
    · omega

/-- The fee of a pass: no less than that of the first, and in range with the amounts when that
one is. -/
structure PassFee (request : SendRequest) (nValue nFeeRet : Int) : Prop where
  first : request.firstFee ≤ nFeeRet
  small : nFeeRet ≤ parseMoneyMax
  inRange : nValue + request.firstFee + cent < 2 ^ 63 → nValue + nFeeRet + cent < 2 ^ 63

theorem firstFee_eq : request.firstFee = max request.feePay 0 := by
  unfold SendRequest.firstFee
  split <;> omega

theorem feePay_le (fee : request.nFeePay ≤ mainParams.maxMoneyOut) :
    request.feePay ≤ mainParams.maxMoneyOut := by
  rw [maxMoneyOut_eq] at fee ⊢
  unfold SendRequest.feePay cent
  split <;> omega

theorem passFee_first (fee : request.nFeePay ≤ mainParams.maxMoneyOut) :
    PassFee request nValue request.firstFee := by
  have limit := feePay_le fee
  rw [maxMoneyOut_eq] at limit
  refine ⟨le_rfl, ?_, id⟩
  rw [firstFee_eq, parseMoneyMax_eq]
  omega

theorem createPass_selection
    (funds : wallet.Funds node request.coinControl request.coinType request.useIX)
    {selected : Selected}
    (found : wallet.selectCoins node (context.choices nPass) (toInt64 (nValue + nFeeRet))
      request.coinControl request.coinType request.useIX = some selected) :
    CWallet.Selection (toInt64 (nValue + nFeeRet)) selected :=
  CWallet.selectCoins_selection funds (by unfold toInt64; omega) found

theorem passFee_again (fee : request.nFeePay ≤ mainParams.maxMoneyOut)
    (funds : wallet.Funds node request.coinControl request.coinType request.useIX)
    (amount : 0 ≤ nValue) (holds : PassFee request nValue nFeeRet) {nFeeNeeded : Int}
    (run : createPass context wallet node request request.feePay nValue nPass nFeeRet =
      .ok (.again nFeeNeeded)) : PassFee request nValue nFeeNeeded := by
  obtain ⟨vout, selected, vin, _, found, _, finished⟩ := createPass_cases run
  rcases finishPass_cases finished with impossible | ⟨nBytes, needed⟩
  · exact absurd impossible (by simp)
  · obtain rfl := PassResult.again.inj needed
    have least := getMinimumFee_range context.policy nBytes
    have limit := feePay_le fee
    have selection := createPass_selection funds found
    have enough := selection.enough
    have money := selection.inMoney
    have first := holds.first
    have cent_eq : cent = 100000000 := rfl
    rw [firstFee_eq] at first
    rw [maxMoneyOut_eq] at limit money
    rw [parseMoneyMax_eq] at least
    refine ⟨?_, ?_, ?_⟩
    · rw [firstFee_eq]
      omega
    · rw [parseMoneyMax_eq]
      omega
    · intro begins
      have within := holds.inRange begins
      rw [toInt64_of_range (by omega) (by omega)] at enough
      omega

/-- A created transaction conserves value exactly when the splitter was safe to run and the
amounts, the first fee and `CENT` are in range together. -/
theorem createTransaction_conserves_iff (fits : AmountsFit request.vecSend)
    (fee : request.nFeePay ≤ mainParams.maxMoneyOut)
    (funds : wallet.Funds node request.coinControl request.coinType request.useIX)
    {fuel : Nat} {created : Created}
    (run : createTransaction context wallet node request fuel = some (.ok created)) :
    Conserves request.vecSend created ↔
      SplitSafe request.coinControl request.vecSend ∧
        requested request.vecSend + request.firstFee + cent < 2 ^ 63 := by
  unfold createTransaction at run
  cases added : addAmounts request.vecSend with
  | error strFailReason =>
    rw [added] at run
    exact absurd run (by simp)
  | ok nValue =>
    rw [added] at run
    obtain ⟨rfl, nonneg, below⟩ := addAmounts_spec fits added
    obtain ⟨nPass, nFeeRet, holds, pass⟩ :=
      createLoop_last (PassFee request (requested request.vecSend))
        (fun _ _ _ before again => passFee_again fee funds nonneg before again)
        (passFee_first fee) run
    obtain ⟨vout, selected, vin, outputs, found, inputs, rfl⟩ := createPass_done pass
    have selection := createPass_selection funds found
    have least : 0 ≤ nFeeRet := by
      have first := holds.first
      rw [firstFee_eq] at first
      omega
    have range : requested request.vecSend + nFeeRet + cent < 2 ^ 63 ↔
        requested request.vecSend + request.firstFee + cent < 2 ^ 63 := by
      have first := holds.first
      exact ⟨fun within => by omega, holds.inRange⟩
    have balance (paid : valueOut vout = requested request.vecSend) :=
      @passCreated_balance_iff _ context request _ _ nPass vout _ vin _ selection.value
        ⟨selection.nonneg, selection.inMoney⟩ ⟨nonneg, below⟩ ⟨least, holds.small⟩
        selection.enough paid
    rw [← range, ← payeesOutputs_iff context.policy.minRelayTxFee_range fits outputs]
    constructor
    · intro conserves
      have pays := conserves.payees
      rw [passCreated_payeeOutputs] at pays
      have nonnegs := (passCreated_nonneg_iff _ _ _).mp conserves.nonneg
      exact ⟨⟨nonnegs, pays⟩, (balance pays.value).mp conserves.balance⟩
    · rintro ⟨⟨nonnegs, pays⟩, within⟩
      refine ⟨inputs, (passCreated_nonneg_iff _ _ _).mpr nonnegs,
        (balance pays.value).mpr within, ?_⟩
      rw [passCreated_payeeOutputs]
      exact pays

end

namespace WalletSample

def wallet : CWallet := walletOf wtx

def context : SendContext Int where
  policy :=
    { minRelayTxFee := 10000
      minTxFee := 10000
      payTxFee := 0
      maxTxFee := 1 * coin
      fPayAtLeastCustomFee := true
      fSendFreeTransactions := false
      estimateFee := 0
      estimatePriority := 0
      minRelayTxFee_range := by decide
      maxTxFee_range := by decide }
  arith :=
    { zero := 0
      add := (· + ·)
      weigh := (· * ·)
      div := fun total size => total / size
      lt := fun first second => decide (first < second)
      beq := fun first second => decide (first = second)
      allowFree := fun _ => false }
  getHash := fun _ _ => 9
  signSignature := fun _ _ _ _ => some []
  reservedScript := fun _ => [0x51]
  changePosition := fun _ size => Fin.last size
  choices := fun _ _ => choices

/-- The payment of amounts to scripts of one byte. -/
def payment (amounts : List Int) : SendRequest where
  vecSend := amounts.map fun amount => ([0x52], amount)

/-- What is created from the second coin of the wallet, with the change behind the payees. -/
def createdFrom (amounts : List Int) (nChange nFeeRet : Int) : Created where
  wtxNew :=
    { hash := 9
      vin := [{ prevout := ⟨7, 1⟩ }]
      vout := (amounts.map fun amount => ⟨amount, [0x52]⟩) ++ [⟨nChange, [0x51]⟩] }
  setCoins := [(wtx, 1)]
  nFeeRet := nFeeRet
  nChangePos := some amounts.length

end WalletSample

open WalletSample

theorem createTransaction_conserves_samplePayment :
    createTransaction WalletSample.context WalletSample.wallet WalletSample.node
        (WalletSample.payment [7 * coin]) 3 =
      some (.ok (WalletSample.createdFrom [7 * coin] 199999290 710)) ∧
    Conserves (WalletSample.payment [7 * coin]).vecSend
      (WalletSample.createdFrom [7 * coin] 199999290 710) := by
  have run : createTransaction context wallet node
      (payment [7 * coin]) 3 =
        some (.ok (createdFrom [7 * coin] 199999290 710)) := by decide +kernel
  have fits : AmountsFit (payment [7 * coin]).vecSend := by
    unfold AmountsFit
    decide +kernel
  have funds : wallet.Funds node none .allCoins false := by
    unfold CWallet.Funds
    decide +kernel
  refine ⟨run, (createTransaction_conserves_iff fits (by decide +kernel) funds run).mpr ?_⟩
  refine ⟨?_, by decide +kernel⟩
  intro nSplitBlock same
  obtain rfl : 1 = nSplitBlock := Option.some.inj same
  exact ⟨by decide +kernel, Or.inl le_rfl⟩

/-- A negative amount hides behind a larger one and becomes an output. -/
theorem createTransaction_negativeOutput :
    createTransaction WalletSample.context WalletSample.wallet WalletSample.node
        (WalletSample.payment [10 * coin, -3 * coin]) 3 =
      some (.ok (WalletSample.createdFrom [10 * coin, -3 * coin] 199999190 810)) ∧
    ¬ Conserves (WalletSample.payment [10 * coin, -3 * coin]).vecSend
      (WalletSample.createdFrom [10 * coin, -3 * coin] 199999190 810) := by
  refine ⟨by decide +kernel, fun conserves => ?_⟩
  have nonneg := conserves.nonneg ⟨-3 * coin, [0x52]⟩ (by decide +kernel)
  exact absurd nonneg (by decide)

end CentNode
