import CentNode.Library.FlaggedSublist
import CentNode.Wallet.AvailableCoins

/-!
# Coin selection

`CWallet::SelectCoinsMinConf` with `ApproximateBestSubset`.  The coins are shuffled, those below
the target plus `CENT` are added up and searched at random for a subset that is enough, and the
least of the others is kept for when that search does worse.  The shuffle, the sort and the
random bits are arguments.
-/

namespace CentNode

open List Prod Option

/-- `pair<CAmount, pair<const CWalletTx*, unsigned int> >`. -/
abbrev ValuedCoin : Type := Int × Coin

/-- `setCoinsRet` and `nValueRet`. -/
structure Selected where
  setCoinsRet : List Coin := []
  nValueRet : Int := 0
  deriving DecidableEq, Repr

namespace Selected

/-- `setCoinsRet.insert(coin.second); nValueRet += coin.first;`. -/
def add (selected : Selected) (coin : ValuedCoin) : Selected where
  setCoinsRet := selected.setCoinsRet.insert coin.2
  nValueRet := toInt64 (selected.nValueRet + coin.1)

/-- The coins of a list, into an empty set. -/
def ofCoins (coins : List ValuedCoin) : Selected := coins.foldl add {}

end Selected

/-- What is left to chance in one call of `SelectCoinsMinConf`. -/
structure Choices where
  /-- `random_shuffle`. -/
  shuffle : List COutput → List COutput
  /-- `sort` in descending order, which leaves the order of equal values open. -/
  sort : List ValuedCoin → List ValuedCoin
  /-- `insecure_rand() & 1`, for one of the two searches, a repetition of it and a coin. -/
  toss : Nat → Nat → Nat → Bool
  shuffle_perm : ∀ vCoins, (shuffle vCoins).Perm vCoins
  sort_perm : ∀ vValue, (sort vValue).Perm vValue
  sort_descending : ∀ vValue, (sort vValue).Pairwise fun first second => second.1 ≤ first.1

/-- The variables of `ApproximateBestSubset` within one repetition. -/
structure SubsetSearch where
  nTotal : Int := 0
  vfIncluded : List Bool
  fReachedTarget : Bool := false
  vfBest : List Bool
  nBest : Int
  deriving DecidableEq, Repr

namespace SubsetSearch

/-- A coin is included; when the target is reached with it, it is taken out again. -/
def tryInclude (nTargetValue : Int) (search : SubsetSearch) (i : Nat) (value : Int) :
    SubsetSearch :=
  let nTotal := toInt64 (search.nTotal + value)
  let vfIncluded := search.vfIncluded.set i true
  if nTotal ≥ nTargetValue then
    if nTotal < search.nBest then
      { search with fReachedTarget := true, nBest := nTotal, vfBest := vfIncluded }
    else { search with fReachedTarget := true }
  else { search with nTotal := nTotal, vfIncluded := vfIncluded }

/-- The first pass tosses for a coin, the second takes what was left out. -/
def tries (toss : Nat → Bool) (nPass : Nat) (search : SubsetSearch) (i : Nat) : Bool :=
  if nPass = 0 then toss i else !search.vfIncluded.getD i false

def passStep (toss : Nat → Bool) (nTargetValue : Int) (nPass : Nat) (search : SubsetSearch)
    (entry : ValuedCoin × Nat) : SubsetSearch :=
  if tries toss nPass search entry.2 then search.tryInclude nTargetValue entry.2 entry.1.1
  else search

def pass (toss : Nat → Bool) (nTargetValue : Int) (vValue : List ValuedCoin) (nPass : Nat)
    (search : SubsetSearch) : SubsetSearch :=
  vValue.zipIdx.foldl (passStep toss nTargetValue nPass) search

/-- One repetition, on the best subset so far. -/
def repetition (toss : Nat → Bool) (nTargetValue : Int) (vValue : List ValuedCoin)
    (best : List Bool × Int) : List Bool × Int :=
  let search : SubsetSearch :=
    { vfIncluded := List.replicate vValue.length false, vfBest := best.1, nBest := best.2 }
  let first := pass toss nTargetValue vValue 0 search
  let second := if first.fReachedTarget then first else pass toss nTargetValue vValue 1 first
  (second.vfBest, second.nBest)

/-- The repetitions that are left, from the number `nRep` on. -/
def repeatFrom (toss : Nat → Nat → Bool) (nTargetValue : Int) (vValue : List ValuedCoin) :
    Nat → Nat → List Bool × Int → List Bool × Int
  | 0, _, best => best
  | left + 1, nRep, best =>
    if best.2 = nTargetValue then best
    else
      repeatFrom toss nTargetValue vValue left (nRep + 1)
        (repetition (toss nRep) nTargetValue vValue best)

end SubsetSearch

/-- `ApproximateBestSubset`: `vfBest` and `nBest`. -/
def approximateBestSubset (toss : Nat → Nat → Bool) (vValue : List ValuedCoin)
    (nTotalLower nTargetValue : Int) (iterations : Nat) : List Bool × Int :=
  SubsetSearch.repeatFrom toss nTargetValue vValue iterations 0
    (List.replicate vValue.length true, nTotalLower)

/-- The largest `CAmount`. -/
def int64Max : Int := 2 ^ 63 - 1

/-- The variables that a round over the coins sets. -/
structure CoinScan where
  vValue : List ValuedCoin := []
  nTotalLower : Int := 0
  coinLowestLarger : Int × Option Coin
  deriving DecidableEq, Repr

/-- How a round ends: with a selection, with too little, or with enough to search through. -/
inductive ScanResult where
  | selected (selected : Selected)
  | tooLittle (coinLowestLarger : Int × Option Coin)
  | enough (scan : CoinScan)

section

variable (choices : Choices) (nTargetValue nConfMine nConfTheirs : Int)

/-- The coin is spendable and deep enough. -/
def COutput.eligible (nConfMine nConfTheirs : Int) (out : COutput) : Bool :=
  if !out.fSpendable then false
  else if out.nDepth < (if out.tx.isFromMe then nConfMine else nConfTheirs) then false
  else true

/-- One coin of a round; the error is the coin that is worth exactly the target. -/
def scanCoin (scan : CoinScan) (coin : ValuedCoin) : Except ValuedCoin CoinScan :=
  if coin.1 = nTargetValue then .error coin
  else if coin.1 < toInt64 (nTargetValue + cent) then
    .ok { scan with
      vValue := scan.vValue ++ [coin]
      nTotalLower := toInt64 (scan.nTotalLower + coin.1) }
  else if coin.1 < scan.coinLowestLarger.1 then
    .ok { scan with coinLowestLarger := (coin.1, some coin.2) }
  else .ok scan

def scanOutput (scan : CoinScan) (out : COutput) : Except ValuedCoin CoinScan :=
  if !out.eligible nConfMine nConfTheirs then .ok scan
  else scanCoin nTargetValue scan (out.value, out.coin)

/-- A round of the loop over `tryDenom`; both rounds look at the same coins. -/
def scanRound (vCoins : List COutput) (coinLowestLarger : Int × Option Coin) : ScanResult :=
  match vCoins.foldlM (scanOutput nTargetValue nConfMine nConfTheirs)
      { coinLowestLarger := coinLowestLarger } with
  | .error coin => .selected (Selected.ofCoins [coin])
  | .ok scan =>
    if scan.nTotalLower = nTargetValue then .selected (Selected.ofCoins scan.vValue)
    else if scan.nTotalLower < nTargetValue then
      match scan.coinLowestLarger.2 with
      | none => .tooLittle scan.coinLowestLarger
      | some coin => .selected (Selected.ofCoins [(scan.coinLowestLarger.1, coin)])
    else .enough scan

/-- The two searches over the sorted coins. -/
def bestSubset (scan : CoinScan) : List Bool × Int :=
  let vValue := choices.sort scan.vValue
  let first := approximateBestSubset (choices.toss 0) vValue scan.nTotalLower nTargetValue 1000
  if first.2 ≠ nTargetValue ∧ scan.nTotalLower ≥ toInt64 (nTargetValue + cent) then
    approximateBestSubset (choices.toss 1) vValue scan.nTotalLower
      (toInt64 (nTargetValue + cent)) 1000
  else first

/-- The bigger coin, when the search did not do well or that coin is closer, or the subset. -/
def selectSubset (scan : CoinScan) : Selected :=
  let best := bestSubset choices nTargetValue scan
  let subset := Selected.ofCoins (FlaggedSublist.chosen (choices.sort scan.vValue) best.1)
  match scan.coinLowestLarger.2 with
  | none => subset
  | some coin =>
    if (best.2 ≠ nTargetValue ∧ best.2 < toInt64 (nTargetValue + cent)) ∨
        scan.coinLowestLarger.1 ≤ best.2 then
      Selected.ofCoins [(scan.coinLowestLarger.1, coin)]
    else subset

/-- `SelectCoinsMinConf`; `none` is `false`, with the set left empty. -/
def selectCoinsMinConf (vCoins : List COutput) : Option Selected :=
  let shuffled := choices.shuffle vCoins
  match scanRound nTargetValue nConfMine nConfTheirs shuffled (int64Max, none) with
  | .selected selected => some selected
  | .enough scan => some (selectSubset choices nTargetValue scan)
  | .tooLittle coinLowestLarger =>
    match scanRound nTargetValue nConfMine nConfTheirs shuffled coinLowestLarger with
    | .selected selected => some selected
    | .enough scan => some (selectSubset choices nTargetValue scan)
    | .tooLittle _ => none

end

/-! ## The subset search -/

open FlaggedSublist

/-- The coins have positive values that fit in the money range together. -/
structure Payable (pool : List ValuedCoin) : Prop where
  positive : ∀ coin ∈ pool, 0 < coin.1
  total : (pool.map Prod.fst).sum ≤ mainParams.maxMoneyOut

theorem maxMoneyOut_eq : mainParams.maxMoneyOut = 5000000000000000 := by decide

namespace Payable

variable {pool coins : List ValuedCoin}

section

variable (payable : Payable pool)

include payable

theorem nonneg : ∀ coin ∈ pool, 0 ≤ coin.1 := fun coin member => (payable.positive coin member).le

theorem subperm (held : coins.Subperm pool) : Payable coins := by
  obtain ⟨middle, same, within⟩ := held
  refine ⟨fun coin member => payable.positive coin (within.subset (same.mem_iff.mpr member)), ?_⟩
  rw [← (same.map fst).sum_eq]
  refine le_trans ((within.map fst).sum_le_sum ?_) payable.total
  intro value member
  obtain ⟨coin, listed, rfl⟩ := List.mem_map.mp member
  exact payable.nonneg coin listed

theorem sum_nonneg : 0 ≤ (pool.map Prod.fst).sum := by
  refine List.sum_nonneg ?_
  intro value member
  obtain ⟨coin, listed, rfl⟩ := List.mem_map.mp member
  exact payable.nonneg coin listed

theorem toInt64_eq {value : Int} (nonneg : 0 ≤ value)
    (small : value ≤ (pool.map Prod.fst).sum) : toInt64 value = value := by
  have bound := payable.total
  rw [maxMoneyOut_eq] at bound
  exact toInt64_of_range (by omega) (by omega)

end

end Payable

namespace SubsetSearch

variable {nTargetValue : Int} {vValue : List ValuedCoin} {search : SubsetSearch}

/-- The totals are those of the flags, and the best subset reaches the target. -/
structure Sound (nTargetValue : Int) (vValue : List ValuedCoin) (search : SubsetSearch) :
    Prop where
  included : search.vfIncluded.length = vValue.length
  nTotal : search.nTotal = total Prod.fst vValue search.vfIncluded
  nBest : search.nBest = total Prod.fst vValue search.vfBest
  reached : nTargetValue ≤ search.nBest

theorem Sound.tryInclude (payable : Payable vValue) (sound : Sound nTargetValue vValue search)
    {i : Nat} {coin : ValuedCoin} (found : vValue[i]? = some coin)
    (unset : search.vfIncluded[i]? = some false) :
    Sound nTargetValue vValue (search.tryInclude nTargetValue i coin.1) := by
  have added : total fst vValue (search.vfIncluded.set i true) = search.nTotal + coin.1 := by
    rw [total_set found unset, sound.nTotal]
  have exact_sum : toInt64 (search.nTotal + coin.1) = search.nTotal + coin.1 :=
    payable.toInt64_eq (added ▸ total_nonneg payable.nonneg _) (added ▸ total_le payable.nonneg _)
  unfold SubsetSearch.tryInclude
  simp only [exact_sum]
  split
  case isTrue high =>
    split
    case isTrue better => exact ⟨sound.included, sound.nTotal, added.symm, high⟩
    case isFalse => exact ⟨sound.included, sound.nTotal, sound.nBest, sound.reached⟩
  case isFalse => exact ⟨(length_set).trans sound.included, added.symm, sound.nBest, sound.reached⟩

theorem tryInclude_getElem? {i j : Nat} (other : i ≠ j) (value : Int) :
    (search.tryInclude nTargetValue i value).vfIncluded[j]? = search.vfIncluded[j]? := by
  unfold SubsetSearch.tryInclude
  dsimp only
  split
  · split <;> rfl
  · exact getElem?_set_ne other

/-- The flags that the rest of a first pass finds are not set. -/
def Untouched (nPass k : Nat) (search : SubsetSearch) : Prop :=
  nPass = 0 → ∀ j, k ≤ j → ∀ flag, search.vfIncluded[j]? = some flag → flag = false

theorem passStep_sound (payable : Payable vValue) (toss : Nat → Bool) {nPass k : Nat}
    {coin : ValuedCoin} (found : vValue[k]? = some coin)
    (sound : Sound nTargetValue vValue search) (untouched : search.Untouched nPass k) :
    Sound nTargetValue vValue (passStep toss nTargetValue nPass search (coin, k)) ∧
      (passStep toss nTargetValue nPass search (coin, k)).Untouched nPass (k + 1) := by
  have inside : k < search.vfIncluded.length := by
    rw [sound.included]
    exact (List.getElem?_eq_some_iff.mp found).1
  obtain ⟨flag, held⟩ : ∃ flag, search.vfIncluded[k]? = some flag := ⟨_, getElem?_eq_getElem inside⟩
  have later : search.Untouched nPass (k + 1) := fun first j behind => untouched first j (by omega)
  unfold passStep
  split
  case isFalse => exact ⟨sound, later⟩
  case isTrue tried =>
    have unset : search.vfIncluded[k]? = some false := by
      by_cases first : nPass = 0
      · rw [held, untouched first k (Nat.le_refl k) flag held]
      · rw [tries, if_neg first, getD_eq_getElem?_getD, held] at tried
        rw [held]
        simpa using tried
    refine ⟨sound.tryInclude payable found unset, ?_⟩
    intro first j behind flag
    rw [tryInclude_getElem? (by omega)]
    exact untouched first j (by omega) flag

theorem foldl_passStep_sound (payable : Payable vValue) {toss : Nat → Bool} {nPass : Nat}
    (rest : List ValuedCoin) (k : Nat) (suffix : vValue.drop k = rest)
    (sound : Sound nTargetValue vValue search) (untouched : search.Untouched nPass k) :
    Sound nTargetValue vValue
      ((rest.zipIdx k).foldl (passStep toss nTargetValue nPass) search) := by
  induction rest generalizing k search with
  | nil => exact sound
  | cons coin rest ih =>
    have found : vValue[k]? = some coin := by
      rw [← head?_drop, suffix]
      rfl
    have tail : vValue.drop (k + 1) = rest := by
      rw [← tail_drop, suffix]
      rfl
    obtain ⟨next, flags⟩ := passStep_sound payable toss found sound untouched
    rw [zipIdx_cons, foldl_cons]
    exact ih (k + 1) tail next flags

theorem pass_sound (payable : Payable vValue) (toss : Nat → Bool) (nPass : Nat)
    (sound : Sound nTargetValue vValue search) (untouched : search.Untouched nPass 0) :
    Sound nTargetValue vValue (pass toss nTargetValue vValue nPass search) :=
  foldl_passStep_sound payable vValue 0 drop_zero sound untouched

/-- The best subset so far, with its total. -/
def Best (nTargetValue : Int) (vValue : List ValuedCoin) (best : List Bool × Int) : Prop :=
  best.2 = total Prod.fst vValue best.1 ∧ nTargetValue ≤ best.2

theorem repetition_best (payable : Payable vValue) (toss : Nat → Bool) {best : List Bool × Int}
    (sound : Best nTargetValue vValue best) :
    Best nTargetValue vValue (repetition toss nTargetValue vValue best) := by
  have start : Sound nTargetValue vValue
      { vfIncluded := replicate vValue.length false, vfBest := best.1, nBest := best.2 } :=
    ⟨length_replicate, (total_none _ _).symm, sound.1, sound.2⟩
  have first := pass_sound payable toss 0 start
    (fun _ _ _ _ held => (mem_replicate.mp (mem_of_getElem? held)).2)
  unfold repetition
  dsimp only
  split
  case isTrue => exact ⟨first.nBest, first.reached⟩
  case isFalse =>
    have second := pass_sound payable toss 1 first
      (fun impossible => absurd impossible (by decide))
    exact ⟨second.nBest, second.reached⟩

theorem repeatFrom_best (payable : Payable vValue) (toss : Nat → Nat → Bool) (left nRep : Nat)
    {best : List Bool × Int} (sound : Best nTargetValue vValue best) :
    Best nTargetValue vValue (repeatFrom toss nTargetValue vValue left nRep best) := by
  induction left generalizing nRep best with
  | zero => exact sound
  | succ left ih =>
    unfold repeatFrom
    split
    case isTrue => exact sound
    case isFalse => exact ih (nRep + 1) (repetition_best payable (toss nRep) sound)

end SubsetSearch

theorem approximateBestSubset_best {vValue : List ValuedCoin} (payable : Payable vValue)
    (toss : Nat → Nat → Bool) {nTotalLower nTargetValue : Int}
    (lower : nTotalLower = (vValue.map Prod.fst).sum) (enough : nTargetValue ≤ nTotalLower)
    (iterations : Nat) :
    SubsetSearch.Best nTargetValue vValue
      (approximateBestSubset toss vValue nTotalLower nTargetValue iterations) :=
  SubsetSearch.repeatFrom_best payable toss iterations 0
    ⟨lower.trans (total_all vValue).symm, enough⟩

/-! ## A round over the coins -/

def coinsWhere (allowed : COutput → Bool) (vCoins : List COutput) : List ValuedCoin :=
  (vCoins.filter allowed).map fun out => (out.value, out.coin)

/-- The coins that a call of `SelectCoinsMinConf` may pick. -/
abbrev eligibleCoins (nConfMine nConfTheirs : Int) (vCoins : List COutput) : List ValuedCoin :=
  coinsWhere (COutput.eligible nConfMine nConfTheirs) vCoins

namespace Selected

variable {coins : List ValuedCoin}

theorem foldl_add_spec (selected : Selected) (fresh : ∀ coin ∈ coins, coin.2 ∉ selected.setCoinsRet)
    (distinct : (coins.map Prod.snd).Nodup)
    (exact_sum : ∀ before : List ValuedCoin, before.Sublist coins →
      toInt64 (selected.nValueRet + (before.map Prod.fst).sum) =
        selected.nValueRet + (before.map Prod.fst).sum) :
    (coins.foldl add selected).setCoinsRet.Perm (coins.map Prod.snd ++ selected.setCoinsRet) ∧
      (coins.foldl add selected).nValueRet = selected.nValueRet + (coins.map Prod.fst).sum := by
  induction coins generalizing selected with
  | nil => exact ⟨List.Perm.refl _, (Int.add_zero _).symm⟩
  | cons coin rest ih =>
    rw [map_cons, nodup_cons] at distinct
    have head_new : coin.2 ∉ selected.setCoinsRet := fresh coin mem_cons_self
    have head_set : (selected.add coin).setCoinsRet = coin.2 :: selected.setCoinsRet :=
      insert_of_not_mem head_new
    have head_value : (selected.add coin).nValueRet = selected.nValueRet + coin.1 := by
      simpa [add] using exact_sum [coin] (by simp)
    have rest_new : ∀ other ∈ rest, other.2 ∉ (selected.add coin).setCoinsRet := by
      intro other member
      rw [head_set, mem_cons, not_or]
      refine ⟨?_, fresh other (mem_cons_of_mem _ member)⟩
      intro same
      exact distinct.1 (same ▸ List.mem_map_of_mem member)
    have rest_exact : ∀ before : List ValuedCoin, before.Sublist rest →
        toInt64 ((selected.add coin).nValueRet + (before.map fst).sum) =
          (selected.add coin).nValueRet + (before.map fst).sum := by
      intro before within
      rw [head_value, add_assoc]
      exact exact_sum (coin :: before) (within.cons_cons coin)
    obtain ⟨set, value⟩ := ih (selected.add coin) rest_new distinct.2 rest_exact
    rw [foldl_cons]
    refine ⟨?_, ?_⟩
    · rw [head_set] at set
      exact set.trans perm_middle
    · rw [value, head_value, map_cons, sum_cons, add_assoc]

theorem mem_foldl_add {selected : Selected} {coin : Coin}
    (member : coin ∈ (coins.foldl add selected).setCoinsRet) :
    coin ∈ selected.setCoinsRet ∨ coin ∈ coins.map Prod.snd := by
  induction coins generalizing selected with
  | nil => exact Or.inl member
  | cons first rest ih =>
    rcases ih member with before | later
    · rcases mem_insert_iff.mp before with rfl | earlier
      · exact Or.inr mem_cons_self
      · exact Or.inl earlier
    · exact Or.inr (mem_cons_of_mem _ later)

theorem mem_ofCoins {coin : Coin} (member : coin ∈ (ofCoins coins).setCoinsRet) :
    coin ∈ coins.map Prod.snd :=
  (mem_foldl_add member).resolve_left (by simp)

theorem ofCoins_spec (payable : Payable coins) (distinct : (coins.map Prod.snd).Nodup) :
    (ofCoins coins).setCoinsRet.Perm (coins.map Prod.snd) ∧
      (ofCoins coins).nValueRet = (coins.map Prod.fst).sum := by
  have run := @foldl_add_spec coins {} (by simp) distinct (by
    intro before within
    have part := payable.subperm within.subperm
    rw [Int.zero_add]
    exact part.toInt64_eq part.sum_nonneg le_rfl)
  simpa [ofCoins] using run

end Selected

open Selected

section

variable {choices : Choices} {nTargetValue nConfMine nConfTheirs : Int}
  {pool : List ValuedCoin} {scan final : CoinScan}

theorem foldlM_scanOutput (vCoins : List COutput) (scan : CoinScan) :
    vCoins.foldlM (scanOutput nTargetValue nConfMine nConfTheirs) scan =
      (eligibleCoins nConfMine nConfTheirs vCoins).foldlM (scanCoin nTargetValue) scan := by
  induction vCoins generalizing scan with
  | nil => rfl
  | cons out rest ih =>
    unfold eligibleCoins coinsWhere at ih ⊢
    rw [foldlM_cons]
    cases allowed : out.eligible nConfMine nConfTheirs with
    | false =>
      rw [filter_cons_of_neg (by simp [allowed]), ← ih]
      simp [scanOutput, allowed]
      rfl
    | true =>
      rw [filter_cons_of_pos allowed, map_cons, foldlM_cons]
      simp only [scanOutput, allowed, Bool.not_true, Bool.false_eq_true, if_false, ih]

/-- `coinLowestLarger` is unset or one of the coins that are not below the target plus `CENT`. -/
def Lowest (nTargetValue : Int) (pool : List ValuedCoin) (lowest : Int × Option Coin) : Prop :=
  lowest = (int64Max, none) ∨
    ∃ coin, lowest.2 = some coin ∧ (lowest.1, coin) ∈ pool ∧
      toInt64 (nTargetValue + cent) ≤ lowest.1

/-- What a round knows of the coins it has looked at. -/
structure Scanned (nTargetValue : Int) (pool done : List ValuedCoin) (scan : CoinScan) :
    Prop where
  lower : scan.vValue = done.filter fun coin => coin.1 < toInt64 (nTargetValue + cent)
  total : Payable pool → scan.nTotalLower = (scan.vValue.map Prod.fst).sum
  lowest : Lowest nTargetValue pool scan.coinLowestLarger
  least : ∀ coin ∈ done, toInt64 (nTargetValue + cent) ≤ coin.1 → scan.coinLowestLarger.1 ≤ coin.1

variable {coin : ValuedCoin}

theorem scanCoin_scanned {done : List ValuedCoin} (within : (done ++ [coin]).Sublist pool)
    (scanned : Scanned nTargetValue pool done scan)
    (run : scanCoin nTargetValue scan coin = .ok final) :
    Scanned nTargetValue pool (done ++ [coin]) final := by
  have member : coin ∈ pool := within.subset (by simp)
  unfold scanCoin at run
  split_ifs at run with hit low higher
  case pos =>
    obtain rfl := Except.ok.inj run
    have shown : (scan.vValue ++ [coin]) =
        (done ++ [coin]).filter fun coin => coin.1 < toInt64 (nTargetValue + cent) := by
      rw [filter_append, ← scanned.lower, filter_cons_of_pos (by simpa using low)]
      rfl
    refine ⟨shown, ?_, scanned.lowest, ?_⟩
    · intro payable
      have part : Payable (scan.vValue ++ [coin]) := by
        rw [shown]
        exact payable.subperm (filter_sublist.trans within).subperm
      have sum : (((scan.vValue ++ [coin]).map fst).sum) = scan.nTotalLower + coin.1 := by
        simp [scanned.total payable]
      show toInt64 (scan.nTotalLower + coin.1) = _
      rw [← sum]
      exact part.toInt64_eq part.sum_nonneg le_rfl
    · intro other listed large
      rcases mem_append.mp listed with earlier | last
      · exact scanned.least other earlier large
      · obtain rfl := mem_singleton.mp last
        omega
  case pos =>
    obtain rfl := Except.ok.inj run
    refine ⟨?_, scanned.total, Or.inr ⟨coin.2, rfl, member, not_lt.mp low⟩, ?_⟩
    · rw [filter_append, ← scanned.lower, filter_cons_of_neg (by simpa using low)]
      exact (append_nil _).symm
    · intro other listed large
      rcases mem_append.mp listed with earlier | last
      · exact higher.le.trans (scanned.least other earlier large)
      · obtain rfl := mem_singleton.mp last
        exact le_rfl
  case neg =>
    obtain rfl := Except.ok.inj run
    refine ⟨?_, scanned.total, scanned.lowest, ?_⟩
    · rw [filter_append, ← scanned.lower, filter_cons_of_neg (by simpa using low)]
      exact (append_nil _).symm
    · intro other listed large
      rcases mem_append.mp listed with earlier | last
      · exact scanned.least other earlier large
      · obtain rfl := mem_singleton.mp last
        omega

theorem foldlM_scanCoin_scanned (rest done : List ValuedCoin)
    (within : (done ++ rest).Sublist pool) (scanned : Scanned nTargetValue pool done scan)
    (run : rest.foldlM (scanCoin nTargetValue) scan = .ok final) :
    Scanned nTargetValue pool (done ++ rest) final := by
  induction rest generalizing done scan with
  | nil =>
    obtain rfl := Except.ok.inj run
    rwa [append_nil]
  | cons coin rest ih =>
    rw [foldlM_cons] at run
    rw [append_cons] at within ⊢
    cases taken : scanCoin nTargetValue scan coin with
    | error found =>
      rw [taken] at run
      exact absurd run (by simp [bind, Except.bind])
    | ok next =>
      rw [taken] at run
      have here := scanCoin_scanned
        ((sublist_append_left _ _).trans within) scanned taken
      exact ih (done ++ [coin]) within here run

theorem foldlM_scanCoin_error (rest : List ValuedCoin)
    (run : rest.foldlM (scanCoin nTargetValue) scan = .error coin) :
    coin ∈ rest ∧ coin.1 = nTargetValue := by
  induction rest generalizing scan with
  | nil => exact absurd run (by simp [pure, Except.pure])
  | cons first rest ih =>
    rw [foldlM_cons] at run
    cases taken : scanCoin nTargetValue scan first with
    | ok next =>
      rw [taken] at run
      obtain ⟨member, hit⟩ := ih run
      exact ⟨mem_cons_of_mem _ member, hit⟩
    | error found =>
      rw [taken] at run
      obtain rfl : found = coin := Except.error.inj run
      unfold scanCoin at taken
      split_ifs at taken with hit
      obtain rfl := Except.error.inj taken
      exact ⟨mem_cons_self, hit⟩

/-- The coins that a call picks: they reach the target, and a single one that is not below the
target plus `CENT` is a least one of its kind.  Both need that the limit does not wrap. -/
structure Picked (nTargetValue : Int) (pool coins : List ValuedCoin) : Prop where
  subperm : coins.Subperm pool
  enough : Payable pool → nTargetValue + cent < 2 ^ 63 → nTargetValue ≤ (coins.map Prod.fst).sum
  least : nTargetValue + cent < 2 ^ 63 → ∀ coin, coins = [coin] → nTargetValue + cent ≤ coin.1 →
    ∀ other ∈ pool, nTargetValue + cent ≤ other.1 → coin.1 ≤ other.1

theorem limit_eq (range : -2 ^ 63 ≤ nTargetValue) (small : nTargetValue + cent < 2 ^ 63) :
    toInt64 (nTargetValue + cent) = nTargetValue + cent :=
  toInt64_of_range (by unfold cent; omega) small

theorem picked_lowest (range : -2 ^ 63 ≤ nTargetValue) (member : coin ∈ pool)
    (large : toInt64 (nTargetValue + cent) ≤ coin.1)
    (least : ∀ other ∈ pool, toInt64 (nTargetValue + cent) ≤ other.1 → coin.1 ≤ other.1) :
    Picked nTargetValue pool [coin] := by
  refine ⟨singleton_subperm_iff.mpr member, ?_, ?_⟩
  · intro _ small
    rw [limit_eq range small] at large
    rw [map_singleton, sum_singleton]
    unfold cent at large
    omega
  · intro small found same _ other listed high
    obtain rfl : coin = found := singleton_inj.mp same
    rw [← limit_eq range small] at high
    exact least other listed high

/-- Coins below the target plus `CENT`, when they reach the target. -/
theorem picked_lower {coins : List ValuedCoin} (held : coins.Subperm pool)
    (low : nTargetValue + cent < 2 ^ 63 → ∀ coin ∈ coins, coin.1 < nTargetValue + cent)
    (enough : Payable pool → nTargetValue + cent < 2 ^ 63 →
      nTargetValue ≤ (coins.map Prod.fst).sum) :
    Picked nTargetValue pool coins := by
  refine ⟨held, enough, ?_⟩
  intro small coin alone high
  exact absurd (low small coin (by simp [alone])) (by omega)

namespace Scanned

theorem subperm (scanned : Scanned nTargetValue pool pool scan) : scan.vValue.Subperm pool := by
  rw [scanned.lower]
  exact filter_sublist.subperm

section

variable (range : -2 ^ 63 ≤ nTargetValue) (scanned : Scanned nTargetValue pool pool scan)

include range scanned

theorem picked_larger {coin : Coin}
    (held : scan.coinLowestLarger.2 = some coin) :
    Picked nTargetValue pool [(scan.coinLowestLarger.1, coin)] := by
  rcases scanned.lowest with unset | ⟨found, same, member, large⟩
  · exact absurd held (by simp [unset])
  · obtain rfl : found = coin := Option.some.inj (same.symm.trans held)
    exact picked_lowest range member large scanned.least

theorem picked_subset {coins : List ValuedCoin}
    (held : coins.Subperm scan.vValue)
    (enough : Payable pool → nTargetValue + cent < 2 ^ 63 →
      nTargetValue ≤ (coins.map Prod.fst).sum) :
    Picked nTargetValue pool coins := by
  refine picked_lower (held.trans scanned.subperm) ?_ enough
  intro small coin member
  have listed := held.subset member
  rw [scanned.lower, limit_eq range small] at listed
  simpa using (mem_filter.mp listed).2

end

end Scanned

theorem bestSubset_best (choices : Choices) (range : -2 ^ 63 ≤ nTargetValue)
    (payable : Payable pool)
    (scanned : Scanned nTargetValue pool pool scan) (enough : nTargetValue ≤ scan.nTotalLower) :
    (bestSubset choices nTargetValue scan).2 =
        total Prod.fst (choices.sort scan.vValue) (bestSubset choices nTargetValue scan).1 ∧
      (nTargetValue + cent < 2 ^ 63 → nTargetValue ≤ (bestSubset choices nTargetValue scan).2) := by
  have same : (choices.sort scan.vValue).Perm scan.vValue := choices.sort_perm scan.vValue
  have part : Payable (choices.sort scan.vValue) :=
    payable.subperm (same.subperm.trans scanned.subperm)
  have lower : scan.nTotalLower = ((choices.sort scan.vValue).map fst).sum :=
    (scanned.total payable).trans (same.map fst).sum_eq.symm
  unfold bestSubset
  dsimp only
  split
  case isTrue again =>
    have second := approximateBestSubset_best part (choices.toss 1) lower again.2 1000
    refine ⟨second.1, fun small => ?_⟩
    have reached := second.2
    rw [limit_eq range small] at reached ⊢
    unfold cent at reached ⊢
    omega
  case isFalse =>
    have first := approximateBestSubset_best part (choices.toss 0) lower enough 1000
    exact ⟨first.1, fun _ => first.2⟩

theorem selectSubset_picked (choices : Choices) (range : -2 ^ 63 ≤ nTargetValue)
    (scanned : Scanned nTargetValue pool pool scan) (enough : nTargetValue ≤ scan.nTotalLower) :
    ∃ coins, selectSubset choices nTargetValue scan = ofCoins coins ∧
      Picked nTargetValue pool coins := by
  have inside : (chosen (choices.sort scan.vValue)
      (bestSubset choices nTargetValue scan).1).Subperm scan.vValue :=
    (chosen_sublist _ _).subperm.trans (choices.sort_perm scan.vValue).subperm
  have subset := scanned.picked_subset range inside fun payable small => by
    obtain ⟨sum, reached⟩ := bestSubset_best choices range payable scanned enough
    exact (reached small).trans_eq sum
  unfold selectSubset
  dsimp only
  split
  case h_1 => exact ⟨_, rfl, subset⟩
  case h_2 coin held =>
    split
    case isTrue => exact ⟨_, rfl, scanned.picked_larger range held⟩
    case isFalse => exact ⟨_, rfl, subset⟩

theorem Payable.sum_lt (payable : Payable pool) (member : coin ∈ pool) : coin.1 < int64Max := by
  have part := (payable.subperm (singleton_subperm_iff.mpr member)).total
  rw [map_singleton, sum_singleton, maxMoneyOut_eq] at part
  unfold int64Max
  omega

theorem Scanned.all_lower (payable : Payable pool) (scanned : Scanned nTargetValue pool pool scan)
    (unset : scan.coinLowestLarger = (int64Max, none)) : scan.vValue = pool := by
  rw [scanned.lower, filter_eq_self]
  intro coin member
  by_contra large
  have least := scanned.least coin member (by simpa using large)
  rw [unset] at least
  exact absurd (payable.sum_lt member) (not_lt.mpr least)

/-- What a round that starts with no larger coin ends with. -/
theorem scanRound_spec (nConfMine nConfTheirs : Int) (range : -2 ^ 63 ≤ nTargetValue)
    {vCoins : List COutput}
    (same : eligibleCoins nConfMine nConfTheirs vCoins = pool) :
    (∃ coins, scanRound nTargetValue nConfMine nConfTheirs vCoins (int64Max, none) =
        .selected (ofCoins coins) ∧ Picked nTargetValue pool coins) ∨
      (scanRound nTargetValue nConfMine nConfTheirs vCoins (int64Max, none) =
        .tooLittle (int64Max, none) ∧ (Payable pool → (pool.map Prod.fst).sum < nTargetValue)) ∨
      ∃ scan, scanRound nTargetValue nConfMine nConfTheirs vCoins (int64Max, none) =
        .enough scan ∧ Scanned nTargetValue pool pool scan ∧ nTargetValue ≤ scan.nTotalLower := by
  unfold scanRound
  rw [foldlM_scanOutput, same]
  cases run : pool.foldlM (scanCoin nTargetValue) { coinLowestLarger := (int64Max, none) } with
  | error coin =>
    obtain ⟨member, hit⟩ := foldlM_scanCoin_error pool run
    refine Or.inl ⟨[coin], rfl, picked_lower (singleton_subperm_iff.mpr member) ?_ ?_⟩
    · intro small other listed
      obtain rfl := mem_singleton.mp listed
      unfold cent
      omega
    · intro _ _
      simp [hit]
  | ok scan =>
    have scanned : Scanned nTargetValue pool pool scan :=
      foldlM_scanCoin_scanned pool [] (List.Sublist.refl _)
        ⟨rfl, fun _ => rfl, Or.inl rfl, fun coin member => (nomatch member)⟩ run
    dsimp only
    split_ifs with hit little
    · refine Or.inl ⟨scan.vValue, rfl, ?_⟩
      exact scanned.picked_subset range (List.Subperm.refl _) fun payable _ =>
        (hit.symm.trans (scanned.total payable)).le
    · rcases scanned.lowest with unset | ⟨coin, held, _⟩
      · refine Or.inr (Or.inl ⟨by rw [unset], fun payable => ?_⟩)
        have total := scanned.total payable
        rw [scanned.all_lower payable unset] at total
        rwa [← total]
      · rw [held]
        exact Or.inl ⟨_, rfl, scanned.picked_larger range held⟩
    · exact Or.inr (Or.inr ⟨scan, rfl, scanned, by omega⟩)

theorem Picked.perm {other coins : List ValuedCoin} (same : pool.Perm other)
    (picked : Picked nTargetValue pool coins) : Picked nTargetValue other coins where
  subperm := picked.subperm.trans same.subperm
  enough payable := picked.enough (payable.subperm same.subperm)
  least small coin alone high found member :=
    picked.least small coin alone high found (same.mem_iff.mpr member)

theorem eligibleCoins_perm (nConfMine nConfTheirs : Int) {vCoins others : List COutput}
    (same : vCoins.Perm others) :
    (eligibleCoins nConfMine nConfTheirs vCoins).Perm
      (eligibleCoins nConfMine nConfTheirs others) :=
  (same.filter _).map _

theorem selectCoinsMinConf_picked (range : -2 ^ 63 ≤ nTargetValue) {vCoins : List COutput}
    {selected : Selected}
    (run : selectCoinsMinConf choices nTargetValue nConfMine nConfTheirs vCoins = some selected) :
    ∃ coins, selected = ofCoins coins ∧
      Picked nTargetValue (eligibleCoins nConfMine nConfTheirs vCoins) coins := by
  have same := eligibleCoins_perm nConfMine nConfTheirs
    (choices.shuffle_perm vCoins)
  unfold selectCoinsMinConf at run
  dsimp only at run
  rcases scanRound_spec nConfMine nConfTheirs range rfl
    with ⟨coins, round, picked⟩ | ⟨round, _⟩ | ⟨scan, round, scanned, enough⟩
  · rw [round] at run
    exact ⟨coins, (Option.some.inj run).symm, picked.perm same⟩
  · simp only [round] at run
    exact absurd run (by simp)
  · rw [round] at run
    obtain ⟨coins, subset, picked⟩ := selectSubset_picked choices range scanned enough
    exact ⟨coins, (Option.some.inj run).symm.trans subset, picked.perm same⟩

theorem selectCoinsMinConf_none (range : -2 ^ 63 ≤ nTargetValue) {vCoins : List COutput}
    (payable : Payable (eligibleCoins nConfMine nConfTheirs vCoins))
    (run : selectCoinsMinConf choices nTargetValue nConfMine nConfTheirs vCoins = none) :
    ((eligibleCoins nConfMine nConfTheirs vCoins).map Prod.fst).sum < nTargetValue := by
  have same := eligibleCoins_perm nConfMine nConfTheirs
    (choices.shuffle_perm vCoins)
  have shuffled := payable.subperm same.subperm
  unfold selectCoinsMinConf at run
  dsimp only at run
  rcases scanRound_spec nConfMine nConfTheirs range rfl
    with ⟨coins, round, _⟩ | ⟨_, little⟩ | ⟨scan, round, _⟩
  · rw [round] at run
    exact absurd run (by simp)
  · have sum := little shuffled
    rwa [(same.map fst).sum_eq] at sum
  · rw [round] at run
    exact absurd run (by simp)

variable {vCoins : List COutput}

theorem mem_coinsWhere {allowed : COutput → Bool} :
    coin ∈ coinsWhere allowed vCoins ↔
      ∃ out ∈ vCoins, allowed out = true ∧ (out.value, out.coin) = coin := by
  unfold coinsWhere
  simp only [List.mem_map, mem_filter, and_assoc]

/-- The outputs that a call gets: distinct, with positive values in the money range. -/
structure Spendable (vCoins : List COutput) : Prop where
  distinct : (vCoins.map COutput.coin).Nodup
  positive : ∀ out ∈ vCoins, 0 < out.value
  total : (vCoins.map COutput.value).sum ≤ mainParams.maxMoneyOut

namespace Spendable

variable (spendable : Spendable vCoins) (allowed : COutput → Bool)

include spendable

theorem payable : Payable (coinsWhere allowed vCoins) := by
  refine ⟨?_, ?_⟩
  · intro coin member
    obtain ⟨out, listed, _, rfl⟩ := mem_coinsWhere.mp member
    exact spendable.positive out listed
  · have kept : (vCoins.filter allowed).Sublist vCoins := filter_sublist
    unfold coinsWhere
    rw [List.map_map]
    refine le_trans ((kept.map COutput.value).sum_le_sum ?_) spendable.total
    intro value member
    obtain ⟨out, listed, rfl⟩ := List.mem_map.mp member
    exact (spendable.positive out listed).le

theorem distinct_coinsWhere : ((coinsWhere allowed vCoins).map Prod.snd).Nodup := by
  unfold coinsWhere
  rw [List.map_map]
  exact (filter_sublist.map COutput.coin).nodup spendable.distinct

variable {allowed}

theorem distinct_held {coins : List ValuedCoin}
    (held : coins.Subperm (coinsWhere allowed vCoins)) :
    (coins.map Prod.snd).Nodup := by
  obtain ⟨middle, same, within⟩ := held
  exact (same.map snd).nodup_iff.mp
    ((within.map snd).nodup (spendable.distinct_coinsWhere allowed))

theorem ofCoins_held {coins : List ValuedCoin}
    (held : coins.Subperm (coinsWhere allowed vCoins)) :
    (∀ coin ∈ (ofCoins coins).setCoinsRet,
        ∃ out ∈ vCoins, allowed out = true ∧ out.coin = coin) ∧
      (ofCoins coins).setCoinsRet.Nodup ∧
      (ofCoins coins).nValueRet =
        ((ofCoins coins).setCoinsRet.map Coin.value).sum ∧
      (ofCoins coins).nValueRet = (coins.map Prod.fst).sum := by
  have distinct := spendable.distinct_held held
  obtain ⟨set, value⟩ := ofCoins_spec ((spendable.payable allowed).subperm held) distinct
  have worth : coins.map fst = (coins.map snd).map Coin.value := by
    rw [List.map_map]
    refine map_congr_left ?_
    intro coin member
    obtain ⟨out, _, _, rfl⟩ := mem_coinsWhere.mp (held.subset member)
    rfl
  refine ⟨?_, set.nodup_iff.mpr distinct, ?_, value⟩
  · intro coin member
    obtain ⟨valued, listed, rfl⟩ := List.mem_map.mp (set.mem_iff.mp member)
    obtain ⟨out, found, passes, rfl⟩ := mem_coinsWhere.mp (held.subset listed)
    exact ⟨out, found, passes, rfl⟩
  · rw [value, worth]
    exact (set.map Coin.value).sum_eq.symm

end Spendable

/-- Selection is sound and complete, whatever the shuffle, the sort and the random bits. -/
theorem selectCoinsMinConf_sound_complete (choices : Choices) (nConfMine nConfTheirs : Int)
    (distinct : (vCoins.map COutput.coin).Nodup)
    (values : ∀ out ∈ vCoins, 0 < out.value ∧ out.value ≤ mainParams.maxMoneyOut)
    (fits : (vCoins.map COutput.value).sum ≤ mainParams.maxMoneyOut)
    (positive : 0 < nTargetValue) (inRange : nTargetValue ≤ mainParams.maxMoneyOut) :
    ((selectCoinsMinConf choices nTargetValue nConfMine nConfTheirs vCoins).isSome = true ↔
        nTargetValue ≤
          ((vCoins.filter (COutput.eligible nConfMine nConfTheirs)).map COutput.value).sum) ∧
      ∀ selected,
        selectCoinsMinConf choices nTargetValue nConfMine nConfTheirs vCoins = some selected →
        (∀ coin ∈ selected.setCoinsRet,
            ∃ out ∈ vCoins, out.eligible nConfMine nConfTheirs = true ∧ out.coin = coin) ∧
          selected.setCoinsRet.Nodup ∧
          selected.nValueRet = (selected.setCoinsRet.map Coin.value).sum ∧
          nTargetValue ≤ selected.nValueRet ∧
          ∀ coin, selected.setCoinsRet = [coin] → nTargetValue + cent < coin.value →
            ¬ ∃ out ∈ vCoins, out.eligible nConfMine nConfTheirs = true ∧
              nTargetValue + cent < out.value ∧ out.value < coin.value := by
  have spendable : Spendable vCoins := ⟨distinct, fun out member => (values out member).1, fits⟩
  have payable := spendable.payable (COutput.eligible nConfMine nConfTheirs)
  have range : -2 ^ 63 ≤ nTargetValue := by omega
  have small : nTargetValue + cent < 2 ^ 63 := by
    rw [maxMoneyOut_eq] at inRange
    unfold cent
    omega
  have sum : ((eligibleCoins nConfMine nConfTheirs vCoins).map fst).sum =
      ((vCoins.filter (COutput.eligible nConfMine nConfTheirs)).map COutput.value).sum := by
    unfold eligibleCoins coinsWhere
    rw [List.map_map]
    rfl
  refine ⟨⟨?_, ?_⟩, ?_⟩
  · intro found
    obtain ⟨selected, run⟩ := isSome_iff_exists.mp found
    obtain ⟨coins, _, picked⟩ := selectCoinsMinConf_picked range run
    obtain ⟨middle, same, within⟩ := picked.subperm
    refine (picked.enough payable small).trans ?_
    rw [← sum, ← (same.map fst).sum_eq]
    refine (within.map fst).sum_le_sum ?_
    intro value member
    obtain ⟨coin, listed, rfl⟩ := List.mem_map.mp member
    exact payable.nonneg coin listed
  · intro enough
    by_contra missing
    have little := selectCoinsMinConf_none range payable (not_isSome_iff_eq_none.mp missing)
    omega
  · intro selected run
    obtain ⟨coins, rfl, picked⟩ := selectCoinsMinConf_picked range run
    obtain ⟨eligible, nodup, value, worth⟩ := spendable.ofCoins_held picked.subperm
    refine ⟨eligible, nodup, value, worth ▸ picked.enough payable small, ?_⟩
    rintro coin alone large ⟨out, member, allowed, above, below⟩
    have set := (ofCoins_spec (payable.subperm picked.subperm)
      (spendable.distinct_held picked.subperm)).1
    rw [alone] at set
    obtain ⟨valued, rfl, rfl⟩ := map_eq_singleton_iff.mp (singleton_perm.mp set).symm
    have same : valued.1 = valued.2.value := by simpa [alone, worth] using value
    have least := picked.least small valued rfl (by omega) (out.value, out.coin)
      (mem_coinsWhere.mpr ⟨out, member, allowed, rfl⟩) above.le
    dsimp only at least
    omega

end

namespace WalletSample

/-- Nothing is shuffled, and every toss includes the coin. -/
def choices : Choices where
  shuffle := id
  sort := fun vValue => vValue.mergeSort fun first second => decide (second.1 ≤ first.1)
  toss := fun _ _ _ => true
  shuffle_perm := fun _ => List.Perm.refl _
  sort_perm := fun vValue => List.mergeSort_perm vValue _
  sort_descending := by
    intro vValue
    refine (List.pairwise_mergeSort ?_ ?_ vValue).imp of_decide_eq_true
    · intro first second third above below
      exact decide_eq_true ((of_decide_eq_true below).trans (of_decide_eq_true above))
    · intro first second
      simpa using le_total second.1 first.1

/-- A transaction in the block with the hash 3, of which it is the only one. -/
def wtx : CWalletTx where
  hash := 7
  vin := []
  vout := [⟨1 * coin, []⟩, ⟨9 * coin, []⟩, ⟨12 * coin, []⟩]
  hashBlock := 3
  nIndex := 0

/-- A node whose active chain has the block with the hash 3. -/
def node : WalletNode where
  params := mainParams
  hashPair := fun left right => left + right
  activeEntry := fun hash => if hash = 3 then some ⟨10, 7⟩ else none
  height := 30
  adjustedTime := 1500000000
  mempool := {}
  mapTxLocks := ∅
  fLargeWorkFork := false
  swiftTXActive := false
  fEnableSwiftTX := false
  nSwiftTXDepth := 9
  fMasterNode := false
  bSpendZeroConfChange := true

/-- A wallet of one transaction, all of which is its own. -/
def walletOf (tx : CWalletTx) : CWallet where
  isMine := fun _ => .spendable
  mapWallet := (∅ : StdMap Uint256 CWalletTx).insert tx.hash tx
  keyed := by
    intro hash found held
    rw [StdMap.lookup_insert_ite] at held
    split_ifs at held with same
    · obtain rfl := Option.some.inj held
      exact same.symm
    · exact absurd held (by simp)

def vCoins : List COutput := [⟨wtx, 0, 8, true⟩, ⟨wtx, 1, 8, true⟩, ⟨wtx, 2, 8, true⟩]

end WalletSample

/-- The two smaller coins are together worth more than the target, and are searched through. -/
theorem selectCoinsMinConf_sampleCoins :
    ∃ scan, scanRound (9 * coin + coin / 2) 1 6 WalletSample.vCoins (int64Max, none) =
        .enough scan ∧
      ∃ selected, selected = selectSubset WalletSample.choices (9 * coin + coin / 2) scan ∧
        selectCoinsMinConf WalletSample.choices (9 * coin + coin / 2) 1 6 WalletSample.vCoins =
            some selected ∧
          9 * coin + coin / 2 ≤ selected.nValueRet ∧
            selected.nValueRet = (selected.setCoinsRet.map Coin.value).sum := by
  obtain ⟨_, sound⟩ := selectCoinsMinConf_sound_complete WalletSample.choices 1 6
    (by decide +kernel : (WalletSample.vCoins.map COutput.coin).Nodup) (by decide +kernel)
    (by decide +kernel) (by decide : 0 < 9 * coin + coin / 2) (by decide +kernel)
  refine ⟨_, rfl, _, rfl, rfl, ?_⟩
  obtain ⟨_, _, sum, enough, _⟩ := sound _ rfl
  exact ⟨enough, sum⟩

end CentNode
