import CentNode.Coins.Coins

/-!
# Chain parameters, validation results and block index entries
-/

namespace CentNode

inductive Network where
  | main
  | testnet
  | regtest
  | unittest
  deriving DecidableEq, Repr

/-- The part of `CChainParams` that validation reads; `totalBlocksEstimate` is
the height of the last checkpoint, as `Checkpoints::GetTotalBlocksEstimate`
returns it. -/
structure CChainParams where
  networkID : Network
  hashGenesisBlock : Uint256
  lastPowBlock : Int
  coinbaseMaturity : Int
  maxMoneyOut : Int
  maxReorganizationDepth : Int
  enforceBlockUpgradeMajority : Nat
  toCheckBlockUpgradeMajority : Nat
  totalBlocksEstimate : Int
  modifierUpgradeBlock : Int
  /-- `nMaxMoneyOut` is an `int64_t`. -/
  maxMoneyOut_lt : maxMoneyOut < 2 ^ 63
  deriving DecidableEq, Repr

/-- `CMainParams`. -/
def mainParams : CChainParams where
  networkID := .main
  hashGenesisBlock := 0x00000cde55fe2152ee873838ca51cc1b2695e71911350409b535c66888f2f220
  lastPowBlock := 200
  coinbaseMaturity := 50
  maxMoneyOut := 50000000 * coin
  maxReorganizationDepth := 100
  enforceBlockUpgradeMajority := 555
  toCheckBlockUpgradeMajority := 1000
  totalBlocksEstimate := 4100
  modifierUpgradeBlock := 2
  maxMoneyOut_lt := by decide

def CChainParams.moneyRange (params : CChainParams) (nValue : Int) : Bool :=
  0 ≤ nValue && nValue ≤ params.maxMoneyOut

def getBudgetPaymentCycleBlocks (params : CChainParams) : Int :=
  if params.networkID = .main then 43200 else 144

/-- The sporks that block validation asks for. -/
inductive Spork where
  | swiftTXBlockFiltering
  | masternodePaymentEnforcement
  | masternodeBudgetEnforcement
  | enableSuperblocks
  deriving DecidableEq, Repr

/-- The reject codes of `main.h` that validation gives. -/
inductive RejectCode where
  | invalid
  | obsolete
  | duplicate
  | nonstandard
  | insufficientFee
  deriving DecidableEq, Repr

/-- How a validation function fails: it puts the block at fault
(`CValidationState::DoS` and `Invalid`, which is a `DoS` of level 0), it
reports an error of the node itself, it shuts the node down, or it leaves
through an assertion or an exception. -/
inductive Failure where
  | dos (level : Nat) (code : Option RejectCode) (reason : String) (corruption : Bool)
  | error (message : String)
  | abort (message : String)
  | assertion
  | exception (message : String)
  deriving DecidableEq, Repr

/-- The result of a function that returns `bool` and fills in a `CValidationState`. -/
abbrev Checked (α : Type) : Type := Except Failure α

/-- A rejection with a reject code and a reason. -/
def reject {α : Type} (level : Nat) (reason : String) : Checked α :=
  .error (.dos level (some .invalid) reason false)

theorem Checked.bind_ok {α β : Type} {first : Checked α} {second : α → Checked β} {result : β} :
    (first >>= second) = .ok result ↔ ∃ value, first = .ok value ∧ second value = .ok result := by
  cases first with
  | error failure => exact ⟨fun impossible => (nomatch impossible), fun ⟨_, impossible, _⟩ => (nomatch impossible)⟩
  | ok value => exact ⟨fun done => ⟨value, rfl, done⟩, fun ⟨_, same, done⟩ => by cases same; exact done⟩

@[simp]
theorem reject_ne_ok {α : Type} {level : Nat} {reason : String} {value : α} :
    (reject level reason : Checked α) ≠ .ok value := by
  intro impossible
  cases impossible

/-- The validity level in the low bits of `nStatus`. -/
inductive BlockValidity where
  | unknown
  | header
  | tree
  | transactions
  | chain
  | scripts
  deriving DecidableEq, Repr

def BlockValidity.level : BlockValidity → Nat
  | .unknown => 0
  | .header => 1
  | .tree => 2
  | .transactions => 3
  | .chain => 4
  | .scripts => 5

/-- The fields of the bit set `nStatus`. -/
structure BlockStatus where
  validity : BlockValidity := .unknown
  haveData : Bool := false
  haveUndo : Bool := false
  failedValid : Bool := false
  failedChild : Bool := false
  deriving DecidableEq, Repr

/-- `nStatus & BLOCK_FAILED_MASK`. -/
def BlockStatus.failed (status : BlockStatus) : Bool := status.failedValid || status.failedChild

/-- The address of an index entry. -/
abbrev BlockPtr : Type := Nat

/-- `CBlockIndex`.  `undoData` is what the undo file holds at `nUndoPos`. -/
structure CBlockIndex where
  phashBlock : Option Uint256
  pprev : Option BlockPtr := none
  pskip : Option BlockPtr := none
  nHeight : Nat := 0
  nChainWork : Nat := 0
  nTx : Nat := 0
  nChainTx : Nat := 0
  nStatus : BlockStatus := {}
  nSequenceId : Nat := 0
  nVersion : Int := 0
  nTime : Nat := 0
  nBits : Nat := 0
  nMint : Int := 0
  nMoneySupply : Int := 0
  undoData : CBlockUndo := {}
  deriving DecidableEq, Repr

namespace CBlockIndex

/-- Only the entry that `CreateNewBlock` validates against has no hash. -/
def getBlockHash (pindex : CBlockIndex) : Uint256 := pindex.phashBlock.getD 0

def isValid (pindex : CBlockIndex) (nUpTo : BlockValidity) : Bool :=
  !pindex.nStatus.failed && decide (nUpTo.level ≤ pindex.nStatus.validity.level)

/-- `RaiseValidity`, without its result. -/
def raiseValidity (pindex : CBlockIndex) (nUpTo : BlockValidity) : CBlockIndex :=
  if pindex.nStatus.failed then pindex
  else if pindex.nStatus.validity.level < nUpTo.level then
    { pindex with nStatus := { pindex.nStatus with validity := nUpTo } }
  else pindex

/-- What `GetUndoPos` points to. -/
def getUndo (pindex : CBlockIndex) : Option CBlockUndo :=
  if pindex.nStatus.haveUndo then some pindex.undoData else none

/-- The loop of `IsSuperMajority` over an entry and its ancestors. -/
def countVersions (minVersion : Int) (nRequired : Nat) : Nat → List CBlockIndex → Nat → Nat
  | 0, _, nFound => nFound
  | _, [], nFound => nFound
  | nToCheck + 1, pstart :: rest, nFound =>
    if nFound < nRequired then
      countVersions minVersion nRequired nToCheck rest
        (if minVersion ≤ pstart.nVersion then nFound + 1 else nFound)
    else nFound

def isSuperMajority (nToCheck : Nat) (minVersion : Int) (pstart : List CBlockIndex)
    (nRequired : Nat) : Bool :=
  nRequired ≤ countVersions minVersion nRequired nToCheck pstart 0

@[simp]
theorem raiseValidity_undoData (pindex : CBlockIndex) (nUpTo : BlockValidity) :
    (pindex.raiseValidity nUpTo).undoData = pindex.undoData := by
  unfold raiseValidity
  split
  · rfl
  · split <;> rfl

@[simp]
theorem raiseValidity_haveUndo (pindex : CBlockIndex) (nUpTo : BlockValidity) :
    (pindex.raiseValidity nUpTo).nStatus.haveUndo = pindex.nStatus.haveUndo := by
  unfold raiseValidity
  split
  · rfl
  · split <;> rfl

end CBlockIndex

end CentNode
