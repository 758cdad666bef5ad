import CentNode.Library.SlotTable
import CentNode.Library.StdMap
import CentNode.Net.NetAddr

/-!
# The address manager

`CAddrMan` of `addrman.cpp`.  A reference into `mapInfo` is the id of its entry,
a random number is what `GetRand` draws, and `none` is an assertion that fails
or a reference to an entry that is gone.
-/

namespace CentNode

structure CAddrMan where
  nKey : Uint256
  nIdCount : BitVec 32 := 0
  mapInfo : StdMap Int CAddrInfo := ∅
  mapAddr : StdMap CNetAddr Int := ∅
  vRandom : List Int := []
  nTried : Int := 0
  vvTried : TriedSlot → Int := fun _ => -1
  nNew : Int := 0
  vvNew : NewSlot → Int := fun _ => -1

namespace CAddrMan

variable (hashOf : List UInt8 → Uint256)

/-! ## Entries -/

/-- Change the entry that a reference refers to. -/
def updateInfo (state : CAddrMan) (nId : Int) (change : CAddrInfo → CAddrInfo) : CAddrMan :=
  { state with
    mapInfo := match state.mapInfo.lookup nId with
      | none => state.mapInfo
      | some info => state.mapInfo.insert nId (change info) }

def find (state : CAddrMan) (addr : CNetAddr) : Option (Int × CAddrInfo) :=
  match state.mapAddr.lookup addr with
  | none => none
  | some nId => (state.mapInfo.lookup nId).map fun info => (nId, info)

/-- `Create`; the entry gets the id `nIdCount`. -/
def create (state : CAddrMan) (addr : CAddress) (addrSource : CNetAddr) : CAddrMan :=
  let nId := state.nIdCount.toInt
  { state with
    nIdCount := state.nIdCount + 1
    mapInfo := state.mapInfo.insert nId
      { CAddrInfo.make addr addrSource with nRandomPos := state.vRandom.length }
    mapAddr := state.mapAddr.insert addr.toCNetAddr nId
    vRandom := state.vRandom ++ [nId] }

def swapRandom (state : CAddrMan) (nRndPos1 nRndPos2 : Nat) : Option CAddrMan :=
  if nRndPos1 = nRndPos2 then some state
  else
    match state.vRandom[nRndPos1]?, state.vRandom[nRndPos2]? with
    | some nId1, some nId2 =>
      if (state.mapInfo.lookup nId1).isSome && (state.mapInfo.lookup nId2).isSome then
        let moved := (state.updateInfo nId1 fun info =>
          { info with nRandomPos := nRndPos2 }).updateInfo nId2 fun info =>
            { info with nRandomPos := nRndPos1 }
        some { moved with vRandom := (state.vRandom.set nRndPos1 nId2).set nRndPos2 nId1 }
      else none
    | _, _ => none

def delete (state : CAddrMan) (nId : Int) : Option CAddrMan :=
  match state.mapInfo.lookup nId with
  | none => none
  | some info =>
    if info.fInTried then none
    else if info.nRefCount ≠ 0 then none
    else
      match state.swapRandom info.nRandomPos.toNat (state.vRandom.length - 1) with
      | none => none
      | some swapped =>
        some { swapped with
          vRandom := swapped.vRandom.dropLast
          mapAddr := swapped.mapAddr.erase info.toCNetAddr
          mapInfo := swapped.mapInfo.erase nId
          nNew := swapped.nNew - 1 }

/-- `ClearNew`.  Where the entry is gone, `operator[]` makes one without
references, for which the assertion fails. -/
def clearNew (state : CAddrMan) (slot : NewSlot) : Option CAddrMan :=
  let nIdDelete := state.vvNew slot
  if nIdDelete = -1 then some state
  else
    match state.mapInfo.lookup nIdDelete with
    | none => none
    | some infoDelete =>
      if infoDelete.nRefCount ≤ 0 then none
      else
        let cleared : CAddrMan := { state.updateInfo nIdDelete fun info =>
            { info with nRefCount := info.nRefCount - 1 } with
          vvNew := Function.update state.vvNew slot (-1) }
        if infoDelete.nRefCount - 1 = 0 then cleared.delete nIdDelete else some cleared

/-! ## From the table of new entries to that of tried ones -/

/-- One iteration of the loop that removes an entry from all new buckets. -/
def removeNew (info : CAddrInfo) (nId : Int) (state : CAddrMan)
    (bucket : Fin addrmanNewBucketCount) : CAddrMan :=
  let slot := info.newSlot hashOf state.nKey bucket
  if state.vvNew slot = nId then
    { state.updateInfo nId fun info => { info with nRefCount := info.nRefCount - 1 } with
      vvNew := Function.update state.vvNew slot (-1) }
  else state

def removeAllNew (info : CAddrInfo) (nId : Int) (state : CAddrMan) : CAddrMan :=
  (List.finRange addrmanNewBucketCount).foldl (removeNew hashOf info nId) state

/-- `nRefCount` of an entry. -/
def refCount (state : CAddrMan) (nId : Int) : Int :=
  ((state.mapInfo.lookup nId).map (·.nRefCount)).getD 0

/-- The part of `MakeTried` that moves the tried entry of a slot back to new,
deleting whatever is there. -/
def evict (state : CAddrMan) (slot : TriedSlot) : Option CAddrMan :=
  let nIdEvict := state.vvTried slot
  if nIdEvict = -1 then some state
  else
    match state.mapInfo.lookup nIdEvict with
    | none => none
    | some infoOld =>
      let evicted : CAddrMan := { state.updateInfo nIdEvict fun info => { info with fInTried := false } with
        vvTried := Function.update state.vvTried slot (-1)
        nTried := state.nTried - 1 }
      let newSlot := infoOld.newSlot hashOf state.nKey
        (infoOld.getNewBucket hashOf state.nKey infoOld.source)
      match evicted.clearNew newSlot with
      | none => none
      | some cleared =>
        if cleared.vvNew newSlot ≠ -1 then none
        else
          some { cleared.updateInfo nIdEvict fun info => { info with nRefCount := 1 } with
            vvNew := Function.update cleared.vvNew newSlot nIdEvict
            nNew := cleared.nNew + 1 }

def makeTried (state : CAddrMan) (nId : Int) : Option CAddrMan :=
  match state.mapInfo.lookup nId with
  | none => none
  | some info =>
    let removed := removeAllNew hashOf info nId state
    let uncounted : CAddrMan := { removed with nNew := removed.nNew - 1 }
    if uncounted.refCount nId ≠ 0 then none
    else
      let slot := info.triedSlot hashOf state.nKey
      match uncounted.evict hashOf slot with
      | none => none
      | some evicted =>
        if evicted.vvTried slot ≠ -1 then none
        else
          some { evicted.updateInfo nId fun info => { info with fInTried := true } with
            vvTried := Function.update evicted.vvTried slot nId
            nTried := evicted.nTried + 1 }

/-- `Good_`, with the random number of the search for a bucket. -/
def good (state : CAddrMan) (addr : CService) (nTime : BitVec 64) (nRand : Nat) :
    Option CAddrMan :=
  match state.find addr.toCNetAddr with
  | none => some state
  | some (nId, info) =>
    if info.toCService ≠ addr then some state
    else
      let updated := state.updateInfo nId fun info =>
        { info with nLastSuccess := nTime, nLastTry := nTime, nAttempts := 0 }
      if info.fInTried then some updated
      else
        let nRnd := nRand % addrmanNewBucketCount
        let found := (List.range addrmanNewBucketCount).any fun n =>
          updated.vvNew (info.newSlot hashOf state.nKey (Fin.ofNat addrmanNewBucketCount (n + nRnd)))
            = nId
        if found then updated.makeTried hashOf nId else some updated

/-! ## New addresses -/

/-- The end of `Add_`: the entry is put into the bucket for the source, or is
deleted if it is in none and another entry stays there. -/
def insertNew (state : CAddrMan) (nId : Int) (source : CNetAddr) (nNow : Int) : Option CAddrMan :=
  match state.mapInfo.lookup nId with
  | none => none
  | some info =>
    let slot := info.newSlot hashOf state.nKey (info.getNewBucket hashOf state.nKey source)
    if state.vvNew slot = nId then some state
    else
      let infoExisting := (state.mapInfo.lookup (state.vvNew slot)).getD CAddrInfo.init
      let fInsert := state.vvNew slot = -1 ∨ infoExisting.isTerrible nNow ∨
        (infoExisting.nRefCount > 1 ∧ info.nRefCount = 0)
      if fInsert then
        match state.clearNew slot with
        | none => none
        | some cleared =>
          some { cleared.updateInfo nId fun info => { info with nRefCount := info.nRefCount + 1 } with
            vvNew := Function.update cleared.vvNew slot nId }
      else if info.nRefCount = 0 then state.delete nId
      else some state

/-- The entry of a known address with the time and the services of `addr`. -/
def refresh (info : CAddrInfo) (addr : CAddress) (nTimePenalty nNow : Int) : CAddrInfo :=
  let fCurrentlyOnline := nNow - addr.nTime.toNat < 24 * 60 * 60
  let nUpdateInterval : Int := if fCurrentlyOnline then 60 * 60 else 24 * 60 * 60
  let nTime := if addr.nTime ≠ 0 ∧ (info.nTime = 0 ∨
      (info.nTime.toNat : Int) < addr.nTime.toNat - nUpdateInterval - nTimePenalty) then
    BitVec.ofInt 32 (max 0 (addr.nTime.toNat - nTimePenalty)) else info.nTime
  { info with nTime := nTime, nServices := info.nServices ||| addr.nServices }

/-- The random numbers and times that a call of `Add_` sees. -/
structure AddDraws where
  nNow : Int
  nNowToo : Int
  nRand : Nat

def add (state : CAddrMan) (addr : CAddress) (source : CNetAddr) (nTimePenalty : Int)
    (draws : AddDraws) : Option (CAddrMan × Bool) :=
  if !addr.isRoutable then some (state, false)
  else
    match state.find addr.toCNetAddr with
    | some (nId, known) =>
      let info := refresh known addr nTimePenalty draws.nNow
      let updated := state.updateInfo nId fun _ => info
      if addr.nTime = 0 ∨ (info.nTime ≠ 0 ∧ addr.nTime ≤ info.nTime) then some (updated, false)
      else if info.fInTried then some (updated, false)
      else if info.nRefCount = addrmanNewBucketsPerAddress then some (updated, false)
      else
        let nFactor := 2 ^ info.nRefCount.toNat
        if nFactor > 1 ∧ draws.nRand % nFactor ≠ 0 then some (updated, false)
        else (updated.insertNew hashOf nId source draws.nNowToo).map fun next => (next, false)
    | none =>
      let nId := state.nIdCount.toInt
      let created := (state.create addr source).updateInfo nId fun info =>
        { info with nTime := BitVec.ofInt 32 (max 0 (info.nTime.toNat - nTimePenalty)) }
      let counted : CAddrMan := { created with nNew := created.nNew + 1 }
      (counted.insertNew hashOf nId source draws.nNowToo).map fun next => (next, true)

/-! ## Statistics and selection -/

def attempt (state : CAddrMan) (addr : CService) (nTime : BitVec 64) : CAddrMan :=
  match state.find addr.toCNetAddr with
  | none => state
  | some (nId, info) =>
    if info.toCService ≠ addr then state
    else state.updateInfo nId fun info =>
      { info with nLastTry := nTime, nAttempts := info.nAttempts + 1 }

def connected (state : CAddrMan) (addr : CService) (nTime : BitVec 64) : CAddrMan :=
  match state.find addr.toCNetAddr with
  | none => state
  | some (nId, info) =>
    if info.toCService ≠ addr then state
    else if nTime.toInt - info.nTime.toNat > 20 * 60 then
      state.updateInfo nId fun info => { info with nTime := nTime.setWidth 32 }
    else state

/-- The loop of `GetAddr_`, from the position `n` on: `draws` and `nNow` are the
random numbers and the times of the iterations. -/
def getAddrFrom (draws : Nat → Nat) (nNow : Nat → Int) (nNodes : Nat) :
    Nat → Nat → CAddrMan → List CAddress → Option (CAddrMan × List CAddress)
  | 0, _, state, vAddr => some (state, vAddr)
  | fuel + 1, n, state, vAddr =>
    if vAddr.length ≥ nNodes then some (state, vAddr)
    else
      match state.swapRandom n (draws n % (state.vRandom.length - n) + n) with
      | none => none
      | some swapped =>
        match swapped.vRandom[n]?.bind fun nId => swapped.mapInfo.lookup nId with
        | none => none
        | some ai =>
          getAddrFrom draws nNow nNodes fuel (n + 1) swapped
            (if ai.isTerrible (nNow n) then vAddr else vAddr ++ [ai.toCAddress])

/-- `GetAddr_`, with `ADDRMAN_GETADDR_MAX_PCT` and `ADDRMAN_GETADDR_MAX`. -/
def getAddr (state : CAddrMan) (draws : Nat → Nat) (nNow : Nat → Int) :
    Option (CAddrMan × List CAddress) :=
  getAddrFrom draws nNow (min (23 * state.vRandom.length / 100) 2500) state.vRandom.length 0 state []

/-- The loop of `Select_` over one table: each draw is a slot, and whether its
entry passes the test of its chance.  Inside, `none` is a loop that goes on. -/
def selectFrom {Slot : Type} (state : CAddrMan) (table : Slot → Int) :
    List (Slot × Bool) → Option (Option CAddress)
  | [] => some none
  | (slot, passes) :: rest =>
    if table slot = -1 then selectFrom state table rest
    else
      match state.mapInfo.lookup (table slot) with
      | none => none
      | some info => if passes then some (some info.toCAddress) else selectFrom state table rest

def select (state : CAddrMan) (nRand : Nat) (triedDraws : List (TriedSlot × Bool))
    (newDraws : List (NewSlot × Bool)) : Option (Option CAddress) :=
  if state.vRandom.length = 0 then some (some { toCService := CService.init })
  else if state.nTried > 0 ∧ (state.nNew = 0 ∨ nRand % 2 = 0) then
    state.selectFrom state.vvTried triedDraws
  else state.selectFrom state.vvNew newDraws

end CAddrMan

/-! ## Calls -/

inductive AddrManCall where
  | add (addr : CAddress) (source : CNetAddr) (nTimePenalty : Int) (draws : CAddrMan.AddDraws)
  | good (addr : CService) (nTime : BitVec 64) (nRand : Nat)
  | attempt (addr : CService) (nTime : BitVec 64)
  | connected (addr : CService) (nTime : BitVec 64)
  | getAddr (draws : Nat → Nat) (nNow : Nat → Int)
  | select (nRand : Nat) (triedDraws : List (TriedSlot × Bool)) (newDraws : List (NewSlot × Bool))

/-- The times that the callers pass are positive. -/
def AddrManCall.Timed : AddrManCall → Prop
  | .good _ nTime _ => 0 < nTime.toInt
  | .attempt _ nTime => 0 < nTime.toInt
  | .connected _ nTime => 0 < nTime.toInt
  | _ => True

def CAddrMan.call (hashOf : List UInt8 → Uint256) (state : CAddrMan) : AddrManCall → Option CAddrMan
  | .add addr source nTimePenalty draws => (state.add hashOf addr source nTimePenalty draws).map (·.1)
  | .good addr nTime nRand => state.good hashOf addr nTime nRand
  | .attempt addr nTime => some (state.attempt addr nTime)
  | .connected addr nTime => some (state.connected addr nTime)
  | .getAddr draws nNow => (state.getAddr draws nNow).map (·.1)
  | .select nRand triedDraws newDraws => (state.select nRand triedDraws newDraws).map fun _ => state

end CentNode
