import CentNode.Library.StdMap
import CentNode.Coins.Coins

/-!
# The stack of coins views

`coins.cpp` builds a view of the unspent outputs from caches stacked over the
chainstate database.  A cache fills itself from its base on every read, so
reading returns the view along with the result.  Failed assertions are `none`.
-/

namespace CentNode

/-- `CCoinsCacheEntry`, with the two bits of `flags`. -/
structure CCoinsCacheEntry where
  coins : CCoins := {}
  dirty : Bool := false
  fresh : Bool := false
  deriving DecidableEq, Repr

abbrev CCoinsMap : Type := StdMap Uint256 CCoinsCacheEntry

structure CCoinsViewCache where
  hashBlock : Uint256 := 0
  cacheCoins : CCoinsMap := ∅

/-- `CCoinsViewDB`: the `'c'` records and the `'B'` record, zero when unset. -/
structure CCoinsViewDB where
  coins : StdMap Uint256 CCoins := ∅
  hashBestChain : Uint256 := 0

inductive CCoinsView where
  | db (store : CCoinsViewDB)
  | cache (self : CCoinsViewCache) (base : CCoinsView)

/-- The entry `FetchCoins` makes of the coins found in the base: the base has
only an empty entry when they are pruned. -/
def CCoinsViewCache.remember (self : CCoinsViewCache) (txid : Uint256) (coins : CCoins) :
    CCoinsViewCache :=
  let entry : CCoinsCacheEntry := { coins := coins, dirty := false, fresh := coins.isPruned }
  { self with cacheCoins := self.cacheCoins.insert txid entry }

namespace CCoinsView

/-- `GetCoins` and `AccessCoins`; on a cache this is `FetchCoins`. -/
def getCoins : CCoinsView → Uint256 → Option CCoins × CCoinsView
  | .db store, txid => (store.coins.lookup txid, .db store)
  | .cache self base, txid =>
    match self.cacheCoins.lookup txid with
    | some entry => (some entry.coins, .cache self base)
    | none =>
      match getCoins base txid with
      | (none, fetched) => (none, .cache self fetched)
      | (some coins, fetched) => (some coins, .cache (self.remember txid coins) fetched)

/-- `HaveCoins` looks at `vout` and not at `IsPruned`. -/
def haveCoins (view : CCoinsView) (txid : Uint256) : Bool × CCoinsView :=
  match view.getCoins txid with
  | (none, fetched) => (false, fetched)
  | (some coins, fetched) => (!coins.vout.isEmpty, fetched)

def getBestBlock : CCoinsView → Uint256 × CCoinsView
  | .db store => (store.hashBestChain, .db store)
  | .cache self base =>
    if self.hashBlock = 0 then
      let found := getBestBlock base
      (found.1, .cache { self with hashBlock := found.1 } found.2)
    else (self.hashBlock, .cache self base)

def setBestBlock : CCoinsView → Uint256 → CCoinsView
  | .db store, _ => .db store
  | .cache self base, hash => .cache { self with hashBlock := hash } base

/-- The entry on which `ModifyCoins` opens a modifier. -/
def openModifier (self : CCoinsViewCache) (base : CCoinsView) (txid : Uint256) :
    CCoinsCacheEntry × CCoinsView :=
  match self.cacheCoins.lookup txid with
  | some entry => ({ entry with dirty := true }, base)
  | none =>
    match base.getCoins txid with
    | (none, fetched) => ({ coins := CCoins.cleared, dirty := true, fresh := true }, fetched)
    | (some coins, fetched) => ({ coins := coins, dirty := true, fresh := coins.isPruned }, fetched)

def closeModifier (self : CCoinsViewCache) (txid : Uint256) (entry : CCoinsCacheEntry) :
    CCoinsViewCache :=
  let coins := entry.coins.cleanup
  if entry.fresh && coins.isPruned then { self with cacheCoins := self.cacheCoins.erase txid }
  else
    { self with cacheCoins := self.cacheCoins.insert txid { entry with coins := coins } }

/-- `ModifyCoins`, a change of the coins, and the end of the modifier's life.
Only a cache has modifiers. -/
def modifyCoins : CCoinsView → Uint256 → (CCoins → CCoins) → CCoinsView
  | .db store, _, _ => .db store
  | .cache self base, txid, change =>
    let opened := openModifier self base txid
    .cache (closeModifier self txid { opened.1 with coins := change opened.1.coins }) opened.2

/-- One iteration of `CCoinsViewCache::BatchWrite`. -/
def mergeEntry : StdMap.MergeRule CCoinsCacheEntry CCoinsCacheEntry :=
  fun ours theirs =>
      if !theirs.dirty then some ours
      else
        match ours with
        | none =>
          if theirs.coins.isPruned then some none
          else if theirs.fresh then
            some (some { coins := theirs.coins, dirty := true, fresh := true })
          else none
        | some entry =>
          if entry.fresh && theirs.coins.isPruned then some none
          else some (some { entry with coins := theirs.coins, dirty := true })

/-- One iteration of `CCoinsViewDB::BatchWrite`. -/
def writeEntry : StdMap.MergeRule CCoins CCoinsCacheEntry :=
  fun ours theirs =>
      if !theirs.dirty then some ours
      else if theirs.coins.isPruned then some none
      else some (some theirs.coins)

/-- `BatchWrite`.  The database keeps its best block when it is given a zero
hash; a cache takes the hash as it is. -/
def batchWrite : CCoinsView → CCoinsMap → Uint256 → Option CCoinsView
  | .db store, mapCoins, hashBlock =>
    (StdMap.merge writeEntry store.coins mapCoins).map fun coins =>
      .db { coins := coins
            hashBestChain := if hashBlock = 0 then store.hashBestChain else hashBlock }
  | .cache self base, mapCoins, hashBlockIn =>
    (StdMap.merge mergeEntry self.cacheCoins mapCoins).map fun cacheCoins =>
      .cache { self with cacheCoins := cacheCoins, hashBlock := hashBlockIn } base

def flush : CCoinsView → Option CCoinsView
  | .db store => some (.db store)
  | .cache self base =>
    (base.batchWrite self.cacheCoins self.hashBlock).map fun written =>
      .cache { self with cacheCoins := ∅ } written

def push (view : CCoinsView) : CCoinsView := .cache {} view

def pop : CCoinsView → CCoinsView
  | .db store => .db store
  | .cache _ base => base

end CCoinsView

end CentNode
