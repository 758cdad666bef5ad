import CentNode.Primitives.Stream

/-!
# Network addresses

`CNetAddr` and `CService` of `netbase.cpp`: the special ranges, the group an
address belongs to, the key of a service, and their form in a stream.
-/

namespace CentNode

open Wire

/-- The sixteen bytes of an address, in network byte order. -/
structure CNetAddr where
  ip : List UInt8
  size : ip.length = 16
  deriving DecidableEq

/-- An address and a port. -/
structure CService extends CNetAddr where
  port : BitVec 16
  deriving DecidableEq

/-- The default-constructed address and service. -/
def CNetAddr.init : CNetAddr := ⟨List.replicate 16 0, rfl⟩

def CService.init : CService := ⟨CNetAddr.init, 0⟩

namespace CNetAddr

variable (addr : CNetAddr)

def getByte (n : Nat) : UInt8 := addr.ip.getD (15 - n) 0

/-- The comparison with `memcmp` of the bytes from a position on. -/
def bytesAt (start : Nat) (bytes : List UInt8) : Bool :=
  (addr.ip.drop start).take bytes.length = bytes

def pchIPv4 : List UInt8 := [0, 0, 0, 0, 0, 0, 0, 0, 0, 0, 0xff, 0xff]

def pchOnionCat : List UInt8 := [0xFD, 0x87, 0xD8, 0x7E, 0xEB, 0x43]

def isIPv4 : Bool := addr.bytesAt 0 pchIPv4

def isTor : Bool := addr.bytesAt 0 pchOnionCat

def isRFC1918 : Bool :=
  addr.isIPv4 && (addr.getByte 3 = 10 || (addr.getByte 3 = 192 && addr.getByte 2 = 168) ||
    (addr.getByte 3 = 172 && (addr.getByte 2 ≥ 16 && addr.getByte 2 ≤ 31)))

def isRFC2544 : Bool :=
  addr.isIPv4 && addr.getByte 3 = 198 && (addr.getByte 2 = 18 || addr.getByte 2 = 19)

def isRFC3927 : Bool := addr.isIPv4 && (addr.getByte 3 = 169 && addr.getByte 2 = 254)

def isRFC6598 : Bool :=
  addr.isIPv4 && addr.getByte 3 = 100 && addr.getByte 2 ≥ 64 && addr.getByte 2 ≤ 127

def isRFC5737 : Bool :=
  addr.isIPv4 && ((addr.getByte 3 = 192 && addr.getByte 2 = 0 && addr.getByte 1 = 2) ||
    (addr.getByte 3 = 198 && addr.getByte 2 = 51 && addr.getByte 1 = 100) ||
    (addr.getByte 3 = 203 && addr.getByte 2 = 0 && addr.getByte 1 = 113))

def isRFC3849 : Bool :=
  addr.getByte 15 = 0x20 && addr.getByte 14 = 0x01 && addr.getByte 13 = 0x0D && addr.getByte 12 = 0xB8

def isRFC3964 : Bool := addr.getByte 15 = 0x20 && addr.getByte 14 = 0x02

def isRFC6052 : Bool := addr.bytesAt 0 [0, 0x64, 0xFF, 0x9B, 0, 0, 0, 0, 0, 0, 0, 0]

def isRFC4380 : Bool :=
  addr.getByte 15 = 0x20 && addr.getByte 14 = 0x01 && addr.getByte 13 = 0 && addr.getByte 12 = 0

def isRFC4862 : Bool := addr.bytesAt 0 [0xFE, 0x80, 0, 0, 0, 0, 0, 0]

def isRFC4193 : Bool := addr.getByte 15 &&& 0xFE = 0xFC

def isRFC6145 : Bool := addr.bytesAt 0 [0, 0, 0, 0, 0, 0, 0, 0, 0xFF, 0xFF, 0, 0]

def isRFC4843 : Bool :=
  addr.getByte 15 = 0x20 && addr.getByte 14 = 0x01 && addr.getByte 13 = 0x00 &&
    addr.getByte 12 &&& 0xF0 = 0x10

def isLocal : Bool :=
  (addr.isIPv4 && (addr.getByte 3 = 127 || addr.getByte 3 = 0)) ||
    addr.bytesAt 0 [0, 0, 0, 0, 0, 0, 0, 0, 0, 0, 0, 0, 0, 0, 0, 1]

/-- `IsValid`; the first comparison finds the IPv4 prefix shifted by three bytes. -/
def isValid : Bool :=
  !addr.bytesAt 0 (pchIPv4.drop 3) && !addr.bytesAt 0 (List.replicate 16 0) && !addr.isRFC3849 &&
    !(addr.isIPv4 && (addr.bytesAt 12 [0xff, 0xff, 0xff, 0xff] || addr.bytesAt 12 [0, 0, 0, 0]))

def isRoutable : Bool :=
  addr.isValid && !(addr.isRFC1918 || addr.isRFC2544 || addr.isRFC3927 || addr.isRFC4862 ||
    addr.isRFC6598 || addr.isRFC5737 || (addr.isRFC4193 && !addr.isTor) || addr.isRFC4843 ||
    addr.isLocal)

/-- The network class and the bits of the address from a byte on. -/
def groupOf (nClass : UInt8) (nStartByte nBits : Nat) : List UInt8 :=
  let whole := (List.range (nBits / 8)).map fun i => addr.getByte (15 - (nStartByte + i))
  let last := if nBits % 8 > 0 then
      [addr.getByte (15 - (nStartByte + nBits / 8)) ||| UInt8.ofNat (2 ^ (nBits % 8) - 1)]
    else []
  nClass :: (whole ++ last)

/-- `GetGroup`, with `NET_UNROUTABLE` 0, `NET_IPV4` 1, `NET_IPV6` 2 and `NET_TOR` 3.
A local address is unroutable, so the class 255 is always overwritten. -/
def getGroup : List UInt8 :=
  if !addr.isRoutable then addr.groupOf 0 0 0
  else if addr.isIPv4 || addr.isRFC6145 || addr.isRFC6052 then addr.groupOf 1 12 16
  else if addr.isRFC3964 then addr.groupOf 1 2 16
  else if addr.isRFC4380 then [1, addr.getByte 3 ^^^ 0xFF, addr.getByte 2 ^^^ 0xFF]
  else if addr.isTor then addr.groupOf 3 6 4
  else if addr.getByte 15 = 0x20 && addr.getByte 14 = 0x01 && addr.getByte 13 = 0x04 &&
      addr.getByte 12 = 0x70 then addr.groupOf 2 0 36
  else addr.groupOf 2 0 32

end CNetAddr

/-- `GetKey`: the address, then the port with its high byte first. -/
def CService.getKey (service : CService) : List UInt8 :=
  service.ip ++ [UInt8.ofNat (service.port.toNat / 256), UInt8.ofNat (service.port.toNat % 256)]

/-! ## In a stream -/

def writeNetAddr (addr : CNetAddr) : List UInt8 := addr.ip

/-- Sixteen bytes. -/
def readNetAddr : Reader CNetAddr := fun stream =>
  if short : stream.length < 16 then none
  else some (⟨stream.take 16, by rw [List.length_take]; omega⟩, stream.drop 16)

theorem readNetAddr_append {ip : List UInt8} (size : ip.length = 16) (more : List UInt8) :
    readNetAddr (ip ++ more) = some (⟨ip, size⟩, more) := by
  have long : ¬ (ip ++ more).length < 16 := by
    rw [List.length_append]
    omega
  have front : (ip ++ more).take 16 = ip := by
    rw [← size, List.take_left]
  have back : (ip ++ more).drop 16 = more := by
    rw [← size, List.drop_left]
  unfold readNetAddr
  rw [dif_neg long, Option.some.injEq, Prod.mk.injEq, CNetAddr.mk.injEq]
  exact ⟨front, back⟩

theorem reads_netAddr (addr : CNetAddr) : Reads readNetAddr (writeNetAddr addr) addr :=
  fun more => readNetAddr_append addr.size more

/-- The port is written in network byte order. -/
def writeService (service : CService) : List UInt8 :=
  writeNetAddr service.toCNetAddr ++
    ([UInt8.ofNat (service.port.toNat / 256)] ++ [UInt8.ofNat (service.port.toNat % 256)])

def readService : Reader CService := do
  let addr ← readNetAddr
  let high ← byte
  let low ← byte
  pure { toCNetAddr := addr, port := BitVec.ofNat 16 (high.toNat * 256 + low.toNat) }

theorem reads_service (service : CService) : Reads readService (writeService service) service := by
  have whole : BitVec.ofNat 16 ((UInt8.ofNat (service.port.toNat / 256)).toNat * 256 +
      (UInt8.ofNat (service.port.toNat % 256)).toNat) = service.port := by
    have bound := service.port.isLt
    rw [UInt8.toNat_ofNat', UInt8.toNat_ofNat', ← BitVec.toNat_inj, BitVec.toNat_ofNat]
    omega
  unfold readService writeService
  refine (reads_netAddr service.toCNetAddr).bind ((reads_byte _).bind ?_)
  have last := (reads_byte (UInt8.ofNat (service.port.toNat % 256))).map fun low =>
    ({ toCNetAddr := service.toCNetAddr
       port := BitVec.ofNat 16 ((UInt8.ofNat (service.port.toNat / 256)).toNat * 256 + low.toNat) } :
      CService)
  rw [whole] at last
  exact last

/-! `CAddress` and `CAddrInfo` are the entries of the address manager: the buckets and
positions an entry is hashed to, when it can be dropped, and the form it has in the file. -/

/-! ## Parameters -/

abbrev addrmanTriedBucketCount : Nat := 256

abbrev addrmanNewBucketCount : Nat := 1024

abbrev addrmanBucketSize : Nat := 64

instance : NeZero addrmanNewBucketCount := ⟨by decide⟩

instance : NeZero addrmanTriedBucketCount := ⟨by decide⟩

instance : NeZero addrmanBucketSize := ⟨by decide⟩

def addrmanTriedBucketsPerGroup : Nat := 8

def addrmanNewBucketsPerSourceGroup : Nat := 64

def addrmanNewBucketsPerAddress : Int := 8

def addrmanHorizonDays : Int := 30

def addrmanRetries : Int := 3

def addrmanMaxFailures : Int := 10

def addrmanMinFailDays : Int := 7

/-- A place in the table of tried entries: its bucket and its position. -/
abbrev TriedSlot : Type := Fin addrmanTriedBucketCount × Fin addrmanBucketSize

/-- A place in the table of new entries. -/
abbrev NewSlot : Type := Fin addrmanNewBucketCount × Fin addrmanBucketSize

/-! ## Addresses with their statistics -/

/-- The fields of `CAddress::Init` are the defaults. -/
structure CAddress extends CService where
  nServices : BitVec 64 := 1
  nTime : BitVec 32 := 100000000
  nLastTry : BitVec 64 := 0
  deriving DecidableEq

/-- The last three fields are only kept in memory. -/
structure CAddrInfo extends CAddress where
  source : CNetAddr
  nLastSuccess : BitVec 64 := 0
  nAttempts : BitVec 32 := 0
  nRefCount : Int := 0
  fInTried : Bool := false
  nRandomPos : Int := -1
  deriving DecidableEq

namespace CAddrInfo

/-- The default-constructed entry. -/
def init : CAddrInfo where
  toCService := CService.init
  source := CNetAddr.init

/-- The constructor that a new entry is made with. -/
def make (addr : CAddress) (addrSource : CNetAddr) : CAddrInfo where
  toCAddress := { addr with nLastTry := 0 }
  source := addrSource

end CAddrInfo

/-! ## Where an entry is hashed to -/

def getLow64 (hash : Uint256) : Nat := hash.toNat % 2 ^ 64

/-- The bytes of a vector of bytes in a stream. -/
def writeByteVector (v : List UInt8) : List UInt8 := writeVector (fun b => [b]) v

namespace CAddrInfo

variable (hashOf : List UInt8 → Uint256) (info : CAddrInfo) (nKey : Uint256)

def getTriedBucket : Fin addrmanTriedBucketCount :=
  let hash1 := getLow64 (hashOf (writeUint256 nKey ++ writeByteVector info.getKey))
  let hash2 := getLow64 (hashOf (writeUint256 nKey ++ writeByteVector info.getGroup ++
    leBytes 8 (hash1 % addrmanTriedBucketsPerGroup)))
  Fin.ofNat addrmanTriedBucketCount hash2

def getNewBucket (src : CNetAddr) : Fin addrmanNewBucketCount :=
  let vchSourceGroupKey := src.getGroup
  let hash1 := getLow64 (hashOf (writeUint256 nKey ++ writeByteVector info.getGroup ++
    writeByteVector vchSourceGroupKey))
  let hash2 := getLow64 (hashOf (writeUint256 nKey ++ writeByteVector vchSourceGroupKey ++
    leBytes 8 (hash1 % addrmanNewBucketsPerSourceGroup)))
  Fin.ofNat addrmanNewBucketCount hash2

/-- `GetBucketPosition`; the letters are `N` and `K`. -/
def getBucketPosition (fNew : Bool) (nBucket : Nat) : Fin addrmanBucketSize :=
  let hash1 := getLow64 (hashOf (writeUint256 nKey ++ [if fNew then 78 else 75] ++
    leBytes 4 nBucket ++ writeByteVector info.getKey))
  Fin.ofNat addrmanBucketSize hash1

/-- The place of an entry in the table of tried entries. -/
def triedSlot : TriedSlot :=
  (info.getTriedBucket hashOf nKey,
    info.getBucketPosition hashOf nKey false (info.getTriedBucket hashOf nKey))

/-- The place of an entry in a bucket of the table of new entries. -/
def newSlot (nUBucket : Fin addrmanNewBucketCount) : NewSlot :=
  (nUBucket, info.getBucketPosition hashOf nKey true nUBucket)

end CAddrInfo

def CAddrInfo.isTerrible (info : CAddrInfo) (nNow : Int) : Bool :=
  if info.nLastTry ≠ 0 ∧ info.nLastTry.toInt ≥ nNow - 60 then false
  else if (info.nTime.toNat : Int) > nNow + 10 * 60 then true
  else if info.nTime = 0 ∨ nNow - info.nTime.toNat > addrmanHorizonDays * 24 * 60 * 60 then true
  else if info.nLastSuccess = 0 ∧ info.nAttempts.toInt ≥ addrmanRetries then true
  else if nNow - info.nLastSuccess.toInt > addrmanMinFailDays * 24 * 60 * 60 ∧
      info.nAttempts.toInt ≥ addrmanMaxFailures then true
  else false

/-! ## In the file -/

/-- `CAddress` on disk begins with the version of the stream. -/
def writeAddress (nVersion : BitVec 32) (addr : CAddress) : List UInt8 :=
  writeWord 4 nVersion ++ (writeWord 4 addr.nTime ++ (writeWord 8 addr.nServices ++
    writeService addr.toCService))

def readAddress : Reader CAddress := do
  let (_ : BitVec 32) ← readWord 4 32
  let nTime ← readWord 4 32
  let nServices ← readWord 8 64
  let service ← readService
  pure { toCService := service, nServices := nServices, nTime := nTime }

theorem reads_address (nVersion : BitVec 32) (addr : CAddress) :
    Reads readAddress (writeAddress nVersion addr) { addr with nLastTry := 0 } := by
  unfold readAddress writeAddress
  refine (reads_word (by decide) nVersion).bind ?_
  refine (reads_word (by decide) addr.nTime).bind ?_
  refine (reads_word (by decide) addr.nServices).bind ?_
  exact (reads_service addr.toCService).map fun service =>
    ({ toCService := service, nServices := addr.nServices, nTime := addr.nTime } : CAddress)

def writeAddrInfo (nVersion : BitVec 32) (info : CAddrInfo) : List UInt8 :=
  writeAddress nVersion info.toCAddress ++ (writeNetAddr info.source ++
    (writeWord 8 info.nLastSuccess ++ writeWord 4 info.nAttempts))

def readAddrInfo : Reader CAddrInfo := do
  let addr ← readAddress
  let source ← readNetAddr
  let nLastSuccess ← readWord 8 64
  let nAttempts ← readWord 4 32
  pure { toCAddress := addr, source := source, nLastSuccess := nLastSuccess, nAttempts := nAttempts }

/-- What the file keeps of an entry. -/
def CAddrInfo.stored (info : CAddrInfo) : CAddrInfo :=
  { info with nLastTry := 0, nRefCount := 0, fInTried := false, nRandomPos := -1 }

theorem reads_addrInfo (nVersion : BitVec 32) (info : CAddrInfo) :
    Reads readAddrInfo (writeAddrInfo nVersion info) info.stored := by
  unfold readAddrInfo writeAddrInfo
  refine (reads_address nVersion info.toCAddress).bind ?_
  refine (reads_netAddr info.source).bind ?_
  refine (reads_word (by decide) info.nLastSuccess).bind ?_
  exact (reads_word (by decide) info.nAttempts).map fun nAttempts =>
    ({ toCAddress := { info.toCAddress with nLastTry := 0 }
       source := info.source
       nLastSuccess := info.nLastSuccess
       nAttempts := nAttempts } : CAddrInfo)

end CentNode
