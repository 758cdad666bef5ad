import CentNode.Masternode.Broadcasts

/-!
# The encrypted key store

`CCryptoKeyStore` of `crypter.cpp`.  `EncryptKeys` switches the store over to encrypted keys
before it encrypts the first one, and leaves it so when an encryption fails.
-/

namespace CentNode

open List StdMap

/-- `base_uint::CompareTo` of key identifiers, the most significant byte first. -/
@[reducible] def CKeyID.compareOrder : LinearOrder CKeyID :=
  LinearOrder.lift' (fun keyID => (keyID.val.map UInt8.toNat).reverse) fun _ _ same =>
    Subtype.ext (List.map_injective_iff.mpr (fun _ _ => UInt8.toNat_inj.mp)
      (List.reverse_injective same))

/-- Private and public keys: `eccrypto::Check` and `secp256k1_ec_pubkey_create`. -/
structure Curve where
  check : List UInt8 → Bool
  pubkeyCreate : List UInt8 → Bool → CPubKey
  length_pubkeyCreate : ∀ secret fCompressed,
    (pubkeyCreate secret fCompressed).length = if fCompressed then 33 else 65

/-- `CKey`, of the valid keys. -/
structure CKey (curve : Curve) where
  vch : List UInt8
  fCompressed : Bool
  size : vch.length = 32
  valid : curve.check vch = true

namespace CKey

variable {curve : Curve}

def getPubKey (key : CKey curve) : CPubKey := curve.pubkeyCreate key.vch key.fCompressed

/-- `Set`; `none` is a key that is not valid. -/
def set (curve : Curve) (vch : List UInt8) (fCompressed : Bool) : Option (CKey curve) :=
  if valid : vch.length = 32 ∧ curve.check vch = true then some ⟨vch, fCompressed, valid.1, valid.2⟩
  else none

def isCompressed (vchPubKey : CPubKey) : Bool := decide (vchPubKey.length = 33)

@[simp]
theorem isCompressed_getPubKey (key : CKey curve) :
    isCompressed key.getPubKey = key.fCompressed := by
  unfold isCompressed getPubKey
  rw [curve.length_pubkeyCreate]
  cases key.fCompressed <;> rfl

@[simp]
theorem set_vch (key : CKey curve) : set curve key.vch key.fCompressed = some key :=
  dif_pos ⟨key.size, key.valid⟩

end CKey

/-- What the key store computes with; AES decryption inverts encryption. -/
structure KeyCrypto where
  curve : Curve
  /-- `CPubKey::GetID`. -/
  getID : CPubKey → CKeyID
  /-- `CPubKey::GetHash`. -/
  getHash : CPubKey → Uint256
  /-- `CCrypter::Encrypt` after `SetKey`: the key, the initialization vector and the plaintext. -/
  encrypt : List UInt8 → Uint256 → List UInt8 → Option (List UInt8)
  decrypt : List UInt8 → Uint256 → List UInt8 → Option (List UInt8)
  inverts : ∀ {key iv vchPlaintext vchCiphertext},
    encrypt key iv vchPlaintext = some vchCiphertext →
      decrypt key iv vchCiphertext = some vchPlaintext

def walletCryptoKeySize : Nat := 32

namespace KeyCrypto

variable (crypto : KeyCrypto)

def encryptSecret (vMasterKey vchPlaintext : List UInt8) (nIV : Uint256) : Option (List UInt8) :=
  if vMasterKey.length ≠ walletCryptoKeySize then none
  else crypto.encrypt vMasterKey nIV vchPlaintext

def decryptSecret (vMasterKey vchCiphertext : List UInt8) (nIV : Uint256) : Option (List UInt8) :=
  if vMasterKey.length ≠ walletCryptoKeySize then none
  else crypto.decrypt vMasterKey nIV vchCiphertext

theorem decryptSecret_of_encryptSecret {vMasterKey vchPlaintext vchCiphertext : List UInt8}
    {nIV : Uint256}
    (encrypted : crypto.encryptSecret vMasterKey vchPlaintext nIV = some vchCiphertext) :
    crypto.decryptSecret vMasterKey vchCiphertext nIV = some vchPlaintext := by
  unfold encryptSecret at encrypted
  unfold decryptSecret
  split at encrypted
  case isTrue => cases encrypted
  case isFalse sized =>
    rw [if_neg sized]
    exact crypto.inverts encrypted

end KeyCrypto

/-- `CCryptoKeyStore`.  A key is added with its own public key. -/
structure CCryptoKeyStore (crypto : KeyCrypto) where
  mapKeys : StdMap CKeyID (CKey crypto.curve) := ∅
  mapCryptedKeys : StdMap CKeyID (CPubKey × List UInt8) := ∅
  vMasterKey : List UInt8 := []
  fUseCrypto : Bool := false
  fDecryptionThoroughlyChecked : Bool := false
  keyed : ∀ keyID key, mapKeys.lookup keyID = some key → crypto.getID key.getPubKey = keyID

namespace CCryptoKeyStore

variable {crypto : KeyCrypto} (store : CCryptoKeyStore crypto)

def setCrypted : Bool × CCryptoKeyStore crypto :=
  if store.fUseCrypto then (true, store)
  else if !store.mapKeys.entries.isEmpty then (false, store)
  else (true, { store with fUseCrypto := true })

def isLocked : Bool := store.fUseCrypto && store.vMasterKey.isEmpty

def lock : Bool × CCryptoKeyStore crypto :=
  let set := store.setCrypted
  if set.1 then (true, { set.2 with vMasterKey := [] }) else (false, set.2)

/-- The loop of `Unlock`: `keyPass` and `keyFail`; `none` where `GetPubKey` asserts that the
key is valid. -/
def tryKeys (vMasterKeyIn : List UInt8) : Bool → List (CPubKey × List UInt8) → Option (Bool × Bool)
  | keyPass, [] => some (keyPass, false)
  | keyPass, (vchPubKey, vchCryptedSecret) :: rest =>
    match crypto.decryptSecret vMasterKeyIn vchCryptedSecret (crypto.getHash vchPubKey) with
    | none => some (keyPass, true)
    | some vchSecret =>
      if vchSecret.length ≠ 32 then some (keyPass, true)
      else
        match CKey.set crypto.curve vchSecret (CKey.isCompressed vchPubKey) with
        | none => none
        | some key =>
          if key.getPubKey ≠ vchPubKey then some (keyPass, true)
          else if store.fDecryptionThoroughlyChecked then some (true, false)
          else tryKeys vMasterKeyIn true rest

/-- The encrypted keys in the order of their identifiers. -/
def cryptedKeys : List (CPubKey × List UInt8) :=
  (@StdMap.inOrder _ _ CKeyID.compareOrder store.mapCryptedKeys).map Sigma.snd

/-- `Unlock`; `none` where an assertion fails. -/
def unlock (vMasterKeyIn : List UInt8) : Option (Bool × CCryptoKeyStore crypto) :=
  let set := store.setCrypted
  if !set.1 then some (false, set.2)
  else
    (set.2.tryKeys vMasterKeyIn false set.2.cryptedKeys).bind fun tried =>
      if tried.1 && tried.2 then none
      else if tried.2 || !tried.1 then some (false, set.2)
      else some (true, { set.2 with vMasterKey := vMasterKeyIn, fDecryptionThoroughlyChecked := true })

def addCryptedKey (vchPubKey : CPubKey) (vchCryptedSecret : List UInt8) :
    Bool × CCryptoKeyStore crypto :=
  let set := store.setCrypted
  if !set.1 then (false, set.2)
  else
    (true, { set.2 with
      mapCryptedKeys :=
        set.2.mapCryptedKeys.insert (crypto.getID vchPubKey) (vchPubKey, vchCryptedSecret) })

/-- `GetKey`: `none` where it returns `false`, and a key that may not be valid. -/
def getKey (address : CKeyID) : Option (Option (CKey crypto.curve)) :=
  if !store.fUseCrypto then (store.mapKeys.lookup address).map some
  else
    (store.mapCryptedKeys.lookup address).bind fun entry =>
      match crypto.decryptSecret store.vMasterKey entry.2 (crypto.getHash entry.1) with
      | none => none
      | some vchSecret =>
        if vchSecret.length ≠ 32 then none
        else some (CKey.set crypto.curve vchSecret (CKey.isCompressed entry.1))

def getPubKey (address : CKeyID) : Option CPubKey :=
  if !store.fUseCrypto then (store.mapKeys.lookup address).map CKey.getPubKey
  else (store.mapCryptedKeys.lookup address).map Prod.fst

/-- The loop of `EncryptKeys`. -/
def encryptEach (vMasterKeyIn : List UInt8) :
    CCryptoKeyStore crypto → List (CKey crypto.curve) → Bool × CCryptoKeyStore crypto
  | store, [] => (true, store)
  | store, key :: rest =>
    let vchPubKey := key.getPubKey
    match crypto.encryptSecret vMasterKeyIn key.vch (crypto.getHash vchPubKey) with
    | none => (false, store)
    | some vchCryptedSecret =>
      let added := store.addCryptedKey vchPubKey vchCryptedSecret
      if !added.1 then (false, added.2) else encryptEach vMasterKeyIn added.2 rest

/-- The keys in the order of their identifiers. -/
def plainKeys : List (CKey crypto.curve) :=
  (@StdMap.inOrder _ _ CKeyID.compareOrder store.mapKeys).map Sigma.snd

def encryptKeys (vMasterKeyIn : List UInt8) : Bool × CCryptoKeyStore crypto :=
  if !store.mapCryptedKeys.entries.isEmpty || store.fUseCrypto then (false, store)
  else
    let done := encryptEach vMasterKeyIn { store with fUseCrypto := true } store.plainKeys
    if done.1 then
      (true, { done.2 with
        mapKeys := ∅
        keyed := fun _ _ impossible => (nomatch impossible) })
    else (false, done.2)

/-! ## Encrypting the keys -/

variable {store} {vMasterKey : List UInt8}

/-- What `EncryptSecret` makes of a key. -/
def sealed (vMasterKey : List UInt8) (key : CKey crypto.curve) : Option (List UInt8) :=
  crypto.encryptSecret vMasterKey key.vch (crypto.getHash key.getPubKey)

def keyID (key : CKey crypto.curve) : CKeyID := crypto.getID key.getPubKey

theorem addCryptedKey_eq (crypted : store.fUseCrypto = true) (vchPubKey : CPubKey)
    (vchCryptedSecret : List UInt8) : store.addCryptedKey vchPubKey vchCryptedSecret =
      (true, { store with
        mapCryptedKeys :=
          store.mapCryptedKeys.insert (crypto.getID vchPubKey) (vchPubKey, vchCryptedSecret) }) := by
  simp [addCryptedKey, setCrypted, crypted]

variable {key : CKey crypto.curve}

theorem encryptEach_cons (crypted : store.fUseCrypto = true) {vchCryptedSecret : List UInt8}
    (encrypted : sealed vMasterKey key = some vchCryptedSecret) (rest : List (CKey crypto.curve)) :
    encryptEach vMasterKey store (key :: rest) =
      encryptEach vMasterKey
        { store with
          mapCryptedKeys :=
            store.mapCryptedKeys.insert (keyID key) (key.getPubKey, vchCryptedSecret) } rest := by
  have added := addCryptedKey_eq crypted key.getPubKey vchCryptedSecret
  unfold sealed at encrypted
  simp only [encryptEach, encrypted, added]
  rfl

theorem encryptEach_failed (failed : sealed vMasterKey key = none)
    (rest : List (CKey crypto.curve)) :
    encryptEach vMasterKey store (key :: rest) = (false, store) := by
  unfold sealed at failed
  simp only [encryptEach, failed]

theorem encryptEach_iff (crypted : store.fUseCrypto = true) (keys : List (CKey crypto.curve)) :
    (encryptEach vMasterKey store keys).1 = true ↔
      ∀ key ∈ keys, (sealed vMasterKey key).isSome = true := by
  induction keys generalizing store with
  | nil => simp [encryptEach]
  | cons key rest ih =>
    cases encrypted : sealed vMasterKey key with
    | none => simp [encryptEach_failed encrypted, encrypted]
    | some vchCryptedSecret =>
      rw [encryptEach_cons crypted encrypted]
      refine (ih ?_).trans ?_
      · exact crypted
      · simp [encrypted]

/-- The store after the loop. -/
structure Encrypted (vMasterKey : List UInt8) (keys : List (CKey crypto.curve))
    (before later : CCryptoKeyStore crypto) : Prop where
  crypted : later.fUseCrypto = true
  each : ∀ key ∈ keys, ∃ vchCryptedSecret, sealed vMasterKey key = some vchCryptedSecret ∧
    later.mapCryptedKeys.lookup (keyID key) = some (key.getPubKey, vchCryptedSecret)
  others : ∀ address, address ∉ keys.map keyID →
    later.mapCryptedKeys.lookup address = before.mapCryptedKeys.lookup address

theorem encryptEach_spec (crypted : store.fUseCrypto = true) {keys : List (CKey crypto.curve)}
    (distinct : (keys.map keyID).Nodup) (all : ∀ key ∈ keys, (sealed vMasterKey key).isSome = true) :
    Encrypted vMasterKey keys store (encryptEach vMasterKey store keys).2 := by
  induction keys generalizing store with
  | nil => exact ⟨crypted, fun _ impossible => (nomatch impossible), fun _ _ => rfl⟩
  | cons key rest ih =>
    rw [map_cons, nodup_cons] at distinct
    obtain ⟨vchCryptedSecret, encrypted⟩ := Option.isSome_iff_exists.mp (all key mem_cons_self)
    rw [encryptEach_cons crypted encrypted]
    have later := @ih { store with
      mapCryptedKeys :=
        store.mapCryptedKeys.insert (keyID key) (key.getPubKey, vchCryptedSecret) } crypted
      distinct.2 fun other member => all other (mem_cons_of_mem _ member)
    refine ⟨later.crypted, ?_, ?_⟩
    · intro other member
      rcases mem_cons.mp member with rfl | elsewhere
      · refine ⟨vchCryptedSecret, encrypted, ?_⟩
        rw [later.others _ distinct.1]
        simp
      · exact later.each other elsewhere
    · intro address outside
      rw [map_cons, mem_cons, not_or] at outside
      rw [later.others address outside.2, lookup_insert_ite, if_neg outside.1]

theorem mem_plainKeys : key ∈ store.plainKeys ↔ store.mapKeys.lookup (keyID key) = some key := by
  unfold plainKeys
  rw [mem_map]
  constructor
  · rintro ⟨⟨address, _⟩, listed, rfl⟩
    have found := (@mem_inOrder _ _ _ CKeyID.compareOrder _ _ _).mp listed
    rwa [show address = keyID _ from (store.keyed _ _ found).symm] at found
  · intro found
    exact ⟨⟨keyID key, key⟩, (@mem_inOrder _ _ _ CKeyID.compareOrder _ _ _).mpr found, rfl⟩

theorem plainKeys_distinct : (store.plainKeys.map keyID).Nodup := by
  have keys : store.plainKeys.map keyID =
      (@StdMap.inOrder _ _ CKeyID.compareOrder store.mapKeys).map Sigma.fst := by
    unfold plainKeys
    rw [map_map]
    apply map_congr_left
    rintro ⟨address, key⟩ listed
    exact store.keyed _ _ ((@mem_inOrder _ _ _ CKeyID.compareOrder _ _ _).mp listed)
  rw [keys]
  exact @nodup_inOrder _ _ CKeyID.compareOrder store.mapKeys

/-- The master key encrypts every key of the store. -/
def Encryptable (store : CCryptoKeyStore crypto) (vMasterKey : List UInt8) : Prop :=
  ∀ address key, store.mapKeys.lookup address = some key → (sealed vMasterKey key).isSome = true

theorem encryptable_iff : store.Encryptable vMasterKey ↔
    ∀ key ∈ store.plainKeys, (sealed vMasterKey key).isSome = true := by
  constructor
  · intro all key member
    exact all _ key (mem_plainKeys.mp member)
  · intro all address key found
    refine all key (mem_plainKeys.mpr ?_)
    rwa [show keyID key = address from store.keyed _ _ found]

/-! ## Locking and unlocking -/

/-- The encrypted key is one of the store's keys under the master key. -/
def Opens (crypto : KeyCrypto) (vMasterKey : List UInt8) (entry : CPubKey × List UInt8) : Prop :=
  ∃ key : CKey crypto.curve, entry.1 = key.getPubKey ∧
    crypto.decryptSecret vMasterKey entry.2 (crypto.getHash entry.1) = some key.vch

theorem opens_of_sealed {vchCryptedSecret : List UInt8}
    (encrypted : sealed vMasterKey key = some vchCryptedSecret) :
    Opens crypto vMasterKey (key.getPubKey, vchCryptedSecret) :=
  ⟨key, rfl, crypto.decryptSecret_of_encryptSecret encrypted⟩

variable {entry : CPubKey × List UInt8}

theorem tryKeys_opens (opens : Opens crypto vMasterKey entry) (keyPass : Bool)
    (rest : List (CPubKey × List UInt8)) :
    store.tryKeys vMasterKey keyPass (entry :: rest) =
      if store.fDecryptionThoroughlyChecked then some (true, false)
      else store.tryKeys vMasterKey true rest := by
  obtain ⟨key, pub, decrypted⟩ := opens
  obtain ⟨vchPubKey, vchCryptedSecret⟩ := entry
  dsimp only at pub decrypted
  subst pub
  simp [tryKeys, decrypted, key.size]

theorem tryKeys_all {entries : List (CPubKey × List UInt8)}
    (all : ∀ entry ∈ entries, Opens crypto vMasterKey entry) (keyPass : Bool) :
    store.tryKeys vMasterKey keyPass entries = some (keyPass || !entries.isEmpty, false) := by
  induction entries generalizing keyPass with
  | nil => simp [tryKeys]
  | cons entry rest ih =>
    rw [tryKeys_opens (all entry mem_cons_self)]
    split
    · simp
    · rw [ih fun other member => all other (mem_cons_of_mem _ member)]
      simp

/-- The encrypted key decrypts to 32 bytes that are no secret. -/
def OpensInvalid (crypto : KeyCrypto) (vMasterKey : List UInt8) (entry : CPubKey × List UInt8) : Prop :=
  ∃ vchSecret, crypto.decryptSecret vMasterKey entry.2 (crypto.getHash entry.1) = some vchSecret ∧
    vchSecret.length = 32 ∧ crypto.curve.check vchSecret = false

theorem tryKeys_invalid (invalid : OpensInvalid crypto vMasterKey entry)
    (rest : List (CPubKey × List UInt8)) :
    store.tryKeys vMasterKey false (entry :: rest) = none := by
  obtain ⟨vchPubKey, vchCryptedSecret⟩ := entry
  obtain ⟨vchSecret, decrypted, sized, noSecret⟩ := invalid
  dsimp only at decrypted
  have set_eq : CKey.set crypto.curve vchSecret (CKey.isCompressed vchPubKey) = none :=
    dif_neg fun both => by simp [noSecret] at both
  simp [tryKeys, decrypted, sized, set_eq]

theorem tryKeys_closed (closed : ¬ Opens crypto vMasterKey entry)
    (valid : ¬ OpensInvalid crypto vMasterKey entry) (rest : List (CPubKey × List UInt8)) :
    store.tryKeys vMasterKey false (entry :: rest) = some (false, true) := by
  obtain ⟨vchPubKey, vchCryptedSecret⟩ := entry
  unfold Opens at closed
  unfold OpensInvalid at valid
  dsimp only at closed valid
  cases decrypted : crypto.decryptSecret vMasterKey vchCryptedSecret (crypto.getHash vchPubKey) with
  | none => simp [tryKeys, decrypted]
  | some vchSecret =>
    by_cases sized : vchSecret.length = 32
    · have secret : crypto.curve.check vchSecret = true := by
        by_contra noSecret
        exact valid ⟨vchSecret, decrypted, sized, Bool.eq_false_of_not_eq_true noSecret⟩
      -- the public key of the secret is another one
      let key : CKey crypto.curve := ⟨vchSecret, CKey.isCompressed vchPubKey, sized, secret⟩
      have other : key.getPubKey ≠ vchPubKey := fun same => closed ⟨key, same.symm, decrypted⟩
      have set_eq : CKey.set crypto.curve vchSecret (CKey.isCompressed vchPubKey) = some key :=
        dif_pos ⟨sized, secret⟩
      simp [tryKeys, decrypted, sized, set_eq, other]
    · simp [tryKeys, decrypted, sized]

/-- The first encrypted key decrypts to bytes that are no secret. -/
def FirstInvalid (store : CCryptoKeyStore crypto) (vMasterKey : List UInt8) : Prop :=
  ∃ entry ∈ store.cryptedKeys.head?, OpensInvalid crypto vMasterKey entry

theorem setCrypted_of_crypted (crypted : store.fUseCrypto = true) : store.setCrypted = (true, store) := by
  simp [setCrypted, crypted]

theorem unlock_closed_iff (crypted : store.fUseCrypto = true)
    (closed : ∀ entry ∈ store.cryptedKeys, ¬ Opens crypto vMasterKey entry) :
    store.unlock vMasterKey = some (false, store) ↔ ¬ store.FirstInvalid vMasterKey := by
  unfold unlock FirstInvalid
  rw [setCrypted_of_crypted crypted]
  dsimp only
  cases entries : store.cryptedKeys with
  | nil => simp [tryKeys]
  | cons entry rest =>
    by_cases invalid : OpensInvalid crypto vMasterKey entry
    · simp [tryKeys_invalid invalid, invalid]
    · have shut := closed entry (entries ▸ mem_cons_self)
      simp [tryKeys_closed shut invalid, invalid]

/-! ## No key is lost -/

theorem encryptEach_crypted (crypted : store.fUseCrypto = true) (keys : List (CKey crypto.curve)) :
    (encryptEach vMasterKey store keys).2.fUseCrypto = true := by
  induction keys generalizing store with
  | nil => exact crypted
  | cons key rest ih =>
    cases encrypted : sealed vMasterKey key with
    | none =>
      rw [encryptEach_failed encrypted]
      exact crypted
    | some vchCryptedSecret =>
      rw [encryptEach_cons crypted encrypted]
      exact ih crypted

/-- The store is encrypted already, or holds encrypted keys. -/
def Busy (store : CCryptoKeyStore crypto) : Prop :=
  store.fUseCrypto = true ∨ store.mapCryptedKeys.entries ≠ []

theorem encryptKeys_busy (busy : store.Busy) : store.encryptKeys vMasterKey = (false, store) := by
  unfold encryptKeys
  rw [if_pos]
  rcases busy with crypted | filled
  · simp [crypted]
  · simp [filled]

/-- The store when the loop starts. -/
def begun (store : CCryptoKeyStore crypto) : CCryptoKeyStore crypto :=
  { store with fUseCrypto := true }

/-- The store without its keys. -/
def cleared (store : CCryptoKeyStore crypto) : CCryptoKeyStore crypto :=
  { store with
    mapKeys := ∅
    keyed := fun _ _ impossible => (nomatch impossible) }

theorem encryptKeys_free (free : ¬ store.Busy) : store.encryptKeys vMasterKey =
    if (encryptEach vMasterKey store.begun store.plainKeys).1 then
      (true, (encryptEach vMasterKey store.begun store.plainKeys).2.cleared)
    else (false, (encryptEach vMasterKey store.begun store.plainKeys).2) := by
  simp only [Busy, not_or, not_not] at free
  unfold encryptKeys
  rw [if_neg (by simp [free])]
  rfl

theorem encryptKeys_free_iff (free : ¬ store.Busy) :
    (store.encryptKeys vMasterKey).1 = true ↔ store.Encryptable vMasterKey := by
  have each := @encryptEach_iff crypto store.begun vMasterKey rfl store.plainKeys
  rw [encryptable_iff, ← each, encryptKeys_free free]
  split <;> simp [*]

/-- The encrypted store. -/
structure Holds (vMasterKey : List UInt8) (store later : CCryptoKeyStore crypto) : Prop where
  crypted : later.fUseCrypto = true
  opens : ∀ entry ∈ later.cryptedKeys, Opens crypto vMasterKey entry
  each : ∀ address key, store.mapKeys.lookup address = some key →
    ∃ vchCryptedSecret, sealed vMasterKey key = some vchCryptedSecret ∧
      later.mapCryptedKeys.lookup address = some (key.getPubKey, vchCryptedSecret)

theorem mem_cryptedKeys :
    entry ∈ store.cryptedKeys ↔ ∃ address, store.mapCryptedKeys.lookup address = some entry := by
  unfold cryptedKeys
  rw [mem_map]
  constructor
  · rintro ⟨⟨address, _⟩, listed, rfl⟩
    exact ⟨address, (@mem_inOrder _ _ _ CKeyID.compareOrder _ _ _).mp listed⟩
  · rintro ⟨address, found⟩
    exact ⟨⟨address, entry⟩, (@mem_inOrder _ _ _ CKeyID.compareOrder _ _ _).mpr found, rfl⟩

theorem encryptKeys_holds (free : ¬ store.Busy) (all : store.Encryptable vMasterKey) :
    Holds vMasterKey store (store.encryptKeys vMasterKey).2 := by
  have done := (@encryptEach_iff crypto store.begun vMasterKey rfl store.plainKeys).mpr
    (encryptable_iff.mp all)
  have spec := @encryptEach_spec crypto store.begun vMasterKey rfl store.plainKeys
    plainKeys_distinct (encryptable_iff.mp all)
  rw [encryptKeys_free free, if_pos done]
  simp only [Busy, not_or, not_not] at free
  have empty : ∀ address, store.mapCryptedKeys.lookup address = none := by
    intro address
    rw [show store.mapCryptedKeys = ∅ from AList.ext free.2]
    rfl
  refine ⟨spec.crypted, ?_, ?_⟩
  · intro entry member
    obtain ⟨address, found⟩ := mem_cryptedKeys.mp member
    have found : (encryptEach vMasterKey store.begun store.plainKeys).2.mapCryptedKeys.lookup
        address = some entry := found
    by_cases listed : address ∈ store.plainKeys.map keyID
    · obtain ⟨key, there, rfl⟩ := mem_map.mp listed
      obtain ⟨vchCryptedSecret, encrypted, stored⟩ := spec.each key there
      cases found.symm.trans stored
      exact opens_of_sealed encrypted
    · rw [spec.others address listed] at found
      cases found.symm.trans (empty address)
  · intro address key present
    have same : keyID key = address := store.keyed address key present
    obtain ⟨vchCryptedSecret, encrypted, stored⟩ :=
      spec.each key (mem_plainKeys.mpr (same ▸ present))
    exact ⟨vchCryptedSecret, encrypted, same ▸ stored⟩

/-- The store unlocked again. -/
theorem unlock_holds {later : CCryptoKeyStore crypto} (holds : Holds vMasterKey store later)
    {address : CKeyID} (present : store.mapKeys.lookup address = some key) :
    ∃ unlocked, later.lock.2.unlock vMasterKey = some (true, unlocked) ∧
      unlocked.getKey address = some (some key) ∧
        unlocked.getPubKey address = some key.getPubKey := by
  obtain ⟨vchCryptedSecret, encrypted, stored⟩ := holds.each address key present
  have locked : later.lock.2 = { later with vMasterKey := [] } := by
    simp [lock, setCrypted_of_crypted holds.crypted]
  have some_keys : later.cryptedKeys.isEmpty = false := by
    have member := mem_cryptedKeys.mpr ⟨address, stored⟩
    cases entries : later.cryptedKeys with
    | nil =>
      rw [entries] at member
      cases member
    | cons _ _ => rfl
  have tried := @tryKeys_all crypto { later with vMasterKey := [] } vMasterKey later.cryptedKeys
    holds.opens false
  have decrypted := crypto.decryptSecret_of_encryptSecret encrypted
  refine ⟨{ later with vMasterKey := vMasterKey, fDecryptionThoroughlyChecked := true }, ?_, ?_, ?_⟩
  · rw [locked, unlock, setCrypted_of_crypted (by exact holds.crypted)]
    dsimp only
    rw [show ({ later with vMasterKey := [] } : CCryptoKeyStore crypto).cryptedKeys =
      later.cryptedKeys from rfl, tried]
    simp [some_keys]
  · simp [getKey, holds.crypted, stored, decrypted, key.size]
  · simp [getPubKey, holds.crypted, stored]

/-- Encrypting the store loses no key, and unlocking it with a wrong key changes nothing. -/
structure KeepsKeys (store : CCryptoKeyStore crypto) (vMasterKey : List UInt8) : Prop where
  encrypted : (store.encryptKeys vMasterKey).1 = true →
    ∀ address key, store.getKey address = some (some key) →
      ∃ unlocked, (store.encryptKeys vMasterKey).2.lock.2.unlock vMasterKey = some (true, unlocked) ∧
        unlocked.getKey address = some (some key) ∧ unlocked.getPubKey address = some key.getPubKey
  refused : (store.encryptKeys vMasterKey).1 = false → (store.encryptKeys vMasterKey).2 = store
  locked : store.isLocked = true →
    (∀ entry ∈ store.cryptedKeys, ¬ Opens crypto vMasterKey entry) →
      store.unlock vMasterKey = some (false, store)

theorem isLocked_crypted (locked : store.isLocked = true) : store.fUseCrypto = true := by
  simp [isLocked] at locked
  exact locked.1

/-- No key is lost exactly if the store is in use already or all its keys can be encrypted,
and no wrong key decrypts to bytes that are no secret. -/
theorem encryptKeys_keeps_iff (crypto : KeyCrypto) (store : CCryptoKeyStore crypto)
    (vMasterKey : List UInt8) :
    store.KeepsKeys vMasterKey ↔ (store.Busy ∨ store.Encryptable vMasterKey) ∧
      (store.isLocked = true → store.FirstInvalid vMasterKey →
        ∃ entry ∈ store.cryptedKeys, Opens crypto vMasterKey entry) := by
  constructor
  · intro keeps
    refine ⟨?_, ?_⟩
    · by_contra fails
      obtain ⟨free, failing⟩ := not_or.mp fails
      have failed : (store.encryptKeys vMasterKey).1 = false :=
        Bool.eq_false_of_not_eq_true (mt (encryptKeys_free_iff free).mp failing)
      have crypted : (store.encryptKeys vMasterKey).2.fUseCrypto = true := by
        rw [encryptKeys_free free]
        split
        · exact encryptEach_crypted rfl _
        · exact encryptEach_crypted rfl _
      rw [keeps.refused failed] at crypted
      exact free (.inl crypted)
    · intro locked invalid
      by_contra closed
      have shut : ∀ entry ∈ store.cryptedKeys, ¬ Opens crypto vMasterKey entry :=
        fun entry member opens => closed ⟨entry, member, opens⟩
      exact (unlock_closed_iff (isLocked_crypted locked) shut).mp (keeps.locked locked shut) invalid
  · rintro ⟨encrypts, opens⟩
    refine ⟨?_, ?_, ?_⟩
    · intro done address key present
      have free : ¬ store.Busy := by
        intro busy
        rw [encryptKeys_busy busy] at done
        cases done
      have all := (encryptKeys_free_iff free).mp done
      refine unlock_holds (encryptKeys_holds free all) ?_
      have plain : store.fUseCrypto = false := Bool.eq_false_of_not_eq_true fun on => free (.inl on)
      simpa [getKey, plain] using present
    · intro failed
      rcases encrypts with busy | all
      · rw [encryptKeys_busy busy]
      · by_cases busy : store.Busy
        · rw [encryptKeys_busy busy]
        · cases failed.symm.trans ((encryptKeys_free_iff busy).mpr all)
    · intro locked shut
      refine (unlock_closed_iff (isLocked_crypted locked) shut).mpr fun invalid => ?_
      obtain ⟨entry, member, opened⟩ := opens locked invalid
      exact shut entry member opened

/-- A public key is the secret after a header, and the cipher changes nothing. -/
def plainCrypto : KeyCrypto where
  curve :=
    { check := fun _ => true
      pubkeyCreate := fun secret fCompressed =>
        (if fCompressed then 2 else 4) ::
          (secret ++ List.replicate 64 0).take (if fCompressed then 32 else 64)
      length_pubkeyCreate := by
        intro secret fCompressed
        cases fCompressed <;> simp }
  getID := fun vchPubKey => ⟨(vchPubKey ++ List.replicate 20 0).take 20, by simp⟩
  getHash := fun _ => 0
  encrypt := fun _ _ vchPlaintext => some vchPlaintext
  decrypt := fun _ _ vchCiphertext => some vchCiphertext
  inverts := by
    intro key iv vchPlaintext vchCiphertext encrypted
    exact congrArg some (Option.some.inj encrypted).symm

def plainKey : CKey plainCrypto.curve := ⟨List.replicate 32 7, true, rfl, rfl⟩

def plainStore : CCryptoKeyStore plainCrypto where
  mapKeys := (∅ : StdMap CKeyID (CKey plainCrypto.curve)).insert (keyID plainKey) plainKey
  keyed := by
    intro address key found
    rw [StdMap.lookup_insert_ite] at found
    split at found
    case isTrue same =>
      cases found
      exact same.symm
    case isFalse => cases found

/-- A master key of no bytes: the store says that it is encrypted, and its key is gone. -/
theorem encryptKeys_loses_key :
    plainStore.getKey (keyID plainKey) = some (some plainKey) ∧
      (plainStore.encryptKeys []).1 = false ∧
        (plainStore.encryptKeys []).2.getKey (keyID plainKey) = none ∧
          ¬ plainStore.KeepsKeys [] := by
  have failed : (plainStore.encryptKeys []).1 = false := by rfl
  have crypted : (plainStore.encryptKeys []).2.fUseCrypto = true := by rfl
  refine ⟨by rfl, failed, by rfl, fun keeps => ?_⟩
  rw [keeps.refused failed] at crypted
  cases crypted

end CCryptoKeyStore

end CentNode
