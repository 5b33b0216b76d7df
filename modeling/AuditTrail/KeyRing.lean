import AuditTrail.Cipher.Gcm
import AuditTrail.Cipher.Sha256
import AuditTrail.Rule.Basic

/-!
# Key rings and encrypted values

An encrypted value is a blob: the nonce followed by the sealed text, and in
front of both, if it was asked for, the hash of the plain text. A key ring holds
keys under names. It encrypts with the active one and decrypts with any, so that
values stay readable after another key became the active one.
-/

namespace AuditTrail

/-- The number of bytes of the hash in front of a blob. -/
def hashLength : Nat := 32

/-- The number of bytes of a nonce. -/
def nonceLength : Nat := 12

/-- A key of 32 bytes. -/
structure CipherKey where
  bytes : List UInt8
  size_eq : bytes.length = 32
  deriving DecidableEq

/-- The key with the given bytes, if there are 32. -/
def CipherKey.ofBytes? (bytes : List UInt8) : Option CipherKey :=
  if h : bytes.length = 32 then some ⟨bytes, h⟩ else none

/-- A nonce of 12 bytes. -/
structure Nonce where
  bytes : List UInt8
  size_eq : bytes.length = 12
  deriving DecidableEq

/-- Bytes cut into a nonce and the bytes behind it; there must be enough of
them. -/
def Nonce.cut (bytes : List UInt8) (enough : nonceLength ≤ bytes.length) :
    Nonce × List UInt8 :=
  (⟨bytes.take nonceLength, List.length_take_of_le enough⟩,
    bytes.drop nonceLength)

/-- The nonce that is a number in 12 bytes. -/
def Nonce.ofNat (n : Nat) : Nonce :=
  ⟨(List.range 12).map fun i => UInt8.ofNat (n / Nat.pow 256 (11 - i)), by simp⟩

/-- Keys under names, each name once, and the name of the key that encrypts. -/
structure KeyRing where
  active : String
  keys : List (String × CipherKey)

namespace KeyRing

/-- A ring of one key, which is the active one. -/
def single (keyId : String) (key : CipherKey) : KeyRing :=
  ⟨keyId, [(keyId, key)]⟩

/-- A list of keys with one put under a name, replacing the one that was
there. -/
def putKey (keyId : String) (key : CipherKey) :
    List (String × CipherKey) → List (String × CipherKey)
  | [] => [(keyId, key)]
  | (id, k) :: rest =>
      if id = keyId then (keyId, key) :: rest
      else (id, k) :: putKey keyId key rest

/-- The ring with a key put under a name. -/
def addKey (ring : KeyRing) (keyId : String) (key : CipherKey) : KeyRing :=
  { ring with keys := putKey keyId key ring.keys }

/-- The key under a name. -/
def find? (ring : KeyRing) (keyId : String) : Option CipherKey :=
  ring.keys.lookup keyId

/-- A key put on the ring is found under its name, and the others stay. -/
theorem find?_addKey (ring : KeyRing) (keyId other : String) (key : CipherKey) :
    (ring.addKey keyId key).find? other =
      if other = keyId then some key else ring.find? other := by
  simp only [find?, addKey]
  induction ring.keys with
  | nil => rw [putKey, Named.lookup_cons]
  | cons entry rest ih =>
    obtain ⟨id, k⟩ := entry
    rw [putKey, Named.lookup_cons]
    by_cases hid : id = keyId
    · subst hid
      split <;> simp_all [Named.lookup_cons]
    · by_cases h : other = id
      · subst h
        simp [hid]
      · simp [Named.lookup_cons, hid, h, ih]

/-- The ring with another active key, which must be on the ring. -/
def rotateTo (ring : KeyRing) (keyId : String) : Except AuditError KeyRing :=
  match ring.find? keyId with
  | some _ => .ok { ring with active := keyId }
  | none => .error (.config (.unknownKey keyId))

/-- The keys in the order in which they are tried: the active one first. -/
def trials (ring : KeyRing) : List CipherKey :=
  (ring.find? ring.active).toList ++
    (ring.keys.filter fun entry => entry.1 != ring.active).map Prod.snd

/-- The blob of a text under the active key. -/
def encrypt (ring : KeyRing) (nonce : Nonce) (plain : String)
    (includeHash : Bool) : Except AuditError (List UInt8) :=
  match ring.find? ring.active with
  | none => .error (.config (.activeKeyMissing ring.active))
  | some key =>
    let bytes := Utf8.encode plain
    let hash := if includeHash then Sha256.digest bytes else []
    .ok (hash ++ nonce.bytes ++ Gcm.sealText key.bytes nonce.bytes bytes)

/-- The text that a blob without its hash encrypts. The hash, if there is one,
is checked before the bytes are read as text. The size is that of the whole
blob, for the error. -/
def decryptBody (ring : KeyRing) (size : Nat) (hash : Option (List UInt8))
    (body : List UInt8) : Except DecryptionFault String :=
  if short : body.length < nonceLength then .error (.missingNonce size)
  else
    let (nonce, sealedText) := Nonce.cut body (Nat.le_of_not_lt short)
    match ring.trials.findSome? fun key =>
        Gcm.openText? key.bytes nonce.bytes sealedText with
    | none => .error .noKeyOpens
    | some plain =>
      if hash.any (Sha256.digest plain != ·) then .error .hashMismatch
      else match Utf8.decode plain with
        | .ok text => .ok text
        | .error fault => .error (.notText fault)

/-- A blob cut into its hash and the bytes behind it; there must be enough of
them. -/
def cutHash (blob : List UInt8) (_enough : hashLength ≤ blob.length) :
    List UInt8 × List UInt8 :=
  (blob.take hashLength, blob.drop hashLength)

/-- The text that a blob encrypts. -/
def decryptBlob (ring : KeyRing) (blob : List UInt8) (includesHash : Bool) :
    Except DecryptionFault String :=
  if includesHash then
    if short : blob.length < hashLength then
      .error (.shorterThanHash blob.length)
    else
      let (hash, body) := cutHash blob (Nat.le_of_not_lt short)
      ring.decryptBody blob.length (some hash) body
  else ring.decryptBody blob.length none blob

/-- The text that a stored value encrypts; no value has no text. -/
def decrypt (ring : KeyRing) (blob : Option (List UInt8))
    (includesHash : Bool) : Except AuditError (Option String) :=
  match blob with
  | none => .ok none
  | some blob =>
    match ring.decryptBlob blob includesHash with
    | .ok text => .ok (some text)
    | .error fault => .error (.decryption fault)

/-- The ring as a way to decrypt stored values. -/
def decryption (ring : KeyRing) : Decryption := ⟨ring.decrypt⟩

end KeyRing
end AuditTrail
