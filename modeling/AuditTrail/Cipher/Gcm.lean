import AuditTrail.Cipher.Aes256

/-!
# AES-256-GCM

Galois/counter mode of NIST SP 800-38D with nonces of twelve bytes, tags of
sixteen bytes and no associated data. A sealed text is the encrypted text
followed by the tag; opening it checks the tag first.
-/

namespace AuditTrail.Gcm

/-- The number of bytes of a tag. -/
def tagLength : Nat := 16

/-- The block of sixteen bytes as a polynomial whose lowest power is the first
bit. -/
def ofBlock (block : List UInt8) : BitVec 128 :=
  block.foldl (fun n b => (n <<< 8) ||| BitVec.ofNat 128 b.toNat) 0

/-- The sixteen bytes of a polynomial. -/
def toBlock (x : BitVec 128) : List UInt8 :=
  (List.range 16).map fun i => UInt8.ofNat (x.toNat / Nat.pow 256 (15 - i))

/-- A polynomial times the unknown, reduced. -/
def shift (x : BitVec 128) : BitVec 128 :=
  if x.getLsbD 0 then (x >>> 1) ^^^ (BitVec.ofNat 128 0xe1 <<< 120) else x >>> 1

/-- The sum of the multiples of a polynomial that the bits from the given one on
select. -/
def multiply (x : BitVec 128) : Nat → BitVec 128 → BitVec 128 → BitVec 128
  | 0, _, sum => sum
  | n + 1, y, sum =>
      multiply x n (shift y) (if x.getLsbD n then sum ^^^ y else sum)

/-- The product of two polynomials in the field. -/
def product (x y : BitVec 128) : BitVec 128 := multiply x 128 y 0

/-- The hash of blocks: each is added and the sum multiplied by the hash key. A
last block that is too short is filled with zeros. -/
def hashBlocks (key : BitVec 128) : Nat → List UInt8 → BitVec 128 → BitVec 128
  | 0, _, sum => sum
  | n + 1, bytes, sum =>
    let block := bytes.take 16
    let filled := block ++ List.replicate (16 - block.length) 0
    hashBlocks key n (bytes.drop 16) (product (sum ^^^ ofBlock filled) key)

/-- The number of blocks that a number of bytes needs. -/
def blockCount (length : Nat) : Nat := (length + 15) / 16

/-- The hash of an encrypted text and its length. -/
def hash (key : BitVec 128) (encrypted : List UInt8) : BitVec 128 :=
  let sum := hashBlocks key (blockCount encrypted.length) encrypted 0
  product (sum ^^^ BitVec.ofNat 128 (8 * encrypted.length)) key

/-- The block that counts the use of a nonce. -/
def counterBlock (nonce : List UInt8) (counter : Nat) : List UInt8 :=
  nonce ++ (List.range 4).map fun i =>
    UInt8.ofNat (counter / Nat.pow 256 (3 - i))

/-- The first bytes of the key stream from a counter on, sixteen for each
block. -/
def keyStream (keys : List (List UInt8)) (nonce : List UInt8) :
    Nat → Nat → List UInt8
  | 0, _ => []
  | n + 1, counter =>
      Aes256.encrypt keys (counterBlock nonce counter) ++
        keyStream keys nonce n (counter + 1)

/-- The bytes with the key stream added. Adding it twice changes nothing. -/
def mask (keys : List (List UInt8)) (nonce bytes : List UInt8) : List UInt8 :=
  Aes256.xor bytes (keyStream keys nonce (blockCount bytes.length) 2)

/-- The tag of an encrypted text. -/
def tag (keys : List (List UInt8)) (nonce encrypted : List UInt8) :
    List UInt8 :=
  let key := ofBlock (Aes256.encrypt keys (List.replicate 16 0))
  Aes256.xor (toBlock (hash key encrypted))
    (Aes256.encrypt keys (counterBlock nonce 1))

/-- A text sealed under a key with a nonce. -/
def sealText (key nonce plain : List UInt8) : List UInt8 :=
  let keys := Aes256.roundKeys key
  let encrypted := mask keys nonce plain
  encrypted ++ tag keys nonce encrypted

/-- The text of a sealed text, if the tag is the right one. -/
def openText? (key nonce sealedText : List UInt8) : Option (List UInt8) :=
  if sealedText.length < tagLength then none
  else
    let keys := Aes256.roundKeys key
    let encrypted := sealedText.take (sealedText.length - tagLength)
    if sealedText.drop (sealedText.length - tagLength) =
        tag keys nonce encrypted then
      some (mask keys nonce encrypted)
    else none

end AuditTrail.Gcm
