import AuditTrail.KeyRing
import AuditTrail.Proofs.Cipher.Sealing
import AuditTrail.Proofs.Text.Utf8
import Mathlib.Data.List.Perm.Basic

/-!
# What a key ring decrypts

A blob is a hash if one was asked for, a nonce and a sealed text, one behind
another without marks between them, so where it is cut is a matter of lengths.
A blob that is too short is refused before it is cut (`decryptBlob_of_short`).
Any other falls into its three parts in one way (`exists_parts`), and what comes
of it depends on them and on what the ring opens (`decryptBlob_append`).

The keys are tried one after another, the active one first and the others in
whatever order they are kept. The order could only be seen if two keys opened
the same sealed text. Where they do not, the ring opens a sealed text exactly if
one of its keys does (`open?_eq_some_iff`), and neither the order nor the choice
of the active key makes a difference.
-/

namespace AuditTrail.KeyRing

variable {ring : KeyRing} {hash nonce sealedText blob : List UInt8}
  {hashed : Bool}

/-! ## The keys of a ring -/

/-- No name has two keys. -/
def OneEach (ring : KeyRing) : Prop := (ring.keys.map Prod.fst).Nodup

/-- A key is on the ring under some name. -/
def Registered (ring : KeyRing) (key : CipherKey) : Prop :=
  ∃ keyId, ring.find? keyId = some key

theorem OneEach.registered_iff (honce : ring.OneEach) {key : CipherKey} :
    ring.Registered key ↔ ∃ keyId, (keyId, key) ∈ ring.keys :=
  exists_congr fun _ => (Named.mem_iff_lookup honce).symm

/-- Just the keys on the ring are tried. -/
theorem OneEach.mem_trials (honce : ring.OneEach) {key : CipherKey} :
    key ∈ ring.trials ↔ ring.Registered key := by
  rw [trials, List.mem_append, Option.mem_toList, List.mem_map]
  constructor
  · rintro (hactive | ⟨⟨keyId, _⟩, hmem, rfl⟩)
    · exact ⟨ring.active, hactive⟩
    · exact honce.registered_iff.mpr ⟨keyId, (List.mem_filter.mp hmem).1⟩
  · rintro ⟨keyId, hfound⟩
    by_cases hactive : keyId = ring.active
    · exact .inl (hactive ▸ hfound)
    · have hmem := (Named.mem_iff_lookup honce).mpr hfound
      exact .inr ⟨(keyId, key),
        List.mem_filter.mpr ⟨hmem, bne_iff_ne.mpr hactive⟩, rfl⟩

theorem OneEach.perm {other : KeyRing} (honce : ring.OneEach)
    (hperm : other.keys.Perm ring.keys) : other.OneEach :=
  (hperm.map Prod.fst).nodup_iff.mpr honce

theorem OneEach.registered_perm {other : KeyRing} (honce : ring.OneEach)
    (hperm : other.keys.Perm ring.keys) {key : CipherKey} :
    other.Registered key ↔ ring.Registered key := by
  rw [(honce.perm hperm).registered_iff, honce.registered_iff]
  exact exists_congr fun _ => hperm.mem_iff

/-! ## Opening -/

/-- What the first key that opens a sealed text makes of it. -/
def open? (ring : KeyRing) (nonce sealedText : List UInt8) :
    Option (List UInt8) :=
  ring.trials.findSome? fun key => Gcm.openText? key.bytes nonce sealedText

/-- Not two different keys of the ring open a sealed text. -/
def OpensOnce (ring : KeyRing) (nonce sealedText : List UInt8) : Prop :=
  ∀ key other, ring.Registered key → ring.Registered other →
    (Gcm.openText? key.bytes nonce sealedText).isSome →
      (Gcm.openText? other.bytes nonce sealedText).isSome → key = other

theorem OneEach.open?_eq_some_iff (honce : ring.OneEach)
    (hopens : ring.OpensOnce nonce sealedText) {plain : List UInt8} :
    ring.open? nonce sealedText = some plain ↔
      ∃ key, ring.Registered key ∧
        Gcm.openText? key.bytes nonce sealedText = some plain := by
  constructor
  · intro hopened
    obtain ⟨key, hmem, hkey⟩ := List.exists_of_findSome?_eq_some hopened
    exact ⟨key, honce.mem_trials.mp hmem, hkey⟩
  · rintro ⟨key, hregistered, hkey⟩
    obtain ⟨found, hfound⟩ : ∃ found, ring.open? nonce sealedText =
        some found :=
      Option.isSome_iff_exists.mp (List.findSome?_isSome_iff.mpr
        ⟨key, honce.mem_trials.mpr hregistered, Option.isSome_of_eq_some hkey⟩)
    -- The key that was found first need not be the given one, but it opens the
    -- same sealed text.
    obtain ⟨other, hmem, hother⟩ := List.exists_of_findSome?_eq_some hfound
    obtain rfl := hopens key other hregistered (honce.mem_trials.mp hmem)
      (Option.isSome_of_eq_some hkey) (Option.isSome_of_eq_some hother)
    rw [hfound, ← hother, hkey]

theorem OneEach.open?_perm {other : KeyRing} (honce : ring.OneEach)
    (hperm : other.keys.Perm ring.keys)
    (hopens : ring.OpensOnce nonce sealedText) :
    other.open? nonce sealedText = ring.open? nonce sealedText := by
  have hregistered (key : CipherKey) : other.Registered key ↔
      ring.Registered key :=
    honce.registered_perm hperm
  have hopensOther : other.OpensOnce nonce sealedText :=
    fun key another hkey hanother =>
      hopens key another ((hregistered key).mp hkey)
        ((hregistered another).mp hanother)
  refine Option.ext fun plain => ?_
  rw [(honce.perm hperm).open?_eq_some_iff hopensOther,
    honce.open?_eq_some_iff hopens]
  exact exists_congr fun key => and_congr_left fun _ => hregistered key

/-! ## The parts of a blob -/

/-- The number of bytes in front of the nonce. -/
def frontLength (hashed : Bool) : Nat := if hashed then hashLength else 0

/-- The hash in front of the nonce, if it was asked for. -/
def front (hashed : Bool) (plain : List UInt8) : List UInt8 :=
  if hashed then Sha256.digest plain else []

theorem length_front (hashed : Bool) (plain : List UInt8) :
    (front hashed plain).length = frontLength hashed := by
  cases hashed with
  | false => rfl
  | true => exact Sha256.length_digest plain

/-- What comes of the parts of a blob once it is opened. -/
def reading (hashed : Bool) (hash : List UInt8) :
    Option (List UInt8) → Except DecryptionFault String
  | none => .error .noKeyOpens
  | some plain =>
    if hashed && Sha256.digest plain != hash then .error .hashMismatch
    else match Utf8.decode plain with
      | .ok text => .ok text
      | .error fault => .error (.notText fault)

theorem reading_eq_ok_iff (hhash : hash.length = frontLength hashed)
    {opened : Option (List UInt8)} {text : String} :
    reading hashed hash opened = .ok text ↔
      opened = some (Utf8.encode text) ∧
        hash = front hashed (Utf8.encode text) := by
  cases opened with
  | none => exact iff_of_false nofun nofun
  | some plain =>
      have hmatches :
          (hashed && Sha256.digest plain != hash) = false ↔
            hash = front hashed plain := by
        cases hashed with
        | false => exact iff_of_true rfl (List.eq_nil_of_length_eq_zero hhash)
        | true =>
            rw [Bool.true_and, bne_eq_false_iff_eq, eq_comm]
            rfl
      rw [reading, Option.some.injEq]
      split
      · next hmismatch =>
          refine iff_of_false nofun ?_
          rintro ⟨rfl, hfront⟩
          rw [hmatches.mpr hfront] at hmismatch
          cases hmismatch
      · next hmatch =>
          have hfront := hmatches.mp (Bool.eq_false_iff.mpr hmatch)
          rw [← Utf8.decode_eq_ok_iff]
          cases hread : Utf8.decode plain with
          | error fault => exact iff_of_false nofun fun h => nomatch h.1
          | ok read =>
              rw [Except.ok.injEq, Except.ok.injEq]
              refine ⟨?_, And.left⟩
              rintro rfl
              exact ⟨rfl, Utf8.decode_eq_ok_iff.mp hread ▸ hfront⟩

theorem decryptBody_append (hnonce : nonce.length = nonceLength) (size : Nat)
    (hash : Option (List UInt8)) :
    ring.decryptBody size hash (nonce ++ sealedText) =
      reading hash.isSome (hash.getD []) (ring.open? nonce sealedText) := by
  have hlong : ¬ (nonce ++ sealedText).length < nonceLength := by
    rw [List.length_append]
    omega
  rw [decryptBody, dif_neg hlong]
  simp only [Nonce.cut, List.take_left' hnonce, List.drop_left' hnonce]
  change (match ring.open? nonce sealedText with
    | none => _
    | some plain => _) = _
  cases ring.open? nonce sealedText with
  | none => rfl
  | some plain => cases hash <;> rfl

/-- What comes of a blob is up to its parts and to what the ring opens. -/
theorem decryptBlob_append (hhash : hash.length = frontLength hashed)
    (hnonce : nonce.length = nonceLength) :
    ring.decryptBlob (hash ++ nonce ++ sealedText) hashed =
      reading hashed hash (ring.open? nonce sealedText) := by
  rw [decryptBlob, List.append_assoc]
  cases hashed with
  | false =>
      obtain rfl := List.eq_nil_of_length_eq_zero hhash
      exact decryptBody_append hnonce _ none
  | true =>
      have hhash : hash.length = hashLength := hhash
      have hlong : ¬ (hash ++ (nonce ++ sealedText)).length < hashLength := by
        rw [List.length_append]
        omega
      rw [if_pos rfl, dif_neg hlong]
      simp only [cutHash, List.take_left' hhash, List.drop_left' hhash]
      exact decryptBody_append hnonce _ (some hash)

/-- A blob that is too short is refused. -/
theorem decryptBlob_of_short
    (hshort : blob.length < frontLength hashed + nonceLength) :
    ring.decryptBlob blob hashed =
      .error (if blob.length < frontLength hashed then
        .shorterThanHash blob.length else .missingNonce blob.length) := by
  have hbody (size : Nat) (hash : Option (List UInt8)) {body : List UInt8}
      (hbody : body.length < nonceLength) :
      ring.decryptBody size hash body = .error (.missingNonce size) := by
    rw [decryptBody, dif_pos hbody]
  rw [decryptBlob]
  cases hashed with
  | false =>
      exact hbody _ _
        (by rwa [frontLength, if_neg nofun, Nat.zero_add] at hshort)
  | true =>
      have hshort : blob.length < hashLength + nonceLength := hshort
      rw [if_pos rfl, frontLength, if_pos rfl]
      by_cases hhash : blob.length < hashLength
      · rw [dif_pos hhash, if_pos hhash]
      · rw [dif_neg hhash, if_neg hhash]
        exact hbody _ _ (by rw [List.length_drop]; omega)

/-- A blob that is long enough has all its parts. -/
theorem exists_parts (hlong : frontLength hashed + nonceLength ≤ blob.length) :
    ∃ hash nonce sealedText, blob = hash ++ nonce ++ sealedText ∧
      hash.length = frontLength hashed ∧ nonce.length = nonceLength := by
  refine ⟨blob.take (frontLength hashed),
    (blob.drop (frontLength hashed)).take nonceLength,
    (blob.drop (frontLength hashed)).drop nonceLength, ?_, ?_, ?_⟩
  · rw [List.append_assoc, List.take_append_drop, List.take_append_drop]
  · exact List.length_take_of_le (by omega)
  · exact List.length_take_of_le (by rw [List.length_drop]; omega)

/-- A blob has only one choice of parts. -/
theorem parts_inj {hash' nonce' sealedText' : List UInt8}
    (hparts : hash ++ nonce ++ sealedText = hash' ++ nonce' ++ sealedText')
    (hhash : hash.length = hash'.length)
    (hnonce : nonce.length = nonce'.length) :
    hash = hash' ∧ nonce = nonce' ∧ sealedText = sealedText' := by
  obtain ⟨hfronts, rfl⟩ := List.append_inj hparts (by
    rw [List.length_append, List.length_append, hhash, hnonce])
  obtain ⟨rfl, rfl⟩ := List.append_inj hfronts hhash
  exact ⟨rfl, rfl, rfl⟩

/-! ## The text of a blob -/

/-- A blob holds a text: behind the hash of the text, if it was asked for, and a
nonce there is what a key of the ring opens to the bytes of the text. -/
def Holds (ring : KeyRing) (hashed : Bool) (blob : List UInt8) (text : String) :
    Prop :=
  ∃ nonce sealedText key,
    blob = front hashed (Utf8.encode text) ++ nonce ++ sealedText ∧
      nonce.length = nonceLength ∧ ring.Registered key ∧
      Gcm.openText? key.bytes nonce sealedText = some (Utf8.encode text)

theorem OneEach.decryptBlob_eq_ok_iff (honce : ring.OneEach)
    (hopens : ∀ hash nonce sealedText, blob = hash ++ nonce ++ sealedText →
      hash.length = frontLength hashed → nonce.length = nonceLength →
        ring.OpensOnce nonce sealedText) {text : String} :
    ring.decryptBlob blob hashed = .ok text ↔ ring.Holds hashed blob text := by
  by_cases hlong : frontLength hashed + nonceLength ≤ blob.length
  · obtain ⟨hash, nonce, sealedText, rfl, hhash, hnonce⟩ := exists_parts hlong
    have hopens := hopens hash nonce sealedText rfl hhash hnonce
    -- The hash is taken of what was opened, so it is that of the text only
    -- together with it.
    rw [decryptBlob_append hhash hnonce, reading_eq_ok_iff hhash,
      honce.open?_eq_some_iff hopens]
    constructor
    · rintro ⟨⟨key, hregistered, hkey⟩, rfl⟩
      exact ⟨nonce, sealedText, key, rfl, hnonce, hregistered, hkey⟩
    · rintro ⟨other, others, key, hparts, hother, hregistered, hkey⟩
      obtain ⟨rfl, rfl, rfl⟩ := parts_inj hparts (by rw [hhash, length_front])
        (by rw [hnonce, hother])
      exact ⟨⟨key, hregistered, hkey⟩, rfl⟩
  · rw [decryptBlob_of_short (Nat.lt_of_not_le hlong)]
    refine iff_of_false nofun ?_
    rintro ⟨nonce, sealedText, key, rfl, hnonce, -, -⟩
    refine hlong ?_
    rw [List.length_append, List.length_append, length_front, hnonce]
    exact Nat.le_add_right _ _

theorem decrypt_eq_ok_iff {text : String} :
    ring.decrypt (some blob) hashed = .ok (some text) ↔
      ring.decryptBlob blob hashed = .ok text := by
  cases hread : ring.decryptBlob blob hashed with
  | ok read =>
      rw [decrypt, hread, Except.ok.injEq, Except.ok.injEq, Option.some.injEq]
  | error fault =>
      rw [decrypt, hread]
      exact iff_of_false nofun nofun

theorem decryptBlob_congr {other : KeyRing}
    (hsame : ∀ hash nonce sealedText, blob = hash ++ nonce ++ sealedText →
      hash.length = frontLength hashed → nonce.length = nonceLength →
        other.open? nonce sealedText = ring.open? nonce sealedText) :
    other.decryptBlob blob hashed = ring.decryptBlob blob hashed := by
  by_cases hlong : frontLength hashed + nonceLength ≤ blob.length
  · obtain ⟨hash, nonce, sealedText, rfl, hhash, hnonce⟩ := exists_parts hlong
    rw [decryptBlob_append hhash hnonce, decryptBlob_append hhash hnonce,
      hsame hash nonce sealedText rfl hhash hnonce]
  · rw [decryptBlob_of_short (Nat.lt_of_not_le hlong),
      decryptBlob_of_short (Nat.lt_of_not_le hlong)]

/-- If no two different keys of the ring open what is sealed in a blob, the ring
decrypts the blob to the text that it holds. A blob that holds no text fails as
a decryption, and does so before it is cut if it is too short for its parts.
Neither the order in which the keys are kept nor which of them is the active one
makes a difference. -/
theorem decrypts_exactly_blobs (ring : KeyRing) (honce : ring.OneEach)
    (blob : List UInt8) (hashed : Bool)
    (hopens : ∀ hash nonce sealedText, blob = hash ++ nonce ++ sealedText →
      hash.length = frontLength hashed → nonce.length = nonceLength →
        ring.OpensOnce nonce sealedText) :
    (∀ text, ring.decrypt (some blob) hashed = .ok (some text) ↔
      ring.Holds hashed blob text) ∧
    ((∀ text, ¬ ring.Holds hashed blob text) →
      ∃ fault, ring.decrypt (some blob) hashed = .error (.decryption fault)) ∧
    (blob.length < frontLength hashed + nonceLength →
      ring.decrypt (some blob) hashed =
        .error (.decryption (if blob.length < frontLength hashed
          then .shorterThanHash blob.length else .missingNonce blob.length))) ∧
    ring.decrypt none hashed = .ok none ∧
    ∀ other : KeyRing, other.keys.Perm ring.keys →
      other.decrypt (some blob) hashed = ring.decrypt (some blob) hashed := by
  refine
    ⟨fun text => decrypt_eq_ok_iff.trans (honce.decryptBlob_eq_ok_iff hopens),
      fun hholds => ?_, fun hshort => ?_, rfl, fun other hperm => ?_⟩
  · cases hread : ring.decryptBlob blob hashed with
    | ok text =>
        exact absurd ((honce.decryptBlob_eq_ok_iff hopens).mp hread)
          (hholds text)
    | error fault => exact ⟨fault, by rw [decrypt, hread]⟩
  · rw [decrypt, decryptBlob_of_short hshort]
  · have hsame : other.decryptBlob blob hashed = ring.decryptBlob blob hashed :=
      decryptBlob_congr fun hash nonce sealedText hparts hhash hnonce =>
        honce.open?_perm hperm
          (hopens hash nonce sealedText hparts hhash hnonce)
    rw [decrypt, decrypt, hsame]

namespace Sample

/-- A key that was active once. -/
def oldKey : CipherKey := ⟨List.replicate 32 0x42, rfl⟩

/-- The key that took its place. -/
def newKey : CipherKey := ⟨List.replicate 32 0x7A, rfl⟩

/-- The nonce of the note. -/
def noteNonce : Nonce := Nonce.ofNat 7

/-- A ring on which the new key is active and the old one has stayed. -/
def rotated : KeyRing := ⟨"key-2", [("key-1", oldKey), ("key-2", newKey)]⟩

/-- The shortest blob there is with a hash: that of an empty note. -/
def note : List UInt8 :=
  front true [] ++ noteNonce.bytes ++
    Gcm.sealText oldKey.bytes noteNonce.bytes []

theorem encode_note : Utf8.encode "" = [] := Utf8.encode_ofList []

theorem newKey_refuses :
    Gcm.openText? newKey.bytes noteNonce.bytes
      (Gcm.sealText oldKey.bytes noteNonce.bytes []) = none := by
  decide +kernel

theorem registered_rotated {key : CipherKey} (hkey : rotated.Registered key) :
    key = oldKey ∨ key = newKey := by
  obtain ⟨keyId, hfound⟩ := hkey
  simp only [rotated, find?, Named.lookup_cons] at hfound
  split at hfound
  · exact .inl (Option.some.inj hfound).symm
  · split at hfound
    · exact .inr (Option.some.inj hfound).symm
    · cases hfound

end Sample

open Sample in
/-- What was encrypted under the old key is still read when the new one is
active. -/
theorem decrypts_exactly_blobs_rotated :
    rotated.OneEach ∧
      (∀ hash nonce sealedText, note = hash ++ nonce ++ sealedText →
        hash.length = frontLength true → nonce.length = nonceLength →
          rotated.OpensOnce nonce sealedText) ∧
      rotated.decrypt (some note) true = .ok (some "") := by
  have honce : rotated.OneEach := by
    unfold OneEach
    decide
  have hopens : ∀ hash nonce sealedText, note = hash ++ nonce ++ sealedText →
      hash.length = frontLength true → nonce.length = nonceLength →
        rotated.OpensOnce nonce sealedText := by
    intro hash nonce sealedText hparts hhash hnonce
    obtain ⟨-, rfl, rfl⟩ := parts_inj hparts (by rw [length_front, hhash])
      (noteNonce.size_eq.trans hnonce.symm)
    intro key other hkey hother hopensKey hopensOther
    rcases registered_rotated hkey with rfl | rfl
    · rcases registered_rotated hother with rfl | rfl
      · rfl
      · rw [newKey_refuses] at hopensOther
        cases hopensOther
    · rw [newKey_refuses] at hopensKey
      cases hopensKey
  refine ⟨honce, hopens, ?_⟩
  refine ((decrypts_exactly_blobs rotated honce note true hopens).1 "").mpr ?_
  refine ⟨noteNonce.bytes, Gcm.sealText oldKey.bytes noteNonce.bytes [], oldKey,
    ?_, noteNonce.size_eq, ⟨"key-1", rfl⟩, ?_⟩
  · rw [encode_note]
    rfl
  · rw [encode_note]
    exact Gcm.openText?_sealText oldKey.size_eq noteNonce.size_eq []

end AuditTrail.KeyRing
