import AuditTrail.Proofs.KeyRing.Blobs
import Mathlib.Data.List.Nodup

/-!
# Encrypted values survive the rotation of keys

Keys are put on a ring, and another one is made the active key, in any order and
as often as one likes. No call takes a key off: a name that has a key keeps one,
so the active key is always there (`Sound.run`), and the key of a name stays the
same for as long as no other is put under that name (`find?_run`).

A blob that was encrypted under a key opens under it, which key is active then
being of no importance. That it is read takes one thing more, that no other key
on the ring opens it as well, since that one could be tried first.
-/

namespace AuditTrail

/-- A call that changes a key ring. -/
inductive KeyCall where
  | add (keyId : String) (key : CipherKey)
  | rotate (keyId : String)

namespace KeyRing

variable {ring : KeyRing} {keyId : String} {key : CipherKey}

/-- What a call does to a ring, and what it answers. -/
def call (ring : KeyRing) : KeyCall → KeyRing × Except AuditError Unit
  | .add keyId key => (ring.addKey keyId key, .ok ())
  | .rotate keyId =>
    match ring.rotateTo keyId with
    | .ok rotated => (rotated, .ok ())
    | .error e => (ring, .error e)

/-- The ring after calls. -/
def run (ring : KeyRing) : List KeyCall → KeyRing
  | [] => ring
  | first :: rest => (ring.call first).1.run rest

/-! ## What calls do to a ring -/

theorem call_rotate_of_found (hfound : ring.find? keyId = some key) :
    ring.call (.rotate keyId) = ({ ring with active := keyId }, .ok ()) := by
  rw [call, rotateTo, hfound]

theorem call_rotate_of_missing (hmissing : ring.find? keyId = none) :
    ring.call (.rotate keyId) =
      (ring, .error (.config (.unknownKey keyId))) := by
  rw [call, rotateTo, hmissing]

theorem rotate_fails_iff :
    (∃ e, (ring.call (.rotate keyId)).2 = .error e) ↔
      ring.find? keyId = none := by
  cases hfound : ring.find? keyId with
  | none =>
      rw [call_rotate_of_missing hfound]
      exact iff_of_true ⟨_, rfl⟩ rfl
  | some key =>
      rw [call_rotate_of_found hfound]
      exact iff_of_false (fun ⟨_, herror⟩ => nomatch herror) nofun

/-- A call changes what is found under a name only by putting a key there. -/
theorem find?_call (c : KeyCall) : (ring.call c).1.find? keyId =
    match c with
    | .add other key => if keyId = other then some key else ring.find? keyId
    | .rotate _ => ring.find? keyId := by
  cases c with
  | add other key => exact find?_addKey ring other keyId key
  | rotate other =>
      cases hfound : ring.find? other with
      | none => rw [call_rotate_of_missing hfound]
      | some key =>
          rw [call_rotate_of_found hfound]
          rfl

/-- A name keeps its key until another one is put there. -/
theorem find?_run (calls : List KeyCall) :
    ∀ ring : KeyRing, ring.find? keyId = some key →
      (∀ other, KeyCall.add keyId other ∈ calls → other = key) →
        (ring.run calls).find? keyId = some key := by
  induction calls with
  | nil => exact fun ring hfound _ => hfound
  | cons c rest ih =>
      intro ring hfound hkeeps
      refine ih (ring.call c).1 ?_ fun other hmem =>
        hkeeps other (List.mem_cons_of_mem c hmem)
      rw [find?_call]
      split
      · next other added =>
          split
          -- A key was put under the name, but it is the one that was there.
          · next hsame =>
              subst hsame
              rw [hkeeps added List.mem_cons_self]
          · exact hfound
      · exact hfound

theorem mem_names_putKey {name : String} {keys : List (String × CipherKey)} :
    name ∈ (putKey keyId key keys).map Prod.fst ↔
      name = keyId ∨ name ∈ keys.map Prod.fst := by
  induction keys with
  | nil => simp [putKey]
  | cons entry rest ih =>
      obtain ⟨id, k⟩ := entry
      rw [putKey]
      split
      · next hsame => simp [hsame]
      · rw [List.map_cons, List.mem_cons, ih, List.map_cons, List.mem_cons,
          or_left_comm]

theorem nodup_putKey {keys : List (String × CipherKey)}
    (hkeys : (keys.map Prod.fst).Nodup) :
    ((putKey keyId key keys).map Prod.fst).Nodup := by
  induction keys with
  | nil => exact List.nodup_singleton _
  | cons entry rest ih =>
      obtain ⟨id, k⟩ := entry
      obtain ⟨hid, hrest⟩ := List.nodup_cons.mp hkeys
      rw [putKey]
      split
      · next hsame => exact hsame ▸ hkeys
      · next hother =>
          refine List.nodup_cons.mpr ⟨?_, ih hrest⟩
          rw [mem_names_putKey]
          exact not_or.mpr ⟨hother, hid⟩

/-! ## The active key -/

/-- No name has two keys, and the name of the active key has one. -/
structure Sound (ring : KeyRing) : Prop where
  once : ring.OneEach
  active : ∃ key, ring.find? ring.active = some key

theorem sound_single (keyId : String) (key : CipherKey) :
    (single keyId key).Sound where
  once := List.nodup_singleton _
  active := ⟨key, by rw [single, find?, Named.lookup_cons, if_pos rfl]⟩

theorem Sound.call (hsound : ring.Sound) (c : KeyCall) :
    (ring.call c).1.Sound := by
  cases c with
  | add keyId key =>
      obtain ⟨active, hactive⟩ := hsound.active
      refine ⟨nodup_putKey hsound.once, ?_⟩
      have hfound : (ring.addKey keyId key).find? ring.active =
          if ring.active = keyId then some key else some active :=
        hactive ▸ find?_addKey ring keyId ring.active key
      by_cases hsame : ring.active = keyId
      · exact ⟨key, hfound.trans (if_pos hsame)⟩
      · exact ⟨active, hfound.trans (if_neg hsame)⟩
  | rotate keyId =>
      cases hfound : ring.find? keyId with
      | none => rwa [call_rotate_of_missing hfound]
      | some key =>
          rw [call_rotate_of_found hfound]
          exact ⟨hsound.once, key, hfound⟩

theorem Sound.run (calls : List KeyCall) :
    ∀ {ring : KeyRing}, ring.Sound → (ring.run calls).Sound := by
  induction calls with
  | nil => exact id
  | cons c rest ih => exact fun hsound => ih (hsound.call c)

/-! ## Encrypted values -/

theorem encrypt_eq (hactive : ring.find? ring.active = some key) (nonce : Nonce)
    (plain : String) (hashed : Bool) : ring.encrypt nonce plain hashed =
      .ok (front hashed (Utf8.encode plain) ++ nonce.bytes ++
        Gcm.sealText key.bytes nonce.bytes (Utf8.encode plain)) := by
  rw [encrypt, hactive]
  rfl

/-- A blob is read for as long as its key is on the ring and no other opens
it. -/
theorem OneEach.decrypt_sealed (honce : ring.OneEach)
    (hregistered : ring.Registered key) {nonce : Nonce} {plain : String}
    {hashed : Bool}
    (hothers : ∀ other, ring.Registered other → other ≠ key →
      Gcm.openText? other.bytes nonce.bytes
        (Gcm.sealText key.bytes nonce.bytes (Utf8.encode plain)) = none) :
    ring.decrypt (some (front hashed (Utf8.encode plain) ++ nonce.bytes ++
      Gcm.sealText key.bytes nonce.bytes (Utf8.encode plain))) hashed =
        .ok (some plain) := by
  have honly {other : CipherKey} (hother : ring.Registered other)
      (hopens : (Gcm.openText? other.bytes nonce.bytes
        (Gcm.sealText key.bytes nonce.bytes (Utf8.encode plain))).isSome) :
          other = key := by
    refine Decidable.byContradiction fun hne => ?_
    rw [hothers other hother hne] at hopens
    cases hopens
  refine decrypt_eq_ok_iff.mpr ((honce.decryptBlob_eq_ok_iff ?_).mpr ?_)
  · intro hash nonce' sealedText hparts hhash hnonce
    obtain ⟨-, rfl, rfl⟩ := parts_inj hparts (by rw [length_front, hhash])
      (nonce.size_eq.trans hnonce.symm)
    intro first second hfirst hsecond hopensFirst hopensSecond
    rw [honly hfirst hopensFirst, honly hsecond hopensSecond]
  · exact ⟨nonce.bytes, _, key, rfl, nonce.size_eq, hregistered,
      Gcm.openText?_sealText key.size_eq nonce.size_eq _⟩

/-- Whatever keys were put on a ring and made active before. The active key is
on the ring, and a name without a key cannot become active. So a text can be
encrypted, to a blob of known length that begins with its hash, if one was asked
for. The blob is decrypted to that text after any further calls that put no
other key under the name that was active, unless another key that is on the ring
then opens it as well. -/
theorem encrypted_survives_rotation (keyId : String) (key : CipherKey)
    (earlier : List KeyCall) :
    let ring := (single keyId key).run earlier
    (∃ active, ring.find? ring.active = some active) ∧
    (∀ other, ((∃ e, (ring.call (.rotate other)).2 = .error e) ↔
      ring.find? other = none) ∧
      ∀ e, (ring.call (.rotate other)).2 = .error e →
        (ring.call (.rotate other)).1.active = ring.active) ∧
    ∀ (plain : String) (hashed : Bool) (nonce : Nonce), ∃ sealing blob,
      ring.find? ring.active = some sealing ∧
      ring.encrypt nonce plain hashed = .ok blob ∧
      blob.length = (if hashed then 32 else 0) + 12 +
        (Utf8.encode plain).length + 16 ∧
      (hashed = true → blob.take 32 = Sha256.digest (Utf8.encode plain)) ∧
      ∀ later : List KeyCall,
        (∀ other, KeyCall.add ring.active other ∈ later → other = sealing) →
        (∀ other, (ring.run later).Registered other → other ≠ sealing →
          Gcm.openText? other.bytes nonce.bytes
            (Gcm.sealText sealing.bytes nonce.bytes (Utf8.encode plain)) =
              none) →
        (ring.run later).decrypt (some blob) hashed = .ok (some plain) := by
  intro ring
  have hsound : ring.Sound := (sound_single keyId key).run earlier
  refine ⟨hsound.active, fun other => ⟨rotate_fails_iff, fun e herror => ?_⟩,
    fun plain hashed nonce => ?_⟩
  · rw [call_rotate_of_missing (rotate_fails_iff.mp ⟨e, herror⟩)]
  · obtain ⟨sealing, hactive⟩ := hsound.active
    refine ⟨sealing, _, hactive, encrypt_eq hactive nonce plain hashed, ?_, ?_,
      fun later hkeeps hothers => ?_⟩
    · rw [List.length_append, List.length_append, length_front, nonce.size_eq,
        Gcm.length_sealText sealing.size_eq nonce.size_eq, ← Nat.add_assoc]
      rfl
    · rintro rfl
      rw [List.append_assoc]
      exact List.take_left' (length_front true _)
    · -- The key stays under the name that was active, whichever name is active
      -- later.
      have hregistered : (ring.run later).Registered sealing :=
        ⟨ring.active, find?_run later ring hactive hkeeps⟩
      exact (hsound.run later).once.decrypt_sealed hregistered hothers

namespace Sample

/-- The new key is put on the ring and becomes the active one at the second
attempt. -/
def takeover : List KeyCall :=
  [.rotate "key-2", .add "key-2" newKey, .rotate "key-2"]

theorem run_takeover : (single "key-1" oldKey).run takeover = rotated := by
  have hmissing : (single "key-1" oldKey).find? "key-2" = none := by decide
  have hfound : ((single "key-1" oldKey).addKey "key-2" newKey).find? "key-2" =
      some newKey := by
    rw [find?_addKey, if_pos rfl]
  simp only [takeover, run, call_rotate_of_missing hmissing]
  rw [call, call_rotate_of_found hfound]
  rfl

end Sample

open Sample in
/-- A note that was encrypted under the old key is still read when the new one
is active. -/
theorem encrypted_survives_rotation_note :
    ∃ blob, (single "key-1" oldKey).encrypt noteNonce "" true = .ok blob ∧
      ((single "key-1" oldKey).run takeover).active = "key-2" ∧
      ((single "key-1" oldKey).run takeover).decrypt (some blob) true =
        .ok (some "") := by
  obtain ⟨sealing, blob, hsealing, hblob, -, -, hread⟩ :=
    (encrypted_survives_rotation "key-1" oldKey []).2.2 "" true noteNonce
  obtain rfl : oldKey = sealing := Option.some.inj hsealing
  refine ⟨blob, hblob, by rw [run_takeover]; rfl, hread takeover ?_ ?_⟩
  · intro other hmem
    have hadded : KeyCall.add "key-1" other ∈ takeover := hmem
    simp [takeover] at hadded
  · intro other hother hne
    rw [show ((single "key-1" oldKey).run []).run takeover = rotated from
      run_takeover] at hother
    rcases registered_rotated hother with rfl | rfl
    · exact absurd rfl hne
    · rw [encode_note]
      exact newKey_refuses

end KeyRing
end AuditTrail
