import AuditTrail.Cipher.Gcm
import Mathlib.Algebra.BigOperators.Group.List.Basic

/-!
# A sealed text opens under its key

Sealing adds a key stream to a text and puts a tag behind it. Opening takes the
tag off, compares it with that of the bytes in front of it and adds the same
stream again (`openText?_sealText`). The tag depends on nothing but the key, the
nonce and the encrypted bytes, so it is found right. Adding the stream twice
changes nothing, provided it is as long as the text; whether it is, is all that
has to be known of the block cipher: a key of 32 bytes has round keys of sixteen
bytes (`length_of_mem_roundKeys`), and under these a block of sixteen bytes
becomes one of sixteen (`length_encrypt`).
-/

namespace AuditTrail.Aes256

/-! ## Adding twice -/

theorem length_xor (xs ys : List UInt8) :
    (xor xs ys).length = min xs.length ys.length :=
  List.length_zipWith

theorem xor_xor {xs ys : List UInt8} (hlong : xs.length ≤ ys.length) :
    xor (xor xs ys) ys = xs := by
  induction xs generalizing ys with
  | nil => rfl
  | cons x xs ih =>
      cases ys with
      | nil => cases hlong
      | cons y ys =>
          have hrest := ih (Nat.le_of_succ_le_succ hlong)
          have hfirst : x ^^^ y ^^^ y = x := by
            rw [UInt8.xor_assoc, UInt8.xor_self, UInt8.xor_zero]
          exact congrArg₂ _ hfirst hrest

/-! ## The key schedule -/

theorem pieces_spec (size : Nat) :
    ∀ (n : Nat) (bytes : List UInt8), n * size ≤ bytes.length →
    (pieces size n bytes).length = n ∧
      ∀ piece ∈ pieces size n bytes, piece.length = size := by
  intro n
  induction n with
  | zero => exact fun bytes _ => ⟨rfl, nofun⟩
  | succ n ih =>
      intro bytes hlong
      rw [Nat.succ_mul] at hlong
      obtain ⟨hcount, hsizes⟩ :=
        ih (bytes.drop size) (by rw [List.length_drop]; omega)
      refine ⟨congrArg (· + 1) hcount, List.forall_mem_cons.mpr ⟨?_, hsizes⟩⟩
      exact List.length_take_of_le (by omega)

theorem length_headD {size : Nat} {pieces : List (List UInt8)}
    (hsome : 0 < pieces.length)
    (hsizes : ∀ piece ∈ pieces, piece.length = size) :
    (pieces.headD []).length = size := by
  cases pieces with
  | nil => cases hsome
  | cons first rest => exact hsizes first List.mem_cons_self

/-- The next column is the eighth last with some column added. -/
theorem extend_succ {columns : List (List UInt8)}
    (hlatest : (columns.headD []).length = 4) (n : Nat) (constant : UInt8) :
    ∃ (next : UInt8) (added : List UInt8), added.length = 4 ∧
      extend (n + 1) constant columns =
      extend n next (xor ((columns.drop 7).headD []) added :: columns) := by
  rw [extend]
  split
  · refine ⟨_, _, ?_, rfl⟩
    simp only [length_xor, List.length_map, List.length_append,
      List.length_drop, List.length_take, hlatest]
    rfl
  · exact ⟨_, _, by rw [List.length_map, hlatest], rfl⟩
  · exact ⟨_, _, hlatest, rfl⟩

theorem extend_spec :
    ∀ (n : Nat) (constant : UInt8) (columns : List (List UInt8)),
    8 ≤ columns.length → (∀ column ∈ columns, column.length = 4) →
      (extend n constant columns).length = n + columns.length ∧
        ∀ column ∈ extend n constant columns, column.length = 4 := by
  intro n
  induction n with
  | zero =>
      exact fun constant columns _ hcolumns => ⟨(Nat.zero_add _).symm, hcolumns⟩
  | succ n ih =>
      intro constant columns hmany hcolumns
      have hlatest := length_headD (by omega) hcolumns
      have heighth : ((columns.drop 7).headD []).length = 4 :=
        length_headD (by rw [List.length_drop]; omega)
          fun column hmem => hcolumns column (List.mem_of_mem_drop hmem)
      obtain ⟨next, added, hadded, heq⟩ := extend_succ hlatest n constant
      rw [heq]
      obtain ⟨hcount, hall⟩ :=
        ih next (xor ((columns.drop 7).headD []) added :: columns)
          (by rw [List.length_cons]; omega)
          (List.forall_mem_cons.mpr
            ⟨by rw [length_xor, heighth, hadded]; rfl, hcolumns⟩)
      exact ⟨by rw [hcount, List.length_cons]; omega, hall⟩

theorem length_of_mem_roundKeys {key : List UInt8} (hkey : key.length = 32) :
    ∀ k ∈ roundKeys key, k.length = 16 := by
  obtain ⟨hcount, hsizes⟩ := pieces_spec 4 8 key (by omega)
  obtain ⟨hcolumns, hfour⟩ := extend_spec 52 1 (pieces 4 8 key).reverse
    (Nat.le_of_eq (List.length_reverse.trans hcount).symm)
    (fun column hmem => hsizes column (List.mem_reverse.mp hmem))
  rw [List.length_reverse, hcount] at hcolumns
  -- Sixty columns of four bytes are just enough for fifteen round keys.
  refine (pieces_spec 16 15 _ ?_).2
  have hlengths :
      ((extend 52 1 (pieces 4 8 key).reverse).reverse.map List.length) =
      List.replicate 60 4 := by
    refine List.eq_replicate_iff.mpr
      ⟨by rw [List.length_map, List.length_reverse, hcolumns], ?_⟩
    intro length hlength
    obtain ⟨column, hcolumn, rfl⟩ := List.mem_map.mp hlength
    exact hfour column (List.mem_reverse.mp hcolumn)
  rw [List.length_flatten, hlengths, List.sum_replicate]
  decide

/-! ## The rounds -/

theorem length_shiftRows (block : List UInt8) : (shiftRows block).length = 16 :=
  List.length_map _

theorem length_mixColumns (block : List UInt8) :
    (mixColumns block).length = block.length / 4 * 4 := by
  fun_induction mixColumns block with
  | case1 a b c d rest all ih =>
      simp only [List.length_cons, ih]
      omega
  | case2 block hshort =>
      have hlt : block.length < 4 := by
        match block with
        | [] | [_] | [_, _] | [_, _, _] => simp
        | a :: b :: c :: d :: rest => exact absurd rfl (hshort a b c d rest)
      rw [Nat.div_eq_of_lt hlt]
      rfl

theorem length_rounds {keys : List (List UInt8)}
    (hkeys : ∀ k ∈ keys, k.length = 16) :
    ∀ block : List UInt8, block.length = 16 →
      (rounds keys block).length = 16 := by
  intro block hblock
  fun_induction rounds keys block with
  | case1 block => exact hblock
  | case2 last block =>
      rw [length_xor, length_shiftRows, hkeys last List.mem_cons_self]
      rfl
  | case3 key rest block hmore ih =>
      obtain ⟨hkey, hrest⟩ := List.forall_mem_cons.mp hkeys
      refine ih hrest ?_
      rw [length_xor, length_mixColumns, length_shiftRows, hkey]
      rfl

theorem length_encrypt {keys : List (List UInt8)}
    (hkeys : ∀ k ∈ keys, k.length = 16) {block : List UInt8}
    (hblock : block.length = 16) : (encrypt keys block).length = 16 := by
  unfold encrypt
  split
  · exact hblock
  · next first rest =>
      obtain ⟨hfirst, hrest⟩ := List.forall_mem_cons.mp hkeys
      exact length_rounds hrest _ (by rw [length_xor, hblock, hfirst]; rfl)

end AuditTrail.Aes256

namespace AuditTrail.Gcm

variable {key nonce : List UInt8} {keys : List (List UInt8)}

theorem length_counterBlock (hnonce : nonce.length = 12) (counter : Nat) :
    (counterBlock nonce counter).length = 16 := by
  simp [counterBlock, hnonce]

theorem length_keyStream (hkeys : ∀ k ∈ keys, k.length = 16)
    (hnonce : nonce.length = 12) :
    ∀ n counter, (keyStream keys nonce n counter).length = 16 * n := by
  intro n
  induction n with
  | zero => exact fun counter => rfl
  | succ n ih =>
      intro counter
      rw [keyStream, List.length_append, ih,
        Aes256.length_encrypt hkeys (length_counterBlock hnonce counter)]
      omega

theorem length_tag (hkeys : ∀ k ∈ keys, k.length = 16)
    (hnonce : nonce.length = 12) (encrypted : List UInt8) :
    (tag keys nonce encrypted).length = tagLength := by
  rw [tag, Aes256.length_xor,
    Aes256.length_encrypt hkeys (length_counterBlock hnonce 1)]
  simp [toBlock, tagLength]

section Mask

variable (hkeys : ∀ k ∈ keys, k.length = 16) (hnonce : nonce.length = 12)

include hkeys hnonce

theorem length_le_keyStream (bytes : List UInt8) :
    bytes.length ≤
      (keyStream keys nonce (blockCount bytes.length) 2).length := by
  rw [length_keyStream hkeys hnonce, blockCount]
  omega

theorem length_mask (bytes : List UInt8) :
    (mask keys nonce bytes).length = bytes.length := by
  rw [mask, Aes256.length_xor]
  exact Nat.min_eq_left (length_le_keyStream hkeys hnonce bytes)

theorem mask_mask (bytes : List UInt8) :
    mask keys nonce (mask keys nonce bytes) = bytes := by
  rw [mask, length_mask hkeys hnonce, mask]
  exact Aes256.xor_xor (length_le_keyStream hkeys hnonce bytes)

end Mask

theorem length_sealText (hkey : key.length = 32) (hnonce : nonce.length = 12)
    (plain : List UInt8) :
    (sealText key nonce plain).length = plain.length + tagLength := by
  have hkeys := Aes256.length_of_mem_roundKeys hkey
  rw [sealText, List.length_append, length_mask hkeys hnonce,
    length_tag hkeys hnonce]

/-- A sealed text opens under its key and with its nonce. -/
theorem openText?_sealText (hkey : key.length = 32) (hnonce : nonce.length = 12)
    (plain : List UInt8) :
    openText? key nonce (sealText key nonce plain) = some plain := by
  have hkeys := Aes256.length_of_mem_roundKeys hkey
  have hlength := length_sealText hkey hnonce plain
  have hfront : (sealText key nonce plain).length - tagLength =
      (mask (Aes256.roundKeys key) nonce plain).length := by
    rw [hlength, length_mask hkeys hnonce, Nat.add_sub_cancel]
  rw [openText?, if_neg (by omega), hfront]
  simp only [sealText, List.take_left, List.drop_left, if_true,
    mask_mask hkeys hnonce]

end AuditTrail.Gcm
