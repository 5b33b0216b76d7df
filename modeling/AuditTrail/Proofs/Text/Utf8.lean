import AuditTrail.Text.Utf8

/-!
# What UTF-8 reads is what it writes

Bytes are read as a text exactly if they are the bytes of that text
(`decode_eq_ok_iff`). So there is no second way to write a text: overlong forms
and surrogates are faults, and so is what stops inside a character.

A character of one to four bytes has one first byte that announces their number
and continuation bytes behind it. `Reads` lists the four shapes with the code
point that each stands for. Reading a character is finding one of them at the
front (`next_eq_ok_iff`), and a shape stands for a code point exactly if it is
how that code point is written (`reads_iff`); this is where the bounds on the
first two bytes are used, since they rule out just the code points that have a
shorter shape or are none.
-/

namespace AuditTrail.Utf8

/-! ## Bytes as numbers -/

section Bytes

variable {b c : UInt8}

theorem isTail_iff : isTail b = true ↔ 128 ≤ b.toNat ∧ b.toNat ≤ 191 := by
  simp [isTail, UInt8.le_iff_toNat_le]

theorem secondOfThree_iff : secondOfThree b c = true ↔
    (128 ≤ c.toNat ∧ c.toNat ≤ 191) ∧ (b.toNat = 224 → 160 ≤ c.toNat) ∧
      (b.toNat = 237 → c.toNat < 160) := by
  simp [secondOfThree, isTail_iff, UInt8.le_iff_toNat_le, UInt8.lt_iff_toNat_lt,
    ← UInt8.toNat_inj, and_assoc, Decidable.imp_iff_not_or]

theorem secondOfFour_iff : secondOfFour b c = true ↔
    (128 ≤ c.toNat ∧ c.toNat ≤ 191) ∧ (b.toNat = 240 → 144 ≤ c.toNat) ∧
      (b.toNat = 244 → c.toNat < 144) := by
  simp [secondOfFour, isTail_iff, UInt8.le_iff_toNat_le, UInt8.lt_iff_toNat_lt,
    ← UInt8.toNat_inj, and_assoc, Decidable.imp_iff_not_or]

theorem announced_eq (b : UInt8) : announced b =
    if b.toNat < 128 then some 1
    else if 194 ≤ b.toNat ∧ b.toNat ≤ 223 then some 2
    else if 224 ≤ b.toNat ∧ b.toNat ≤ 239 then some 3
    else if 240 ≤ b.toNat ∧ b.toNat ≤ 244 then some 4
    else none := by
  simp [announced, UInt8.le_iff_toNat_le, UInt8.lt_iff_toNat_lt]

end Bytes

/-! ## The shapes of a character -/

/-- The bytes of one character and the code point that they stand for. -/
inductive Reads : List UInt8 → Nat → Prop where
  | one {b : UInt8} (hfirst : announced b = some 1) : Reads [b] b.toNat
  | two {b c : UInt8} (hfirst : announced b = some 2) (hc : isTail c = true) :
      Reads [b, c] (b.toNat % 32 * 64 + tailBits c)
  | three {b c d : UInt8} (hfirst : announced b = some 3)
      (hc : secondOfThree b c = true) (hd : isTail d = true) :
      Reads [b, c, d] ((b.toNat % 16 * 64 + tailBits c) * 64 + tailBits d)
  | four {b c d e : UInt8} (hfirst : announced b = some 4)
      (hc : secondOfFour b c = true) (hd : isTail d = true)
      (he : isTail e = true) :
      Reads [b, c, d, e]
        (((b.toNat % 8 * 64 + tailBits c) * 64 + tailBits d) * 64 + tailBits e)

theorem Reads.next {b : UInt8} {bytes : List UInt8} {n : Nat}
    (hreads : Reads (b :: bytes) n) (behind : List UInt8) :
    next b (bytes ++ behind) = .ok (Char.ofNat n, behind) := by
  cases hreads with
  | one hfirst => simp [Utf8.next, hfirst]
  | two hfirst hc => simp [Utf8.next, hfirst, hc]
  | three hfirst hc hd => simp [Utf8.next, hfirst, hc, hd]
  | four hfirst hc hd he => simp [Utf8.next, hfirst, hc, hd, he]

theorem reads_of_next {b : UInt8} {rest behind : List UInt8} {ch : Char}
    (hnext : next b rest = .ok (ch, behind)) :
    ∃ bytes n, Reads (b :: bytes) n ∧ ch = Char.ofNat n ∧
      rest = bytes ++ behind := by
  unfold next at hnext
  split at hnext
  · next hfirst =>
      cases hnext
      exact ⟨[], _, .one hfirst, rfl, rfl⟩
  · next hfirst =>
      repeat' split at hnext
      all_goals cases hnext
      next _ c hc => exact ⟨[c], _, .two hfirst (by simpa using hc), rfl, rfl⟩
  · next hfirst =>
      repeat' split at hnext
      all_goals cases hnext
      next _ c hc _ d hd =>
        exact ⟨[c, d], _, .three hfirst (by simpa using hc) (by simpa using hd),
          rfl, rfl⟩
  · next k hone htwo hthree hfirst =>
      -- This arm stands for any other number, but four is the only one
      -- announced.
      obtain rfl : k = 4 := by
        have hk := hfirst
        rw [announced_eq] at hk
        grind
      repeat' split at hnext
      all_goals cases hnext
      next _ c hc _ d hd _ e he =>
        exact ⟨[c, d, e], _,
          .four hfirst (by simpa using hc) (by simpa using hd)
          (by simpa using he), rfl, rfl⟩
  · cases hnext

theorem utf8EncodeChar_ofNat {n : Nat} (hvalid : n.isValidChar) :
    String.utf8EncodeChar (Char.ofNat n) =
      if n ≤ 127 then [UInt8.ofNat n]
      else if n ≤ 2047 then
        [UInt8.ofNat (n / 64 % 32 + 192), UInt8.ofNat (n % 64 + 128)]
      else if n ≤ 65535 then
        [UInt8.ofNat (n / 4096 % 16 + 224), UInt8.ofNat (n / 64 % 64 + 128),
          UInt8.ofNat (n % 64 + 128)]
      else
        [UInt8.ofNat (n / 262144 % 8 + 240), UInt8.ofNat (n / 4096 % 64 + 128),
          UInt8.ofNat (n / 64 % 64 + 128), UInt8.ofNat (n % 64 + 128)] := by
  have hval : (Char.ofNat n).val.toNat = n := by
    rw [Char.ofNat, dif_pos hvalid]
    rfl
  simp only [String.utf8EncodeChar, hval]

theorem Reads.written {bytes : List UInt8} {n : Nat} (hreads : Reads bytes n) :
    n.isValidChar ∧ bytes = String.utf8EncodeChar (Char.ofNat n) := by
  cases hreads with
  | @one b hfirst =>
      rw [announced_eq] at hfirst
      have hsmall : b.toNat ≤ 127 := by grind
      have hvalid : b.toNat.isValidChar := .inl (by omega)
      rw [utf8EncodeChar_ofNat hvalid, if_pos hsmall]
      exact ⟨hvalid, by simp⟩
  | @two b c hfirst hc =>
      rw [announced_eq] at hfirst
      rw [isTail_iff] at hc
      have hb : 194 ≤ b.toNat ∧ b.toNat ≤ 223 := by grind
      have hvalid : (b.toNat % 32 * 64 + tailBits c).isValidChar := by
        unfold Nat.isValidChar tailBits
        omega
      rw [utf8EncodeChar_ofNat hvalid]
      unfold tailBits
      rw [if_neg (by omega), if_pos (by omega)]
      refine ⟨hvalid, ?_⟩
      simp only [List.cons.injEq, ← UInt8.toNat_inj, UInt8.toNat_ofNat',
        and_true]
      omega
  | @three b c d hfirst hc hd =>
      rw [announced_eq] at hfirst
      rw [secondOfThree_iff] at hc
      rw [isTail_iff] at hd
      have hb : 224 ≤ b.toNat ∧ b.toNat ≤ 239 := by grind
      -- The bounds on the second byte leave out surrogates and what two bytes
      -- can write.
      have hvalid :
          ((b.toNat % 16 * 64 + tailBits c) * 64 + tailBits d).isValidChar := by
        unfold Nat.isValidChar tailBits
        omega
      rw [utf8EncodeChar_ofNat hvalid]
      unfold tailBits
      rw [if_neg (by omega), if_neg (by omega), if_pos (by omega)]
      refine ⟨hvalid, ?_⟩
      simp only [List.cons.injEq, ← UInt8.toNat_inj, UInt8.toNat_ofNat',
        and_true]
      omega
  | @four b c d e hfirst hc hd he =>
      rw [announced_eq] at hfirst
      rw [secondOfFour_iff] at hc
      rw [isTail_iff] at hd he
      have hb : 240 ≤ b.toNat ∧ b.toNat ≤ 244 := by grind
      -- Here they leave out what is beyond the last plane and what three bytes
      -- can write.
      have hvalid : (((b.toNat % 8 * 64 + tailBits c) * 64 + tailBits d) * 64 +
          tailBits e).isValidChar := by
        unfold Nat.isValidChar tailBits
        omega
      rw [utf8EncodeChar_ofNat hvalid]
      unfold tailBits
      rw [if_neg (by omega), if_neg (by omega), if_neg (by omega)]
      refine ⟨hvalid, ?_⟩
      simp only [List.cons.injEq, ← UInt8.toNat_inj, UInt8.toNat_ofNat',
        and_true]
      omega

theorem Reads.cast {bytes : List UInt8} {m n : Nat} (hreads : Reads bytes m)
    (heq : m = n) :
    Reads bytes n :=
  heq ▸ hreads

theorem reads_utf8EncodeChar (ch : Char) :
    Reads (String.utf8EncodeChar ch) ch.toNat := by
  have hvalid : ch.toNat.isValidChar := ch.valid
  rw [← Char.ofNat_toNat ch, utf8EncodeChar_ofNat hvalid, Char.ofNat_toNat]
  generalize ch.toNat = n at hvalid
  unfold Nat.isValidChar at hvalid
  split
  · refine (Reads.one ?_).cast ?_
    · rw [announced_eq, UInt8.toNat_ofNat', if_pos (by omega)]
    · rw [UInt8.toNat_ofNat']
      omega
  split
  · refine (Reads.two ?_ ?_).cast ?_
    · rw [announced_eq, UInt8.toNat_ofNat', if_neg (by omega),
        if_pos (by omega)]
    · rw [isTail_iff, UInt8.toNat_ofNat']
      omega
    · rw [tailBits, UInt8.toNat_ofNat', UInt8.toNat_ofNat']
      omega
  split
  · refine (Reads.three ?_ ?_ ?_).cast ?_
    · rw [announced_eq, UInt8.toNat_ofNat', if_neg (by omega),
        if_neg (by omega), if_pos (by omega)]
    · rw [secondOfThree_iff, UInt8.toNat_ofNat', UInt8.toNat_ofNat']
      omega
    · rw [isTail_iff, UInt8.toNat_ofNat']
      omega
    · simp only [tailBits, UInt8.toNat_ofNat']
      omega
  · refine (Reads.four ?_ ?_ ?_ ?_).cast ?_
    · rw [announced_eq, UInt8.toNat_ofNat', if_neg (by omega),
        if_neg (by omega), if_neg (by omega), if_pos (by omega)]
    · rw [secondOfFour_iff, UInt8.toNat_ofNat', UInt8.toNat_ofNat']
      omega
    · rw [isTail_iff, UInt8.toNat_ofNat']
      omega
    · rw [isTail_iff, UInt8.toNat_ofNat']
      omega
    · simp only [tailBits, UInt8.toNat_ofNat']
      omega

/-- Reading a character is finding its bytes at the front. -/
theorem next_eq_ok_iff {b : UInt8} {rest behind : List UInt8} {ch : Char} :
    next b rest = .ok (ch, behind) ↔
        b :: rest = String.utf8EncodeChar ch ++ behind := by
  constructor
  · intro hnext
    obtain ⟨bytes, n, hreads, rfl, rfl⟩ := reads_of_next hnext
    rw [← hreads.written.2, List.cons_append]
  · intro hfront
    have hreads := reads_utf8EncodeChar ch
    cases hbytes : String.utf8EncodeChar ch with
    | nil => exact absurd hbytes String.utf8EncodeChar_ne_nil
    | cons first bytes =>
        rw [hbytes] at hreads
        rw [hbytes, List.cons_append] at hfront
        obtain ⟨rfl, rfl⟩ := List.cons.inj hfront
        rw [hreads.next behind, Char.ofNat_toNat]

/-! ## Texts -/

theorem cons_eq_flatMap_iff {b : UInt8} {rest : List UInt8} {cs : List Char} :
    b :: rest = cs.flatMap String.utf8EncodeChar ↔
      ∃ first more, cs = first :: more ∧
        next b rest = .ok (first, more.flatMap String.utf8EncodeChar) := by
  cases cs with
  | nil => simp
  | cons ch more =>
      rw [List.flatMap_cons, ← next_eq_ok_iff]
      refine ⟨fun hnext => ⟨ch, more, rfl, hnext⟩, ?_⟩
      rintro ⟨_, _, ⟨⟩, hnext⟩
      exact hnext

theorem chars_eq_ok_iff {bytes : List UInt8} (offset : Nat) {cs : List Char} :
    chars bytes offset = .ok cs ↔ bytes = cs.flatMap String.utf8EncodeChar := by
  fun_induction chars bytes offset generalizing cs with
  | case1 offset =>
      cases cs with
      | nil => exact iff_of_true rfl rfl
      | cons ch more => simp [String.utf8EncodeChar_ne_nil]
  | case2 offset b rest fault hfault =>
      rw [cons_eq_flatMap_iff]
      refine iff_of_false nofun ?_
      rintro ⟨first, more, -, hnext⟩
      cases hfault.symm.trans hnext
  | case3 offset b rest ch behind hread fault hfault ih =>
      rw [cons_eq_flatMap_iff]
      refine iff_of_false nofun ?_
      rintro ⟨first, more, -, hnext⟩
      cases hread.symm.trans hnext
      cases hfault.symm.trans (ih.mpr rfl)
  | case4 offset b rest ch behind hread more hmore ih =>
      rw [cons_eq_flatMap_iff, Except.ok.injEq]
      constructor
      · rintro rfl
        exact ⟨ch, more, rfl, ih.mp hmore ▸ hread⟩
      · rintro ⟨first, later, rfl, hnext⟩
        cases hread.symm.trans hnext
        cases hmore.symm.trans (ih.mpr rfl)
        rfl

theorem toList_loop (bytes : ByteArray) (i : Nat) (done : List UInt8) :
    ByteArray.toList.loop bytes i done = done.reverse ++
      bytes.data.toList.drop i := by
  fun_induction ByteArray.toList.loop bytes i done with
  | case1 i done hi ih =>
      have hlt : i < bytes.data.toList.length := hi
      have hget : bytes.get! i = bytes.data.toList[i] :=
        getElem!_pos bytes.data i hi
      rw [ih, List.drop_eq_getElem_cons hlt, hget, List.reverse_cons,
        List.append_assoc, List.singleton_append]
  | case2 i done hi =>
      have hle : bytes.data.toList.length ≤ i := Nat.le_of_not_lt hi
      rw [List.drop_eq_nil_of_le hle, List.append_nil]

theorem encode_ofList (cs : List Char) :
    encode (String.ofList cs) = cs.flatMap String.utf8EncodeChar := by
  rw [encode, String.toUTF8, String.toByteArray_ofList, ByteArray.toList,
    toList_loop, List.utf8Encode, List.toList_data_toByteArray]
  rfl

/-- Bytes are read as a text exactly if they are how the text is written. -/
theorem decode_eq_ok_iff {bytes : List UInt8} {text : String} :
    decode bytes = .ok text ↔ bytes = encode text := by
  obtain ⟨cs, rfl⟩ : ∃ cs, text = String.ofList cs :=
    ⟨text.toList, String.ofList_toList.symm⟩
  rw [encode_ofList, ← chars_eq_ok_iff 0, decode]
  cases chars bytes 0 with
  | error fault => exact iff_of_false nofun nofun
  | ok read =>
      rw [Except.map, Except.ok.injEq, Except.ok.injEq, String.ofList_inj]

end AuditTrail.Utf8
