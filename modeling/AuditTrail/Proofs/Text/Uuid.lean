import AuditTrail.Proofs.Text.Digits
import AuditTrail.Uuid

/-!
# A UUID is read back from its text

The text has all the digits, so nothing is left to guess: `value_digits` puts
the number together again, whatever the number of digits is that it is cut into.
-/

namespace AuditTrail.Uuid

open Digits

variable {u : Uuid}

theorem value_concat (ds : List Nat) (d : Nat) :
    value 16 (ds ++ [d]) = value 16 ds * 16 + d := by
  rw [value, List.foldl_append, ← value]
  rfl

/-- All digits but the last are those of the sixteenth of the number. -/
theorem digits_succ (count n : Nat) :
    ((List.range (count + 1)).map fun i => n / 16 ^ (count + 1 - 1 - i) % 16) =
      ((List.range count).map fun i => n / 16 / 16 ^ (count - 1 - i) % 16) ++
        [n % 16] := by
  have hinit :
      ((List.range count).map fun i => n / 16 ^ (count + 1 - 1 - i) % 16) =
      (List.range count).map fun i => n / 16 / 16 ^ (count - 1 - i) % 16 := by
    refine List.map_congr_left fun i hi => ?_
    have hcount : count + 1 - 1 - i = count - 1 - i + 1 := by
      have := List.mem_range.mp hi
      omega
    rw [hcount, Nat.pow_succ', Nat.div_div_eq_div_mul]
  rw [List.range_succ, List.map_append, hinit]
  simp

/-- The last digits of a number write what is left of it by their number. -/
theorem value_digits (count : Nat) : ∀ n : Nat,
    value 16 ((List.range count).map fun i => n / 16 ^ (count - 1 - i) % 16) =
      n % 16 ^ count := by
  induction count with
  | zero => intro n; simp [value, Nat.mod_one]
  | succ count ih =>
      intro n
      rw [digits_succ, value_concat, ih, Nat.pow_succ', Nat.mod_mul,
        Nat.mul_comm, Nat.add_comm]

theorem ofNibbles_nibbles (u : Uuid) : ofNibbles u.nibbles = u := by
  have hvalue : value 16 u.nibbles = u.bits.toNat :=
    (value_digits 32 u.bits.toNat).trans (Nat.mod_eq_of_lt u.bits.isLt)
  rw [ofNibbles, hvalue, BitVec.ofNat_toNat, BitVec.setWidth_eq]

theorem length_nibbles : u.nibbles.length = 32 := by
  rw [nibbles, List.length_map, List.length_range]

theorem lt_of_mem_nibbles {n : Nat} (hn : n ∈ u.nibbles) : n < 16 := by
  obtain ⟨i, -, rfl⟩ := List.mem_map.mp hn
  exact Nat.mod_lt _ (by decide)

theorem mapM_hex?_hexChar {digits : List Nat} (hdigits : ∀ n ∈ digits, n < 16) :
    (digits.map hexChar).mapM hex? = some digits := by
  induction digits with
  | nil => rfl
  | cons n rest ih =>
      obtain ⟨hn, hrest⟩ := List.forall_mem_cons.mp hdigits
      rw [List.map_cons, List.mapM_cons, hex?_hexChar n hn, ih hrest]
      rfl

theorem ofSimple?_nibbles (u : Uuid) :
    ofSimple? (u.nibbles.map hexChar) = some u := by
  rw [ofSimple?, if_pos (by rw [List.length_map, length_nibbles]),
    mapM_hex?_hexChar fun _ => lt_of_mem_nibbles, Option.map_some,
    ofNibbles_nibbles]

section Groups

variable {a b c d e : List Char} {w x y z : Char}

/-- Thirty-two characters are groups next to each other. -/
theorem exists_append_groups {cs : List Char} (h : cs.length = 32) :
    ∃ a b c d e, cs = a ++ b ++ c ++ d ++ e ∧ a.length = 8 ∧ b.length = 4 ∧
      c.length = 4 ∧
      d.length = 4 ∧ e.length = 12 := by
  refine ⟨cs.take 8, (cs.drop 8).take 4, (cs.drop 12).take 4,
    (cs.drop 16).take 4, cs.drop 20, ?_, by simp [h], by simp [h], by simp [h],
    by simp [h], by simp [h]⟩
  rw [← List.take_add, ← List.take_add, ← List.take_add, List.take_append_drop]

theorem hyphenated_groups (ha : a.length = 8) (hb : b.length = 4)
    (hc : c.length = 4) (hd : d.length = 4) :
    hyphenated (a ++ b ++ c ++ d ++ e) = a ++ '-' :: b ++ '-' :: c ++
      '-' :: d ++ '-' :: e := by
  simp (disch := omega) [hyphenated, List.drop_append, List.drop_eq_nil_of_le,
    ha, hb, hc]

theorem ofHyphenated?_groups (ha : a.length = 8) (hb : b.length = 4)
    (hc : c.length = 4) (hd : d.length = 4) (he : e.length = 12) :
    ofHyphenated? (a ++ w :: b ++ x :: c ++ y :: d ++ z :: e) =
      if w = '-' ∧ x = '-' ∧ y = '-' ∧ z = '-' then
        ofSimple? (a ++ b ++ c ++ d ++ e)
      else
        none := by
  simp (disch := omega) [ofHyphenated?, List.drop_append,
    List.drop_eq_nil_of_le, List.getElem?_append_right, List.getElem?_cons_zero,
    ha, hb, hc, hd, he]

end Groups

/-- The hyphens between the groups are taken out again. -/
theorem ofHyphenated?_hyphenated {cs : List Char} (hlength : cs.length = 32) :
    ofHyphenated? (hyphenated cs) = ofSimple? cs := by
  obtain ⟨a, b, c, d, e, rfl, ha, hb, hc, hd, he⟩ :=
    exists_append_groups hlength
  rw [hyphenated_groups ha hb hc hd, ofHyphenated?_groups ha hb hc hd he,
    if_pos ⟨rfl, rfl, rfl, rfl⟩]

theorem ofHyphenated?_chars (u : Uuid) : ofHyphenated? u.chars = some u := by
  rw [chars, ofHyphenated?_hyphenated (by rw [List.length_map, length_nibbles]),
    ofSimple?_nibbles]

theorem text_injective : Function.Injective text := by
  intro u u' h
  have hread := congrArg ofHyphenated? (String.ofList_injective h)
  rw [ofHyphenated?_chars, ofHyphenated?_chars] at hread
  exact Option.some.inj hread

end AuditTrail.Uuid
