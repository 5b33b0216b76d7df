import AuditTrail.Text.Base64
import Mathlib.Logic.Function.Basic

/-!
# Base64 is read back

`decode` undoes `encode`. A letter writes six bits and stands for nothing else,
and a letter is never the sign that fills up the last four, so it is seen there
how many bytes were left over.
-/

namespace AuditTrail.Base64

/-- The six bit group of a letter; what is no letter is a group of zeros. -/
def group (c : Char) : Nat :=
  if 'A' ≤ c ∧ c ≤ 'Z' then c.toNat - 'A'.toNat
  else if 'a' ≤ c ∧ c ≤ 'z' then c.toNat - 'a'.toNat + 26
  else if '0' ≤ c ∧ c ≤ '9' then c.toNat - '0'.toNat + 52
  else if c = '+' then 62
  else if c = '/' then 63
  else 0

theorem group_letter : ∀ n < 64, group (letter n) = n := by decide

theorem group_fill : group '=' = 0 := rfl

theorem letter_ne_fill : ∀ n < 64, letter n ≠ '=' := by decide

/-- The bytes that a padded text was made from. -/
def decode : List Char → List UInt8
  | a :: b :: c :: d :: rest =>
    let n := ((group a * 64 + group b) * 64 + group c) * 64 + group d
    if c = '=' then [UInt8.ofNat (n / 65536)]
    else if d = '=' then [UInt8.ofNat (n / 65536), UInt8.ofNat (n / 256)]
    else UInt8.ofNat (n / 65536) :: UInt8.ofNat (n / 256) ::
      UInt8.ofNat n :: decode rest
  | _ => []

theorem ofNat_eq_of_mod {n : Nat} (byte : UInt8) (h : n % 256 = byte.toNat) :
    UInt8.ofNat n = byte := by
  rw [← UInt8.toNat_inj, UInt8.toNat_ofNat', h]

theorem decode_encode (bytes : List UInt8) : decode (encode bytes) = bytes := by
  fun_induction encode bytes with
  | case1 => rfl
  | case2 a n =>
      have ha := a.toNat_lt
      simp (disch := omega) only [decode, if_true, group_letter, group_fill]
      rw [ofNat_eq_of_mod a (by omega)]
  | case3 a b n =>
      have ha := a.toNat_lt
      have hb := b.toNat_lt
      simp (disch := omega) only [decode, if_true, if_false, letter_ne_fill,
        group_letter, group_fill]
      rw [ofNat_eq_of_mod a (by omega), ofNat_eq_of_mod b (by omega)]
  | case4 a b c rest n ih =>
      have ha := a.toNat_lt
      have hb := b.toNat_lt
      have hc := c.toNat_lt
      simp (disch := omega) only [decode, if_false, letter_ne_fill,
        group_letter, ih]
      rw [ofNat_eq_of_mod a (by omega), ofNat_eq_of_mod b (by omega),
        ofNat_eq_of_mod c (by omega)]

theorem encode_injective : Function.Injective encode :=
  Function.LeftInverse.injective decode_encode

end AuditTrail.Base64
