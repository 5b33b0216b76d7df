import AuditTrail.Text.Digits
import Mathlib.Algebra.Group.Nat.Defs
import Mathlib.Logic.Function.Basic

/-!
# Decimal text names one number

Reading decimal digits back gives the number they were written for, so
different numbers have different texts. The sign does not spoil it, because no
text of a natural number begins with one.

A number in a field is read back as well, the zeros in front of it counting for
nothing. The width of the field is known unless the number is too long for it,
so behind it a text can be cut (`padded_append_inj`).

Hexadecimal digits are written in lower case and read in either. Beyond ASCII no
character has a digit's value, so what a digit is read as can be looked up
(`hex?_eq_some_iff`).
-/

namespace AuditTrail.Digits

theorem ofNat_injective : Function.Injective ofNat := by
  intro m n h
  have hread := congrArg (fun digits => Nat.ofDigitChars 10 digits 0) h
  simpa only [ofNat, Nat.ofDigitChars_ten_toDigits] using hread

theorem ofNat_ne_minus (n : Nat) (rest : List Char) :
    ofNat n ≠ '-' :: rest := by
  intro h
  have hmem : '-' ∈ ofNat n := h ▸ List.mem_cons_self
  have hdigit := Nat.isDigit_of_mem_toDigits (by decide) (by decide) hmem
  exact absurd hdigit (by decide)

theorem ofInt_injective : Function.Injective ofInt := by
  intro a b h
  cases a with
  | ofNat m =>
      cases b with
      | ofNat n => exact congrArg Int.ofNat (ofNat_injective h)
      | negSucc n => exact absurd h (ofNat_ne_minus m _)
  | negSucc m =>
      cases b with
      | ofNat n => exact absurd h.symm (ofNat_ne_minus n _)
      | negSucc n =>
          exact congrArg Int.negSucc
            (Nat.succ.inj (ofNat_injective (List.cons.inj h).2))

/-! ## Numbers in a field -/

section Padded

variable {width m n : Nat}

theorem ofDigitChars_padded : Nat.ofDigitChars 10 (padded width n) 0 = n := by
  rw [padded, Nat.ofDigitChars_append, Nat.ofDigitChars_replicate_zero,
    Nat.mul_zero, ofNat, Nat.ofDigitChars_ten_toDigits]

theorem padded_injective : Function.Injective (padded width) :=
  Function.LeftInverse.injective (g :=
    fun digits => Nat.ofDigitChars 10 digits 0)
    fun _ => ofDigitChars_padded

theorem isDigit_of_mem_padded {c : Char} (hc : c ∈ padded width n) :
    c.isDigit = true := by
  rcases List.mem_append.mp hc with hzero | hdigit
  · rw [List.eq_of_mem_replicate hzero]
    rfl
  · exact Nat.isDigit_of_mem_toDigits (by decide) (by decide) hdigit

theorem padded_ne_nil : padded width n ≠ [] := by
  simp [padded, ofNat, Nat.toDigits_ne_nil]

theorem length_padded (hwidth : 0 < width) (hfits : n < 10 ^ width) :
    (padded width n).length = width := by
  have hlength : (ofNat n).length ≤ width :=
    (Nat.length_toDigits_le_iff (by decide) hwidth).mpr hfits
  rw [padded, List.length_append, List.length_replicate,
    Nat.sub_add_cancel hlength]

theorem padded_append_inj {rest rest' : List Char} (hwidth : 0 < width)
    (hm : m < 10 ^ width) (hn : n < 10 ^ width)
    (h : padded width m ++ rest = padded width n ++ rest') :
    m = n ∧ rest = rest' := by
  obtain ⟨hdigits, hrest⟩ := List.append_inj h
    ((length_padded hwidth hm).trans (length_padded hwidth hn).symm)
  exact ⟨padded_injective hdigits, hrest⟩

end Padded

/-! ## Digit by digit -/

/-- The value of a decimal digit, and nothing in particular for another
character. -/
def numeric (c : Char) : Nat := c.toNat - '0'.toNat

theorem decimal?_eq_some {c : Char} (hc : c.isDigit = true) :
    decimal? c = some (numeric c) := by
  rw [Char.isDigit, Bool.and_eq_true, decide_eq_true_iff,
    decide_eq_true_iff] at hc
  exact if_pos hc

theorem isDigit_of_mem_ofNat {n : Nat} {c : Char} (hc : c ∈ ofNat n) :
    c.isDigit = true :=
  Nat.isDigit_of_mem_toDigits (by decide) (by decide) hc

theorem value_ofNat (n : Nat) : value 10 ((ofNat n).map numeric) = n := by
  have hread : value 10 ((ofNat n).map numeric) =
      Nat.ofDigitChars 10 (ofNat n) 0 := by
    rw [value, List.foldl_map, Nat.ofDigitChars]
    simp only [Nat.mul_comm, numeric]
  rw [hread, ofNat, Nat.ofDigitChars_ten_toDigits]

theorem exists_ofNat_eq_cons (n : Nat) :
    ∃ c cs, ofNat n = c :: cs ∧ c.isDigit = true := by
  have hne : ofNat n ≠ [] := Nat.toDigits_ne_nil
  obtain ⟨c, cs, hcons⟩ := List.exists_cons_of_ne_nil hne
  exact ⟨c, cs, hcons, isDigit_of_mem_ofNat (hcons ▸ List.mem_cons_self)⟩

/-- Only the text of zero begins with a zero. -/
theorem head?_ofNat_ne_zero {n : Nat} (hn : 0 < n) :
    ((ofNat n).map numeric).head? ≠ some 0 := by
  induction n using Nat.strongRecOn with
  | ind n ih =>
      rw [ofNat, Nat.toDigits_eq_if (by decide)]
      split
      · next hlt =>
          have hdigit : ∀ n < 10, 0 < n →
            ([Nat.digitChar n].map numeric).head? ≠ some 0 := by decide
          exact hdigit n hlt hn
      · next hge =>
          have hleading := ih (n / 10) (by omega) (by omega)
          obtain ⟨c, cs, hcons, -⟩ := exists_ofNat_eq_cons (n / 10)
          rw [hcons] at hleading
          rw [← ofNat, hcons]
          exact hleading

/-! ## Hexadecimal digits -/

theorem hex?_hexChar : ∀ n < 16, hex? (hexChar n) = some n := by decide

/-! ## Digits in either case -/

theorem of_ascii {p : Char → Prop} (h : ∀ k < 128, p (Char.ofNat k)) {c : Char}
    (hc : c.toNat < 128) : p c := by
  have hchar := h c.toNat hc
  rwa [Char.ofNat_toNat] at hchar

theorem not_le_of_toNat_lt {c d : Char} (h : d.toNat < c.toNat) : ¬c ≤ d :=
  fun hle => absurd (UInt32.le_iff_toNat_le.mp hle) (Nat.not_le.mpr h)

theorem toLower_eq_self {c : Char} (h : ¬c ≤ 'Z') : c.toLower = c :=
  dif_neg fun hle => h hle.2

/-- Only letters have two cases. -/
theorem toLower_eq_iff {c d : Char} (hd : d.isAlpha = false) :
    c.toLower = d ↔ c = d := by
  have hcases : c.toLower = c ∨ c.isAlpha = true ∧
      c.toLower.isAlpha = true := by
    by_cases hascii : c.toNat < 128
    · exact of_ascii (p :=
        fun c => c.toLower = c ∨ c.isAlpha = true ∧ c.toLower.isAlpha = true)
        (by decide +kernel) hascii
    · have hZ : 'Z'.toNat = 90 := rfl
      exact .inl (toLower_eq_self (not_le_of_toNat_lt (by omega)))
  rcases hcases with hsame | ⟨halpha, hlower⟩
  · rw [hsame]
  · refine iff_of_false ?_ ?_ <;> rintro rfl
    · rw [hd] at hlower
      exact Bool.noConfusion hlower
    · rw [hd] at halpha
      exact Bool.noConfusion halpha

theorem hex?_eq_none {c : Char} (hc : ¬c.toNat < 128) : hex? c = none := by
  have habove : ∀ d : Char, d.toNat < 128 → ¬c ≤ d :=
    fun d hd => not_le_of_toNat_lt (by omega)
  simp only [hex?, habove '9' (by decide), habove 'f' (by decide),
    habove 'F' (by decide), and_false, if_false]

/-- A hexadecimal digit is the one of its value, in either case. -/
theorem hex?_eq_some_iff {c : Char} {n : Nat} :
    hex? c = some n ↔ n < 16 ∧ c.toLower = hexChar n := by
  by_cases hascii : c.toNat < 128
  · have hbound : (hex? c).getD 0 < 16 :=
      of_ascii (p := fun c => (hex? c).getD 0 < 16) (by decide) hascii
    have hdigit : ∀ n < 16, hex? c = some n ↔ c.toLower = hexChar n :=
      of_ascii (p := fun c => ∀ n < 16, hex? c = some n ↔ c.toLower = hexChar n)
        (by decide +kernel) hascii
    constructor
    · intro h
      rw [h, Option.getD_some] at hbound
      exact ⟨hbound, (hdigit n hbound).mp h⟩
    · exact fun h => (hdigit n h.1).mpr h.2
  · have hchar : ∀ n < 16, (hexChar n).toNat < 128 := by decide
    have hZ : 'Z'.toNat = 90 := rfl
    rw [hex?_eq_none hascii, toLower_eq_self (not_le_of_toNat_lt (by omega))]
    refine iff_of_false (Option.some_ne_none n).symm ?_
    rintro ⟨hn, rfl⟩
    exact hascii (hchar n hn)

end AuditTrail.Digits
