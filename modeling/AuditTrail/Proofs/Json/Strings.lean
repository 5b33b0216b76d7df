import AuditTrail.Json.Printer
import AuditTrail.Json.Node
import AuditTrail.Proofs.Text.Digits
import Mathlib.Tactic.SplitIfs

/-!
# A string is read back from its quotes

The printer and the reader of a string meet at one character: what `escape`
writes for it is read as one piece (`pieces?_escape`), and the piece stands for
the character again (`charsOfPieces?_ofChar`). Both facts hold before any text,
so each is carried along a string by induction on its characters.

The reader spends one step of its budget on a piece, and no piece is written
with less than one character, so the length of the text is budget enough.
-/

namespace AuditTrail.Json

/-- The piece that a character is read as after it was written: itself, or its
code point where the writer has nothing shorter. -/
def Piece.ofChar (c : Char) : Piece :=
  if c.toNat < 32 ∧ c ∉ ['\x08', '\x0c', '\n', '\r', '\t'] then .unit c.toNat
  else .char c

theorem unit?_low {n : Nat} (hn : n < 32) (rest : List Char) :
    unit? ('0' :: '0' :: Digits.hexChar (n / 16) :: Digits.hexChar (n % 16) ::
      rest) = some (n, rest) := by
  have hzero : Digits.hex? '0' = some 0 := rfl
  have hvalue : Digits.value 16 [0, 0, n / 16, n % 16] = n := by
    simp only [Digits.value, List.foldl_cons, List.foldl_nil]
    omega
  simp only [unit?, hzero, Digits.hex?_hexChar (n / 16) (by omega),
    Digits.hex?_hexChar (n % 16) (by omega), Option.bind_eq_bind,
    Option.bind_some, hvalue]
  rfl

/-- A character is written as an escape that is read as its piece, or stands for
itself. -/
theorem escape_cases (c : Char) :
    (∃ written, escape c = '\\' :: written ∧
      ∀ rest, escape? (written ++ rest) = some (Piece.ofChar c, rest)) ∨
    escape c = [c] ∧ Piece.ofChar c = .char c ∧ c ≠ '"' ∧ c ≠ '\\' ∧
      ¬c.toNat < 32 := by
  unfold escape
  split_ifs with hquote hbackslash hb hf hn hr ht hlow
  · subst hquote
    exact .inl ⟨['"'], rfl, fun _ => rfl⟩
  · subst hbackslash
    exact .inl ⟨['\\'], rfl, fun _ => rfl⟩
  · subst hb
    exact .inl ⟨['b'], rfl, fun _ => rfl⟩
  · subst hf
    exact .inl ⟨['f'], rfl, fun _ => rfl⟩
  · subst hn
    exact .inl ⟨['n'], rfl, fun _ => rfl⟩
  · subst hr
    exact .inl ⟨['r'], rfl, fun _ => rfl⟩
  · subst ht
    exact .inl ⟨['t'], rfl, fun _ => rfl⟩
  · have hpiece : Piece.ofChar c = .unit c.toNat := by
      simp [Piece.ofChar, hlow, hb, hf, hn, hr, ht]
    refine .inl ⟨['u', '0', '0', _, _], rfl, fun rest => ?_⟩
    rw [hpiece]
    simp only [List.cons_append, List.nil_append, escape?, unit?_low hlow,
      Option.map_some]
  · exact .inr ⟨rfl, if_neg fun h => hlow h.1, hquote, hbackslash, hlow⟩

/-- What is written for one character is read as one piece. -/
theorem pieces?_escape (c : Char) (fuel : Nat) (rest : List Char) :
    pieces? (fuel + 1) (escape c ++ rest) =
      (pieces? fuel rest).map fun (pieces, behind) =>
        (Piece.ofChar c :: pieces, behind) := by
  rcases escape_cases c with
    ⟨written, hwritten, hread⟩ | ⟨hwritten, hpiece, hquote, hbackslash, hlow⟩
  · rw [hwritten, List.cons_append]
    simp only [pieces?, hread, Option.bind_eq_bind, Option.bind_some]
    cases pieces? fuel rest <;> rfl
  · rw [hwritten, hpiece, List.singleton_append]
    simp only [pieces?, if_neg hlow, Option.bind_eq_bind]
    cases pieces? fuel rest <;> rfl

theorem length_escape_pos (c : Char) : 0 < (escape c).length := by
  rcases escape_cases c with ⟨written, hwritten, -⟩ | ⟨hwritten, -⟩
  · rw [hwritten]
    exact Nat.succ_pos _
  · rw [hwritten]
    exact Nat.one_pos

/-- A string is read up to its closing quote, and no further. -/
theorem pieces?_flatMap_escape (cs rest : List Char) {fuel : Nat}
    (hfuel : (cs.flatMap escape).length < fuel) :
    pieces? fuel (cs.flatMap escape ++ '"' :: rest) =
      some (cs.map Piece.ofChar, rest) := by
  induction cs generalizing fuel with
  | nil =>
      obtain ⟨fuel, rfl⟩ :=
        Nat.exists_eq_add_one_of_ne_zero (Nat.ne_zero_of_lt hfuel)
      rfl
  | cons c cs ih =>
      obtain ⟨fuel, rfl⟩ :=
        Nat.exists_eq_add_one_of_ne_zero (Nat.ne_zero_of_lt hfuel)
      have hlength := length_escape_pos c
      rw [List.flatMap_cons, List.length_append] at hfuel
      rw [List.flatMap_cons, List.append_assoc, pieces?_escape, ih (by omega)]
      rfl

/-! ## What the pieces stand for -/

theorem charsOfPieces?_ofChar (c : Char) (rest : List Piece) :
    charsOfPieces? (Piece.ofChar c :: rest) = (charsOfPieces? rest).map
      (c :: ·) := by
  rw [Piece.ofChar]
  split
  · next hlow =>
      have hbmp : c.toNat < 0xD800 ∨ 0xDFFF < c.toNat := .inl (by omega)
      rw [charsOfPieces?.eq_def]
      simp only [if_pos hbmp, Char.ofNat_toNat]
  · rfl

/-- A string that was written stands for the text it was written for. -/
theorem textOfPieces?_ofChar (s : String) :
    textOfPieces? (s.toList.map Piece.ofChar) = some s := by
  have hchars : ∀ cs : List Char, charsOfPieces? (cs.map Piece.ofChar) =
      some cs := by
    intro cs
    induction cs with
    | nil => rfl
    | cons c cs ih =>
        rw [List.map_cons, charsOfPieces?_ofChar, ih, Option.map_some]
  rw [textOfPieces?, hchars, Option.map_some, String.ofList_toList]

end AuditTrail.Json
