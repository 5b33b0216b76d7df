import AuditTrail.Proofs.Json.Strings

/-!
# The tree of a compact text

What the printer writes for a value, the grammar reads as a tree, and this file
says which: `Json.tree`. A text is read in front of whatever follows it, so that
the fact can be used for the items of an array and the members of an object,
and what follows must not go on with a number (`Follows`): digits have no
closing mark of their own.

The budget only has to exceed the length of the text. Each step of the reader
that lowers it has a character of its own: a container its opening bracket, an
item behind the first its comma.

Doubles are left out; the whole development of their shortest digits would
stand between their text and their value.
-/

namespace AuditTrail.Json

/-! ## The tree -/

/-- An integer as a numeral. -/
def Numeral.ofInt : Int → Numeral
  | .ofNat n => ⟨false, (Digits.ofNat n).map Digits.numeric, none, none⟩
  | .negSucc n => ⟨true, (Digits.ofNat (n + 1)).map Digits.numeric, none, none⟩

mutual

/-- The tree that the compact text of a value is read as. A double is given none
of its own. -/
def tree : Json → Node
  | null => .null
  | bool b => .bool b
  | int i => .number (Numeral.ofInt i)
  | float _ => .null
  | string s => .string (s.toList.map Piece.ofChar)
  | array items => .array (itemTrees items)
  | object members => .object (memberTrees members)

/-- The trees of the items of an array. -/
def itemTrees : List Json → List Node
  | [] => []
  | a :: rest => tree a :: itemTrees rest

/-- The trees of the members of an object, with their names as written. -/
def memberTrees : List (String × Json) → List (List Piece × Node)
  | [] => []
  | (n, a) :: rest => (n.toList.map Piece.ofChar, tree a) :: memberTrees rest

end

/-- No number in the value is a double. -/
inductive Whole : Json → Prop where
  | null : Whole null
  | bool (b : Bool) : Whole (bool b)
  | int (i : Int) : Whole (int i)
  | string (s : String) : Whole (string s)
  | array {items : List Json} (items_whole : ∀ a ∈ items, Whole a) :
      Whole (array items)
  | object {members : List (String × Json)}
      (members_whole : ∀ m ∈ members, Whole m.2) :
      Whole (object members)

/-! ## What may follow a value -/

/-- A text that does not go on with a value in front of it: it is empty or
begins with a comma or a closing bracket. -/
def Follows (rest : List Char) : Prop :=
  ∀ c ∈ rest.head?, c = ',' ∨ c = ']' ∨ c = '\x7d'

theorem Follows.nil : Follows [] := nofun

theorem Follows.comma (rest : List Char) : Follows (',' :: rest) := by
  simp [Follows]

theorem Follows.itemsChars (items : List Json) (rest : List Char) :
    Follows (itemsChars items ++ rest) := by
  cases items <;> simp [Follows, Json.itemsChars]

theorem Follows.membersChars (members : List (String × Json))
    (rest : List Char) :
    Follows (membersChars members ++ rest) := by
  cases members <;> simp [Follows, Json.membersChars]

section Numbers

variable {rest : List Char}

theorem digits_of_follows (hrest : Follows rest) :
    digits rest = ([], rest) := by
  cases rest with
  | nil => rfl
  | cons c rest =>
      have hnone : Digits.decimal? c = none := by
        rcases hrest c rfl with rfl | rfl | rfl <;> rfl
      rw [digits, hnone]

theorem digits_append {cs : List Char} (hcs : ∀ c ∈ cs, c.isDigit = true)
    (hrest : Follows rest) :
    digits (cs ++ rest) = (cs.map Digits.numeric, rest) := by
  induction cs with
  | nil => exact digits_of_follows hrest
  | cons c cs ih =>
      obtain ⟨hc, hcs⟩ := List.forall_mem_cons.mp hcs
      rw [List.cons_append, digits, Digits.decimal?_eq_some hc, ih hcs]
      rfl

theorem fraction?_of_follows (hrest : Follows rest) :
    fraction? rest = some (none, rest) := by
  cases rest with
  | nil => rfl
  | cons c rest => rcases hrest c rfl with rfl | rfl | rfl <;> rfl

theorem exponent?_of_follows (hrest : Follows rest) :
    exponent? rest = some (none, rest) := by
  cases rest with
  | nil => rfl
  | cons c rest => rcases hrest c rfl with rfl | rfl | rfl <;> rfl

theorem unsigned?_ofNat (negative : Bool) (n : Nat) (hrest : Follows rest) :
    unsigned? negative (Digits.ofNat n ++ rest) =
      some (.number ⟨negative, (Digits.ofNat n).map Digits.numeric, none, none⟩,
        rest) := by
  have hdigits : digits (Digits.ofNat n ++ rest) =
      ((Digits.ofNat n).map Digits.numeric, rest) :=
    digits_append (fun _ => Digits.isDigit_of_mem_ofNat) hrest
  have hleading : ¬(((Digits.ofNat n).map Digits.numeric).length ≠ 1 ∧
      ((Digits.ofNat n).map Digits.numeric).head? = some 0) := by
    rintro ⟨hlong, hzero⟩
    rcases Nat.eq_zero_or_pos n with rfl | hpos
    · exact hlong rfl
    · exact Digits.head?_ofNat_ne_zero hpos hzero
  obtain ⟨c, cs, hcons, -⟩ := Digits.exists_ofNat_eq_cons n
  rw [hcons, List.map_cons] at hdigits hleading ⊢
  simp only [unsigned?, someDigits?, hdigits, if_neg hleading,
    fraction?_of_follows hrest, exponent?_of_follows hrest, Option.bind_eq_bind,
    Option.bind_some]
  rfl

end Numbers

/-! ## How a value begins -/

section Beginnings

variable {fuel : Nat} {rest : List Char}

theorem skipBlanks_cons {c : Char} (hc : isBlank c = false) :
    skipBlanks (c :: rest) = c :: rest := by
  rw [skipBlanks, List.dropWhile_cons_of_neg (by simp [hc])]

theorem isBlank_digit {c : Char} (hc : c.isDigit = true) :
    isBlank c = false := by
  simp only [isBlank, Bool.or_eq_false_iff, beq_eq_false_iff_ne]
  refine ⟨⟨⟨?_, ?_⟩, ?_⟩, ?_⟩ <;> rintro rfl <;> exact absurd hc (by decide)

theorem node?_digit {c : Char} (hc : c.isDigit = true) :
    node? (fuel + 1) (c :: rest) = unsigned? false (c :: rest) := by
  rw [node?, skipBlanks_cons (isBlank_digit hc)]
  split
  case h_8 => rfl
  all_goals
    next heq =>
      cases heq
      exact absurd hc (by decide)

theorem node?_minus : node? (fuel + 1) ('-' :: rest) = unsigned? true rest :=
  rfl

theorem node?_ofInt (i : Int) (hrest : Follows rest) :
    node? (fuel + 1) (Digits.ofInt i ++ rest) =
      some (.number (Numeral.ofInt i), rest) := by
  cases i with
  | ofNat n =>
      obtain ⟨c, cs, hcons, hc⟩ := Digits.exists_ofNat_eq_cons n
      rw [Digits.ofInt, hcons, List.cons_append, node?_digit hc,
        ← List.cons_append, ← hcons]
      exact unsigned?_ofNat false n hrest
  | negSucc n =>
      rw [Digits.ofInt, List.cons_append, node?_minus]
      exact unsigned?_ofNat true (n + 1) hrest

theorem quoted_append (s : String) :
    quoted s ++ rest = '"' :: (s.toList.flatMap escape ++ '"' :: rest) := by
  rw [quoted, List.append_assoc, List.cons_append, List.singleton_append]

theorem node?_quoted (s : String) (hfuel : (quoted s).length ≤ fuel) :
    node? (fuel + 1) (quoted s ++ rest) =
      some (.string (s.toList.map Piece.ofChar), rest) := by
  simp only [quoted, List.length_cons, List.length_append,
    List.length_nil] at hfuel
  have hbudget : (s.toList.flatMap escape).length < fuel := by omega
  rw [quoted_append, node?, skipBlanks_cons rfl]
  simp only [pieces?_flatMap_escape s.toList rest hbudget, Option.map_some]

/-- A text of digits, with or without a sign, begins with neither a blank nor a
bracket. -/
theorem exists_ofInt_eq_cons (i : Int) :
    ∃ c cs, Digits.ofInt i = c :: cs ∧ isBlank c = false ∧ c ≠ ']' := by
  cases i with
  | ofNat n =>
      obtain ⟨c, cs, hcons, hc⟩ := Digits.exists_ofNat_eq_cons n
      refine ⟨c, cs, hcons, isBlank_digit hc, ?_⟩
      rintro rfl
      exact absurd hc (by decide)
  | negSucc n => exact ⟨'-', _, rfl, rfl, by decide⟩

/-- A value is not taken for the end of the array that it is in. -/
theorem Whole.exists_chars_eq_cons {j : Json} (h : Whole j) :
    ∃ c cs, j.chars = c :: cs ∧ isBlank c = false ∧ c ≠ ']' := by
  cases h with
  | null => exact ⟨'n', _, rfl, rfl, by decide⟩
  | bool b => cases b <;> exact ⟨_, _, rfl, rfl, by decide⟩
  | int i => exact exists_ofInt_eq_cons i
  | string s => exact ⟨'"', _, rfl, rfl, by decide⟩
  | @array items _ => cases items <;> exact ⟨'[', _, rfl, rfl, by decide⟩
  | @object members _ =>
      cases members <;> exact ⟨'\x7b', _, rfl, rfl, by decide⟩

end Beginnings

/-! ## Reading on -/

/-- The text of the value is read as its tree in front of anything that may
follow it, on any budget that exceeds its length. -/
def Reads (j : Json) : Prop :=
  ∀ fuel rest, j.chars.length < fuel → Follows rest →
    node? fuel (j.chars ++ rest) = some (j.tree, rest)

section Reading

variable {a : Json} {n : String} {fuel : Nat} {rest behind : List Char}

theorem items?_last (hread : Reads a) (hfuel : a.chars.length < fuel) :
    items? (fuel + 1) (a.chars ++ ']' :: rest) = some ([a.tree], rest) := by
  have hitem := hread fuel (']' :: rest) hfuel (Follows.itemsChars [] rest)
  rw [items?, hitem]
  rfl

theorem items?_comma {items : List Node} (hread : Reads a)
    (hfuel : a.chars.length < fuel)
    (hothers : items? fuel behind = some (items, rest)) :
    items? (fuel + 1) (a.chars ++ ',' :: behind) =
      some (a.tree :: items, rest) := by
  have hitem := hread fuel (',' :: behind) hfuel (Follows.comma behind)
  rw [items?, hitem, Option.bind_eq_bind, Option.bind_some]
  simp only [skipBlanks_cons (c := ',') rfl, hothers]
  rfl

theorem items?_chars {items : List Json} (hreads : ∀ b ∈ a :: items, Reads b)
    (hfuel : (a.chars ++ itemsChars items).length < fuel) :
    items? fuel (a.chars ++ (itemsChars items ++ rest)) =
      some (itemTrees (a :: items), rest) := by
  induction items generalizing a fuel with
  | nil =>
      obtain ⟨fuel, rfl⟩ :=
        Nat.exists_eq_add_one_of_ne_zero (Nat.ne_zero_of_lt hfuel)
      simp only [List.length_append, itemsChars, List.length_singleton] at hfuel
      exact items?_last (hreads a List.mem_cons_self) (by omega)
  | cons b items ih =>
      obtain ⟨fuel, rfl⟩ :=
        Nat.exists_eq_add_one_of_ne_zero (Nat.ne_zero_of_lt hfuel)
      obtain ⟨hread, hreads⟩ := List.forall_mem_cons.mp hreads
      simp only [List.length_append, itemsChars, List.length_cons] at hfuel
      have hothers : items? fuel (b.chars ++ (itemsChars items ++ rest)) =
          some (itemTrees (b :: items), rest) :=
        ih hreads (by rw [List.length_append]; omega)
      rw [itemsChars, List.cons_append, List.cons_append, List.append_assoc]
      exact items?_comma hread (by omega) hothers

/-- A member is read up to what follows its value. -/
theorem members?_value (hread : Reads a)
    (hfuel : (quoted n ++ ':' :: a.chars).length ≤ fuel)
    (hrest : Follows rest) :
    members? (fuel + 1) (quoted n ++ ':' :: (a.chars ++ rest)) =
      match skipBlanks rest with
      | '\x7d' :: behind => some ([(n.toList.map Piece.ofChar, a.tree)], behind)
      | ',' :: behind => do
        let (members, behind) ← members? fuel behind
        return ((n.toList.map Piece.ofChar, a.tree) :: members, behind)
      | _ => none := by
  simp only [quoted, List.length_append, List.length_cons,
    List.length_nil] at hfuel
  have hbudget : (n.toList.flatMap escape).length < fuel := by omega
  have hname :=
    pieces?_flatMap_escape n.toList (':' :: (a.chars ++ rest)) hbudget
  have hvalue := hread fuel rest (by omega) hrest
  rw [quoted_append, members?, skipBlanks_cons rfl]
  simp only [hname, Option.bind_eq_bind, Option.bind_some,
    skipBlanks_cons (c := ':') rfl, hvalue]
  rfl

theorem members?_last (hread : Reads a)
    (hfuel : (quoted n ++ ':' :: a.chars).length ≤ fuel) :
    members? (fuel + 1) (quoted n ++ ':' :: (a.chars ++ '\x7d' :: rest)) =
      some ([(n.toList.map Piece.ofChar, a.tree)], rest) :=
  members?_value hread hfuel (Follows.membersChars [] rest)

theorem members?_comma {members : List (List Piece × Node)} (hread : Reads a)
    (hfuel : (quoted n ++ ':' :: a.chars).length ≤ fuel)
    (hothers : members? fuel behind = some (members, rest)) :
    members? (fuel + 1) (quoted n ++ ':' :: (a.chars ++ ',' :: behind)) =
      some ((n.toList.map Piece.ofChar, a.tree) :: members, rest) := by
  rw [members?_value hread hfuel (Follows.comma behind), skipBlanks_cons rfl]
  simp only [hothers]
  rfl

theorem members?_chars {members : List (String × Json)}
    (hreads : ∀ m ∈ (n, a) :: members, Reads m.2)
    (hfuel : (quoted n ++ ':' :: a.chars ++ membersChars members).length <
      fuel) :
    members? fuel
      (quoted n ++ ':' :: (a.chars ++ (membersChars members ++ rest))) =
      some (memberTrees ((n, a) :: members), rest) := by
  induction members generalizing n a fuel with
  | nil =>
      obtain ⟨fuel, rfl⟩ :=
        Nat.exists_eq_add_one_of_ne_zero (Nat.ne_zero_of_lt hfuel)
      rw [List.length_append] at hfuel
      exact members?_last (hreads (n, a) List.mem_cons_self) (by omega)
  | cons m members ih =>
      obtain ⟨m, b⟩ := m
      obtain ⟨fuel, rfl⟩ :=
        Nat.exists_eq_add_one_of_ne_zero (Nat.ne_zero_of_lt hfuel)
      obtain ⟨hread, hreads⟩ := List.forall_mem_cons.mp hreads
      rw [List.length_append] at hfuel
      have hlength : (membersChars ((m, b) :: members)).length =
          (quoted m ++ ':' :: b.chars ++ membersChars members).length + 1 := by
        simp only [membersChars, List.length_append, List.length_cons]
        omega
      have hothers : members? fuel
          (quoted m ++ ':' :: (b.chars ++ (membersChars members ++ rest))) =
          some (memberTrees ((m, b) :: members), rest) :=
        ih hreads (by omega)
      simp only [membersChars, List.cons_append, List.append_assoc]
      exact members?_comma hread (by omega) hothers

end Reading

theorem Reads.of_succ {j : Json}
    (h : ∀ fuel rest, j.chars.length ≤ fuel → Follows rest →
    node? (fuel + 1) (j.chars ++ rest) = some (j.tree, rest)) :
    Reads j := by
  intro fuel rest hfuel hrest
  obtain ⟨fuel, rfl⟩ :=
    Nat.exists_eq_add_one_of_ne_zero (Nat.ne_zero_of_lt hfuel)
  exact h fuel rest (Nat.le_of_lt_succ hfuel) hrest

/-- A value without doubles is read as its tree. -/
theorem Whole.reads {j : Json} (h : Whole j) : Reads j := by
  induction h with
  | null => exact .of_succ fun _ _ _ _ => rfl
  | bool b => cases b <;> exact .of_succ fun _ _ _ _ => rfl
  | int i => exact .of_succ fun _ _ _ hrest => node?_ofInt i hrest
  | string s => exact .of_succ fun _ _ hfuel _ => node?_quoted s hfuel
  | @array items hitems ih =>
      refine .of_succ fun fuel rest hfuel _ => ?_
      cases items with
      | nil => rfl
      | cons a items =>
          rw [chars, List.cons_append, List.length_cons] at hfuel
          have hread : items? fuel (a.chars ++ (itemsChars items ++ rest)) =
              some (itemTrees (a :: items), rest) :=
            items?_chars ih (by omega)
          obtain ⟨c, cs, hcons, hblank, hbracket⟩ :=
            (hitems a List.mem_cons_self).exists_chars_eq_cons
          rw [chars, List.cons_append, List.cons_append, List.append_assoc]
          rw [hcons, List.cons_append] at hread ⊢
          rw [node?, skipBlanks_cons rfl]
          simp only [skipBlanks_cons hblank, hread]
          split
          · next heq =>
              cases heq
              exact absurd rfl hbracket
          · rfl
  | @object members hmembers ih =>
      refine .of_succ fun fuel rest hfuel _ => ?_
      cases members with
      | nil => rfl
      | cons m members =>
          obtain ⟨n, a⟩ := m
          rw [chars, List.cons_append, List.cons_append,
            List.length_cons] at hfuel
          have hread : members? fuel
              (quoted n ++ ':' :: (a.chars ++ (membersChars members ++ rest))) =
              some (memberTrees ((n, a) :: members), rest) :=
            members?_chars ih (by omega)
          simp only [chars, List.cons_append, List.append_assoc]
          rw [quoted_append] at hread ⊢
          rw [node?, skipBlanks_cons rfl]
          simp only [skipBlanks_cons (c := '"') rfl, hread]
          rfl

/-- The compact text of a value without doubles is a JSON text, and its tree is
the one of the value. -/
theorem nodeOfChars?_chars {j : Json} (h : Whole j) :
    nodeOfChars? j.chars = some j.tree := by
  have hread := h.reads _ [] (Nat.lt_succ_self _) Follows.nil
  rw [List.append_nil] at hread
  rw [nodeOfChars?, hread]
  rfl

end AuditTrail.Json
