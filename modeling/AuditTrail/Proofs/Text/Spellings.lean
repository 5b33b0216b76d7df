import AuditTrail.Proofs.Text.Uuid
import Mathlib.Data.List.Induction
import Mathlib.Tactic.Tauto

/-!
# The spellings of a UUID

A text is read as a UUID exactly if it becomes one of four texts when its
letters are put in lower case (`ofChars?_eq_some_iff`). Which of the four it is
shows in the first character, for no canonical text begins like the name space
or with a brace, and then in the length.
-/

namespace AuditTrail.Uuid

open Digits

theorem mapM_hex?_eq_some_iff {cs : List Char} {ds : List Nat} :
    cs.mapM hex? = some ds ↔
      (∀ d ∈ ds, d < 16) ∧ cs.map Char.toLower = ds.map hexChar := by
  induction cs generalizing ds with
  | nil => cases ds <;> simp
  | cons c cs ih =>
      simp only [List.mapM_cons, Option.bind_eq_bind, Option.bind_eq_some_iff,
        hex?_eq_some_iff, ih, List.map_cons]
      constructor
      · rintro ⟨d, ⟨hd, hc⟩, rest, ⟨hrest, hcs⟩, h⟩
        cases h
        exact ⟨List.forall_mem_cons.mpr ⟨hd, hrest⟩,
          by rw [hc, hcs, List.map_cons]⟩
      · rintro ⟨hds, h⟩
        obtain ⟨d, rest, rfl, hc, hcs⟩ := List.map_eq_cons_iff.mp h.symm
        obtain ⟨hd, hrest⟩ := List.forall_mem_cons.mp hds
        exact ⟨d, ⟨hd, hc.symm⟩, rest, ⟨hrest, hcs.symm⟩, rfl⟩

/-- Digits are found again in the number that they write, each in its place. -/
theorem digits_value {ds : List Nat} (hds : ∀ d ∈ ds, d < 16) :
    ((List.range ds.length).map fun i =>
      value 16 ds / 16 ^ (ds.length - 1 - i) % 16) = ds := by
  induction ds using List.reverseRecOn with
  | nil => rfl
  | append_singleton ds d ih =>
      obtain ⟨hds, hd⟩ := List.forall_mem_append.mp hds
      have hd := List.forall_mem_singleton.mp hd
      have hdiv : (value 16 ds * 16 + d) / 16 = value 16 ds := by omega
      have hmod : (value 16 ds * 16 + d) % 16 = d := by omega
      rw [List.length_append, List.length_singleton, digits_succ, value_concat,
        hdiv, hmod, ih hds]

theorem value_lt {ds : List Nat} (hds : ∀ d ∈ ds, d < 16) :
    value 16 ds < 16 ^ ds.length := by
  induction ds using List.reverseRecOn with
  | nil => exact Nat.one_pos
  | append_singleton ds d ih =>
      obtain ⟨hds, hd⟩ := List.forall_mem_append.mp hds
      have hd := List.forall_mem_singleton.mp hd
      have hlt := ih hds
      rw [value_concat, List.length_append, List.length_singleton, Nat.pow_succ]
      omega

/-- Digits are those of the number they write. -/
theorem nibbles_ofNibbles {ds : List Nat} (hlength : ds.length = 32)
    (hds : ∀ d ∈ ds, d < 16) :
    (ofNibbles ds).nibbles = ds := by
  have hfits : value 16 ds < 2 ^ 128 := by
    have := value_lt hds
    rwa [hlength] at this
  have hdigits := digits_value hds
  rw [hlength] at hdigits
  rw [nibbles, ofNibbles]
  simp only [BitVec.toNat_ofNat, Nat.mod_eq_of_lt hfits]
  exact hdigits

/-- The digits of the canonical text. -/
def digits (u : Uuid) : List Char := u.nibbles.map hexChar

theorem length_digits (u : Uuid) : u.digits.length = 32 := by
  rw [digits, List.length_map, length_nibbles]

theorem ofSimple?_eq_some_iff {cs : List Char} {u : Uuid} :
    ofSimple? cs = some u ↔ cs.map Char.toLower = u.digits := by
  rw [ofSimple?, Option.ite_none_right_eq_some, Option.map_eq_some_iff]
  constructor
  · rintro ⟨hlength, ds, hread, rfl⟩
    obtain ⟨hds, hcs⟩ := mapM_hex?_eq_some_iff.mp hread
    have hlength' : ds.length = 32 := by
      rw [← hlength, ← List.length_map (f := Char.toLower), hcs,
        List.length_map]
    rw [hcs, digits, nibbles_ofNibbles hlength' hds]
  · intro h
    refine ⟨?_, u.nibbles,
      mapM_hex?_eq_some_iff.mpr ⟨fun _ => lt_of_mem_nibbles, h⟩,
      ofNibbles_nibbles u⟩
    rw [← length_digits u, ← h, List.length_map]

theorem exists_eq_append_cons (n : Nat) (cs : List Char) (h : n < cs.length) :
    ∃ before c behind, cs = before ++ c :: behind ∧ before.length = n := by
  refine ⟨cs.take n, cs[n], cs.drop (n + 1), ?_,
    List.length_take_of_le (Nat.le_of_lt h)⟩
  rw [← List.drop_eq_getElem_cons, List.take_append_drop]

/-- Thirty-six characters are groups with a character between each two. -/
theorem exists_groups {cs : List Char} (h : cs.length = 36) :
    ∃ a w b x c y d z e, cs = a ++ w :: b ++ x :: c ++ y :: d ++ z :: e ∧
      a.length = 8 ∧
      b.length = 4 ∧ c.length = 4 ∧ d.length = 4 ∧ e.length = 12 := by
  obtain ⟨a, w, cs, rfl, ha⟩ := exists_eq_append_cons 8 cs (by omega)
  simp only [List.length_append, List.length_cons] at h
  obtain ⟨b, x, cs, rfl, hb⟩ := exists_eq_append_cons 4 cs (by omega)
  simp only [List.length_append, List.length_cons] at h
  obtain ⟨c, y, cs, rfl, hc⟩ := exists_eq_append_cons 4 cs (by omega)
  simp only [List.length_append, List.length_cons] at h
  obtain ⟨d, z, e, rfl, hd⟩ := exists_eq_append_cons 4 cs (by omega)
  simp only [List.length_append, List.length_cons] at h
  exact ⟨a, w, b, x, c, y, d, z, e, by simp, ha, hb, hc, hd, by omega⟩

theorem append_eq_append_iff {a b c d : List Char} (h : a.length = b.length) :
    a ++ c = b ++ d ↔ a = b ∧ c = d :=
  ⟨fun heq => List.append_inj heq h, fun heq => heq.1 ▸ heq.2 ▸ rfl⟩

theorem length_chars (u : Uuid) : u.chars.length = 36 := by
  obtain ⟨a, b, c, d, e, hdigits, ha, hb, hc, hd, he⟩ :=
    exists_append_groups u.length_digits
  rw [chars, ← digits, hdigits, hyphenated_groups ha hb hc hd]
  simp only [List.length_append, List.length_cons]
  omega

theorem ofHyphenated?_eq_some_iff {cs : List Char} {u : Uuid} :
    ofHyphenated? cs = some u ↔ cs.map Char.toLower = u.chars := by
  by_cases hlength : cs.length = 36
  · obtain ⟨a, w, b, x, c, y, d, z, e, rfl, ha, hb, hc, hd, he⟩ :=
      exists_groups hlength
    obtain ⟨a', b', c', d', e', hdigits, ha', hb', hc', hd', he'⟩ :=
      exists_append_groups u.length_digits
    rw [ofHyphenated?_groups ha hb hc hd he, Option.ite_none_right_eq_some,
      ofSimple?_eq_some_iff, chars, ← digits, hdigits,
      hyphenated_groups ha' hb' hc' hd']
    simp only [List.map_append, List.map_cons, List.append_assoc,
      List.cons_append,
      append_eq_append_iff (a := a.map _) (b := a') (by simp [ha, ha']),
      append_eq_append_iff (a := b.map _) (b := b') (by simp [hb, hb']),
      append_eq_append_iff (a := c.map _) (b := c') (by simp [hc, hc']),
      append_eq_append_iff (a := d.map _) (b := d') (by simp [hd, hd']),
      List.cons.injEq, toLower_eq_iff (d := '-') rfl]
    tauto
  · refine iff_of_false (fun h => ?_) fun h => hlength ?_
    · rw [ofHyphenated?, if_neg fun h => hlength h.1] at h
      cases h
    · rw [← length_chars u, ← h, List.length_map]

theorem map_toLower_chars (u : Uuid) : u.chars.map Char.toLower = u.chars :=
  ofHyphenated?_eq_some_iff.mp (ofHyphenated?_chars u)

/-- The ways to write an identifier in lower case: its digits, the digits in
groups, the groups in braces and the groups behind the name space. -/
def spellings (u : Uuid) : List (List Char) :=
  [u.digits, u.chars, '\x7b' :: u.chars ++ ['\x7d'], urnPrefix ++ u.chars]

section Spellings

variable {u : Uuid} {cs : List Char}

theorem mem_of_mem_hyphenated {c : Char} (h : c ∈ hyphenated cs)
    (hc : c ≠ '-') : c ∈ cs := by
  simp only [hyphenated, List.mem_append, List.mem_cons, hc, false_or] at h
  rcases h with (((h | h) | h) | h) | h
  · exact List.mem_of_mem_take h
  · exact List.mem_of_mem_drop (List.mem_of_mem_take h)
  · exact List.mem_of_mem_drop (List.mem_of_mem_take h)
  · exact List.mem_of_mem_drop (List.mem_of_mem_take h)
  · exact List.mem_of_mem_drop h

/-- The canonical text has no letter beyond f and no brace. -/
theorem not_mem_chars {c : Char} (hc : c ∈ ['u', '\x7b']) :
    c ∉ u.digits ∧ c ∉ u.chars := by
  have hforeign : c ≠ '-' ∧ ∀ n < 16, hexChar n ≠ c := by
    simp only [List.mem_cons, List.not_mem_nil, or_false] at hc
    rcases hc with rfl | rfl <;> decide
  have hdigits : c ∉ u.digits := by
    intro h
    obtain ⟨n, hn, heq⟩ := List.mem_map.mp h
    exact hforeign.2 n (lt_of_mem_nibbles hn) heq
  exact ⟨hdigits, fun h => hdigits (mem_of_mem_hyphenated h hforeign.1)⟩

theorem mem_spellings : cs ∈ u.spellings ↔
    cs = u.digits ∨ cs = u.chars ∨ cs = '\x7b' :: u.chars ++ ['\x7d'] ∨
      cs = urnPrefix ++ u.chars := by
  simp only [spellings, List.mem_cons, List.not_mem_nil, or_false]

theorem urn_mem_spellings : urnPrefix ++ cs ∈ u.spellings ↔ cs = u.chars := by
  obtain ⟨hdigits, hchars⟩ := not_mem_chars (u := u) (c := 'u') (by decide)
  rw [mem_spellings, List.append_cancel_left_eq]
  constructor
  · rintro (h | h | h | h)
    · exact absurd (h ▸ List.mem_cons_self) hdigits
    · exact absurd (h ▸ List.mem_cons_self) hchars
    · exact absurd (List.head_eq_of_cons_eq h) (by decide)
    · exact h
  · exact fun h => .inr (.inr (.inr h))

theorem brace_mem_spellings :
    '\x7b' :: cs ∈ u.spellings ↔ cs = u.chars ++ ['\x7d'] := by
  obtain ⟨hdigits, hchars⟩ := not_mem_chars (u := u) (c := '\x7b') (by decide)
  rw [mem_spellings]
  constructor
  · rintro (h | h | h | h)
    · exact absurd (h ▸ List.mem_cons_self) hdigits
    · exact absurd (h ▸ List.mem_cons_self) hchars
    · exact List.tail_eq_of_cons_eq h
    · exact absurd (List.head_eq_of_cons_eq h) (by decide)
  · exact fun h => .inr (.inr (.inl (congrArg (List.cons '\x7b') h)))

theorem plain_mem_spellings
    (hurn : (cs.take urnPrefix.length).map Char.toLower ≠ urnPrefix)
    (hbrace : cs.head? ≠ some '\x7b') :
    cs.map Char.toLower ∈ u.spellings ↔
      cs.map Char.toLower = u.digits ∨ cs.map Char.toLower = u.chars := by
  rw [mem_spellings]
  constructor
  · rintro (h | h | h | h)
    · exact .inl h
    · exact .inr h
    · obtain ⟨c, rest, rfl, hc, -⟩ := List.map_eq_cons_iff.mp h
      exact absurd (congrArg some ((toLower_eq_iff rfl).mp hc)) hbrace
    · rw [List.map_take, h, List.take_left] at hurn
      exact absurd rfl hurn
  · exact fun h => h.imp_right .inl

/-- Behind an opening brace the text is read up to the closing one. -/
theorem braced_eq_some_iff :
    (if ('\x7b' :: cs).getLast? = some '\x7d' then ofHyphenated? cs.dropLast
      else none) = some u ↔
      cs.map Char.toLower = u.chars ++ ['\x7d'] := by
  rcases List.eq_nil_or_concat cs with rfl | ⟨inner, c, rfl⟩
  · exact iff_of_false nofun fun h =>
      List.append_ne_nil_of_right_ne_nil _ (by decide) h.symm
  · have hlast : ('\x7b' :: inner.concat c).getLast? = some c := by
      rw [List.concat_eq_append, ← List.cons_append, List.getLast?_concat]
    rw [hlast, List.concat_eq_append, List.dropLast_concat, List.map_append,
      List.map_singleton, Option.ite_none_right_eq_some, Option.some.injEq,
      ofHyphenated?_eq_some_iff]
    constructor
    · rintro ⟨rfl, h⟩
      rw [h]
      rfl
    · intro h
      obtain ⟨hinner, hc⟩ := List.append_inj' h rfl
      exact ⟨(toLower_eq_iff rfl).mp (List.singleton_inj.mp hc), hinner⟩

/-- An identifier is read from its spellings in either case, and from nothing
else. -/
theorem ofChars?_eq_some_iff :
    ofChars? cs = some u ↔ cs.map Char.toLower ∈ u.spellings := by
  rw [ofChars?]
  split
  · next hurn =>
      have hcs : cs.map Char.toLower = urnPrefix ++
          (cs.drop urnPrefix.length).map Char.toLower := by
        conv_lhs => rw [← List.take_append_drop urnPrefix.length cs,
          List.map_append, hurn]
      rw [hcs, urn_mem_spellings, ofHyphenated?_eq_some_iff]
  · next hurn =>
      split
      · next hbrace =>
          obtain ⟨rest, rfl⟩ := List.head?_eq_some_iff.mp hbrace
          rw [List.map_cons, (toLower_eq_iff (d := '\x7b') rfl).mpr rfl,
            brace_mem_spellings]
          exact braced_eq_some_iff
      · next hbrace =>
          rw [plain_mem_spellings hurn hbrace]
          -- The two spellings that are left differ in their length.
          split
          · next hlength =>
              rw [ofSimple?_eq_some_iff, or_iff_left]
              intro h
              have := congrArg List.length h
              rw [List.length_map, hlength, length_chars] at this
              exact absurd this (by decide)
          · next hlength =>
              rw [ofHyphenated?_eq_some_iff, or_iff_right]
              intro h
              have := congrArg List.length h
              rw [List.length_map, length_digits] at this
              exact hlength this

end Spellings

end AuditTrail.Uuid
