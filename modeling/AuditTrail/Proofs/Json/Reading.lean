import AuditTrail.Json.Reader
import AuditTrail.Proofs.Json.Tree
import Mathlib.Algebra.Group.Int.Defs

/-!
# A value is read back from its compact text

Three things can keep a text from giving its value back. A double may not come
back from its digits, which is not settled here (`Whole`). A value may be of a
kind that no text has: an integer too large to be read as one, members out of
order (`Proper`). And it may nest deeper than the reader goes (`depth`).

Apart from doubles that is all, in both directions. What is proper and shallow
enough is read back (`value?_tree`), and whatever is read from any text is
proper and shallow enough (`proper_of_value?`), so a value that is not cannot be
what the reader answers.
-/

namespace AuditTrail.Json

/-- The value is one that a text can give: its integers have 64 bits, with or
without a sign, its doubles are finite, and its objects have their members in
order, each name once. The type leaves this open, since no operation needs it;
every value that is read has it (`proper_of_value?`). -/
inductive Proper : Json → Prop where
  | null : Proper null
  | bool (b : Bool) : Proper (bool b)
  | int {i : Int} (least : -2 ^ 63 ≤ i) (greatest : i < 2 ^ 64) : Proper (int i)
  | float {f : Float} (finite : f.isFinite = true) : Proper (float f)
  | string (s : String) : Proper (string s)
  | array {items : List Json} (items_proper : ∀ a ∈ items, Proper a) :
      Proper (array items)
  | object {members : List (String × Json)}
      (ascending : Named.Ascending members)
      (members_proper : ∀ m ∈ members, Proper m.2) : Proper (object members)

mutual

/-- The number of containers within each other. -/
def depth : Json → Nat
  | array items => depthOfItems items + 1
  | object members => depthOfMembers members + 1
  | _ => 0

/-- The greatest depth of an item. -/
def depthOfItems : List Json → Nat
  | [] => 0
  | a :: rest => max (depth a) (depthOfItems rest)

/-- The greatest depth of a member. -/
def depthOfMembers : List (String × Json) → Nat
  | [] => 0
  | (_, a) :: rest => max (depth a) (depthOfMembers rest)

end

section Depth

variable {d : Nat}

theorem depthOfItems_lt (hd : 0 < d) {items : List Json} :
    depthOfItems items < d ↔ ∀ a ∈ items, depth a < d := by
  induction items with
  | nil => simpa [depthOfItems] using hd
  | cons a items ih => rw [depthOfItems, Nat.max_lt, ih, List.forall_mem_cons]

theorem depthOfMembers_lt (hd : 0 < d) {members : List (String × Json)} :
    depthOfMembers members < d ↔ ∀ m ∈ members, depth m.2 < d := by
  induction members with
  | nil => simpa [depthOfMembers] using hd
  | cons m members ih =>
      rw [depthOfMembers, Nat.max_lt, ih, List.forall_mem_cons]

/-- A container takes one from the depth that is left to what it holds. -/
theorem add_one_lt_iff {p : Nat → Prop} {m : Nat}
    (h : ∀ {d}, 0 < d → (m < d ↔ p d)) :
    m + 1 < d ↔ 1 < d ∧ p (d - 1) := by
  constructor
  · intro hlt
    exact ⟨by omega, (h (by omega)).mp (by omega)⟩
  · rintro ⟨hd, hp⟩
    have := (h (by omega)).mpr hp
    omega

theorem depth_array_lt {items : List Json} :
    depth (array items) < d ↔ 1 < d ∧ ∀ a ∈ items, depth a < d - 1 := by
  rw [depth]
  exact add_one_lt_iff fun hd => depthOfItems_lt hd

theorem depth_object_lt {members : List (String × Json)} :
    depth (object members) < d ↔ 1 < d ∧ ∀ m ∈ members, depth m.2 < d - 1 := by
  rw [depth]
  exact add_one_lt_iff fun hd => depthOfMembers_lt hd

end Depth

/-! ## What was written is read -/

theorem Numeral.value?_ofInt {i : Int} (least : -2 ^ 63 ≤ i)
    (greatest : i < 2 ^ 64) :
    (Numeral.ofInt i).value? = some (.int i) := by
  cases i with
  | ofNat n =>
      have hlt : n < Nat.pow 2 64 := Int.ofNat_lt.mp greatest
      simp only [ofInt, value?, Digits.value_ofNat, Bool.false_eq_true,
        if_false, if_pos hlt]
      rfl
  | negSucc n =>
      have hrange : 0 < n + 1 ∧ n + 1 ≤ Nat.pow 2 63 := by
        have hpow : Nat.pow 2 63 = 9223372036854775808 := rfl
        omega
      simp only [ofInt, value?, Digits.value_ofNat, if_true, if_pos hrange]
      rfl

theorem values?_itemTrees {d : Nat} {items : List Json}
    (hitems : ∀ a ∈ items, a.tree.value? d = some a) :
    Node.values? d (itemTrees items) = some items := by
  induction items with
  | nil => rfl
  | cons a items ih =>
      obtain ⟨ha, hitems⟩ := List.forall_mem_cons.mp hitems
      rw [itemTrees, Node.values?, ha, ih hitems]
      rfl

theorem namedValues?_memberTrees {d : Nat} {members : List (String × Json)}
    (hmembers : ∀ m ∈ members, m.2.tree.value? d = some m.2) :
    Node.namedValues? d (memberTrees members) = some members := by
  induction members with
  | nil => rfl
  | cons m members ih =>
      obtain ⟨n, a⟩ := m
      obtain ⟨ha, hmembers⟩ := List.forall_mem_cons.mp hmembers
      rw [memberTrees, Node.namedValues?, textOfPieces?_ofChar, ha, ih hmembers]
      rfl

/-- The tree of a value stands for the value, to any depth that exceeds its
own. -/
theorem value?_tree {j : Json} (hwhole : Whole j) (hproper : Proper j) {d : Nat}
    (hdepth : j.depth < d) : j.tree.value? d = some j := by
  induction hwhole generalizing d with
  | null | bool b => rfl
  | int i =>
      cases hproper with
      | int least greatest => exact Numeral.value?_ofInt least greatest
  | string s => rw [tree, Node.value?, textOfPieces?_ofChar, Option.map_some]
  | array hitems ih =>
      obtain ⟨hd, hdepths⟩ := depth_array_lt.mp hdepth
      cases hproper with
      | array hproper =>
          rw [tree, Node.value?, if_neg (by omega),
            values?_itemTrees fun a ha => ih a ha (hproper a ha) (hdepths a ha),
            Option.map_some]
  | object hmembers ih =>
      obtain ⟨hd, hdepths⟩ := depth_object_lt.mp hdepth
      cases hproper with
      | object ascending hproper =>
          rw [tree, Node.value?, if_neg (by omega),
            namedValues?_memberTrees fun m hm =>
              ih m hm (hproper m hm) (hdepths m hm),
            Option.map_some, ofMembers, Named.ofList_eq_self ascending]

/-! ## What was read could be written -/

theorem Numeral.proper_of_float? {n : Numeral} {j : Json}
    (h : n.float? = some j) :
    j.Proper ∧ j.depth = 0 := by
  simp only [float?, Option.ite_none_right_eq_some, Option.some.injEq] at h
  obtain ⟨hfinite, rfl⟩ := h
  exact ⟨.float hfinite, rfl⟩

theorem Numeral.proper_of_value? {n : Numeral} {j : Json}
    (h : n.value? = some j) :
    j.Proper ∧ j.depth = 0 := by
  have hsigned : Nat.pow 2 63 = 9223372036854775808 := rfl
  have hunsigned : Nat.pow 2 64 = 18446744073709551616 := rfl
  rw [value?] at h
  split at h
  · dsimp only at h
    split at h
    · split at h
      · next hrange =>
          cases h
          exact ⟨.int (by omega) (by omega), rfl⟩
      · exact proper_of_float? h
    · split at h
      · next hrange =>
          cases h
          exact ⟨.int (by omega) (by omega), rfl⟩
      · exact proper_of_float? h
  · exact proper_of_float? h

mutual

theorem proper_of_value? {d : Nat} (hd : 0 < d) : ∀ {node : Node} {j : Json},
    node.value? d = some j → j.Proper ∧ j.depth < d
  | .null, _, h => by
      cases h
      exact ⟨.null, hd⟩
  | .bool b, _, h => by
      cases h
      exact ⟨.bool b, hd⟩
  | .number n, _, h => by
      obtain ⟨hproper, hdepth⟩ := Numeral.proper_of_value? h
      exact ⟨hproper, hdepth.symm ▸ hd⟩
  | .string pieces, _, h => by
      obtain ⟨s, -, rfl⟩ := Option.map_eq_some_iff.mp h
      exact ⟨.string s, hd⟩
  | .array nodes, _, h => by
      simp only [Node.value?, Option.ite_none_left_eq_some,
        Option.map_eq_some_iff] at h
      obtain ⟨hd, items, hitems, rfl⟩ := h
      have hread := proper_of_values? (by omega) hitems
      exact ⟨.array fun a ha => (hread a ha).1,
        depth_array_lt.mpr ⟨by omega, fun a ha => (hread a ha).2⟩⟩
  | .object nodes, _, h => by
      simp only [Node.value?, Option.ite_none_left_eq_some,
        Option.map_eq_some_iff] at h
      obtain ⟨hd, members, hmembers, rfl⟩ := h
      have hread := proper_of_namedValues? (by omega) hmembers
      have hkept := fun m hm => hread m (Named.mem_of_mem_ofList members hm)
      exact
        ⟨.object (Named.ascending_ofList members) fun m hm => (hkept m hm).1,
          depth_object_lt.mpr ⟨by omega, fun m hm => (hkept m hm).2⟩⟩

theorem proper_of_values? {d : Nat} (hd : 0 < d) :
    ∀ {nodes : List Node} {items : List Json},
    Node.values? d nodes = some items → ∀ a ∈ items, a.Proper ∧ a.depth < d
  | [], _, h => by
      cases h
      exact List.forall_mem_nil _
  | node :: nodes, _, h => by
      simp only [Node.values?, Option.bind_eq_bind,
        Option.bind_eq_some_iff] at h
      obtain ⟨a, ha, items, hitems, h⟩ := h
      cases h
      exact List.forall_mem_cons.mpr ⟨proper_of_value? hd ha,
        proper_of_values? hd hitems⟩

theorem proper_of_namedValues? {d : Nat} (hd : 0 < d) :
    ∀ {nodes : List (List Piece × Node)} {members : List (String × Json)},
      Node.namedValues? d nodes = some members → ∀ m ∈ members, m.2.Proper ∧
        m.2.depth < d
  | [], _, h => by
      cases h
      exact List.forall_mem_nil _
  | (name, node) :: nodes, _, h => by
      simp only [Node.namedValues?, Option.bind_eq_bind,
        Option.bind_eq_some_iff] at h
      obtain ⟨n, -, a, ha, members, hmembers, h⟩ := h
      cases h
      exact List.forall_mem_cons.mpr ⟨proper_of_value? hd ha,
        proper_of_namedValues? hd hmembers⟩

end

/-! ## Both together -/

/-- A value without doubles is read back from its compact text exactly when a
text can give it and it does not nest too deep. -/
theorem ofText?_text_iff {j : Json} (hwhole : Whole j) :
    ofText? j.text = some j ↔ j.Proper ∧ j.depth < depthLimit := by
  have hread : ofText? j.text = j.tree.value? depthLimit := by
    rw [ofText?, ofChars?, text, String.toList_ofList,
      nodeOfChars?_chars hwhole]
    rfl
  rw [hread]
  exact ⟨proper_of_value? (by decide), fun h => value?_tree hwhole h.1 h.2⟩

end AuditTrail.Json
