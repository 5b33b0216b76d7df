/-!
# Named things in order

A list of things under names, each name once, in ascending order of the names.
Names are ordered by the code points of their characters. Two such lists with
the same things under the same names are the same list (`eq_of_lookup_eq`), so
the order in which the things were put there leaves no trace.
-/

namespace AuditTrail.Named

/-- The names ascend, so each stands there once. -/
def Ascending {α : Type} (things : List (String × α)) : Prop :=
  things.Pairwise fun a b => a.1 < b.1

/-- The list with a thing put under a name: it replaces the one of that name or
goes to its place in the order. -/
def put {α : Type} (name : String) (a : α) :
    List (String × α) → List (String × α)
  | [] => [(name, a)]
  | (n, b) :: rest =>
    if name < n then (name, a) :: (n, b) :: rest
    else if name = n then (name, a) :: rest
    else (n, b) :: put name a rest

/-- The list that named things make, the last one under a name winning. -/
def ofList {α : Type} (things : List (String × α)) : List (String × α) :=
  things.foldl (fun named thing => put thing.1 thing.2 named) []

/-- The different names among a list of names, in ascending order. -/
def distinct (names : List String) : List String :=
  (ofList (names.map fun name => (name, ()))).map Prod.fst

/-! ## What is found under a name -/

/-- What is found under a name is the first thing of that name. -/
theorem lookup_cons {α : Type} (name n : String) (b : α)
    (rest : List (String × α)) :
    ((n, b) :: rest).lookup name =
      if name = n then some b else rest.lookup name := by
  by_cases h : name = n
  · simp [h]
  · rw [if_neg h, List.lookup_cons, beq_eq_false_iff_ne.mpr h]

/-- Taking out what is under a name changes nothing under any other. -/
theorem lookup_filter_ne {α : Type} {name other : String} (h : other ≠ name)
    (things : List (String × α)) :
    (things.filter (·.1 ≠ name)).lookup other = things.lookup other := by
  induction things with
  | nil => rfl
  | cons thing rest ih =>
    obtain ⟨n, b⟩ := thing
    by_cases hn : n = name
    · rw [List.filter_cons_of_neg (by simpa using hn), ih, lookup_cons,
        if_neg (hn ▸ h)]
    · rw [List.filter_cons_of_pos (by simpa using hn), lookup_cons,
        lookup_cons, ih]

/-- Putting a thing under a name changes what is found under that name, and
nothing else. -/
theorem lookup_put {α : Type} (name other : String) (a : α)
    (things : List (String × α)) :
    (put name a things).lookup other =
      if other = name then some a else things.lookup other := by
  induction things with
  | nil => rw [put, lookup_cons]
  | cons thing rest ih =>
    obtain ⟨n, b⟩ := thing
    rw [put, lookup_cons]
    by_cases hn : name = n
    · subst hn
      split <;> split <;> simp_all [lookup_cons]
    · by_cases h : other = n
      · subst h
        split <;> simp [lookup_cons, Ne.symm hn]
      · split <;> simp [lookup_cons, h, ih]

/-- In a list with each name once, what is found under a name is what is there
under it. -/
theorem mem_iff_lookup {α : Type} {name : String} {a : α}
    {things : List (String × α)} (h : (things.map Prod.fst).Nodup) :
    (name, a) ∈ things ↔ things.lookup name = some a := by
  induction things with
  | nil => exact iff_of_false List.not_mem_nil nofun
  | cons thing rest ih =>
    obtain ⟨n, b⟩ := thing
    obtain ⟨once, rest_once⟩ := List.nodup_cons.mp h
    rw [lookup_cons, List.mem_cons, Prod.mk.injEq]
    by_cases hn : name = n
    · subst hn
      have not_later : (name, a) ∉ rest :=
        fun mem => once (List.mem_map.mpr ⟨_, mem, rfl⟩)
      simp [not_later, eq_comm]
    · simp [hn, ih rest_once]

/-- A list of things with one put under a name has this name and those it
had. -/
theorem mem_names_put {α : Type} {name n : String} {a : α}
    {things : List (String × α)} :
    name ∈ (put n a things).map Prod.fst ↔
      name = n ∨ name ∈ things.map Prod.fst := by
  induction things with
  | nil => simp [put]
  | cons thing rest ih =>
    obtain ⟨m, b⟩ := thing
    rw [put]
    split
    · simp
    · split
      · next eq => simp [eq]
      · rw [List.map_cons, List.mem_cons, ih, List.map_cons, List.mem_cons,
          or_left_comm]

theorem mem_names_ofList {α : Type} {name : String}
    (things : List (String × α)) :
    name ∈ (ofList things).map Prod.fst ↔ name ∈ things.map Prod.fst := by
  suffices ∀ named : List (String × α),
      name ∈ (things.foldl (fun named thing => put thing.1 thing.2 named)
          named).map Prod.fst ↔
        name ∈ named.map Prod.fst ∨ name ∈ things.map Prod.fst from
    (this []).trans (or_iff_right List.not_mem_nil)
  induction things with
  | nil => simp
  | cons thing rest ih =>
    intro named
    rw [List.foldl_cons, ih, mem_names_put, List.map_cons, List.mem_cons,
      or_assoc, or_left_comm]

/-- Listing the different names leaves none out. -/
theorem mem_distinct {name : String} {names : List String} :
    name ∈ distinct names ↔ name ∈ names := by
  rw [distinct, mem_names_ofList, List.map_map]
  simp

/-! ## The order -/

/-- What is in the list after putting a thing there is that thing or was there
before. -/
theorem mem_put {α : Type} {name : String} {a : α} {things : List (String × α)}
    {thing : String × α} (h : thing ∈ put name a things) :
    thing = (name, a) ∨ thing ∈ things := by
  induction things with
  | nil => exact .inl (List.mem_singleton.mp h)
  | cons first rest ih =>
    obtain ⟨n, b⟩ := first
    rw [put] at h
    split at h
    · exact List.mem_cons.mp h
    · split at h
      · exact (List.mem_cons.mp h).imp id (List.mem_cons_of_mem _)
      · rcases List.mem_cons.mp h with here | later
        · exact .inr (here ▸ List.mem_cons_self)
        · exact (ih later).imp id (List.mem_cons_of_mem _)

theorem ascending_put {α : Type} (name : String) (a : α)
    {things : List (String × α)} (h : Ascending things) :
    Ascending (put name a things) := by
  induction things with
  | nil => exact List.pairwise_singleton _ _
  | cons first rest ih =>
    obtain ⟨n, b⟩ := first
    obtain ⟨below, rest_ascending⟩ := List.pairwise_cons.mp h
    rw [put]
    split
    · next lt =>
      refine List.pairwise_cons.mpr ⟨fun thing mem => ?_, h⟩
      rcases List.mem_cons.mp mem with here | later
      · exact here ▸ lt
      · exact String.lt_trans lt (below thing later)
    · next not_lt =>
      split
      · next eq =>
          exact List.pairwise_cons.mpr ⟨fun thing mem => eq ▸ below thing mem,
            rest_ascending⟩
      · next ne =>
        refine List.pairwise_cons.mpr ⟨fun thing mem => ?_, ih rest_ascending⟩
        rcases mem_put mem with here | before
        · subst here
          exact Std.lt_of_le_of_ne (String.not_lt.mp not_lt) (Ne.symm ne)
        · exact below thing before

theorem ascending_ofList {α : Type} (things : List (String × α)) :
    Ascending (ofList things) := by
  suffices ∀ named, Ascending named →
      Ascending (things.foldl (fun named thing => put thing.1 thing.2 named)
        named) from
    this [] .nil
  induction things with
  | nil => exact fun _ h => h
  | cons thing rest ih =>
      exact fun named h => ih _ (ascending_put thing.1 thing.2 h)

/-- What is in the list that named things make is one of these things. -/
theorem mem_of_mem_ofList {α : Type} {thing : String × α}
    (things : List (String × α)) (h : thing ∈ ofList things) :
    thing ∈ things := by
  suffices ∀ named,
      thing ∈ things.foldl (fun named thing => put thing.1 thing.2 named)
        named → thing ∈ named ∨ thing ∈ things from
    (this [] h).resolve_left List.not_mem_nil
  clear h
  induction things with
  | nil => exact fun named h => .inl h
  | cons first rest ih =>
    intro named h
    rcases ih _ h with early | later
    · rcases mem_put early with here | before
      · exact .inr (here ▸ List.mem_cons_self)
      · exact .inl before
    · exact .inr (List.mem_cons_of_mem _ later)

/-- A name above all that are there goes to the end. -/
theorem put_eq_append {α : Type} {name : String} {a : α}
    {things : List (String × α)} (h : ∀ thing ∈ things, thing.1 < name) :
    put name a things = things ++ [(name, a)] := by
  induction things with
  | nil => rfl
  | cons first rest ih =>
    obtain ⟨n, b⟩ := first
    obtain ⟨below, rest_below⟩ := List.forall_mem_cons.mp h
    have ne : name ≠ n := fun eq => String.lt_irrefl _ (eq ▸ below)
    rw [put, if_neg (String.lt_asymm below), if_neg ne, ih rest_below,
      List.cons_append]

/-- Things that are in order already make the list that they are. -/
theorem ofList_eq_self {α : Type} {things : List (String × α)}
    (h : Ascending things) : ofList things = things := by
  suffices ∀ named, Ascending (named ++ things) →
      things.foldl (fun named thing => put thing.1 thing.2 named) named =
        named ++ things from
    this [] h
  clear h
  induction things with
  | nil => exact fun named _ => (List.append_nil named).symm
  | cons first rest ih =>
    intro named h
    have below : ∀ thing ∈ named, thing.1 < first.1 := fun thing mem =>
      (List.pairwise_append.mp h).2.2 thing mem first List.mem_cons_self
    rw [List.append_cons] at h
    rw [List.foldl_cons, put_eq_append below, ih _ h, List.append_assoc,
      List.singleton_append]

/-- The different names of a list ascend. -/
theorem pairwise_distinct (names : List String) :
    (distinct names).Pairwise (· < ·) :=
  List.pairwise_map.mpr (ascending_ofList _)

/-- Nothing is found under a name below all that are there. -/
theorem lookup_eq_none {α : Type} {name : String} {things : List (String × α)}
    (h : ∀ thing ∈ things, name < thing.1) :
    things.lookup name = none := by
  induction things with
  | nil => rfl
  | cons first rest ih =>
    have ne : name ≠ first.1 :=
      fun eq => String.lt_irrefl _ (eq ▸ h first List.mem_cons_self)
    rw [lookup_cons, if_neg ne]
    exact ih fun thing mem => h thing (List.mem_cons_of_mem _ mem)

/-- Of two lists in order, the one whose first name is the lower answers
something under it and the other nothing. -/
theorem lookup_ne_of_lt {α : Type} {n m : String} {a b : α}
    {xs ys : List (String × α)} (lt : n < m) (hy : Ascending ((m, b) :: ys)) :
    ((n, a) :: xs).lookup n ≠ ((m, b) :: ys).lookup n := by
  have missing : ((m, b) :: ys).lookup n = none :=
    lookup_eq_none fun thing mem => by
      rcases List.mem_cons.mp mem with here | later
      · exact here ▸ lt
      · exact String.lt_trans lt ((List.pairwise_cons.mp hy).1 thing later)
  rw [missing, lookup_cons, if_pos rfl]
  exact Option.some_ne_none a

/-- Lists in order that answer alike under every name are the same. -/
theorem eq_of_lookup_eq {α : Type} {xs ys : List (String × α)}
    (hx : Ascending xs) (hy : Ascending ys)
    (h : ∀ name, xs.lookup name = ys.lookup name) : xs = ys := by
  induction xs generalizing ys with
  | nil =>
    cases ys with
    | nil => rfl
    | cons y ys =>
      have found := h y.1
      rw [lookup_cons, if_pos rfl] at found
      cases found
  | cons x xs ih =>
    obtain ⟨n, a⟩ := x
    cases ys with
    | nil =>
      have found := h n
      rw [lookup_cons, if_pos rfl] at found
      cases found
    | cons y ys =>
      obtain ⟨m, b⟩ := y
      obtain rfl : n = m := by
        rcases Std.lt_trichotomy n m with lt | eq | gt
        · exact absurd (h n) (lookup_ne_of_lt lt hy)
        · exact eq
        · exact absurd (h m).symm (lookup_ne_of_lt gt hx)
      obtain rfl : a = b := by
        have found := h n
        rwa [lookup_cons, lookup_cons, if_pos rfl, if_pos rfl,
          Option.some.injEq] at found
      obtain ⟨below_x, xs_ascending⟩ := List.pairwise_cons.mp hx
      obtain ⟨below_y, ys_ascending⟩ := List.pairwise_cons.mp hy
      refine congrArg _ (ih xs_ascending ys_ascending fun name => ?_)
      by_cases eq : name = n
      · subst eq
        rw [lookup_eq_none below_x, lookup_eq_none below_y]
      · have rests := h name
        rwa [lookup_cons, lookup_cons, if_neg eq, if_neg eq] at rests

end AuditTrail.Named
