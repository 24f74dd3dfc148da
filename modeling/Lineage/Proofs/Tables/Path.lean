import Lineage.Proofs.Tables.Distance

/-!
# Shortest paths between tables

A path between two tables is asked for by name and answered by name, but it is found among indices:
a name stands for the first table that has it in some case, and the foreign keys join indices. So
the names of a path may repeat, while its tables do not.

What is found is a shortest walk of a breadth-first search, and such a walk comes to no table twice
(`BreadthFirst.IsWalk.nodup_of_isDistance`). It remains to read the two names, and to say that the
walks of the search are the chains of foreign keys.
-/

open Relation

namespace Lineage

namespace Schema

variable {s : Schema} {name : String} {i j : Nat} {chain : List Nat}

/-! ## The first table of a name -/

/-- Whether the table of an index is the first with a name, ignoring the case of ASCII letters. -/
structure IsFirstNamed (s : Schema) (name : String) (i : Nat) : Prop where
  named : ∃ t, s.tables[i]? = some t ∧ Text.asciiFolded t.name = Text.asciiFolded name
  first : ∀ k < i, ∀ t, s.tables[k]? = some t → Text.asciiFolded t.name ≠ Text.asciiFolded name

theorem tableIndex?_eq_some_iff : s.tableIndex? name = some i ↔ s.IsFirstNamed name i := by
  rw [tableIndex?, List.findIdx?_eq_some_iff_getElem]
  simp only [Text.eqIgnoringAsciiCase_iff]
  constructor
  · rintro ⟨hlt, hname, hfirst⟩
    refine ⟨⟨_, List.getElem?_eq_getElem hlt, hname⟩, fun k hk t ht ↦ ?_⟩
    obtain ⟨-, rfl⟩ := List.getElem?_eq_some_iff.mp ht
    exact hfirst k hk
  · rintro ⟨⟨t, ht, hname⟩, hfirst⟩
    obtain ⟨hlt, rfl⟩ := List.getElem?_eq_some_iff.mp ht
    exact ⟨hlt, hname, fun k hk ↦ hfirst k hk _ (List.getElem?_eq_getElem (hk.trans hlt))⟩

theorem IsFirstNamed.lt_length (h : s.IsFirstNamed name i) : i < s.tables.length := by
  obtain ⟨t, ht, -⟩ := h.named
  exact (List.getElem?_eq_some_iff.mp ht).choose

theorem IsFirstNamed.eq (h : s.IsFirstNamed name i) (h' : s.IsFirstNamed name j) : i = j :=
  Option.some_inj.mp
    ((tableIndex?_eq_some_iff.mpr h).symm.trans (tableIndex?_eq_some_iff.mpr h'))

/-! ## Chains of foreign keys -/

/-- Whether tables lead from one to another, each joined to the next by a foreign key in either
direction. -/
structure IsKeyChain (s : Schema) (i j : Nat) (chain : List Nat) : Prop where
  head?_eq : chain.head? = some i
  getLast?_eq : chain.getLast? = some j
  adjacent : chain.IsChain s.Adjacent

/-- Whether some names are those of the tables of some indices, one by one. -/
def AreNames (s : Schema) (chain : List Nat) (names : List String) : Prop :=
  List.Forall₂ (fun k name ↦ ∃ t, s.tables[k]? = some t ∧ t.name = name) chain names

theorem IsKeyChain.lt_length (h : s.IsKeyChain i j chain) (hi : i < s.tables.length) :
    ∀ k ∈ chain, k < s.tables.length := by
  refine h.adjacent.induction (· < s.tables.length) chain (fun _ _ hadjacent _ ↦ ?_) fun hne ↦ ?_
  · exact hadjacent.lt_right
  · have hhead := h.head?_eq
    rw [List.head?_eq_some_head hne, Option.some_inj] at hhead
    exact hhead ▸ hi

/-- The chains of foreign keys are the walks along the neighbours of tables. -/
theorem isKeyChain_iff : s.IsKeyChain i j chain ↔
    BreadthFirst.IsWalk (TableNetwork.ofSchema s).neighbours i j (chain.length - 1) chain := by
  have hneighbours : (fun i j ↦ j ∈ (TableNetwork.ofSchema s).neighbours i) = s.Adjacent :=
    TableNetwork.mem_neighbours_eq
  constructor
  · rintro ⟨hhead, hlast, hadjacent⟩
    have hpos : 0 < chain.length := List.length_pos_of_mem (List.mem_of_mem_head? hhead)
    exact ⟨(Nat.sub_add_cancel hpos).symm, hhead, hlast, hneighbours ▸ hadjacent⟩
  · rintro ⟨-, hhead, hlast, hadjacent⟩
    exact ⟨hhead, hlast, hneighbours ▸ hadjacent⟩

end Schema

namespace TableNetwork

variable {s : Schema} {start stop : String} {i j : Nat}

/-! ## Paths among indices -/

/-- A path that is found is a chain of foreign keys without repeats, and none is shorter. -/
theorem isKeyChain_of_path?_eq_some {chain : List Nat} (hi : i < s.tables.length)
    (h : BreadthFirst.path? (ofSchema s).neighbours (ofSchema s).indices i j = some chain) :
    s.IsKeyChain i j chain ∧ chain.Nodup ∧
      ∀ other, s.IsKeyChain i j other → chain.length ≤ other.length := by
  obtain ⟨d, hdist, hwalk⟩ :=
    BreadthFirst.exists_isWalk_of_path?_eq_some neighbours_subset (mem_indices.mpr hi) h
  have hlength : chain.length = d + 1 := hwalk.length_eq
  refine ⟨Schema.isKeyChain_iff.mpr ?_, hwalk.nodup_of_isDistance hdist, fun other hother ↦ ?_⟩
  · rwa [hlength, Nat.add_sub_cancel]
  · have hother := Schema.isKeyChain_iff.mp hother
    have hle := hother.le_of_isDistance hdist
    have hother := hother.length_eq
    omega

theorem isSome_path?_of_isKeyChain {chain : List Nat} (hi : i < s.tables.length)
    (h : s.IsKeyChain i j chain) :
    (BreadthFirst.path? (ofSchema s).neighbours (ofSchema s).indices i j).isSome = true := by
  obtain ⟨d, -, hdist⟩ := (Schema.isKeyChain_iff.mp h).steps.exists_isDistance
  exact BreadthFirst.isSome_path?_of_isDistance neighbours_subset (mem_indices.mpr hi) hdist

/-! ## Paths by name -/

variable {names : List String}

theorem bind_path?_eq_some_iff : ((s.tableIndex? start).bind fun i ↦
      (s.tableIndex? stop).bind fun j ↦
        (BreadthFirst.path? (ofSchema s).neighbours (ofSchema s).indices i j).map
          (·.map (ofSchema s).name)) = some names ↔
    ∃ i j chain, s.IsFirstNamed start i ∧ s.IsFirstNamed stop j ∧
      BreadthFirst.path? (ofSchema s).neighbours (ofSchema s).indices i j = some chain ∧
      chain.map (ofSchema s).name = names := by
  simp only [Option.bind_eq_some_iff, Option.map_eq_some_iff, Schema.tableIndex?_eq_some_iff]
  constructor
  · rintro ⟨i, hi, j, hj, chain, hchain, hnames⟩
    exact ⟨i, j, chain, hi, hj, hchain, hnames⟩
  · rintro ⟨i, j, chain, hi, hj, hchain, hnames⟩
    exact ⟨i, hi, j, hj, chain, hchain, hnames⟩

theorem areNames_map {chain : List Nat} (h : ∀ k ∈ chain, k < s.tables.length) :
    s.AreNames chain (chain.map (ofSchema s).name) := by
  rw [Schema.AreNames, List.forall₂_map_right_iff, List.forall₂_same]
  intro k hk
  have htable : (ofSchema s).schema.tables[k]? = some _ := List.getElem?_eq_getElem (h k hk)
  exact ⟨_, htable, (name_of_getElem? htable).symm⟩

/-- **Paths are shortest chains.** For names that are not blank the question for a path is answered.
The answer is none exactly if one of the names is that of no table, or no chain of foreign keys
joins the first tables of the two. Otherwise it is the names along such a chain, which comes to no
table twice and is as short as any. -/
theorem path_is_shortest_chain (s : Schema) (hstart : Text.isBlankText start = false)
    (hstop : Text.isBlankText stop = false) :
    ∃ answer, (ofSchema s).path? start stop = .ok answer ∧
      (answer = none ↔ ¬∃ i j chain, s.IsFirstNamed start i ∧ s.IsFirstNamed stop j ∧
        s.IsKeyChain i j chain) ∧
      ∀ names, answer = some names → ∃ i j chain, s.IsFirstNamed start i ∧ s.IsFirstNamed stop j ∧
        s.IsKeyChain i j chain ∧ chain.Nodup ∧ s.AreNames chain names ∧
        ∀ other, s.IsKeyChain i j other → chain.length ≤ other.length := by
  refine ⟨_, path?_of_not_blank hstart hstop, ?_, ?_⟩
  · rw [Option.eq_none_iff_forall_ne_some]
    constructor
    · -- a chain between the tables would have been found
      rintro hnone ⟨i, j, chain, hi, hj, hchain⟩
      obtain ⟨path, hpath⟩ :=
        Option.isSome_iff_exists.mp (isSome_path?_of_isKeyChain hi.lt_length hchain)
      refine hnone (path.map (ofSchema s).name) ?_
      exact bind_path?_eq_some_iff.mpr ⟨i, j, path, hi, hj, hpath, rfl⟩
    · -- a path that is found is a chain
      rintro hno names hfound
      obtain ⟨i, j, path, hi, hj, hpath, -⟩ := bind_path?_eq_some_iff.mp hfound
      exact hno ⟨i, j, path, hi, hj, (isKeyChain_of_path?_eq_some hi.lt_length hpath).1⟩
  · intro names hfound
    obtain ⟨i, j, path, hi, hj, hpath, rfl⟩ := bind_path?_eq_some_iff.mp hfound
    obtain ⟨hchain, hnodup, hshortest⟩ := isKeyChain_of_path?_eq_some hi.lt_length hpath
    exact ⟨i, j, path, hi, hj, hchain, hnodup, areNames_map (hchain.lt_length hi.lt_length),
      hshortest⟩

/-- Four tables in a ring of foreign keys, with a key that is there twice and one of a table to
itself, and a second table of a name that is in the ring. -/
def ring : Schema :=
  { Schema.empty with
    tables :=
      [⟨"S", "A", [], [], [.ofNames "A_B_FK" "B", .ofNames "A_B_FK2" "b"], []⟩,
        ⟨"S", "B", [], [], [.ofNames "B_B_FK" "B", .ofNames "B_C_FK" "C"], []⟩,
        ⟨"S", "C", [], [], [.ofNames "C_D_FK" "D"], []⟩,
        ⟨"S", "D", [], [], [.ofNames "D_A_FK" "A"], []⟩, .ofNames "T" "c"] }

/-- From one table of the ring to the one across it a path is found along different tables, and it
has three names at most. -/
theorem path_across_ring :
    Text.isBlankText "a" = false ∧ Text.isBlankText "c" = false ∧
      ∃ names chain, (ofSchema ring).path? "a" "c" = .ok (some names) ∧
        ring.IsKeyChain 0 2 chain ∧ chain.Nodup ∧ ring.AreNames chain names ∧
        names.length ≤ 3 := by
  have hstart : Text.isBlankText "a" = false := by decide
  have hstop : Text.isBlankText "c" = false := by decide
  have hfirst : ring.IsFirstNamed "a" 0 := Schema.tableIndex?_eq_some_iff.mp (by decide)
  have hlast : ring.IsFirstNamed "c" 2 := Schema.tableIndex?_eq_some_iff.mp (by decide)
  have hchain : ring.IsKeyChain 0 2 [0, 1, 2] := by
    refine ⟨rfl, rfl, .cons_cons (Or.inl ?_) (.cons_cons (Or.inl ?_) (.singleton 2))⟩
    · exact ⟨.ofNames "A_B_FK" "B", by decide, by decide⟩
    · exact ⟨.ofNames "B_C_FK" "C", by decide, by decide⟩
  obtain ⟨answer, hanswer, hnone, hfound⟩ := path_is_shortest_chain ring hstart hstop
  obtain ⟨names, rfl⟩ := Option.ne_none_iff_exists'.mp
    fun heq ↦ hnone.mp heq ⟨0, 2, [0, 1, 2], hfirst, hlast, hchain⟩
  obtain ⟨i, j, path, hi, hj, hpath, hnodup, hnames, hshortest⟩ := hfound names rfl
  obtain rfl := hi.eq hfirst
  obtain rfl := hj.eq hlast
  have hlength : path.length = names.length := hnames.length_eq
  exact ⟨hstart, hstop, names, path, hanswer, hpath, hnodup, hnames,
    hlength ▸ hshortest [0, 1, 2] hchain⟩

end TableNetwork

end Lineage
