import Lineage.Proofs.Tables.Cluster
import Lineage.Tables.Relation

/-!
# Distances between tables

Three questions about two tables have the same answer behind them. Whether one is within some steps
of the other, how long a path between them is, and whether they are in one cluster all depend on the
distance between them, the least number of steps from table to adjacent table. Since steps can be
taken back, the distance is the same from either end.

The questions are asked by name, and answered by name too. A name stands for the first table that
has it in some case, so the answers say something of all tables only when names tell tables apart.
-/

open Relation

namespace Lineage

/-! ## Names that tell tables apart -/

/-- Whether no table has a blank name and no two tables have names that differ at most in case. -/
structure Schema.HasDistinctNames (s : Schema) : Prop where
  not_blank : ∀ t ∈ s.tables, Text.isBlankText t.name = false
  distinct : s.tables.Pairwise fun t u ↦ Text.eqIgnoringAsciiCase t.name u.name = false

theorem Schema.and_iff_hasDistinctNames {s : Schema} :
    ((∀ t ∈ s.tables, Text.isBlankText t.name = false) ∧
      s.tables.Pairwise fun t u ↦ Text.eqIgnoringAsciiCase t.name u.name = false) ↔
        s.HasDistinctNames :=
  ⟨fun h ↦ ⟨h.1, h.2⟩, fun h ↦ ⟨h.not_blank, h.distinct⟩⟩

instance (s : Schema) : Decidable s.HasDistinctNames :=
  decidable_of_iff _ Schema.and_iff_hasDistinctNames

theorem Schema.HasDistinctNames.tableIndex?_eq_some {s : Schema} (h : s.HasDistinctNames) {i : Nat}
    {t : Table} (ht : s.tables[i]? = some t) : s.tableIndex? t.name = some i := by
  obtain ⟨hlt, rfl⟩ := List.getElem?_eq_some_iff.mp ht
  rw [tableIndex?, List.findIdx?_eq_some_iff_getElem]
  refine ⟨hlt, Text.eqIgnoringAsciiCase_iff.mpr rfl, fun j hj ↦ ?_⟩
  have hdistinct := List.pairwise_iff_getElem.mp h.distinct j i (Nat.lt_trans hj hlt) hlt hj
  rw [hdistinct]
  exact Bool.false_ne_true

namespace TableNetwork

variable {n : TableNetwork} {i j : Nat} {a b : Table}

theorem name_of_getElem? (ha : n.schema.tables[i]? = some a) : n.name i = a.name := by
  rw [name, ha, Option.map_some, Option.getD_some]

theorem mem_map_name_iff (h : n.schema.HasDistinctNames) {is : List Nat} (his : is ⊆ n.indices)
    (hb : n.schema.tables[j]? = some b) : b.name ∈ is.map n.name ↔ j ∈ is := by
  constructor
  · intro hmem
    obtain ⟨k, hk, hname⟩ := List.mem_map.mp hmem
    have hlt := mem_indices.mp (his hk)
    have hindex := h.tableIndex?_eq_some (List.getElem?_eq_getElem hlt)
    rw [← name_of_getElem? (List.getElem?_eq_getElem hlt), hname, h.tableIndex?_eq_some hb,
      Option.some_inj] at hindex
    exact hindex ▸ hk
  · intro hj
    exact name_of_getElem? hb ▸ List.mem_map_of_mem hj

/-! ## The questions by name -/

theorem checkName_of_not_blank {name : String} (h : Text.isBlankText name = false)
    (argument : String) : checkName argument name = .ok () := by
  rw [checkName, h]
  rfl

theorem path?_of_not_blank {start stop : String} (hstart : Text.isBlankText start = false)
    (hstop : Text.isBlankText stop = false) :
    n.path? start stop = .ok ((n.schema.tableIndex? start).bind fun i ↦
      (n.schema.tableIndex? stop).bind fun j ↦
        (BreadthFirst.path? n.neighbours n.indices i j).map (·.map n.name)) := by
  rw [path?, checkName_of_not_blank hstart, checkName_of_not_blank hstop]
  simp only [Option.map_eq_bind]
  rfl

theorem related_eq_ok (h : n.schema.HasDistinctNames) (ha : n.schema.tables[i]? = some a)
    (steps : Nat) : n.related a.name steps =
      .ok (n.sortedNames (BreadthFirst.within n.neighbours n.indices i steps)) := by
  rw [related, checkName_of_not_blank (h.not_blank a (List.mem_of_getElem? ha)),
    h.tableIndex?_eq_some ha]
  rfl

theorem path?_eq_ok (h : n.schema.HasDistinctNames) (ha : n.schema.tables[i]? = some a)
    (hb : n.schema.tables[j]? = some b) : n.path? a.name b.name =
      .ok ((BreadthFirst.path? n.neighbours n.indices i j).map (·.map n.name)) := by
  rw [path?_of_not_blank (h.not_blank a (List.mem_of_getElem? ha))
    (h.not_blank b (List.mem_of_getElem? hb)), h.tableIndex?_eq_some ha, h.tableIndex?_eq_some hb]
  rfl

/-! ## Distances behind the answers -/

/-- Whether two tables are some least number of steps apart. -/
def IsDistance (n : TableNetwork) (i j d : Nat) : Prop := BreadthFirst.IsDistance n.neighbours i j d

theorem IsDistance.symm {d : Nat} (h : n.IsDistance i j d) : n.IsDistance j i d :=
  BreadthFirst.IsDistance.symm neighbours_symm h

theorem exists_isDistance_iff :
    (∃ d, n.IsDistance i j d) ↔ ReflTransGen n.schema.Adjacent i j := by
  rw [← mem_neighbours_eq]
  exact BreadthFirst.exists_isDistance_iff

/-- A table is within some steps of another if it is at a distance of no more. -/
theorem mem_sortedNames_within_iff (h : n.schema.HasDistinctNames) (hi : i ∈ n.indices)
    (hb : n.schema.tables[j]? = some b) {steps : Nat} :
    b.name ∈ n.sortedNames (BreadthFirst.within n.neighbours n.indices i steps) ↔
      ∃ d ≤ steps, n.IsDistance i j d := by
  have hwithin : BreadthFirst.within n.neighbours n.indices i steps ⊆ n.indices := by
    intro k hk
    obtain ⟨m, -, hsteps⟩ := (BreadthFirst.mem_within_iff neighbours_subset hi).mp hk
    exact hsteps.mem neighbours_subset hi
  rw [sortedNames, ((n.sortByName_perm _).map _).mem_iff, mem_map_name_iff h hwithin hb,
    BreadthFirst.mem_within_iff neighbours_subset hi]
  constructor
  · rintro ⟨m, hm, hsteps⟩
    obtain ⟨d, hd, hdist⟩ := hsteps.exists_isDistance
    exact ⟨d, Nat.le_trans hd hm, hdist⟩
  · rintro ⟨d, hd, hdist⟩
    exact ⟨d, hd, hdist.1⟩

/-- A path by name has one name more than the distance between its ends. -/
theorem map_length_eq_some_iff (hi : i ∈ n.indices) {l : Nat} :
    ((BreadthFirst.path? n.neighbours n.indices i j).map (·.map n.name)).map List.length = some l ↔
      ∃ d, n.IsDistance i j d ∧ l = d + 1 := by
  rw [Option.map_map, show List.length ∘ (·.map n.name) = List.length from
    funext fun _ ↦ List.length_map _]
  exact BreadthFirst.map_length_path?_eq_some_iff neighbours_subset hi

theorem isSome_path_iff (hi : i ∈ n.indices) :
    ((BreadthFirst.path? n.neighbours n.indices i j).map (·.map n.name)).isSome = true ↔
      ReflTransGen n.schema.Adjacent i j := by
  rw [← exists_isDistance_iff, Option.isSome_iff_exists]
  constructor
  · rintro ⟨p, hp⟩
    obtain ⟨d, hdist, -⟩ := (map_length_eq_some_iff hi).mp (Option.map_eq_some_iff.mpr ⟨p, hp, rfl⟩)
    exact ⟨d, hdist⟩
  · rintro ⟨d, hdist⟩
    obtain ⟨p, hp, -⟩ :=
      Option.map_eq_some_iff.mp ((map_length_eq_some_iff hi).mpr ⟨d, hdist, rfl⟩)
    exact ⟨p, hp⟩

theorem exists_mem_clusters_iff (h : n.schema.HasDistinctNames)
    (ha : n.schema.tables[i]? = some a) (hb : n.schema.tables[j]? = some b) (hne : i ≠ j) :
    (∃ c ∈ n.clusters, a.name ∈ c.tables ∧ b.name ∈ c.tables) ↔
      ReflTransGen n.schema.Adjacent i j := by
  obtain ⟨parts, hparts, hcomponents, hperm⟩ := n.exists_forall₂_isClusterOf
  have hsubset : ∀ part ∈ parts, part ⊆ n.indices := by
    intro part hpart k hk
    exact (mem_indicesWhere.mp (hperm.mem_iff.mp (List.mem_flatten.mpr ⟨part, hpart, hk⟩))).1
  -- of a cluster and its component, the one holds a name when the other holds the table
  have hnames : ∀ {c part k t}, n.IsClusterOf c part → part ∈ parts →
      n.schema.tables[k]? = some t → (t.name ∈ c.tables ↔ k ∈ part) := by
    intro c part k t hc hpart ht
    rw [hc.tables_eq, mem_map_name_iff h (hsubset part hpart) ht]
  constructor
  · rintro ⟨c, hc, hac, hbc⟩
    obtain ⟨part, hpart, hcluster⟩ := exists_mem_of_forall₂ hparts hc
    have hi := (hnames hcluster hpart ha).mp hac
    exact ((hcomponents part hpart).mem_iff i hi j).mp ((hnames hcluster hpart hb).mp hbc)
  · intro hij
    have hlinked : i ∈ n.indicesWhere n.isLinked := by
      rcases hij.cases_head with heq | ⟨k, hik, -⟩
      · exact absurd heq hne
      · have hlt := mem_indices.mpr hik.symm.lt_right
        exact mem_indicesWhere.mpr ⟨hlt, isLinked_of_adjacent hik.symm⟩
    obtain ⟨part, hpart, hi⟩ := List.mem_flatten.mp (hperm.mem_iff.mpr hlinked)
    obtain ⟨c, hc, hcluster⟩ := exists_mem_of_forall₂ (List.Forall₂.flip hparts) hpart
    have hj := ((hcomponents part hpart).mem_iff i hi j).mpr hij
    exact ⟨c, hc, (hnames hcluster hpart ha).mpr hi, (hnames hcluster hpart hb).mpr hj⟩

/-- **Paths, neighbourhoods and clusters agree.** When names tell tables apart, one table is within
some steps of another if and only if a path between them is found that has at most one name more,
two tables are in one cluster if and only if a path is found, and the paths that are found from
either end are equally long. -/
theorem path_related_clusters_agree {s : Schema} (h : s.HasDistinctNames) {a b : Table}
    (ha : a ∈ s.tables) (hb : b ∈ s.tables) :
    let n := TableNetwork.ofSchema s
    ∃ path back, n.path? a.name b.name = .ok path ∧ n.path? b.name a.name = .ok back ∧
      (∀ steps, ∃ names, n.related a.name steps = .ok names ∧
        (b.name ∈ names ↔ ∃ p, path = some p ∧ p.length ≤ steps + 1)) ∧
      (a ≠ b → ((∃ c ∈ n.clusters, a.name ∈ c.tables ∧ b.name ∈ c.tables) ↔ path.isSome = true)) ∧
      path.map List.length = back.map List.length := by
  intro n
  obtain ⟨i, hi⟩ := List.mem_iff_getElem?.mp ha
  obtain ⟨j, hj⟩ := List.mem_iff_getElem?.mp hb
  have hi' : i ∈ n.indices := mem_indices.mpr (List.getElem?_eq_some_iff.mp hi).choose
  have hj' : j ∈ n.indices := mem_indices.mpr (List.getElem?_eq_some_iff.mp hj).choose
  refine ⟨_, _, path?_eq_ok h hi hj, path?_eq_ok h hj hi, fun steps ↦ ?_, fun hne ↦ ?_, ?_⟩
  · refine ⟨_, related_eq_ok h hi steps, ?_⟩
    rw [mem_sortedNames_within_iff h hi' hj]
    constructor
    · rintro ⟨d, hd, hdist⟩
      obtain ⟨p, hp, hlength⟩ :=
        Option.map_eq_some_iff.mp ((map_length_eq_some_iff hi').mpr ⟨d, hdist, rfl⟩)
      exact ⟨p, hp, by omega⟩
    · rintro ⟨p, hp, hlength⟩
      obtain ⟨d, hdist, heq⟩ :=
        (map_length_eq_some_iff hi').mp (Option.map_eq_some_iff.mpr ⟨p, hp, rfl⟩)
      exact ⟨d, by omega, hdist⟩
  · -- an isolated table is in no cluster, but there is a path from it to itself
    have hij : i ≠ j := by
      rintro rfl
      exact hne (Option.some_inj.mp (hi.symm.trans hj))
    exact (exists_mem_clusters_iff h hi hj hij).trans (isSome_path_iff hi').symm
  · -- the distance is the same from either end
    refine Option.ext fun l ↦ ?_
    rw [map_length_eq_some_iff hi', map_length_eq_some_iff hj']
    exact exists_congr fun d ↦ and_congr_left fun _ ↦ ⟨.symm, .symm⟩

/-- Three tables, each but the last with a foreign key to the next, and one that stands alone. -/
def chain : Schema :=
  { Schema.empty with
    tables :=
      [⟨"S", "A", [], [], [.ofNames "A_B_FK" "B"], []⟩,
        ⟨"S", "B", [], [], [.ofNames "B_C_FK" "c"], []⟩, .ofNames "S" "C", .ofNames "S" "D"] }

/-- From one end of the chain a path to the other is found, both ends are in one cluster, and the
other end is within as many steps as the path has. -/
theorem path_related_clusters_agree_chain :
    chain.HasDistinctNames ∧ ∃ path names,
      (ofSchema chain).path? "A" "C" = .ok (some path) ∧
        (ofSchema chain).related "A" (path.length - 1) = .ok names ∧ "C" ∈ names ∧
        ∃ c ∈ (ofSchema chain).clusters, "A" ∈ c.tables ∧ "C" ∈ c.tables := by
  have h : chain.HasDistinctNames := by decide
  have hfirst : chain.Adjacent 0 1 := .inl ⟨.ofNames "A_B_FK" "B", by decide, by decide⟩
  have hsecond : chain.Adjacent 1 2 := .inl ⟨.ofNames "B_C_FK" "c", by decide, by decide⟩
  have hcluster := (exists_mem_clusters_iff (n := ofSchema chain) (a := chain.tables[0])
    (b := chain.tables[2]) (i := 0) (j := 2) h rfl rfl (by decide)).mpr
      ((ReflTransGen.single hfirst).tail hsecond)
  obtain ⟨found, -, hfound, -, hrelated, hclusters, -⟩ :=
    path_related_clusters_agree h (a := chain.tables[0]) (b := chain.tables[2]) (by decide)
      (by decide)
  obtain ⟨path, rfl⟩ := Option.isSome_iff_exists.mp ((hclusters (by decide)).mp hcluster)
  obtain ⟨names, hnames, hmem⟩ := hrelated (path.length - 1)
  exact ⟨h, path, names, hfound, hnames, hmem.mpr ⟨path, rfl, by omega⟩, hcluster⟩

end TableNetwork

end Lineage
