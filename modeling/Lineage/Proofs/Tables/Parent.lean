import Lineage.Graph.Build
import Lineage.Proofs.Tables.Network

/-!
# Parents in the graph and in the network

The graph of a schema and its network of tables both follow foreign keys. The graph takes an owner
that a key leaves out from the table that declares the key. The network looks a key up without that
table: a key that leaves the owner out refers to the first table of the name, whoever owns it.

So the two lead to the same table when the key gives an owner, and when the first table of the name
belongs to the owner of the declaring table. In a schema where another owner's table of that name
comes first they part: the graph shows an edge to one table, and the network has a link to another.
-/

namespace Lineage

/-! ## Owners and names -/

/-- Whether a table has an owner and a name, up to ASCII case. -/
def Table.IsNamed (t : Table) (owner name : String) : Prop :=
  Text.eqIgnoringAsciiCase t.owner owner = true ∧ Text.eqIgnoringAsciiCase t.name name = true

instance (t : Table) (owner name : String) : Decidable (t.IsNamed owner name) :=
  inferInstanceAs (Decidable (_ ∧ _))

/-- The table that the graph takes a foreign key of a table to refer to. -/
def Table.parentRef (t : Table) (key : ForeignKey) : ObjectRef :=
  ⟨key.parentOwner.getD t.owner, key.parentTable, .table⟩

/-- The dependency of a table on the parent of one of its foreign keys. -/
def Table.parentDependency (t : Table) (key : ForeignKey) : Dependency :=
  ⟨⟨t.owner, t.name, .table⟩, t.parentRef key, .hard⟩

theorem DependencyGraph.parentDependency_mem {s : Schema} {t : Table} {key : ForeignKey}
    (ht : t ∈ s.tables) (hkey : key ∈ t.foreignKeys) (hnamed : key.parentTable.isEmpty = false) :
    t.parentDependency key ∈ (ofSchema s).dependencies := by
  have hmem : t.parentDependency key ∈ tableDependencies t := by
    refine List.mem_append_left _ (List.mem_map.mpr ⟨key, List.mem_filter.mpr ⟨hkey, ?_⟩, rfl⟩)
    rw [hnamed, Bool.not_false]
  have hparts := List.mem_flatMap.mpr ⟨t, ht, hmem⟩
  exact List.mem_append_left _ (List.mem_append_left _ (List.mem_append_left _ hparts))

namespace Schema

variable {s : Schema} {i : Nat} {t : Table} {key : ForeignKey} {owner name : String}

/-! ## Look-ups -/

theorem exists_ownedTableIndex? (h : ∃ u ∈ s.tables, u.IsNamed owner name) :
    ∃ i u, s.ownedTableIndex? owner name = some i ∧ s.tables[i]? = some u ∧
      u.IsNamed owner name := by
  obtain ⟨u, hu, hnamed⟩ := h
  have hsome : (s.ownedTableIndex? owner name).isSome = true := by
    rw [ownedTableIndex?, List.findIdx?_isSome, List.any_eq_true]
    exact ⟨u, hu, Bool.and_eq_true_iff.mpr hnamed⟩
  obtain ⟨i, hi⟩ := Option.isSome_iff_exists.mp hsome
  obtain ⟨hlt, hmatch, -⟩ := List.findIdx?_eq_some_iff_getElem.mp hi
  exact ⟨i, _, hi, List.getElem?_eq_getElem hlt, Bool.and_eq_true_iff.mp hmatch⟩

/-- The first table of a name, up to ASCII case. -/
def firstNamed? (s : Schema) (name : String) : Option Table :=
  s.tables.find? fun t ↦ Text.eqIgnoringAsciiCase t.name name

theorem exists_tableIndex? (h : ∃ u ∈ s.tables, Text.eqIgnoringAsciiCase u.name name = true) :
    ∃ i u, s.tableIndex? name = some i ∧ s.tables[i]? = some u ∧ s.firstNamed? name = some u ∧
      Text.eqIgnoringAsciiCase u.name name = true := by
  have hsome : (s.firstNamed? name).isSome = true := List.find?_isSome.mpr h
  obtain ⟨u, hu⟩ := Option.isSome_iff_exists.mp hsome
  have hindex := hu
  rw [firstNamed?, List.find?_eq_bind_findIdx?_getElem?] at hindex
  obtain ⟨i, hi, hat⟩ := Option.bind_eq_some_iff.mp hindex
  have hmatch := List.find?_some hu
  exact ⟨i, u, hi, hat, hu, hmatch⟩

/-! ## Parents -/

/-- A key with an owner refers to the table of that owner and name, if there is one. -/
theorem exists_parentIndex?_of_parentOwner (hnamed : key.parentTable.isEmpty = false)
    (howner : key.parentOwner = some owner)
    (hheld : ∃ u ∈ s.tables, u.IsNamed owner key.parentTable) :
    ∃ i u, s.parentIndex? key = some i ∧ s.tables[i]? = some u ∧
      u.IsNamed owner key.parentTable := by
  obtain ⟨i, u, hi, hu, hmatch⟩ := exists_ownedTableIndex? hheld
  refine ⟨i, u, ?_, hu, hmatch⟩
  rw [parentIndex?, hnamed, if_neg Bool.false_ne_true, howner, Option.bind_some, hi, Option.some_or]

theorem parentIndex?_of_no_parentOwner (hnamed : key.parentTable.isEmpty = false)
    (howner : key.parentOwner = none) : s.parentIndex? key = s.tableIndex? key.parentTable := by
  rw [parentIndex?, hnamed, if_neg Bool.false_ne_true, howner, Option.bind_none, Option.none_or]

/-- **Parents in the graph and in the network.** Let a table have a foreign key that names a parent,
and let the schema hold the table to which the graph has an edge for that key. Then the network has
a link for the key too, and it leads to a table of that owner and name if and only if the key gives
an owner or the first table of the name belongs to the owner of the table itself. -/
theorem exists_link_isNamed_iff (ht : s.tables[i]? = some t) (hkey : key ∈ t.foreignKeys)
    (hnamed : key.parentTable.isEmpty = false)
    (hheld : ∃ u ∈ s.tables, u.IsNamed (t.parentRef key).owner (t.parentRef key).name) :
    t.parentDependency key ∈ (DependencyGraph.ofSchema s).dependencies ∧
      ∃ j u, s.parentIndex? key = some j ∧ (i, j) ∈ (TableNetwork.ofSchema s).links ∧
        s.tables[j]? = some u ∧
        (u.IsNamed (t.parentRef key).owner (t.parentRef key).name ↔
          (key.parentOwner = none → ∃ v, s.firstNamed? key.parentTable = some v ∧
            Text.eqIgnoringAsciiCase v.owner t.owner = true)) := by
  refine ⟨DependencyGraph.parentDependency_mem (List.mem_of_getElem? ht) hkey hnamed, ?_⟩
  have hlink : ∀ j, s.parentIndex? key = some j → (i, j) ∈ (TableNetwork.ofSchema s).links :=
    fun j hj ↦ mem_links.mpr ⟨key, keysAt_of_getElem? ht ▸ hkey, hj⟩
  cases howner : key.parentOwner with
  | some owner =>
    -- the look-up by owner and name comes first, and it finds a table
    have href : t.parentRef key = ⟨owner, key.parentTable, .table⟩ := by
      rw [Table.parentRef, howner, Option.getD_some]
    rw [href] at hheld ⊢
    obtain ⟨j, u, hj, hu, hmatch⟩ := exists_parentIndex?_of_parentOwner hnamed howner hheld
    exact ⟨j, u, hj, hlink j hj, hu, iff_of_true hmatch fun hnone ↦ nomatch hnone⟩
  | none =>
    -- the look-up knows the name alone, and stops at the first table that has it
    have href : t.parentRef key = ⟨t.owner, key.parentTable, .table⟩ := by
      rw [Table.parentRef, howner, Option.getD_none]
    rw [href] at hheld ⊢
    obtain ⟨w, hw, -, hname⟩ := hheld
    obtain ⟨j, u, hj, hu, hfirst, hmatch⟩ := exists_tableIndex? ⟨w, hw, hname⟩
    rw [← parentIndex?_of_no_parentOwner hnamed howner] at hj
    refine ⟨j, u, hj, hlink j hj, hu, fun h _ ↦ ⟨u, hfirst, h.1⟩, fun h ↦ ?_⟩
    obtain ⟨v, hv, howned⟩ := h rfl
    rw [hfirst, Option.some_inj] at hv
    exact ⟨hv ▸ howned, hmatch⟩

/-- A schema in which two owners have a table of one name, `first` before `HR`, and a table of `HR`
refers to that name without an owner. -/
def twoOwners (first second : String) : Schema :=
  { Schema.empty with
    tables := [.ofNames first "DEPT", .ofNames second "DEPT",
      ⟨"HR", "EMP", [], [], [.ofNames "EMP_DEPT_FK" "DEPT"], []⟩] }

/-- When the table of the same owner comes first, the link leads to it. -/
theorem exists_link_isNamed_twoOwners :
    ∃ j u, (2, j) ∈ (TableNetwork.ofSchema (twoOwners "HR" "ARCHIVE")).links ∧
      (twoOwners "HR" "ARCHIVE").tables[j]? = some u ∧ u.IsNamed "HR" "DEPT" := by
  obtain ⟨-, j, u, -, hlink, hu, hiff⟩ := @exists_link_isNamed_iff (twoOwners "HR" "ARCHIVE") 2 _
    (.ofNames "EMP_DEPT_FK" "DEPT") rfl (by decide) (by decide) (by decide)
  exact ⟨j, u, hlink, hu, hiff.mpr fun _ ↦ ⟨_, rfl, by decide⟩⟩

/-- When the table of another owner comes first, the graph has an edge to the table of the same
owner, which the schema holds, but the link leads to the other one. -/
theorem not_isNamed_otherOwnerFirst :
    let s := twoOwners "ARCHIVE" "HR"
    let key := ForeignKey.ofNames "EMP_DEPT_FK" "DEPT"
    s.tables[2].parentDependency key ∈ (DependencyGraph.ofSchema s).dependencies ∧
      (∃ u ∈ s.tables, u.IsNamed "HR" "DEPT") ∧
      ¬∃ j u, s.parentIndex? key = some j ∧ s.tables[j]? = some u ∧ u.IsNamed "HR" "DEPT" := by
  refine ⟨DependencyGraph.parentDependency_mem (by decide) (by decide) (by decide), by decide, ?_⟩
  rintro ⟨j, u, hj, hu, hmatch⟩
  have hzero : (twoOwners "ARCHIVE" "HR").parentIndex? (.ofNames "EMP_DEPT_FK" "DEPT") = some 0 :=
    by decide
  rw [hzero, Option.some_inj] at hj
  subst hj
  rw [← Option.some_inj.mp hu] at hmatch
  exact absurd hmatch (by decide)

end Schema

end Lineage
