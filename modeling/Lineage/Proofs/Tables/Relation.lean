import Lineage.Proofs.Tables.Distance
import Lineage.Proofs.Tables.Isolated

/-!
# A foreign key seen from both ends

The relations of a table list its parents by going through its own foreign keys, and its children by
going through the foreign keys of all tables. A key that leads from one table to another is thus
shown twice, in two lists that are made in different ways: to the child the owner that the key
leaves out is that of the parent, and to the parent the columns that the key leaves out are its
primary key. What the two show of the key itself is the same, key by key and in the same order, also
where a table refers to itself or has several keys to one parent.

To say so, a parent in the list of a table has to be matched with the key that it stands for. There
is one parent for every key that names one (`Table.parentKeys`), so the two lists are read side by
side, and those parents are picked whose key leads to the table in question
(`TableRelations.parentsTo`).

Keys that lead nowhere are parents in the list of their table and children in none. So the children
of all tables are as many as the keys that lead somewhere, and a table without parents and children
is one that stands alone in the network.
-/

namespace Lineage

/-- The foreign keys of a table that name a parent. -/
def Table.parentKeys (t : Table) : List ForeignKey := t.foreignKeys.filter (!·.parentTable.isEmpty)

/-- The table of a schema that a foreign key leads to. -/
def Schema.parent? (s : Schema) (key : ForeignKey) : Option Table :=
  (s.parentIndex? key).bind (s.tables[·]?)

/-- The parents in the relations of a table that stand for its keys to another. -/
def TableRelations.parentsTo (r : TableRelations) (s : Schema) (child parent : Table) :
    List RelatedTable :=
  ((child.parentKeys.zip r.parents).filter fun e ↦ s.parent? e.1 = some parent).map (·.2)

namespace Schema

variable {s : Schema} {i j : Nat} {t u : Table} {key : ForeignKey}

theorem parent?_eq_some_iff (h : s.HasDistinctNames) (hu : s.tables[j]? = some u) :
    s.parent? key = some u ↔ s.parentIndex? key = some j := by
  rw [parent?, Option.bind_eq_some_iff]
  constructor
  · rintro ⟨k, hk, hat⟩
    have hindex := h.tableIndex?_eq_some hat
    rw [h.tableIndex?_eq_some hu, Option.some_inj] at hindex
    rw [hk, hindex]
  · intro hj
    exact ⟨j, hj, hu⟩

theorem filter_parentKeys_eq (h : s.HasDistinctNames) (hu : s.tables[j]? = some u) (t : Table) :
    t.parentKeys.filter (fun key ↦ s.parent? key = some u) =
      t.foreignKeys.filter (s.parentIndex? · = some j) := by
  rw [Table.parentKeys, List.filter_filter]
  refine List.filter_congr fun key _ ↦ ?_
  simp only [parent?_eq_some_iff h hu]
  by_cases hj : s.parentIndex? key = some j
  · simp [hj, (lt_of_parentIndex?_eq_some hj).2]
  · simp [hj]

theorem HasDistinctNames.filter_name_eq (h : s.HasDistinctNames) (ht : t ∈ s.tables) :
    s.tables.filter (·.name = t.name) = [t] := by
  obtain ⟨front, back, hsplit⟩ := List.append_of_mem ht
  obtain ⟨-, hback, hfront⟩ := List.pairwise_append.mp (hsplit ▸ h.distinct)
  have hother : ∀ {u v : Table}, Text.eqIgnoringAsciiCase u.name v.name = false →
      u.name ≠ v.name := by
    intro u v hne heq
    rw [heq, Text.eqIgnoringAsciiCase_iff.mpr rfl] at hne
    exact absurd hne (by decide)
  have hnotFront : front.filter (·.name = t.name) = [] := by
    refine List.filter_eq_nil_iff.mpr fun u hu ↦ ?_
    simpa using hother (hfront u hu t List.mem_cons_self)
  have hnotBack : back.filter (·.name = t.name) = [] := by
    refine List.filter_eq_nil_iff.mpr fun u hu ↦ ?_
    simpa using (hother (List.rel_of_pairwise_cons hback hu)).symm
  rw [hsplit, List.filter_append, hnotFront, List.filter_cons_of_pos (by simp), hnotBack,
    List.nil_append]

theorem HasDistinctNames.map_tableIndex? (h : s.HasDistinctNames) :
    s.tables.map (fun t ↦ s.tableIndex? t.name) = (List.range s.tables.length).map some := by
  refine List.ext_getElem (by simp) fun i hi _ ↦ ?_
  rw [List.length_map] at hi
  rw [List.getElem_map, List.getElem_map, List.getElem_range,
    h.tableIndex?_eq_some (List.getElem?_eq_getElem hi)]

end Schema

namespace TableNetwork

variable {n : TableNetwork} {i j : Nat} {c p t : Table}

theorem foreignKeys_eq_parentKeys (ht : n.schema.tables[i]? = some t) :
    n.foreignKeys i = t.parentKeys := by
  rw [foreignKeys, ht, Option.map_some, Option.getD_some, Table.parentKeys]

/-- The relations of a table of the network. -/
def relationsOf (n : TableNetwork) (t : Table) : TableRelations :=
  n.relations ((n.schema.tableIndex? t.name).getD 0) t

theorem relationsOf_eq (h : n.schema.HasDistinctNames) (ht : n.schema.tables[i]? = some t) :
    n.relationsOf t = n.relations i t := by
  rw [relationsOf, h.tableIndex?_eq_some ht, Option.getD_some]

theorem relations?_eq_ok (h : n.schema.HasDistinctNames) (ht : t ∈ n.schema.tables) :
    n.relations? t.name = .ok (some (n.relationsOf t)) := by
  obtain ⟨i, hi⟩ := List.mem_iff_getElem?.mp ht
  have hindex := h.tableIndex?_eq_some hi
  rw [relations?, checkName_of_not_blank (h.not_blank t ht), hindex, relationsOf_eq h hi]
  simp only [Option.bind_eq_bind, Option.bind_some, hi]
  rfl

/-! ## The two lists -/

theorem parents_relationsOf (h : n.schema.HasDistinctNames) (ht : t ∈ n.schema.tables) :
    (n.relationsOf t).parents = t.parentKeys.map (n.parentOf t) := by
  obtain ⟨i, hi⟩ := List.mem_iff_getElem?.mp ht
  rw [relationsOf_eq h hi, relations, foreignKeys_eq_parentKeys hi]

theorem parentsTo_relationsOf (h : n.schema.HasDistinctNames) (hc : c ∈ n.schema.tables)
    (hp : n.schema.tables[j]? = some p) :
    (n.relationsOf c).parentsTo n.schema c p =
      (c.foreignKeys.filter (n.schema.parentIndex? · = some j)).map (n.parentOf c) := by
  have hzip : c.parentKeys.zip (c.parentKeys.map (n.parentOf c)) =
      c.parentKeys.map fun key ↦ (key, n.parentOf c key) := by
    rw [← List.map_id c.parentKeys, List.map_map, List.zip_map', List.map_id]
    rfl
  rw [TableRelations.parentsTo, parents_relationsOf h hc, hzip, List.filter_map, List.map_map,
    ← Schema.filter_parentKeys_eq h hp]
  rfl

/-- The children of one name are those that stand for the keys of the table of that name. -/
theorem filter_childrenOf (h : n.schema.HasDistinctNames) (hc : c ∈ n.schema.tables) :
    (n.childrenOf j p).filter (·.name = c.name) =
      (c.foreignKeys.filter (n.schema.parentIndex? · = some j)).map fun key ↦
        .ofKey key c.owner c.name (some p) := by
  rw [childrenOf, filter_flatMap_of_forall (p := fun t ↦ t.name = c.name), h.filter_name_eq hc,
    List.flatMap_singleton]
  intro t e he
  obtain ⟨key, -, rfl⟩ := List.mem_map.mp he
  rfl

/-- A parent that is found shows of a key what the child shows of it, but for its own name. -/
theorem parentOf_eq (hp : n.schema.tables[j]? = some p) {key : ForeignKey}
    (hkey : n.schema.parentIndex? key = some j) (owner name : String) :
    { n.parentOf c key with owner, name } = RelatedTable.ofKey key owner name (some p) := by
  rw [parentOf, hkey, Option.bind_some, hp]
  rfl

theorem filter_children_relationsOf (h : n.schema.HasDistinctNames) (hc : c ∈ n.schema.tables)
    (hp : p ∈ n.schema.tables) : (n.relationsOf p).children.filter (·.name = c.name) =
      ((n.relationsOf c).parentsTo n.schema c p).map fun e ↦
        { e with name := c.name, owner := c.owner } := by
  obtain ⟨j, hj⟩ := List.mem_iff_getElem?.mp hp
  rw [parentsTo_relationsOf h hc hj, relationsOf_eq h hj, relations, filter_childrenOf h hc,
    List.map_map]
  refine List.map_congr_left fun key hkey ↦ ?_
  exact (parentOf_eq hj (of_decide_eq_true (List.mem_filter.mp hkey).2) _ _).symm

/-! ## Counts -/

theorem length_childrenOf (n : TableNetwork) (j : Nat) (p : Table) :
    (n.childrenOf j p).length =
      ((n.schema.tables.flatMap (·.foreignKeys)).filter
        (n.schema.parentIndex? · = some j)).length := by
  rw [childrenOf, List.filter_flatMap, List.length_flatMap, List.length_flatMap]
  exact congrArg List.sum (List.map_congr_left fun t _ ↦ List.length_map _)

theorem sum_length_children (h : n.schema.HasDistinctNames) :
    (n.schema.tables.map fun t ↦ (n.relationsOf t).children.length).sum =
      (n.schema.tables.flatMap (·.foreignKeys)).countP n.schema.Resolves := by
  let keys := n.schema.tables.flatMap (·.foreignKeys)
  let indices := n.schema.tables.map fun t ↦ n.schema.tableIndex? t.name
  have hindices : indices = (List.range n.schema.tables.length).map some := h.map_tableIndex?
  have hnodup : indices.Nodup :=
    hindices ▸ List.nodup_range.map (Option.some_injective _)
  have hlength : ∀ t ∈ n.schema.tables, (n.relationsOf t).children.length =
      (keys.filter (n.schema.parentIndex? · = n.schema.tableIndex? t.name)).length := by
    intro t ht
    obtain ⟨i, hi⟩ := List.mem_iff_getElem?.mp ht
    rw [relationsOf_eq h hi, relations, length_childrenOf, h.tableIndex?_eq_some hi]
  have hresolves : ∀ key, n.schema.parentIndex? key ∈ indices ↔ n.schema.Resolves key = true := by
    intro key
    rw [hindices, List.mem_map, Schema.Resolves, Option.isSome_iff_exists]
    constructor
    · rintro ⟨j, -, hj⟩
      exact ⟨j, hj.symm⟩
    · rintro ⟨j, hj⟩
      exact ⟨j, List.mem_range.mpr (Schema.lt_of_parentIndex?_eq_some hj).1, hj.symm⟩
  -- each key that resolves is taken for the one index it leads to
  have hperm := flatMap_filter_perm n.schema.parentIndex? keys hnodup
  simp only [beq_eq_decide, hresolves, Bool.decide_eq_true] at hperm
  calc (n.schema.tables.map fun t ↦ (n.relationsOf t).children.length).sum
      = (indices.flatMap fun j ↦ keys.filter (n.schema.parentIndex? · = j)).length := by
        rw [List.map_congr_left hlength, List.length_flatMap, List.map_map]
        rfl
    _ = (keys.filter n.schema.Resolves).length := hperm.length_eq
    _ = keys.countP n.schema.Resolves := List.countP_eq_length_filter.symm

theorem childrenOf_eq_nil_iff :
    n.childrenOf i t = [] ↔ ∀ j, ¬n.schema.RefersTo j i := by
  simp only [childrenOf, List.flatMap_eq_nil_iff, List.map_eq_nil_iff, List.filter_eq_nil_iff,
    decide_eq_true_iff]
  constructor
  · rintro h j ⟨key, hkey, hparent⟩
    obtain hj := List.getElem?_eq_getElem (Schema.lt_of_mem_keysAt hkey)
    rw [Schema.keysAt_of_getElem? hj] at hkey
    exact h _ (List.mem_of_getElem? hj) key hkey hparent
  · intro h u hu key hkey hparent
    obtain ⟨j, hj⟩ := List.mem_iff_getElem?.mp hu
    exact h j ⟨key, Schema.keysAt_of_getElem? hj ▸ hkey, hparent⟩

/-- A table without parents and without children stands alone. -/
theorem isIsolated_relationsOf_iff (h : n.schema.HasDistinctNames) (ht : t ∈ n.schema.tables) :
    (n.relationsOf t).isIsolated = true ↔ n.schema.IsIsolated t := by
  obtain ⟨i, hi⟩ := List.mem_iff_getElem?.mp ht
  have hparents : n.foreignKeys i = [] ↔
      ∀ key ∈ n.schema.keysAt i, key.parentTable.isEmpty = true := by
    rw [foreignKeys_eq_parentKeys hi, Table.parentKeys, List.filter_eq_nil_iff,
      Schema.keysAt_of_getElem? hi]
    simp only [Bool.not_eq_true', Bool.not_eq_false]
  have halone : (n.relationsOf t).isIsolated = true ↔ n.schema.StandsAlone i := by
    rw [relationsOf_eq h hi, TableRelations.isIsolated, TableRelations.total, beq_iff_eq,
      Nat.add_eq_zero_iff, List.length_eq_zero_iff, List.length_eq_zero_iff, relations,
      List.map_eq_nil_iff, hparents, childrenOf_eq_nil_iff, Schema.StandsAlone]
  rw [halone]
  constructor
  · exact fun hstands ↦ ⟨i, hi, hstands⟩
  · rintro ⟨j, hj, hstands⟩
    have hindex := h.tableIndex?_eq_some hj
    rw [h.tableIndex?_eq_some hi, Option.some_inj] at hindex
    exact hindex ▸ hstands

end TableNetwork

open TableNetwork

/-- **A foreign key seen from both ends.** When names tell tables apart, every table has relations,
with one parent for every key that names one. Of a table and a parent of it, the children of the
parent that have the name of the table are the parents of the table that stand for its keys to that
parent, in the same order, each with the owner and the name of the table and otherwise unchanged.
The children of all tables are as many as the keys that lead to a table, and the relations of a
table say that it is isolated if and only if its name is among those of the isolated tables. -/
theorem Schema.HasDistinctNames.keys_seen_from_both_ends {s : Schema} (h : s.HasDistinctNames) :
    let n := TableNetwork.ofSchema s
    ∃ relations : Table → TableRelations,
      (∀ t ∈ s.tables, n.relations? t.name = .ok (some (relations t)) ∧
        (relations t).parents.map (·.foreignKey) = t.parentKeys.map (·.name)) ∧
      (∀ c ∈ s.tables, ∀ p ∈ s.tables,
        (relations p).children.filter (·.name = c.name) =
          ((relations c).parentsTo s c p).map fun e ↦ { e with name := c.name, owner := c.owner }) ∧
      (s.tables.map fun t ↦ (relations t).children.length).sum =
        (s.tables.flatMap (·.foreignKeys)).countP s.Resolves ∧
      ∀ t ∈ s.tables, (relations t).isIsolated = true ↔ t.name ∈ n.isolatedNames := by
  intro n
  refine ⟨n.relationsOf, fun t ht ↦ ⟨relations?_eq_ok h ht, ?_⟩,
    fun c hc p hp ↦ filter_children_relationsOf h hc hp, sum_length_children h, fun t ht ↦ ?_⟩
  · rw [parents_relationsOf h ht, List.map_map]
    rfl
  · rw [isIsolated_relationsOf_iff h ht, mem_isolatedNames]
    constructor
    · exact fun hisolated ↦ ⟨t, hisolated, rfl⟩
    · rintro ⟨u, hu, hname⟩
      -- the name of an isolated table is that of no other table
      have hsame := h.filter_name_eq ht
      have hmem : u ∈ s.tables.filter (·.name = t.name) :=
        List.mem_filter.mpr ⟨hu.mem_tables, decide_eq_true hname⟩
      rw [hsame, List.mem_singleton] at hmem
      exact hmem ▸ hu

/-- Departments, employees and logs. An employee refers to a boss, twice to a department, to a table
that the schema does not hold, and by one key to nothing; a department refers to its manager. -/
def Schema.staff : Schema :=
  { Schema.empty with
    tables :=
      [⟨"HR", "DEPT", [], ["DEPT_ID"], [⟨"MANAGER_FK", ["MANAGER"], none, "emp", none, []⟩], []⟩,
        ⟨"HR", "EMP", [], ["EMP_ID"],
          [⟨"BOSS_FK", ["BOSS"], none, "EMP", some "EMP_PK", []⟩,
            ⟨"DEPT_FK", ["DEPT"], none, "Dept", none, []⟩,
            ⟨"SITE_FK", ["SITE"], some "GEO", "SITES", none, ["SITE_ID"]⟩,
            ⟨"NONE_FK", [], none, "", none, []⟩,
            ⟨"HOME_FK", ["HOME"], some "HR", "DEPT", none, ["CODE"]⟩], []⟩,
        .ofNames "HR" "LOGS"] }

/-- Both keys of the employees to their departments are among the children of the departments, one
with the primary key that it leaves out; the keys that lead nowhere are parents of the employees and
children of no table. -/
theorem Schema.keys_of_staff_seen_from_both_ends :
    staff.HasDistinctNames ∧ ∃ dept emp,
      (ofSchema staff).relations? "DEPT" = .ok (some dept) ∧
      (ofSchema staff).relations? "EMP" = .ok (some emp) ∧ emp.parents.length = 4 ∧
      dept.children.filter (·.name = "EMP") =
        [⟨"EMP", "HR", "DEPT_FK", ["DEPT"], ["DEPT_ID"], none⟩,
          ⟨"EMP", "HR", "HOME_FK", ["HOME"], ["CODE"], none⟩] := by
  have h : staff.HasDistinctNames := by decide
  obtain ⟨relations, hfound, hmatch, -, -⟩ := h.keys_seen_from_both_ends
  let dept := staff.tables[0]
  let emp := staff.tables[1]
  obtain ⟨hdept, -⟩ := hfound dept (by decide)
  obtain ⟨hemp, -⟩ := hfound emp (by decide)
  have hlookup : (ofSchema staff).relations? emp.name =
      .ok (some ((ofSchema staff).relations 1 emp)) :=
    (relations?_eq_ok h (by decide)).trans (by rw [relationsOf_eq (i := 1) h rfl])
  have hrelations : relations emp = (ofSchema staff).relations 1 emp :=
    Option.some_inj.mp (Except.ok.inj (hemp.symm.trans hlookup))
  refine ⟨h, relations dept, relations emp, hdept, hemp, ?_, ?_⟩
  · rw [hrelations]
    decide
  · have hchildren := hmatch emp (by decide) dept (by decide)
    rw [hrelations] at hchildren
    exact hchildren.trans (by decide)

end Lineage
