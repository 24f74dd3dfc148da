import Lineage.Proofs.Tables.Relation
import Lineage.Tables.Statistics

/-!
# What the statistics count

A foreign key may name no parent. Such a key is no link and makes no table linked, it is left out of
the parents in the relations of its table and of the degree of the table; but the statistics count
the keys of all tables as they stand, and this one with them. So the statistics count the parents of
all tables and, besides, the keys that name none, and agree with the other questions exactly where
there are no such keys.

The parents of all tables are none exactly if no table is linked, since a table to which a key
refers shares its link with the table of the key. That is the question on which the statistics go
wrong in the plainest way: a schema whose only keys name no parent has keys in its statistics and no
table that is linked.
-/

namespace Lineage

/-- The foreign keys of all tables. -/
def Schema.keys (s : Schema) : List ForeignKey := s.tables.flatMap (·.foreignKeys)

namespace TableNetwork

variable {n : TableNetwork}

theorem sum_length_parents (h : n.schema.HasDistinctNames) :
    (n.schema.tables.map fun t ↦ (n.relationsOf t).parents.length).sum =
      n.schema.keys.countP (!·.parentTable.isEmpty) := by
  have hlength : ∀ t ∈ n.schema.tables, (n.relationsOf t).parents.length =
      t.foreignKeys.countP (!·.parentTable.isEmpty) := by
    intro t ht
    rw [parents_relationsOf h ht, List.length_map, Table.parentKeys, List.countP_eq_length_filter]
  rw [List.map_congr_left hlength, Schema.keys, List.countP_flatMap]
  rfl

theorem linkedNames_eq_nil_iff : n.linkedNames = [] ↔ ∀ i ∈ n.indices, n.isLinked i = false := by
  have hsorted := (n.sortByName_perm (n.indicesWhere n.isLinked)).length_eq
  rw [linkedNames, sortedNames, List.map_eq_nil_iff, ← List.length_eq_zero_iff, hsorted,
    List.length_eq_zero_iff, indicesWhere, List.filter_eq_nil_iff]
  simp only [Bool.not_eq_true]

theorem linkedNames_eq_nil_iff_keys :
    n.linkedNames = [] ↔ ∀ key ∈ n.schema.keys, key.parentTable.isEmpty = true := by
  rw [linkedNames_eq_nil_iff]
  constructor
  · intro h key hkey
    obtain ⟨t, ht, hkey⟩ := List.mem_flatMap.mp hkey
    obtain ⟨i, hi⟩ := List.mem_iff_getElem?.mp ht
    have hat : key ∈ n.schema.keysAt i := Schema.keysAt_of_getElem? hi ▸ hkey
    have hnot := h i (mem_indices.mpr (Schema.lt_of_mem_keysAt hat))
    rw [← Bool.not_eq_false]
    intro hnamed
    rw [isLinked_iff.mpr (Or.inl ⟨key, hat, hnamed⟩)] at hnot
    cases hnot
  · intro h i _
    -- a table is linked by a key of its own or by one that leads to it, and both name a table
    have hnone : ∀ {j : Nat}, ∀ key ∈ n.schema.keysAt j, key.parentTable.isEmpty = true := by
      intro j key hkey
      have hj := List.getElem?_eq_getElem (Schema.lt_of_mem_keysAt hkey)
      rw [Schema.keysAt_of_getElem? hj] at hkey
      exact h key (List.mem_flatMap.mpr ⟨_, List.mem_of_getElem? hj, hkey⟩)
    rw [← Bool.not_eq_true, isLinked_iff]
    rintro (⟨key, hkey, hnamed⟩ | ⟨j, key, hkey, hparent⟩)
    · rw [hnone key hkey] at hnamed
      cases hnamed
    · have hnamed := (Schema.lt_of_parentIndex?_eq_some hparent).2
      rw [hnone key hkey] at hnamed
      cases hnamed

theorem sum_length_parents_eq_zero_iff (h : n.schema.HasDistinctNames) :
    (n.schema.tables.map fun t ↦ (n.relationsOf t).parents.length).sum = 0 ↔
      n.linkedNames = [] := by
  rw [sum_length_parents h, linkedNames_eq_nil_iff_keys, List.countP_eq_zero]
  simp only [Bool.not_eq_true', Bool.not_eq_false]

/-- The statistics count the parents of all tables and the keys that name none. -/
theorem foreignKeys_statistics (h : n.schema.HasDistinctNames) :
    n.statistics.foreignKeys =
      (n.schema.tables.map fun t ↦ (n.relationsOf t).parents.length).sum +
        n.schema.keys.countP (·.parentTable.isEmpty) := by
  have hkeys : n.schema.keys.length = n.schema.keys.countP (·.parentTable.isEmpty) +
      n.schema.keys.countP (!·.parentTable.isEmpty) := by
    rw [List.length_eq_countP_add_countP (fun key : ForeignKey ↦ key.parentTable.isEmpty)]
    simp only [Bool.not_eq_true, Bool.decide_eq_false]
  rw [sum_length_parents h, Nat.add_comm]
  exact hkeys

/-- The statistics count nothing where no table is linked, unless all keys that there are name no
parent. -/
theorem foreignKeys_eq_zero_iff_linkedNames :
    (n.statistics.foreignKeys = 0 ↔ n.linkedNames = []) ↔
      (∃ key ∈ n.schema.keys, key.parentTable.isEmpty = false) ∨ n.schema.keys = [] := by
  have hzero : n.statistics.foreignKeys = 0 ↔ n.schema.keys = [] := List.length_eq_zero_iff
  rw [hzero, linkedNames_eq_nil_iff_keys]
  constructor
  · intro hsame
    by_cases hall : ∀ key ∈ n.schema.keys, key.parentTable.isEmpty = true
    · exact Or.inr (hsame.mpr hall)
    · push Not at hall
      exact Or.inl (by simpa only [ne_eq, Bool.not_eq_true] using hall)
  · rintro (⟨key, hkey, hnamed⟩ | hnil)
    · refine iff_of_false (List.ne_nil_of_mem hkey) fun hall ↦ ?_
      rw [hall key hkey] at hnamed
      cases hnamed
    · exact iff_of_true hnil (by simp [hnil])

end TableNetwork

open TableNetwork

/-- **What the statistics count.** When names tell tables apart, every table has relations under its
name, and the statistics count the parents in the relations of all tables and the keys that name no
parent. So they count as many as there are parents exactly if every key names one. There are no
parents exactly if no table is linked; that the statistics count nothing says the same exactly if
some key names a parent or there are no keys. -/
theorem Schema.HasDistinctNames.statistics_count_parents_iff {s : Schema}
    (h : s.HasDistinctNames) :
    let n := TableNetwork.ofSchema s
    ∃ relations : Table → TableRelations,
      (∀ t ∈ s.tables, n.relations? t.name = .ok (some (relations t))) ∧
      let parents := (s.tables.map fun t ↦ (relations t).parents.length).sum
      n.statistics.foreignKeys = parents + s.keys.countP (·.parentTable.isEmpty) ∧
      (n.statistics.foreignKeys = parents ↔ ∀ key ∈ s.keys, key.parentTable.isEmpty = false) ∧
      (parents = 0 ↔ n.linkedNames = []) ∧
      ((n.statistics.foreignKeys = 0 ↔ n.linkedNames = []) ↔
        (∃ key ∈ s.keys, key.parentTable.isEmpty = false) ∨ s.keys = []) := by
  intro n
  refine ⟨n.relationsOf, fun t ht ↦ relations?_eq_ok h ht, foreignKeys_statistics h, ?_,
    sum_length_parents_eq_zero_iff h, foreignKeys_eq_zero_iff_linkedNames⟩
  rw [foreignKeys_statistics h]
  refine Nat.add_eq_left.trans (List.countP_eq_zero.trans ?_)
  simp only [Bool.not_eq_true]
  rfl

/-- A table with a key that names no parent. -/
def Schema.logs : Table :=
  { Table.ofNames "HR" "LOGS" with foreignKeys := [.ofNames "NONE_FK" ""] }

/-- A table with a key that names the table of logs, and one with a key that names no table. -/
def Schema.lines : Table :=
  { Table.ofNames "HR" "LINES" with
    foreignKeys := [.ofNames "LOG_FK" "logs", .ofNames "SITE_FK" "SITES"] }

/-- Of three keys the statistics count all, of which two are parents. -/
theorem Schema.statistics_count_parents_lines :
    let s : Schema := { empty with tables := [logs, lines] }
    s.HasDistinctNames ∧ ∃ first second,
      (ofSchema s).relations? "LOGS" = .ok (some first) ∧
      (ofSchema s).relations? "LINES" = .ok (some second) ∧
      first.parents.length + second.parents.length = 2 ∧
      (ofSchema s).statistics.foreignKeys = 3 := by
  intro s
  have h : s.HasDistinctNames := by decide
  obtain ⟨relations, hfound, hcount, -⟩ := h.statistics_count_parents_iff
  have htotal : (ofSchema s).statistics.foreignKeys = 3 := rfl
  have hnameless : s.keys.countP (·.parentTable.isEmpty) = 1 := by decide
  have hparents : (s.tables.map fun t ↦ (relations t).parents.length).sum =
      (relations logs).parents.length + (relations lines).parents.length := rfl
  rw [htotal, hnameless, hparents] at hcount
  exact ⟨h, relations logs, relations lines, hfound logs (by decide), hfound lines (by decide),
    Nat.add_right_cancel hcount.symm, htotal⟩

/-- A schema of one table whose only key names no parent has a key in its statistics, though the
table has no parents and is not linked. -/
theorem Schema.statistics_count_namelessKey :
    let s : Schema := { empty with tables := [logs] }
    s.HasDistinctNames ∧
      (ofSchema s).relations? "LOGS" = .ok (some ⟨"LOGS", "HR", [], []⟩) ∧
      (ofSchema s).linkedNames = [] ∧ (ofSchema s).statistics.foreignKeys = 1 := by
  refine ⟨by decide, by decide, ?_, rfl⟩
  exact linkedNames_eq_nil_iff_keys.mpr (by decide)

end Lineage
