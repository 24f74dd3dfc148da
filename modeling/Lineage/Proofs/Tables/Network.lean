import Lineage.Proofs.Lists
import Lineage.Tables.Network
import Mathlib.Algebra.GroupWithZero.Nat
import Mathlib.Data.List.Basic
import Mathlib.Data.List.Perm.Basic

/-!
# Links between tables

A network keeps the foreign keys that refer to a table of its schema as a list of links, and reads
the parents and the children of a table off that list. What the questions about a network depend on
is the relation behind the list: a table *refers* to another when one of its foreign keys does, and
two tables are *adjacent* when one refers to the other. Adjacency is symmetric, so steps from table
to table can always be taken back.

The list says more than the relation, since several keys may make the same link. The parents of a
table are one for each of its foreign keys that refer to a table of the schema, and so the links of
some tables are as many as such keys.
-/

namespace Lineage

namespace Schema

variable {s : Schema} {i j : Nat} {key : ForeignKey}

/-! ## Foreign keys -/

/-- The foreign keys of the table of an index. -/
def keysAt (s : Schema) (i : Nat) : List ForeignKey := (s.tables[i]?.map (·.foreignKeys)).getD []

/-- Whether a foreign key refers to a table of the schema. -/
def Resolves (s : Schema) (key : ForeignKey) : Bool := (s.parentIndex? key).isSome

/-- Whether a foreign key of a table refers to another table. -/
def RefersTo (s : Schema) (i j : Nat) : Prop := ∃ key ∈ s.keysAt i, s.parentIndex? key = some j

/-- Whether one of two tables refers to the other. -/
def Adjacent (s : Schema) (i j : Nat) : Prop := s.RefersTo i j ∨ s.RefersTo j i

theorem Adjacent.symm (h : s.Adjacent i j) : s.Adjacent j i := Or.symm h

theorem keysAt_of_getElem? {t : Table} (h : s.tables[i]? = some t) :
    s.keysAt i = t.foreignKeys := by
  rw [keysAt, h, Option.map_some, Option.getD_some]

theorem lt_of_mem_keysAt (h : key ∈ s.keysAt i) : i < s.tables.length := by
  rw [keysAt] at h
  by_contra hge
  rw [List.getElem?_eq_none (Nat.le_of_not_lt hge)] at h
  exact List.not_mem_nil h

theorem lt_of_parentIndex?_eq_some (h : s.parentIndex? key = some j) :
    j < s.tables.length ∧ key.parentTable.isEmpty = false := by
  rw [parentIndex?] at h
  split at h
  · cases h
  · rename_i hnamed
    refine ⟨?_, by simpa using hnamed⟩
    rcases Option.or_eq_some_iff.mp h with h | ⟨-, h⟩
    · obtain ⟨owner, -, h⟩ := Option.bind_eq_some_iff.mp h
      exact (List.findIdx?_eq_some_iff_getElem.mp h).choose
    · exact (List.findIdx?_eq_some_iff_getElem.mp h).choose

theorem RefersTo.lt (h : s.RefersTo i j) : i < s.tables.length ∧ j < s.tables.length := by
  obtain ⟨key, hkey, hparent⟩ := h
  exact ⟨lt_of_mem_keysAt hkey, (lt_of_parentIndex?_eq_some hparent).1⟩

theorem Adjacent.lt_right (h : s.Adjacent i j) : j < s.tables.length :=
  h.elim (·.lt.2) (·.lt.1)

/-! ## The list of links -/

theorem links_eq_flatMap (s : Schema) :
    s.links = (List.range s.tables.length).flatMap fun i ↦
      ((s.keysAt i).filterMap s.parentIndex?).map (i, ·) := by
  rw [links, List.range_eq_range', ← List.zipIdx_map_snd, List.flatMap_map]
  refine List.flatMap_congr fun p hp ↦ ?_
  rw [keysAt_of_getElem? (List.mem_zipIdx_iff_getElem?.mp hp)]

theorem mem_links : (i, j) ∈ s.links ↔ s.RefersTo i j := by
  simp only [links_eq_flatMap, List.mem_flatMap, List.mem_map, List.mem_filterMap, Prod.mk.injEq,
    List.mem_range]
  constructor
  · rintro ⟨i, -, j, ⟨key, hkey, hparent⟩, rfl, rfl⟩
    exact ⟨key, hkey, hparent⟩
  · rintro ⟨key, hkey, hparent⟩
    exact ⟨i, lt_of_mem_keysAt hkey, j, ⟨key, hkey, hparent⟩, rfl, rfl⟩

theorem length_links_of_keys (s : Schema) (keys : List ForeignKey) (i : Nat) :
    ((keys.filterMap s.parentIndex?).map (i, ·)).length = keys.countP s.Resolves := by
  rw [List.length_map, List.length_filterMap_eq_countP]
  rfl

/-- The links from some tables are as many as their keys that refer to a table of the schema. -/
theorem countP_links {is : List Nat} (hnodup : is.Nodup) (hlt : ∀ i ∈ is, i < s.tables.length) :
    s.links.countP (is.contains ·.1) = (is.map fun i ↦ (s.keysAt i).countP s.Resolves).sum := by
  -- the links of one table are all counted or none, as the table is one of those or not
  have hchild : ∀ i, ∀ link ∈ ((s.keysAt i).filterMap s.parentIndex?).map (i, ·),
      is.contains link.1 = is.contains i := by
    intro i link hlink
    obtain ⟨j, -, rfl⟩ := List.mem_map.mp hlink
    rfl
  have hperm : ((List.range s.tables.length).filter is.contains).Perm is := by
    refine (List.perm_ext_iff_of_nodup (List.nodup_range.filter _) hnodup).mpr fun i ↦ ?_
    rw [List.mem_filter, List.mem_range, List.contains_iff_mem]
    exact ⟨And.right, fun h ↦ ⟨hlt i h, h⟩⟩
  rw [List.countP_eq_length_filter, links_eq_flatMap, filter_flatMap_of_forall hchild,
    List.length_flatMap]
  simp only [length_links_of_keys]
  exact (hperm.map _).sum_nat

theorem length_links (s : Schema) :
    s.links.length = (s.tables.flatMap (·.foreignKeys)).countP s.Resolves := by
  rw [links, List.length_flatMap, List.countP_flatMap]
  simp only [length_links_of_keys]
  conv_rhs => rw [← List.zipIdx_map_fst 0 s.tables, List.map_map]
  rfl

end Schema

/-! ## Neighbours -/

namespace TableNetwork

variable {n : TableNetwork} {i j : Nat}

theorem mem_parents : j ∈ n.parents i ↔ n.schema.RefersTo i j := by
  rw [← Schema.mem_links, ← n.links_eq]
  simp [parents]

theorem mem_children : j ∈ n.children i ↔ n.schema.RefersTo j i := by
  rw [← Schema.mem_links, ← n.links_eq]
  simp [children]

theorem mem_neighbours : j ∈ n.neighbours i ↔ n.schema.Adjacent i j := by
  rw [neighbours, List.mem_append, mem_parents, mem_children]
  rfl

theorem mem_neighbours_eq : (fun i j ↦ j ∈ n.neighbours i) = n.schema.Adjacent :=
  funext fun _ ↦ funext fun _ ↦ propext mem_neighbours

theorem neighbours_symm (i j : Nat) (h : j ∈ n.neighbours i) : i ∈ n.neighbours j :=
  mem_neighbours.mpr (mem_neighbours.mp h).symm

theorem mem_indices : i ∈ n.indices ↔ i < n.schema.tables.length := List.mem_range

theorem neighbours_subset (i : Nat) (_ : i ∈ n.indices) : n.neighbours i ⊆ n.indices :=
  fun _ hj ↦ mem_indices.mpr (mem_neighbours.mp hj).lt_right

/-- A table is linked if one of its foreign keys names a parent or a table refers to it. -/
theorem isLinked_iff : n.isLinked i = true ↔
    (∃ key ∈ n.schema.keysAt i, key.parentTable.isEmpty = false) ∨
      ∃ j, n.schema.RefersTo j i := by
  have hkeys : n.foreignKeys i = (n.schema.keysAt i).filter (!·.parentTable.isEmpty) := rfl
  have hnonempty : ∀ {α : Type} (as : List α), (!as.isEmpty) = true ↔ ∃ a, a ∈ as := by
    intro α as
    rw [Bool.not_eq_true', List.isEmpty_eq_false_iff_exists_mem]
  rw [isLinked, Bool.or_eq_true, hnonempty, hnonempty]
  simp only [hkeys, List.mem_filter, Bool.not_eq_true', mem_children]

theorem isLinked_of_refersTo (h : n.schema.RefersTo i j) :
    n.isLinked i = true ∧ n.isLinked j = true := by
  obtain ⟨key, hkey, hparent⟩ := h
  constructor
  · exact isLinked_iff.mpr (Or.inl ⟨key, hkey, (Schema.lt_of_parentIndex?_eq_some hparent).2⟩)
  · exact isLinked_iff.mpr (Or.inr ⟨i, key, hkey, hparent⟩)

theorem isLinked_of_adjacent (h : n.schema.Adjacent i j) : n.isLinked j = true :=
  h.elim (isLinked_of_refersTo · |>.2) (isLinked_of_refersTo · |>.1)

end TableNetwork

end Lineage
