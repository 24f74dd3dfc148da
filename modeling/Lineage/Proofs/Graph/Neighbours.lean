import Lineage.Graph.Query
import Lineage.Proofs.Graph.Conflation
import Mathlib.Data.List.Nodup

/-!
# Neighbours in both directions

What an object depends on and what depends on an object are two questions, and each asks for the
object by its key alone. The other end of a dependency, however, stands for one object of its key.
So the two answers are converse to each other only as far as the objects of one key are all stood
for: an object is found as a neighbour from the far side of a dependency, and it must then be an end
of such a dependency itself. `neighboursAgree_iff` says that this is all there is to it.

A package and its body share their key. The body depends on the package, and so the package is found
among its own dependencies, while nothing but the body is found to depend on it.
-/

namespace Lineage.DependencyGraph

variable {g : DependencyGraph} {a b o : CatalogObject} {key : ObjectKey}

/-! ## Ends of dependencies -/

/-- The object that an end of a dependency stands for: the first one of its key and kind or, when
there is none, the first one of its key. -/
def objectOf? (g : DependencyGraph) (e : ObjectKey × ObjectKind) : Option CatalogObject :=
  (g.objects.find? (·.identity == e)).or (g.objects.find? (·.key == e.1))

theorem mem_objects_of_objectOf? {e : ObjectKey × ObjectKind} (h : g.objectOf? e = some o) :
    o ∈ g.objects := by
  rw [objectOf?, Option.or_eq_some_iff] at h
  rcases h with h | ⟨-, h⟩
  · exact List.mem_of_find?_eq_some h
  · exact List.mem_of_find?_eq_some h

theorem key_of_objectOf? {e : ObjectKey × ObjectKind} (h : g.objectOf? e = some o) :
    o.key = e.1 := by
  rw [objectOf?, Option.or_eq_some_iff] at h
  rcases h with h | ⟨-, h⟩
  · have hidentity : o.identity = e := by simpa using List.find?_some h
    exact congrArg Prod.fst hidentity
  · simpa using List.find?_some h

theorem exists_objectOf? {e : ObjectKey × ObjectKind} (ho : o ∈ g.objects) (hkey : o.key = e.1) :
    ∃ o', g.objectOf? e = some o' := by
  rw [← Option.isSome_iff_exists, objectOf?, Option.isSome_or, Bool.or_eq_true]
  exact Or.inr (List.find?_isSome.mpr ⟨o, ho, beq_iff_eq.mpr hkey⟩)

theorem objectOf?_of_nodup {e : ObjectKey × ObjectKind} (hnodup : (g.objects.map (·.key)).Nodup)
    (ho : o ∈ g.objects) (hkey : o.key = e.1) : g.objectOf? e = some o := by
  obtain ⟨o', ho'⟩ := exists_objectOf? ho hkey
  have hsame : o' = o := List.inj_on_of_nodup_map hnodup (mem_objects_of_objectOf? ho') ho
    ((key_of_objectOf? ho').trans hkey.symm)
  rw [ho', hsame]

theorem position?_bind_getElem? (g : DependencyGraph) (e : ObjectKey × ObjectKind) :
    (position? (g.objects.map (·.identity)) e.1 e.2).bind (g.objects[·]?) = g.objectOf? e := by
  have hkey : (fun e' : ObjectKey × ObjectKind ↦ e'.1 == e.1) ∘
      (fun o : CatalogObject ↦ o.identity) = fun o ↦ o.key == e.1 := rfl
  have hidentity : (fun e' : ObjectKey × ObjectKind ↦ e' == (e.1, e.2)) ∘
      (fun o : CatalogObject ↦ o.identity) = fun o ↦ o.identity == e := rfl
  rw [position?, objectOf?, List.findIdx?_map, List.findIdx?_map, hkey, hidentity,
    List.find?_eq_bind_findIdx?_getElem?, List.find?_eq_bind_findIdx?_getElem?]
  cases hfirst : g.objects.findIdx? (·.identity == e) with
  | none => rw [Option.none_or, Option.bind_none, Option.none_or]
  | some i =>
    obtain ⟨hlt, -⟩ := List.findIdx?_eq_some_iff_getElem.mp hfirst
    rw [Option.some_or, Option.bind_some, List.getElem?_eq_getElem hlt, Option.some_or]

theorem mem_objectsAt {ends : List (ObjectKey × ObjectKind)} :
    o ∈ g.objectsAt ends ↔ ∃ e ∈ ends, g.objectOf? e = some o := by
  have hdistinct : ∀ (i : Nat) (found : List Nat), i ∈ distinctBy id found ↔ i ∈ found := by
    intro i found
    have h : i ∈ (distinctBy id found).map id ↔ i ∈ found.map id := mem_map_distinctBy
    rwa [List.map_id, List.map_id] at h
  rw [objectsAt]
  simp only [List.mem_filterMap, hdistinct, ← position?_bind_getElem?, Option.bind_eq_some_iff]
  constructor
  · rintro ⟨i, ⟨e, he, hi⟩, ho⟩
    exact ⟨e, he, i, hi, ho⟩
  · rintro ⟨e, he, i, hi, ho⟩
    exact ⟨i, ⟨e, he, hi⟩, ho⟩

/-! ## Neighbours -/

theorem mem_dependenciesOf :
    b ∈ g.dependenciesOf key ↔
      ∃ d ∈ g.dependencies, d.source.key = key ∧ g.objectOf? d.target.identity = some b := by
  rw [dependenciesOf, mem_objectsAt]
  simp only [List.mem_map, Catalog.mem_outgoing]
  constructor
  · rintro ⟨_, ⟨e, ⟨he, rfl⟩, rfl⟩, hb⟩
    obtain ⟨d, hd, rfl⟩ := List.mem_map.mp he
    exact ⟨d, hd, rfl, hb⟩
  · rintro ⟨d, hd, rfl, hb⟩
    exact ⟨_, ⟨.ofDependency d, ⟨List.mem_map_of_mem hd, rfl⟩, rfl⟩, hb⟩

theorem mem_dependentsOf :
    a ∈ g.dependentsOf key ↔
      ∃ d ∈ g.dependencies, d.target.key = key ∧ g.objectOf? d.source.identity = some a := by
  rw [dependentsOf, mem_objectsAt]
  simp only [List.mem_map, Catalog.mem_incoming]
  constructor
  · rintro ⟨_, ⟨e, ⟨he, rfl⟩, rfl⟩, ha⟩
    obtain ⟨d, hd, rfl⟩ := List.mem_map.mp he
    exact ⟨d, hd, rfl, ha⟩
  · rintro ⟨d, hd, rfl, ha⟩
    exact ⟨_, ⟨.ofDependency d, ⟨List.mem_map_of_mem hd, rfl⟩, rfl⟩, ha⟩

/-- Whether each object is among the dependencies of just those that are among its dependents. -/
def NeighboursAgree (g : DependencyGraph) : Prop :=
  ∀ a ∈ g.objects, ∀ b ∈ g.objects, b ∈ g.dependenciesOf a.key ↔ a ∈ g.dependentsOf b.key

/-- The dependencies that lead from the key of one object to that of another. -/
def between (g : DependencyGraph) (a b : CatalogObject) : List Dependency :=
  g.dependencies.filter fun d ↦ d.source.key = a.key ∧ d.target.key = b.key

/-- Whether the objects at both ends of the dependencies between two keys are all stood for. -/
def EndsStoodFor (g : DependencyGraph) : Prop :=
  ∀ a ∈ g.objects, ∀ b ∈ g.objects, g.between a b ≠ [] →
    (∃ d ∈ g.between a b, g.objectOf? d.source.identity = some a) ∧
      ∃ d ∈ g.between a b, g.objectOf? d.target.identity = some b

theorem mem_between {d : Dependency} :
    d ∈ g.between a b ↔ d ∈ g.dependencies ∧ d.source.key = a.key ∧ d.target.key = b.key := by
  rw [between, List.mem_filter, decide_eq_true_eq]

/-- An object is found among the dependencies if it is the far end of a dependency between the
keys. -/
theorem mem_dependenciesOf_key_iff :
    b ∈ g.dependenciesOf a.key ↔
      ∃ d ∈ g.between a b, g.objectOf? d.target.identity = some b := by
  rw [mem_dependenciesOf]
  constructor
  · rintro ⟨d, hd, hsource, hb⟩
    exact ⟨d, mem_between.mpr ⟨hd, hsource, (key_of_objectOf? hb).symm⟩, hb⟩
  · rintro ⟨d, hd, hb⟩
    obtain ⟨hmem, hsource, -⟩ := mem_between.mp hd
    exact ⟨d, hmem, hsource, hb⟩

theorem mem_dependentsOf_key_iff :
    a ∈ g.dependentsOf b.key ↔
      ∃ d ∈ g.between a b, g.objectOf? d.source.identity = some a := by
  rw [mem_dependentsOf]
  constructor
  · rintro ⟨d, hd, htarget, ha⟩
    exact ⟨d, mem_between.mpr ⟨hd, (key_of_objectOf? ha).symm, htarget⟩, ha⟩
  · rintro ⟨d, hd, ha⟩
    obtain ⟨hmem, -, htarget⟩ := mem_between.mp hd
    exact ⟨d, hmem, htarget, ha⟩

/-- Both questions agree exactly if the objects at both ends are all stood for. -/
theorem neighboursAgree_iff : g.NeighboursAgree ↔ g.EndsStoodFor := by
  constructor
  · intro h a ha b hb hbetween
    obtain ⟨d, hd⟩ := List.exists_mem_of_ne_nil _ hbetween
    obtain ⟨hmem, hsource, htarget⟩ := mem_between.mp hd
    -- the objects that the ends of the dependency stand for may be others than `a` and `b`
    obtain ⟨a', ha'⟩ := exists_objectOf? (e := d.source.identity) ha hsource.symm
    obtain ⟨b', hb'⟩ := exists_objectOf? (e := d.target.identity) hb htarget.symm
    have hkey : a'.key = a.key := (key_of_objectOf? ha').trans hsource
    have hkey' : b'.key = b.key := (key_of_objectOf? hb').trans htarget
    have hfar : b' ∈ g.dependenciesOf a.key := mem_dependenciesOf.mpr ⟨d, hmem, hsource, hb'⟩
    have hnear : a' ∈ g.dependentsOf b.key := mem_dependentsOf.mpr ⟨d, hmem, htarget, ha'⟩
    constructor
    · have hfound := (h a ha b' (mem_objects_of_objectOf? hb')).mp hfar
      exact mem_dependentsOf_key_iff.mp (hkey' ▸ hfound)
    · have hfound := (h a' (mem_objects_of_objectOf? ha') b hb).mpr hnear
      exact mem_dependenciesOf_key_iff.mp (hkey ▸ hfound)
  · intro h a ha b hb
    rw [mem_dependenciesOf_key_iff, mem_dependentsOf_key_iff]
    constructor
    · rintro ⟨d, hd, -⟩
      exact (h a ha b hb (List.ne_nil_of_mem hd)).1
    · rintro ⟨d, hd, -⟩
      exact (h a ha b hb (List.ne_nil_of_mem hd)).2

theorem endsStoodFor_of_nodup (hnodup : (g.objects.map (·.key)).Nodup) : g.EndsStoodFor := by
  intro a ha b hb hbetween
  obtain ⟨d, hd⟩ := List.exists_mem_of_ne_nil _ hbetween
  obtain ⟨-, hsource, htarget⟩ := mem_between.mp hd
  exact ⟨⟨d, hd, objectOf?_of_nodup hnodup ha hsource.symm⟩,
    d, hd, objectOf?_of_nodup hnodup hb htarget.symm⟩

/-- **Neighbours.** What an object depends on and what depends on an object are converse to each
other exactly if every object whose key is at an end of a dependency is what such an end stands for.
So they are if no two objects share a key. -/
theorem neighbours_converse_iff (g : DependencyGraph) :
    (g.NeighboursAgree ↔ g.EndsStoodFor) ∧
      ((g.objects.map (·.key)).Nodup → g.NeighboursAgree) :=
  ⟨neighboursAgree_iff, fun h ↦ neighboursAgree_iff.mpr (endsStoodFor_of_nodup h)⟩

/-- A package is found among its own dependencies, and its body is all that is found to depend on
it. -/
theorem neighbours_bodyOfPackage :
    ((ofDependencies bodyOfPackage).objects.map (·.identity)).Nodup ∧
      ∃ package ∈ (ofDependencies bodyOfPackage).objects,
        package ∈ (ofDependencies bodyOfPackage).dependenciesOf package.key ∧
          package ∉ (ofDependencies bodyOfPackage).dependentsOf package.key := by
  decide

end Lineage.DependencyGraph
