import Lineage.Object.Dependency
import Lineage.Proofs.Text.Name

/-!
# Namings in dependencies

A list of dependencies is all that is known of the objects in it: each is named once or more, by the
ends of dependencies, in some spelling and with some kind. The dependencies are *tidy* when the
names can be read back from qualified ones and no object is recorded with two kinds. The halves of a
package share their names, so they count as one kind here.
-/

namespace Lineage

/-- The namings of objects in some dependencies. -/
def namings (ds : List Dependency) : List ObjectRef := ds.flatMap fun d ↦ [d.source, d.target]

theorem source_mem_namings {ds : List Dependency} {d : Dependency} (h : d ∈ ds) :
    d.source ∈ namings ds := List.mem_flatMap.mpr ⟨d, h, List.mem_cons_self⟩

theorem target_mem_namings {ds : List Dependency} {d : Dependency} (h : d ∈ ds) :
    d.target ∈ namings ds :=
  List.mem_flatMap.mpr ⟨d, h, List.mem_cons_of_mem _ List.mem_cons_self⟩

namespace ObjectKind

/-- Whether a kind is one of the two halves of a package. -/
def IsPackageHalf (kind : ObjectKind) : Prop := kind = .package ∨ kind = .packageBody

instance (kind : ObjectKind) : Decidable kind.IsPackageHalf :=
  inferInstanceAs (Decidable (_ ∨ _))

/-- Whether one object may be recorded with two kinds: they are the same, or the two halves of a
package. -/
def Agrees (a b : ObjectKind) : Prop := a = b ∨ a.IsPackageHalf ∧ b.IsPackageHalf

instance (a b : ObjectKind) : Decidable (a.Agrees b) := inferInstanceAs (Decidable (_ ∨ _))

theorem Agrees.view_iff {a b : ObjectKind} (h : a.Agrees b) : a = .view ↔ b = .view := by
  rcases h with rfl | ⟨rfl | rfl, rfl | rfl⟩ <;> simp

theorem Agrees.isProgramUnit_iff {a b : ObjectKind} (h : a.Agrees b) :
    a.isProgramUnit = true ↔ b.isProgramUnit = true := by
  rcases h with rfl | ⟨rfl | rfl, rfl | rfl⟩ <;> simp [isProgramUnit]

end ObjectKind

/-- Whether the names in some dependencies can be read back, and every object has one kind. -/
structure IsTidy (ds : List Dependency) : Prop where
  plain : ∀ r ∈ namings ds, Text.IsPlain r.owner ∧ Text.IsPlain r.name
  kind : ∀ r ∈ namings ds, ∀ r' ∈ namings ds, r.key = r'.key → r.kind.Agrees r'.kind

namespace IsTidy

variable {ds : List Dependency} {r : ObjectRef}

theorem splitQualified_fullName (h : IsTidy ds) (hr : r ∈ namings ds) (other : String) :
    Text.splitQualified r.fullName other = (r.owner, r.name) :=
  Text.splitQualified_qualified (h.plain r hr).1 (h.plain r hr).2 other

theorem ofFullName_fullName (h : IsTidy ds) (hr : r ∈ namings ds) :
    ObjectKey.ofFullName r.fullName = r.key :=
  ObjectKey.ofFullName_qualified (h.plain r hr).1 (h.plain r hr).2

end IsTidy

end Lineage
