import Lineage.Object.Basic
import Lineage.Proofs.Json.Record

/-!
# Objects and dependencies are read back

A dependency is written with all of its members. An object is not: what is not known of it is left
out, and so are empty lists, and the reader puts the empty value in their place. The two rules fit
together member by member, whichever of the others are there. The times of an object are left out of
account here; they are none.
-/

namespace Lineage

open Json (Stores record?_obj_bind)
open Json.Record (required defaulted)

theorem ObjectKind.stores (kind : ObjectKind) : Stores ofJson? kind.toJson kind where
  integral := .str kind.text
  decoded := by cases kind <;> rfl

theorem Strength.stores (strength : Strength) : Stores ofJson? strength.toJson strength where
  integral := .str strength.text
  decoded := by cases strength <;> rfl

namespace Dependency

theorem stores (d : Dependency) : Stores ofJson? d.toJson d where
  integral := by
    simp [toJson, (ObjectKind.stores _).integral, (Strength.stores _).integral]
  decoded := by
    rw [ofJson?, toJson]
    refine record?_obj_bind (by simp) fun r hfind ↦ ?_
    simp [required, defaulted, hfind, List.lookup_cons, (ObjectKind.stores _).decoded,
      (Strength.stores _).decoded]

theorem stores_list (ds : List Dependency) : Stores listOfJson? (listToJson ds) ds :=
  .list fun d _ ↦ d.stores

end Dependency

namespace CatalogObject

/-- The members of an object in JSON. What is not known has no value, and neither have empty
lists. -/
def members (o : CatalogObject) : List (String × Option Json) := [
  ("schema_owner", some (.str o.owner)),
  ("name", some (.str o.name)),
  ("entity_type", some o.kind.toJson),
  ("source_code", o.sourceText.map .str),
  ("status", o.status.map .str),
  ("created", o.created.map (.str ·.toText)),
  ("last_ddl_time", o.lastDdl.map (.str ·.toText)),
  ("dependencies", ((some o.dependencies).filter (!·.isEmpty)).map Dependency.listToJson),
  ("referenced_by", ((some o.referencedBy).filter (!·.isEmpty)).map Dependency.listToJson)]

theorem toJson_eq (o : CatalogObject) : o.toJson = .obj (Json.present o.members) := by
  have hpresent : ∀ {α : Type} (name : String) (f : α → Json) (a : Option α),
      present name f a = ((a.map f).map (name, ·)).toList := by
    rintro α name f (_ | a) <;> rfl
  have hnonempty : ∀ (name : String) (ds : List Dependency), nonempty name ds =
      ((((some ds).filter (!·.isEmpty)).map Dependency.listToJson).map (name, ·)).toList := by
    rintro name (_ | ⟨d, ds⟩) <;> rfl
  simp only [toJson, hpresent, hnonempty, Json.present, members, List.flatMap_cons,
    List.flatMap_nil, List.append_assoc, List.append_nil]
  rfl

theorem nodup_members (o : CatalogObject) : (o.members.map (·.1)).Nodup :=
  (by decide : memberNames.Nodup)

theorem defaulted_of_text {r : Json.Record} {name : String} {text : Option String}
    (h : r.find? name = text.map .str) :
    r.defaulted name none (Json.Record.nullable Json.text?) = some text := by
  cases text <;> rw [defaulted, h] <;> rfl

theorem defaulted_of_list {r : Json.Record} {name : String} {ds : List Dependency}
    (h : r.find? name = ((some ds).filter (!·.isEmpty)).map Dependency.listToJson) :
    r.defaulted name [] Dependency.listOfJson? = some ds := by
  rw [defaulted, h]
  cases ds with
  | nil => rfl
  | cons d ds => exact (Dependency.stores_list _).decoded

/-- An object without times is read back. -/
theorem stores {o : CatalogObject} (hcreated : o.created = none) (hlast : o.lastDdl = none) :
    Stores ofJson? o.toJson o := by
  obtain ⟨r, hrecord, -, hfind⟩ := Json.exists_record?_present memberNames o.nodup_members
  rw [toJson_eq]
  constructor
  · refine Json.isIntegral_present ?_
    simp [members, (ObjectKind.stores _).integral, (Dependency.stores_list _).integral]
  · have htext : r.defaulted "source_code" none _ = some o.sourceText :=
      defaulted_of_text (by simp [hfind, members, List.lookup_cons])
    have hstatus : r.defaulted "status" none _ = some o.status :=
      defaulted_of_text (by simp [hfind, members, List.lookup_cons])
    have hfirst : r.defaulted "created" none (Json.Record.nullable instantOfJson?) =
        some o.created := by simp [defaulted, hfind, members, List.lookup_cons, hcreated]
    have hlatest : r.defaulted "last_ddl_time" none (Json.Record.nullable instantOfJson?) =
        some o.lastDdl := by simp [defaulted, hfind, members, List.lookup_cons, hlast]
    have hdependencies : r.defaulted "dependencies" [] _ = some o.dependencies :=
      defaulted_of_list (by simp [hfind, members, List.lookup_cons])
    have hreferenced : r.defaulted "referenced_by" [] _ = some o.referencedBy :=
      defaulted_of_list (by simp [hfind, members, List.lookup_cons])
    rw [ofJson?, hrecord]
    simp [required, hfind, members, List.lookup_cons, htext, hstatus, hfirst, hlatest,
      hdependencies, hreferenced, (ObjectKind.stores _).decoded]

end CatalogObject

end Lineage
