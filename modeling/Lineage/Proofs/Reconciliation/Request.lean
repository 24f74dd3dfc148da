import Lineage.Proofs.Reconciliation.Availability
import Lineage.Proofs.Reconciliation.Growth
import Lineage.Proofs.Reconciliation.Repeats
import Mathlib.Data.List.Nodup

/-!
# The spelling of a request

An object is asked for by an owner and a name, and what is asked in another case is the same
object. The spelling goes four ways. As a key it is put in upper case, and so what the catalog lists
does not depend on it. As the name of a source text it is looked up as it stands and then in any
case, and so the text does not depend on it if the names of the texts differ in more than case. The
owner is given to the tables and packages that the text names without one, and there its spelling is
seen; but the objects agree, and as they agree in upper case, the same ones of them are listed.
-/

namespace Lineage

variable {owner name owner' name' : String}

/-! ## The side of the catalog -/

theorem ObjectKey.ofNames_congr (howner : Text.asciiFolded owner = Text.asciiFolded owner')
    (hname : Text.asciiFolded name = Text.asciiFolded name') :
    ObjectKey.ofNames owner name = .ofNames owner' name' := by
  rw [ofNames, ofNames, Text.upcase_eq_of_asciiFolded_eq howner,
    Text.upcase_eq_of_asciiFolded_eq hname]

theorem Catalog.neededObjects_footprint_congr {c : Catalog}
    (h : ObjectKey.ofNames owner name = .ofNames owner' name') :
    (c.footprint owner name).neededObjects = (c.footprint owner' name').neededObjects := by
  simp only [Footprint.neededObjects, Footprint.indirectTables, footprint, h]

/-! ## The side of the source text -/

theorem Sources.find?_congr {sources : Dictionary String}
    (hkeys : (sources.keys.map Text.asciiFolded).Nodup)
    (howner : Text.asciiFolded owner = Text.asciiFolded owner')
    (hname : Text.asciiFolded name = Text.asciiFolded name') :
    find? sources owner name = find? sources owner' name' := by
  -- of keys that differ in more than case only the name itself agrees with it
  have hleast : ∀ reference ∈ sources.keys, ∀ key ∈ sources.keys,
      Text.eqIgnoringAsciiCase key reference = true → ¬key < reference := by
    intro reference href key hkey hagrees
    have hsame := List.inj_on_of_nodup_map hkeys hkey href (Text.eqIgnoringAsciiCase_iff.mp hagrees)
    exact hsame ▸ String.lt_irrefl key
  have hfolded : Text.asciiFolded (owner ++ "." ++ name) =
      Text.asciiFolded (owner' ++ "." ++ name') := by
    rw [Text.asciiFolded_dotted, Text.asciiFolded_dotted, howner, hname]
  rw [find?_of_least (hleast _), find?_of_least (hleast _)]
  simp only [Text.eqIgnoringAsciiCase, hfolded]

namespace Reconciliation

theorem agreesWith_namedTable_congr (howner : Text.asciiFolded owner = Text.asciiFolded owner')
    (table : String) :
    (namedTable owner table).agreesWith (namedTable owner' table) = true := by
  rw [NeededObject.agreesWith_iff, namedTable, namedTable, Text.splitQualified_eq,
    Text.splitQualified_eq]
  by_cases hdot : '.' ∈ table.toList
  · simp only [if_pos hdot, and_self]
  · simp only [if_neg hdot, howner, and_self]

theorem agreesWith_namedPackage_congr (howner : Text.asciiFolded owner = Text.asciiFolded owner')
    (package : String) :
    (namedPackage owner package).agreesWith (namedPackage owner' package) = true :=
  NeededObject.agreesWith_iff.mpr ⟨⟨howner, rfl⟩, rfl⟩

/-- Whether two lists have the same objects in the same order, up to the case of their names. -/
def AgreeInOrder (objects objects' : List NeededObject) : Prop :=
  List.Forall₂ (fun o o' ↦ o.agreesWith o' = true) objects objects'

/-- What an analysis names is the same under any spelling of the owner. -/
theorem agreeInOrder_namedBy (howner : Text.asciiFolded owner = Text.asciiFolded owner')
    (a : Source.Analysis) : AgreeInOrder (namedBy owner a) (namedBy owner' a) := by
  rw [namedBy_eq, namedBy_eq]
  refine List.rel_append ?_ ?_
  · rw [List.forall₂_map_left_iff, List.forall₂_map_right_iff, List.forall₂_same]
    exact fun table _ ↦ agreesWith_namedTable_congr howner table
  · rw [List.forall₂_map_left_iff, List.forall₂_map_right_iff, List.forall₂_same]
    exact fun package _ ↦ agreesWith_namedPackage_congr howner package

theorem AgreeInOrder.filter {objects objects' : List NeededObject}
    (h : AgreeInOrder objects objects') (listed : List String) :
    AgreeInOrder (objects.filter fun o ↦ !listed.contains (Text.upcase o.fullName))
      (objects'.filter fun o ↦ !listed.contains (Text.upcase o.fullName)) := by
  refine List.rel_filter (fun o o' hagrees ↦ ?_) h
  simp only [NeededObject.upcase_fullName_of_agreesWith hagrees]

end Reconciliation

namespace Reconciler

/-- **Requests in any case.** Let the names of the source texts differ in more than the case of
ASCII letters. For two spellings of an object that differ in no more than that, the catalog lists
the same objects, the source text and so its analysis and the warning are the same, and the objects
that the text names agree one by one, as do those of them that are not listed. -/
theorem reconcile_ignores_case (ds : List Dependency) {sources : Dictionary String}
    (hkeys : (sources.keys.map Text.asciiFolded).Nodup)
    (howner : Text.asciiFolded owner = Text.asciiFolded owner')
    (hname : Text.asciiFolded name = Text.asciiFolded name') :
    let outcome := (ofDependencies ds sources).reconcile owner name
    let outcome' := (ofDependencies ds sources).reconcile owner' name'
    outcome.catalog = outcome'.catalog ∧
      outcome.analysis = outcome'.analysis ∧
      outcome.hasDynamicSql = outcome'.hasDynamicSql ∧
      outcome.warning? = outcome'.warning? ∧
      Reconciliation.AgreeInOrder outcome.named outcome'.named ∧
      Reconciliation.AgreeInOrder outcome.unlisted outcome'.unlisted := by
  intro outcome outcome'
  have hcatalog : outcome.catalog = outcome'.catalog :=
    Catalog.neededObjects_footprint_congr (ObjectKey.ofNames_congr howner hname)
  have hanalysis : outcome.analysis = outcome'.analysis := by
    -- the names of the source texts are told apart without their case, so one text is found
    have hsource : (ofDependencies ds sources).sourceOf? owner name =
        (ofDependencies ds sources).sourceOf? owner' name' :=
      congrArg (Option.filter _) (Sources.find?_congr hkeys howner hname)
    exact congrArg (Option.map Source.analyze) hsource
  have hdynamic : outcome.hasDynamicSql = outcome'.hasDynamicSql := by
    rw [Reconciliation.hasDynamicSql, hanalysis, Reconciliation.hasDynamicSql]
  have hnamed : Reconciliation.AgreeInOrder outcome.named outcome'.named := by
    rw [Reconciliation.named, Reconciliation.named, hanalysis]
    cases outcome'.analysis with
    | none => exact .nil
    | some a => exact Reconciliation.agreeInOrder_namedBy howner a
  refine ⟨hcatalog, hanalysis, hdynamic, ?_, hnamed, ?_⟩
  · rw [Reconciliation.warning?, hdynamic, Reconciliation.warning?]
  · rw [Reconciliation.unlisted, Reconciliation.unlisted, hcatalog]
    refine List.rel_map (fun o o' hagrees ↦ ?_) (hnamed.filter _)
    exact NeededObject.agreesWith_iff.mpr (NeededObject.agreesWith_iff.mp hagrees)

/-- Asked for in two cases, the procedure that copies a table behind two views into one more, named
without an owner, has the same objects on both sides. -/
theorem reconcile_ignores_case_load :
    (loadText.keys.map Text.asciiFolded).Nodup ∧
      Text.asciiFolded "HR" = Text.asciiFolded "hr" ∧
      Text.asciiFolded "Load" = Text.asciiFolded "LOAD" ∧
      ((ofDependencies auditedLoop loadText).reconcile "HR" "Load").catalog =
        ((ofDependencies auditedLoop loadText).reconcile "hr" "LOAD").catalog ∧
      Reconciliation.AgreeInOrder
        ((ofDependencies auditedLoop loadText).reconcile "HR" "Load").named
        ((ofDependencies auditedLoop loadText).reconcile "hr" "LOAD").named := by
  have hkeys : (loadText.keys.map Text.asciiFolded).Nodup := by decide
  have howner : Text.asciiFolded "HR" = Text.asciiFolded "hr" := by decide
  have hname : Text.asciiFolded "Load" = Text.asciiFolded "LOAD" := by decide
  obtain ⟨hcatalog, -, -, -, hnamed, -⟩ :=
    reconcile_ignores_case auditedLoop hkeys howner hname
  exact ⟨hkeys, howner, hname, hcatalog, hnamed⟩

end Reconciler

end Lineage
