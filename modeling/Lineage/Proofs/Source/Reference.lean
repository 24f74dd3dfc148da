import Lineage.Proofs.Text.Name
import Lineage.Source.Analysis

/-!
# Names found in a source text

Whatever a source text is, what is found in it as a table is a reference, a name or an owner and a
name with a dot between them, and what is found as a package is a name. The recognisers read names
from characters that stand in names, and the dot is none of these.
-/

namespace Lineage.Source

variable {text : List Char}

theorem dot_not_mem_of_name? {name : List Char} (h : name? text = some name) : '.' ∉ name := by
  have hstart : isNameStart '.' = false := by decide
  have hchar : isNameChar '.' = false := by decide
  cases text with
  | nil => cases h
  | cons c text =>
    rw [name?] at h
    split at h
    · rename_i hc
      rw [← Option.some_inj.mp h, List.mem_cons, not_or]
      constructor
      · rintro rfl
        exact absurd hc (by simp [hstart])
      · intro hmem
        exact absurd (List.mem_takeWhile_imp hmem) (by simp [hchar])
    · cases h

theorem isReference_of_qualifiedName? {name : List Char} (h : qualifiedName? text = some name) :
    Text.IsReference (String.ofList name) := by
  rw [qualifiedName?, Option.map_eq_some_iff] at h
  obtain ⟨first, hfirst, rfl⟩ := h
  have hbare : Text.IsReference (String.ofList first) :=
    .bare (by simpa using dot_not_mem_of_name? hfirst)
  split
  · split
    · rename_i second hsecond
      have hname : String.ofList (first ++ '.' :: second) =
          String.ofList first ++ "." ++ String.ofList second := by
        rw [← String.toList_inj]
        simp
      rw [hname]
      exact .qualified (by simpa using dot_not_mem_of_name? hfirst)
        (by simpa using dot_not_mem_of_name? hsecond)
    · exact hbare
  · exact hbare

/-! ## Tables -/

/-- Whether all that a recogniser finds are references. -/
def FindsReferences (recognise : Text.Recogniser (Option String)) : Prop :=
  ∀ before text table length, recognise before text = some (some table, length) →
    Text.IsReference table

theorem findsReferences_tableAfter (accepts : List Char → Bool) (phrase : List (List Char)) :
    FindsReferences (tableAfter accepts phrase) := by
  intro before text table length h
  rw [tableAfter] at h
  split at h
  · rw [Option.bind_eq_bind, Option.bind_eq_some_iff] at h
    obtain ⟨gone, -, h⟩ := h
    rw [Option.bind_eq_bind, Option.bind_eq_some_iff] at h
    obtain ⟨name, hname, h⟩ := h
    simp only [Option.some_inj, Prod.mk.injEq, Option.ite_none_left_eq_some] at h
    obtain ⟨⟨-, rfl⟩, -⟩ := h
    exact isReference_of_qualifiedName? hname
  · cases h

theorem findsReferences_deleteTable : FindsReferences deleteTable := by
  intro before text table length h
  rw [deleteTable, Option.or_eq_some_iff] at h
  rcases h with h | ⟨-, h⟩
  · exact findsReferences_tableAfter _ _ before text table length h
  · exact findsReferences_tableAfter _ _ before text table length h

theorem FindsReferences.isReference {recognise : Text.Recogniser (Option String)}
    (h : FindsReferences recognise) :
    ∀ table ∈ tablesBy recognise text, Text.IsReference table := by
  intro table htable
  obtain ⟨found, hfound, htable⟩ := List.mem_filterMap.mp htable
  obtain ⟨before, rest, length, hrecognised⟩ := Text.exists_of_mem_scan hfound
  rw [id_eq] at htable
  exact h before rest table length (htable ▸ hrecognised)

theorem mem_of_mem_distinctNames {names : List String} {name : String}
    (h : name ∈ Text.distinctNames names) : name ∈ names :=
  (distinctBy_sublist Text.upcase names).subset h

/-- A table that is found in a text is found by one of the recognisers. -/
theorem exists_findsReferences_of_mem_all {table : String}
    (h : table ∈ (TableReferences.of text).all) :
    ∃ recognise, FindsReferences recognise ∧ table ∈ tablesBy recognise text := by
  have hmem := mem_of_mem_distinctNames h
  simp only [TableReferences.of, List.mem_append] at hmem
  rcases hmem with (((hread | hinsert) | hupdate) | hdelete) | hmerge
  · rcases List.mem_append.mp (mem_of_mem_distinctNames hread) with hfrom | hjoin
    · exact ⟨fromTable, findsReferences_tableAfter _ _, hfrom⟩
    · exact ⟨joinTable, findsReferences_tableAfter _ _, hjoin⟩
  · exact ⟨insertTable, findsReferences_tableAfter _ _, mem_of_mem_distinctNames hinsert⟩
  · exact ⟨updateTable, findsReferences_tableAfter _ _, mem_of_mem_distinctNames hupdate⟩
  · exact ⟨deleteTable, findsReferences_deleteTable, mem_of_mem_distinctNames hdelete⟩
  · exact ⟨mergeTable, findsReferences_tableAfter _ _, mem_of_mem_distinctNames hmerge⟩

theorem isReference_of_mem_allTables {source table : String}
    (h : table ∈ (analyze source).allTables) : Text.IsReference table := by
  obtain ⟨recognise, hfinds, hmem⟩ := exists_findsReferences_of_mem_all h
  exact hfinds.isReference table hmem

/-- No table is found twice in spellings with the same upper case. -/
theorem nodup_map_upcase_allTables (a : Analysis) : (a.allTables.map Text.upcase).Nodup :=
  nodup_map_distinctBy _ _

/-! ## Packages -/

theorem dot_not_mem_of_packageCall {tables : TableReferences} {before : List Char}
    {package : String} {length : Nat}
    (h : packageCall tables before text = some (some package, length)) :
    '.' ∉ package.toList := by
  rw [packageCall] at h
  split at h
  · rw [Option.bind_eq_bind, Option.bind_eq_some_iff] at h
    obtain ⟨name, hname, h⟩ := h
    split at h
    · rw [Option.bind_eq_some_iff] at h
      obtain ⟨member, -, h⟩ := h
      dsimp only at h
      split at h
      · split at h
        · simp only [Option.some_inj, Prod.mk.injEq, Option.ite_none_right_eq_some] at h
          obtain ⟨⟨-, rfl⟩, -⟩ := h
          simpa using dot_not_mem_of_name? hname
        · cases h
      · cases h
    · cases h
  · cases h

theorem dot_not_mem_of_mem_packageCalls {source package : String}
    (h : package ∈ (analyze source).packageCalls) : '.' ∉ package.toList := by
  obtain ⟨found, hfound, hpackage⟩ := List.mem_filterMap.mp (mem_of_mem_distinctNames h)
  obtain ⟨before, rest, length, hrecognised⟩ := Text.exists_of_mem_scan hfound
  rw [id_eq] at hpackage
  exact dot_not_mem_of_packageCall (hpackage ▸ hrecognised)

theorem nodup_map_upcase_packageCalls (source : String) :
    ((analyze source).packageCalls.map Text.upcase).Nodup :=
  nodup_map_distinctBy _ _

end Lineage.Source
