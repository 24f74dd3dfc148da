import Lineage.Proofs.Reconciliation.Sides

/-!
# A growing catalog

When a catalog grows, what it does not list of an object can only become less, and neither the order
of its dependencies nor their repeats make a difference. It is enough that more dependencies list
more names. The edges behind a view are those that can be reached from it, and with more edges no
less can be reached, whatever cycles the views form.
-/

open Relation

namespace Lineage

/-! ## More edges -/

namespace Catalog

variable {c c' : Catalog} {key : ObjectKey}

theorem outgoing_mono (h : c.edges ⊆ c'.edges) : c.outgoing key ⊆ c'.outgoing key := by
  intro e he
  obtain ⟨hmem, hsource⟩ := mem_outgoing.mp he
  exact mem_outgoing.mpr ⟨h hmem, hsource⟩

theorem edgesBehind_mono (h : c.edges ⊆ c'.edges) : c.edgesBehind key ⊆ c'.edgesBehind key := by
  intro e he
  obtain ⟨hmem, hreach⟩ := mem_edgesBehind_iff.mp he
  have hsteps : ∀ a b, LeadsToView forward c a b → LeadsToView forward c' a b := by
    rintro a b ⟨e', he', hstep⟩
    exact ⟨e', h he', hstep⟩
  exact mem_edgesBehind_iff.mpr ⟨h hmem, ReflTransGen.mono hsteps _ _ hreach⟩

theorem edges_ofDependencies_mono {ds ds' : List Dependency} (h : ds ⊆ ds') :
    (ofDependencies ds).edges ⊆ (ofDependencies ds').edges :=
  List.map_subset _ h

theorem ListsBy.mono (h : c.edges ⊆ c'.edges) {e : Edge} {name : String}
    (hlists : c.ListsBy e name) : c'.ListsBy e name := by
  rcases hlists with htarget | ⟨hkind, e', he', hbehind⟩
  · exact Or.inl htarget
  · exact Or.inr ⟨hkind, e', edgesBehind_mono h he', hbehind⟩

theorem listedNames_mono (h : c.edges ⊆ c'.edges) (owner name : String) :
    c.listedNames owner name ⊆ c'.listedNames owner name := by
  intro listed hlisted
  obtain ⟨e, he, hlists⟩ := mem_listedNames_iff.mp hlisted
  exact mem_listedNames_iff.mpr ⟨e, outgoing_mono h he, hlists.mono h⟩

theorem not_mem_listedNames {listed : String}
    (htarget : ∀ e ∈ c.edges, Text.upcase e.dependency.target.fullName ≠ listed)
    (hbehind : ∀ e ∈ c.edges, ∀ e' ∈ c.edges, Text.upcase
      (Text.inFull e'.dependency.target.fullName e.dependency.target.owner) ≠ listed)
    (owner name : String) : listed ∉ c.listedNames owner name := by
  intro hlisted
  obtain ⟨e, he, hlists⟩ := mem_listedNames_iff.mp hlisted
  have hmem := (mem_outgoing.mp he).1
  rcases hlists with ⟨-, hname⟩ | ⟨-, e', he', -, hname⟩
  · exact htarget e hmem hname
  · exact hbehind e hmem e' (mem_edgesBehind_iff.mp he').1 hname

end Catalog

/-! ## What is not listed -/

namespace Reconciler

/-- A catalog that lists more leaves less unlisted. -/
theorem unlisted_sublist {c c' : Catalog} (h : c.edges ⊆ c'.edges) (sources : Dictionary String)
    (owner name : String) :
    (reconcile ⟨c', sources⟩ owner name).unlisted.Sublist
      (reconcile ⟨c, sources⟩ owner name).unlisted := by
  have hsources : (Reconciler.mk c' sources).sources = (Reconciler.mk c sources).sources := rfl
  rw [unlisted_reconcile, unlisted_reconcile, named_reconcile_congr hsources]
  refine (List.monotone_filter_right _ fun o ho ↦ ?_).map _
  rw [Bool.not_eq_true', ← Bool.not_eq_true, List.contains_iff_mem] at ho ⊢
  exact fun hmem ↦ ho (Catalog.listedNames_mono h owner name hmem)

/-- Some dependencies and source texts, to be held against each other. -/
def ofDependencies (ds : List Dependency) (sources : Dictionary String) : Reconciler :=
  ⟨.ofDependencies ds, sources⟩

/-- **A growing catalog.** With more dependencies the source text of an object names what it named
before, and of that the objects that are not listed are some of those before, in the same order. So
for the same dependencies, in any order and with any repeats, they are the same. -/
theorem unlisted_sublist_of_subset {ds ds' : List Dependency} (h : ds ⊆ ds')
    (sources : Dictionary String) (owner name : String) :
    ((ofDependencies ds' sources).reconcile owner name).named =
        ((ofDependencies ds sources).reconcile owner name).named ∧
      ((ofDependencies ds' sources).reconcile owner name).unlisted.Sublist
        ((ofDependencies ds sources).reconcile owner name).unlisted ∧
      (ds' ⊆ ds → ((ofDependencies ds' sources).reconcile owner name).unlisted =
        ((ofDependencies ds sources).reconcile owner name).unlisted) := by
  have hless : ∀ {ds ds' : List Dependency}, ds ⊆ ds' →
      ((ofDependencies ds' sources).reconcile owner name).unlisted.Sublist
        ((ofDependencies ds sources).reconcile owner name).unlisted :=
    fun h ↦ unlisted_sublist (Catalog.edges_ofDependencies_mono h) sources owner name
  have hsources : (ofDependencies ds' sources).sources = (ofDependencies ds sources).sources :=
    rfl
  refine ⟨named_reconcile_congr hsources owner name, hless h, fun hback ↦ ?_⟩
  exact (hless h).antisymm (hless hback)

/-- A source text that names a table behind two views made from each other, and two tables more. -/
def loadText : Dictionary String :=
  ⟨[("hr.load", "INSERT INTO audit SELECT * FROM hr.dept; DELETE FROM log")],
    List.pairwise_singleton _ _⟩

/-- The dependencies of `Catalog.viewLoop` the other way round, with one more in lower case. -/
def auditedLoop : List Dependency :=
  Catalog.viewLoop.reverse ++ [⟨⟨"hr", "load", .procedure⟩, ⟨"hr", "audit", .table⟩, .hard⟩]

/-- What is unlisted of the text is told by which of its three names are listed. -/
theorem map_fullName_unlisted_loadText {ds : List Dependency} {listed : List String}
    (h : ∀ name ∈ ["HR.DEPT", "HR.LOG", "HR.AUDIT"],
      name ∈ (Catalog.ofDependencies ds).listedNames "HR" "LOAD" ↔ name ∈ listed) :
    ((ofDependencies ds loadText).reconcile "HR" "LOAD").unlisted.map (·.fullName) =
      ["hr.dept", "HR.log", "HR.audit"].filter fun named ↦
        !listed.contains (Text.upcase named) := by
  have hsources : (ofDependencies ds loadText).sources = (ofDependencies [] loadText).sources := rfl
  have hnamed : ((ofDependencies ds loadText).reconcile "HR" "LOAD").named.map (·.fullName) =
      ["hr.dept", "HR.log", "HR.audit"] := by
    rw [named_reconcile_congr hsources]
    decide +kernel
  have hupcase : ∀ named ∈ ["hr.dept", "HR.log", "HR.audit"],
      Text.upcase named ∈ ["HR.DEPT", "HR.LOG", "HR.AUDIT"] := by decide
  have hcatalog : (ofDependencies ds loadText).catalog = .ofDependencies ds := rfl
  rw [unlisted_reconcile, List.map_map, ← hnamed, List.filter_map]
  refine congrArg (List.map _) (List.filter_congr fun o ho ↦ congrArg (!·) ?_)
  have hmem : o.fullName ∈ ["hr.dept", "HR.log", "HR.audit"] := hnamed ▸ List.mem_map_of_mem ho
  rw [Bool.eq_iff_iff, List.contains_iff_mem, hcatalog, h _ (hupcase _ hmem)]
  exact List.contains_iff_mem.symm

theorem dept_mem_listedNames :
    "HR.DEPT" ∈ (Catalog.ofDependencies Catalog.viewLoop).listedNames "HR" "LOAD" := by
  let edges := (Catalog.ofDependencies Catalog.viewLoop).edges
  have hfirst : edges[0] ∈ (Catalog.ofDependencies Catalog.viewLoop).outgoing ⟨"HR", "LOAD"⟩ :=
    Catalog.mem_outgoing.mpr ⟨List.getElem_mem _, rfl⟩
  have hstep : Catalog.LeadsToView Catalog.forward (.ofDependencies Catalog.viewLoop)
      ⟨"HR", "STAFF"⟩ ⟨"HR", "TEAMS"⟩ := ⟨edges[1], List.getElem_mem _, rfl, rfl, rfl⟩
  have hbehind : edges[3] ∈ (Catalog.ofDependencies Catalog.viewLoop).edgesBehind ⟨"HR", "STAFF"⟩ :=
    Catalog.mem_edgesBehind_iff.mpr ⟨List.getElem_mem _, ReflTransGen.single hstep⟩
  exact Catalog.mem_listedNames_iff.mpr
    ⟨edges[0], hfirst, Or.inr ⟨rfl, edges[3], hbehind, rfl, by decide⟩⟩

/-- The table behind the views is listed from the beginning; with the dependencies the other way
round and one more, one of the two others is listed as well. -/
theorem unlisted_auditedLoop :
    Catalog.viewLoop ⊆ auditedLoop ∧
      ((ofDependencies Catalog.viewLoop loadText).reconcile "HR" "LOAD").unlisted.map (·.fullName) =
        ["HR.log", "HR.audit"] ∧
      ((ofDependencies auditedLoop loadText).reconcile "HR" "LOAD").unlisted.map (·.fullName) =
        ["HR.log"] ∧
      ((ofDependencies auditedLoop loadText).reconcile "HR" "LOAD").unlisted.Sublist
        ((ofDependencies Catalog.viewLoop loadText).reconcile "HR" "LOAD").unlisted := by
  have hsubset : Catalog.viewLoop ⊆ auditedLoop := fun _ hd ↦
    List.mem_append_left _ (List.mem_reverse.mpr hd)
  have hdept := Catalog.listedNames_mono (Catalog.edges_ofDependencies_mono hsubset) _ _
    dept_mem_listedNames
  have haudit : "HR.AUDIT" ∈ (Catalog.ofDependencies auditedLoop).listedNames "HR" "LOAD" := by
    let edges := (Catalog.ofDependencies auditedLoop).edges
    have hfirst : edges[4] ∈ (Catalog.ofDependencies auditedLoop).outgoing ⟨"HR", "LOAD"⟩ :=
      Catalog.mem_outgoing.mpr ⟨List.getElem_mem _, by decide⟩
    exact Catalog.mem_listedNames_iff.mpr ⟨edges[4], hfirst, Or.inl ⟨Or.inl rfl, by decide⟩⟩
  -- of the three names in the text, the catalog lists one here and two with the new edge
  have hbefore := @map_fullName_unlisted_loadText Catalog.viewLoop ["HR.DEPT"] <| by
    simp only [List.forall_mem_cons]
    refine ⟨iff_of_true dept_mem_listedNames (by decide), iff_of_false ?_ (by decide),
      iff_of_false ?_ (by decide), nofun⟩
    · exact Catalog.not_mem_listedNames (by decide) (by decide) "HR" "LOAD"
    · exact Catalog.not_mem_listedNames (by decide) (by decide) "HR" "LOAD"
  have hafter := @map_fullName_unlisted_loadText auditedLoop ["HR.DEPT", "HR.AUDIT"] <| by
    simp only [List.forall_mem_cons]
    refine ⟨iff_of_true hdept (by decide), iff_of_false ?_ (by decide),
      iff_of_true haudit (by decide), nofun⟩
    exact Catalog.not_mem_listedNames (by decide) (by decide) "HR" "LOAD"
  exact ⟨hsubset, hbefore.trans (by decide), hafter.trans (by decide),
    (unlisted_sublist_of_subset hsubset loadText "HR" "LOAD").2.1⟩

end Reconciler

end Lineage
