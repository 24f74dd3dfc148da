import Lineage.Catalog.Feed
import Lineage.Proofs.Catalog.Flattening
import Lineage.Proofs.Text.Uppercase

/-!
# What a footprint loses when a catalog is fetched

When no owner is asked for, a feed leaves out the dependencies of the objects that are part of the
database system. This module says what that takes away from the footprint of an object of a user:
nothing but the tables that are found only by looking behind a view of the system.

## Spellings and keys

A dependency is left out because of the owner of its source as it is written there, while a
footprint looks for sources by key. Were an owner of the system recognized in one spelling only,
some of the dependencies of an object could be left out and others kept. But a spelling and its
upper case are recognized alike, so that belonging to a user is a matter of the key, and of the
dependencies of an object a feed delivers all or none.

## Chains

So the objects of users keep the dependencies they have and those of the system lose all of theirs,
and a chain through views remains if and only if no view in it that it goes on from is one of the
system. It may end at a table of the system.
-/

open Relation

namespace Lineage

namespace ObjectKey

/-- Whether an object belongs to a user and is no part of the database system. -/
def isUserOwned (key : ObjectKey) : Bool := isWanted none key.owner

theorem isUserOwned_ofNames (owner name : String) :
    (ofNames owner name).isUserOwned = isWanted none owner := by
  simp only [isUserOwned, ofNames, isWanted, Source.isSystemSchema, Text.upcase_upcase]

end ObjectKey

namespace Dependency

variable {ds : List Dependency} {a b start key : ObjectKey} {d : Dependency}

/-- The dependencies of the objects that belong to users. -/
def ofUserOwned (ds : List Dependency) : List Dependency := ds.filter (·.source.key.isUserOwned)

/-- Whether a dependency of an object of a user leads from there to a view. -/
def LeadsUserToView (ds : List Dependency) (a b : ObjectKey) : Prop :=
  a.isUserOwned = true ∧ LeadsToView ds a b

/-- Whether a dependency is the last of a chain that starts at an object and goes on from objects of
users alone. It is one on a table, and those that come before it are dependencies on views. -/
structure EndsUserTableUse (ds : List Dependency) (start : ObjectKey) (d : Dependency) : Prop where
  mem : d ∈ ds
  isTable : d.target.kind = .table
  leads : ReflTransGen (LeadsUserToView ds) start d.source.key
  isUserOwned : d.source.key.isUserOwned = true

theorem mem_ofUserOwned : d ∈ ofUserOwned ds ↔ d ∈ ds ∧ d.source.key.isUserOwned = true :=
  List.mem_filter

theorem ofObject_ofUserOwned (huser : key.isUserOwned = true) :
    ofObject (ofUserOwned ds) key = ofObject ds key := by
  rw [ofObject, ofObject, ofUserOwned, List.filter_filter]
  refine List.filter_congr fun d _ ↦ ?_
  by_cases hkey : d.source.key = key
  · rw [hkey, huser, Bool.and_true]
  · rw [beq_eq_false_iff_ne.mpr hkey, Bool.false_and]

theorem leadsToView_ofUserOwned_iff :
    LeadsToView (ofUserOwned ds) a b ↔ LeadsUserToView ds a b := by
  constructor
  · rintro ⟨d, hd, rfl, htarget, hview⟩
    obtain ⟨hmem, huser⟩ := mem_ofUserOwned.mp hd
    exact ⟨huser, d, hmem, rfl, htarget, hview⟩
  · rintro ⟨huser, d, hmem, rfl, htarget, hview⟩
    exact ⟨d, mem_ofUserOwned.mpr ⟨hmem, huser⟩, rfl, htarget, hview⟩

/-- A chain to a table remains if and only if it goes on from objects of users alone. -/
theorem endsTableUse_ofUserOwned_iff :
    EndsTableUse (ofUserOwned ds) start d ↔ EndsUserTableUse ds start d := by
  have hsteps : LeadsToView (ofUserOwned ds) = LeadsUserToView ds :=
    funext₂ fun _ _ ↦ propext leadsToView_ofUserOwned_iff
  constructor
  · rintro ⟨hd, htable, hleads⟩
    obtain ⟨hmem, huser⟩ := mem_ofUserOwned.mp hd
    exact ⟨hmem, htable, hsteps ▸ hleads, huser⟩
  · rintro ⟨hmem, htable, hleads, huser⟩
    exact ⟨mem_ofUserOwned.mpr ⟨hmem, huser⟩, htable, hsteps ▸ hleads⟩

theorem IsFlattening.mem_map_foldedTarget_iff {behind : List Dependency}
    (h : IsFlattening ds start behind) {folded : List Char} :
    folded ∈ behind.map foldedTarget ↔ ∃ d, EndsTableUse ds start d ∧ foldedTarget d = folded := by
  constructor
  · intro hfolded
    obtain ⟨d, hd, rfl⟩ := List.mem_map.mp hfolded
    exact ⟨d, h.ends d hd, rfl⟩
  · rintro ⟨d, hd, rfl⟩
    exact h.complete d hd

end Dependency

/-- Without an owner asked for, what remains of the dependencies are those of the objects of
users. -/
theorem Snapshot.dependencies_forOwner_none (s : Snapshot) :
    (s.forOwner none).dependencies = Dependency.ofUserOwned s.dependencies :=
  List.filter_congr fun d _ ↦ (ObjectKey.isUserOwned_ofNames d.source.owner d.source.name).symm

theorem Feed.fetch_eq_ok {f : Feed} (hreach : f.unreachable? = none) (wanted : Option String) :
    f.fetch wanted = .ok (f.contents.forOwner wanted) := by
  rw [fetch, hreach]

namespace Catalog

open Dependency (EndsTableUse EndsUserTableUse foldedTarget ofObject ofUserOwned)

variable {ds : List Dependency} {key : ObjectKey}

theorem outgoing_ofDependencies :
    (ofDependencies ds).outgoing key = (ofObject ds key).map Edge.ofDependency := by
  rw [outgoing, ofDependencies, List.filter_map]
  rfl

theorem outgoing_ofUserOwned (huser : key.isUserOwned = true) :
    (ofDependencies (ofUserOwned ds)).outgoing key = (ofDependencies ds).outgoing key := by
  rw [outgoing_ofDependencies, outgoing_ofDependencies, Dependency.ofObject_ofUserOwned huser]

theorem map_asciiFolded_tables {owner name : String} {front back : List ViewUse} {u : ViewUse}
    (hviews : ((ofDependencies ds).footprint owner name).views = front ++ u :: back)
    (hfirst : u.key ∉ front.map ViewUse.key) :
    u.tables.map Text.asciiFolded = (flattened ds u.key).map foldedTarget := by
  rw [footprint] at hviews
  rw [tables_of_viewUses_eq_append hviews, if_neg (by simpa using hfirst),
    tablesBehind_eq_map_flattened, List.map_map]
  rfl

/-- **Fetching a catalog cuts chains at views of the system and nowhere else.** From what a feed
delivers when no owner is asked for, the footprint of an object of a user lists the same tables,
views, procedures, functions and packages as from all that the feed holds. The tables under the
first use of a view are, without regard to the case of ASCII letters and each once, those at the end
of a chain from the view that goes on from views of users alone. -/
theorem footprint_fetch_of_isWanted (f : Feed) (owner name : String)
    (hreach : f.unreachable? = none) (huser : isWanted none owner = true) :
    ∃ fetched, f.fetch none = .ok fetched ∧
      let cut := (ofDependencies fetched.dependencies).footprint owner name
      let full := (ofDependencies f.contents.dependencies).footprint owner name
      cut.tables = full.tables ∧
      cut.views.map (fun u ↦ (u.owner, u.name, u.strength)) =
        full.views.map (fun u ↦ (u.owner, u.name, u.strength)) ∧
      cut.procedures = full.procedures ∧
      cut.functions = full.functions ∧
      cut.packages = full.packages ∧
      ∀ front u back, cut.views = front ++ u :: back → u.key ∉ front.map ViewUse.key →
        (u.tables.map Text.asciiFolded).Nodup ∧
        ∀ folded, folded ∈ u.tables.map Text.asciiFolded ↔
          ∃ d, EndsUserTableUse f.contents.dependencies u.key d ∧ foldedTarget d = folded := by
  -- a user's objects keep all their dependencies, so only chains behind views are cut
  have hedges : (ofDependencies (ofUserOwned f.contents.dependencies)).outgoing
      (.ofNames owner name) = (ofDependencies f.contents.dependencies).outgoing
      (.ofNames owner name) :=
    outgoing_ofUserOwned ((ObjectKey.isUserOwned_ofNames owner name).trans huser)
  refine ⟨_, Feed.fetch_eq_ok hreach none, ?_⟩
  simp only [Snapshot.dependencies_forOwner_none]
  refine ⟨?_, ?_, ?_, ?_, ?_, fun front u back hviews hfirst ↦ ?_⟩
  · simp only [footprint, hedges]
  · simp only [footprint, map_viewUses fun owner name strength ↦ (owner, name, strength), hedges]
  · simp only [footprint, hedges]
  · simp only [footprint, hedges]
  · simp only [footprint, hedges]
  · have hflat := isFlattening_flattened (ofUserOwned f.contents.dependencies) u.key
    rw [map_asciiFolded_tables hviews hfirst]
    refine ⟨hflat.nodup, fun folded ↦ ?_⟩
    simp only [hflat.mem_map_foldedTarget_iff, Dependency.endsTableUse_ofUserOwned_iff]

/-- A procedure that uses a view made from a table and a view of the system. -/
def sessionViews : List Dependency :=
  [⟨⟨"HR", "LOAD", .procedure⟩, ⟨"HR", "STAFF", .view⟩, .hard⟩,
    ⟨⟨"HR", "STAFF", .view⟩, ⟨"Sys", "SESSIONS", .view⟩, .hard⟩,
    ⟨⟨"HR", "STAFF", .view⟩, ⟨"HR", "EMP", .table⟩, .hard⟩,
    ⟨⟨"sys", "SESSIONS", .view⟩, ⟨"SYS", "PROCESS", .table⟩, .hard⟩]

theorem endsUserTableUse_sessionViews_iff {d : Dependency} :
    EndsUserTableUse sessionViews ⟨"HR", "STAFF"⟩ d ↔ d = sessionViews[2] := by
  constructor
  · rintro ⟨hmem, htable, -, howned⟩
    simp only [sessionViews, List.mem_cons, List.not_mem_nil, or_false] at hmem
    rcases hmem with rfl | rfl | rfl | rfl
    · exact absurd htable (by decide)
    · exact absurd htable (by decide)
    · rfl
    · exact absurd howned (by decide)
  · rintro rfl
    have hsource : sessionViews[2].source.key = ⟨"HR", "STAFF"⟩ := by decide
    exact ⟨by decide, rfl, hsource ▸ .refl, by decide⟩

/-- Of the tables behind the view, the one behind the view of the system is not found. -/
theorem tables_of_fetched_sessionViews :
    isWanted none "hr" = true ∧
      ∃ fetched, (Feed.stored ⟨sessionViews, .empty, .empty⟩).fetch none = .ok fetched ∧
        ((ofDependencies fetched.dependencies).footprint "hr" "Load").views.map
          (fun u ↦ (u.key, u.tables.map Text.asciiFolded)) =
        [(⟨"HR", "STAFF"⟩, ["hr.emp".toList])] := by
  have huser : isWanted none "hr" = true := by decide
  obtain ⟨fetched, hfetch, -, hviews, -, -, -, hbehind⟩ :=
    footprint_fetch_of_isWanted (.stored ⟨sessionViews, .empty, .empty⟩) "hr" "Load" rfl huser
  have hfull : ((ofDependencies sessionViews).footprint "hr" "Load").views.map
      (fun u ↦ (u.owner, u.name, u.strength)) = [("HR", "STAFF", .hard)] := by
    rw [footprint, map_viewUses fun owner name strength ↦ (owner, name, strength)]
    decide
  obtain ⟨u, hu, hstaff⟩ := List.map_eq_singleton_iff.mp (hviews.trans hfull)
  obtain ⟨howner, hname, -⟩ : u.owner = "HR" ∧ u.name = "STAFF" ∧ u.strength = .hard := by
    simpa using hstaff
  have hkey : u.key = ⟨"HR", "STAFF"⟩ := by
    rw [ViewUse.key, howner, hname]
    decide
  obtain ⟨hnodup, hnames⟩ := hbehind [] u [] hu List.not_mem_nil
  have htables : u.tables.map Text.asciiFolded = [foldedTarget sessionViews[2]] := by
    have hsingle : [foldedTarget sessionViews[2]].Nodup := List.pairwise_singleton _ _
    refine List.perm_singleton.mp ((List.perm_ext_iff_of_nodup hnodup hsingle).mpr fun folded ↦ ?_)
    simp only [hnames, hkey, Feed.contents, endsUserTableUse_sessionViews_iff, exists_eq_left,
      List.mem_singleton, eq_comm]
  refine ⟨huser, fetched, hfetch, ?_⟩
  rw [hu, List.map_singleton, hkey, htables]
  decide

end Catalog

end Lineage
