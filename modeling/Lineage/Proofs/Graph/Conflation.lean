import Lineage.Graph.Build
import Lineage.Proofs.Graph.Cycle
import Lineage.Proofs.Object.Naming

/-!
# Cycles through objects of one name

What tells objects apart is a key and a kind, but the search for cycles goes by keys alone. So a
cycle is reported that leads to an object under one kind and goes on from it under another. Only the
shortest such cycle is passed over, a body that depends on its own package. A body that depends on a
procedure, which in turn depends on the package, is reported, although nothing depends on itself.

## When nothing is reported

A cycle of keys is a *circuit* of dependencies, each of which leads to the key that the next one
comes from. At a *join* of two dependencies the kinds may differ. If no object depends on itself,
then nothing is reported exactly when no circuit has a join at which the kinds differ.
-/

open Relation

namespace Lineage.DependencyGraph

variable {ds : List Dependency}

/-! ## Dependencies as steps -/

/-- Whether a dependency leads from one object to another, of the kinds that are given. -/
def DependsOn (ds : List Dependency) (a b : ObjectKey × ObjectKind) : Prop :=
  ∃ d ∈ ds, d.source.identity = a ∧ d.target.identity = b

/-- Whether no object depends on itself, in any number of steps. -/
def IsAcyclic (ds : List Dependency) : Prop := ∀ a, ¬TransGen (DependsOn ds) a a

theorem isAcyclic_of_rank (rank : ObjectKey × ObjectKind → Nat)
    (h : ∀ d ∈ ds, rank d.source.identity < rank d.target.identity) : IsAcyclic ds := by
  intro a ha
  have hlt : TransGen (· < ·) (rank a) (rank a) := by
    refine ha.lift rank fun a b hab ↦ ?_
    obtain ⟨d, hd, rfl, rfl⟩ := hab
    exact h d hd
  rw [transGen_eq_self] at hlt
  exact Nat.lt_irrefl _ hlt

/-- Whether one dependency leads to the key that another one comes from. -/
def Joined (ds : List Dependency) (d d' : Dependency) : Prop :=
  (d ∈ ds ∧ Counts d) ∧ (d' ∈ ds ∧ Counts d') ∧ d.target.key = d'.source.key

instance (d d' : Dependency) : Decidable (Joined ds d d') :=
  inferInstanceAs (Decidable ((_ ∧ _) ∧ (_ ∧ _) ∧ _))

/-- Whether a join of two dependencies is at one object, and not at two of one key. -/
def KindsMatch (d d' : Dependency) : Prop := d.target.kind = d'.source.kind

theorem not_isClosedWalk_of_rank (rank : ObjectKey → Nat)
    (h : ∀ d ∈ ds, Counts d → rank d.source.key < rank d.target.key) {circuit : List Dependency} :
    ¬IsClosedWalk (Joined ds) circuit := by
  intro hcircuit
  obtain ⟨d, hd⟩ := hcircuit.exists_mem
  have hlt : TransGen (· < ·) (rank d.source.key) (rank d.source.key) := by
    refine (hcircuit.transGen hd).lift (rank ·.source.key) fun d d' hjoined ↦ ?_
    obtain ⟨⟨hmem, hcounts⟩, -, hkey⟩ := hjoined
    exact (h d hmem hcounts).trans_eq (congrArg rank hkey)
  rw [transGen_eq_self] at hlt
  exact Nat.lt_irrefl _ hlt

/-! ## The graph of a list of dependencies -/

theorem isReachable_source {d : Dependency} (h : d ∈ ds) :
    (ofDependencies ds).IsReachable d.source.key := by
  have hmem : d.source.identity ∈ (distinctBy ObjectRef.identity (namings ds)).map
      ObjectRef.identity := mem_map_distinctBy.mpr (List.mem_map_of_mem (source_mem_namings h))
  obtain ⟨r, hr, hidentity⟩ := List.mem_map.mp hmem
  have hkey : r.key = d.source.key := congrArg Prod.fst hidentity
  refine ⟨indexed _ (.ofRef r), List.mem_map_of_mem (List.mem_map_of_mem hr), ?_⟩
  exact hkey ▸ ReflTransGen.refl

theorem leadsTo_of_joined {d d' : Dependency} (h : Joined ds d d') :
    (ofDependencies ds).LeadsTo d.source.key d'.source.key := by
  obtain ⟨⟨hd, hcounts⟩, -, hjoin⟩ := h
  exact ⟨d, hd, hcounts, rfl, hjoin⟩

theorem transGen_joined {a b : ObjectKey} (h : ReflTransGen (ofDependencies ds).LeadsTo a b)
    {d d' : Dependency} (hd : d ∈ ds ∧ Counts d) (htarget : d.target.key = a)
    (hd' : d' ∈ ds ∧ Counts d') (hsource : d'.source.key = b) : TransGen (Joined ds) d d' := by
  induction h using ReflTransGen.head_induction_on generalizing d with
  | refl => exact TransGen.single ⟨hd, hd', htarget.trans hsource.symm⟩
  | head hstep _ ih =>
    obtain ⟨e, he, hcounts, hfrom, hto⟩ := hstep
    exact TransGen.head ⟨hd, ⟨he, hcounts⟩, htarget.trans hfrom.symm⟩ (ih ⟨he, hcounts⟩ hto)

/-- A cycle is reported if and only if there is a circuit of dependencies. -/
theorem cycles_eq_nil_iff_forall_not_isClosedWalk :
    (ofDependencies ds).cycles = [] ↔ ∀ circuit, ¬IsClosedWalk (Joined ds) circuit := by
  rw [cycles_eq_nil_iff]
  constructor
  · intro hnone circuit hcircuit
    obtain ⟨d, hd⟩ := hcircuit.exists_mem
    have hloop := hcircuit.transGen hd
    obtain ⟨_, ⟨⟨hmem, -⟩, -, -⟩, -⟩ := TransGen.head'_iff.mp hloop
    obtain ⟨walk, hwalk, hkey⟩ := exists_isClosedWalk
      (hloop.lift (fun d ↦ d.source.key) fun _ _ ↦ leadsTo_of_joined)
    exact hnone walk hwalk d.source.key hkey (isReachable_source hmem)
  · intro hnone walk hwalk k hk _
    obtain ⟨b, hstep, hback⟩ := TransGen.head'_iff.mp (hwalk.transGen hk)
    obtain ⟨d, hd, hcounts, hfrom, hto⟩ := hstep
    obtain ⟨circuit, hcircuit, -⟩ := exists_isClosedWalk
      (transGen_joined hback ⟨hd, hcounts⟩ hto ⟨hd, hcounts⟩ hfrom)
    exact hnone circuit hcircuit

/-! ## Joins of different kinds -/

/-- A circuit whose kinds match at every join leads an object back to itself. -/
theorem not_isAcyclic_of_kindsMatch {circuit : List Dependency}
    (h : IsClosedWalk (Joined ds) circuit)
    (hkinds : ∀ d d', [d, d'] <:+: circuit → KindsMatch d d') : ¬IsAcyclic ds := by
  intro hacyclic
  have hsteps : IsClosedWalk (fun d d' ↦ DependsOn ds d.source.identity d'.source.identity)
      circuit := by
    refine h.imp fun d d' hjoin hjoined ↦ ?_
    obtain ⟨⟨hd, -⟩, -, hkey⟩ := hjoined
    exact ⟨d, hd, rfl, Prod.ext hkey (hkinds d d' hjoin)⟩
  obtain ⟨d, hd⟩ := hsteps.exists_mem
  refine hacyclic d.source.identity ?_
  exact (hsteps.transGen hd).lift (fun d : Dependency ↦ d.source.identity) fun _ _ hstep ↦ hstep

theorem joined_of_infix {circuit : List Dependency} (h : IsClosedWalk (Joined ds) circuit)
    {d d' : Dependency} (hjoin : [d, d'] <:+: circuit) : Joined ds d d' :=
  rel_of_step h.chain hjoin

theorem cycles_eq_nil_of_kind_unique (h : IsAcyclic ds)
    (hkind : ∀ r ∈ namings ds, ∀ r' ∈ namings ds, r.key = r'.key → r.kind = r'.kind) :
    (ofDependencies ds).cycles = [] := by
  refine cycles_eq_nil_iff_forall_not_isClosedWalk.mpr fun circuit hcircuit ↦ ?_
  refine not_isAcyclic_of_kindsMatch hcircuit (fun d d' hjoin ↦ ?_) h
  obtain ⟨⟨hd, -⟩, ⟨hd', -⟩, hkey⟩ := joined_of_infix hcircuit hjoin
  exact hkind _ (target_mem_namings hd) _ (source_mem_namings hd') hkey

/-- **False cycles.** When no object depends on itself, a cycle is reported if and only if some
circuit leads to an object under one kind and goes on from it under another. -/
theorem cycles_eq_nil_iff_kindsMatch (h : IsAcyclic ds) :
    (ofDependencies ds).cycles = [] ↔
      ∀ circuit, IsClosedWalk (Joined ds) circuit →
        ∀ d d', [d, d'] <:+: circuit → KindsMatch d d' := by
  rw [cycles_eq_nil_iff_forall_not_isClosedWalk]
  constructor
  · intro hnone circuit hcircuit
    exact absurd hcircuit (hnone circuit)
  · intro hkinds circuit hcircuit
    exact not_isAcyclic_of_kindsMatch hcircuit (hkinds circuit hcircuit) h

/-- The body of a package that depends on nothing but the package. -/
def bodyOfPackage : List Dependency :=
  [⟨⟨"HR", "PAY", .packageBody⟩, ⟨"HR", "PAY", .package⟩, .hard⟩]

/-- The body of a package, which uses a procedure, and a procedure that uses the package. -/
def calledPackage : List Dependency :=
  bodyOfPackage ++ [⟨⟨"HR", "LOAD", .procedure⟩, ⟨"HR", "PAY", .package⟩, .hard⟩,
    ⟨⟨"HR", "PAY", .packageBody⟩, ⟨"HR", "TAX", .procedure⟩, .hard⟩,
    ⟨⟨"HR", "TAX", .procedure⟩, ⟨"HR", "RATES", .table⟩, .hard⟩]

/-- At the key of the package two kinds meet, but no circuit goes through the join. -/
theorem cycles_calledPackage :
    IsAcyclic calledPackage ∧
      (∃ d d', Joined calledPackage d d' ∧ ¬KindsMatch d d') ∧
      (ofDependencies calledPackage).cycles = [] := by
  have hacyclic : IsAcyclic calledPackage := by
    let rank (a : ObjectKey × ObjectKind) : Nat :=
      if a.2 = .table then 3 else if a.1.name = "TAX" then 2 else if a.2 = .package then 1 else 0
    exact isAcyclic_of_rank rank (by decide)
  let rank (key : ObjectKey) : Nat := ["LOAD", "PAY", "TAX", "RATES"].idxOf key.name
  refine ⟨hacyclic, ⟨calledPackage[1], calledPackage[2], by decide, nofun⟩, ?_⟩
  refine (cycles_eq_nil_iff_kindsMatch hacyclic).mpr fun circuit hcircuit ↦ ?_
  exact absurd hcircuit (not_isClosedWalk_of_rank rank (by decide))

/-- The body of a package that uses a procedure, and the procedure, which uses the package. -/
def throughPackage : List Dependency :=
  [⟨⟨"HR", "PAY", .packageBody⟩, ⟨"HR", "TAX", .procedure⟩, .hard⟩,
    ⟨⟨"HR", "TAX", .procedure⟩, ⟨"HR", "PAY", .package⟩, .hard⟩]

/-- A cycle is reported although no object depends on itself. -/
theorem cycles_throughPackage :
    IsAcyclic throughPackage ∧ (ofDependencies throughPackage).cycles ≠ [] := by
  constructor
  · let rank (a : ObjectKey × ObjectKind) : Nat :=
      if a.2 = .packageBody then 0 else if a.2 = .procedure then 1 else 2
    exact isAcyclic_of_rank rank (by decide)
  · intro hnone
    have hcircuit : IsClosedWalk (Joined throughPackage)
        (throughPackage ++ [throughPackage[0]]) := ⟨by decide, by decide, by decide⟩
    exact cycles_eq_nil_iff_forall_not_isClosedWalk.mp hnone _ hcircuit

end Lineage.DependencyGraph
