import Lineage.Proofs.Json.Record
import Lineage.Schema.Json

/-!
# Schemas are read back

Every type of a schema is written as an object with all of its members, so what a reader would take
for an absent member does not matter. The one number, the ordinal of an argument, has to be one of
64 bits.
-/

namespace Lineage

open Json (Stores record?_obj_bind)
open Json.Record (required defaulted)

theorem Column.stores (c : Column) : Stores ofJson? c.toJson c where
  integral := by simp [toJson]
  decoded := by
    rw [ofJson?, toJson]
    refine record?_obj_bind (by simp) fun r hfind ↦ ?_
    simp [required, defaulted, hfind, List.lookup_cons]

theorem ForeignKey.stores (k : ForeignKey) : Stores ofJson? k.toJson k where
  integral := by simp [toJson]
  decoded := by
    rw [ofJson?, toJson]
    refine record?_obj_bind (by simp) fun r hfind ↦ ?_
    simp [required, defaulted, hfind, List.lookup_cons]

theorem Trigger.stores (t : Trigger) : Stores ofJson? t.toJson t where
  integral := by simp [toJson]
  decoded := by
    rw [ofJson?, toJson]
    refine record?_obj_bind (by simp) fun r hfind ↦ ?_
    simp [required, defaulted, hfind, List.lookup_cons]

theorem Table.stores (t : Table) : Stores ofJson? t.toJson t := by
  have hcolumns := Stores.list fun c (_ : c ∈ t.columns) ↦ c.stores
  have hkeys := Stores.list fun k (_ : k ∈ t.foreignKeys) ↦ k.stores
  have htriggers := Stores.list fun t' (_ : t' ∈ t.triggers) ↦ t'.stores
  constructor
  · simp [toJson, hcolumns.integral, hkeys.integral, htriggers.integral]
  · rw [ofJson?, toJson]
    refine record?_obj_bind (by simp) fun r hfind ↦ ?_
    simp [required, defaulted, hfind, List.lookup_cons, hcolumns.decoded, hkeys.decoded,
      htriggers.decoded]

theorem View.stores (v : View) : Stores ofJson? v.toJson v where
  integral := by simp [toJson]
  decoded := by
    rw [ofJson?, toJson]
    refine record?_obj_bind (by simp) fun r hfind ↦ ?_
    simp [required, defaulted, hfind, List.lookup_cons]

/-- An argument is read back if its ordinal is a number of 64 bits. -/
theorem Argument.stores {a : Argument} (h : a.ordinal < Nat.pow 2 64) :
    Stores ofJson? a.toJson a := by
  have hordinal : Stores Json.nat? (.nat a.ordinal) a.ordinal := .nat h
  constructor
  · simp [toJson, hordinal.integral]
  · rw [ofJson?, toJson]
    refine record?_obj_bind (by simp) fun r hfind ↦ ?_
    simp -implicitDefEqProofs [required, hfind, List.lookup_cons, hordinal.decoded]

theorem Procedure.stores {p : Procedure} (h : ∀ a ∈ p.arguments, a.ordinal < Nat.pow 2 64) :
    Stores ofJson? p.toJson p := by
  have harguments := Stores.list fun a ha ↦ Argument.stores (h a ha)
  constructor
  · simp [toJson, harguments.integral]
  · rw [ofJson?, toJson]
    refine record?_obj_bind (by simp) fun r hfind ↦ ?_
    simp [required, defaulted, hfind, List.lookup_cons, harguments.decoded]

theorem Function.stores {f : Function} (h : ∀ a ∈ f.arguments, a.ordinal < Nat.pow 2 64) :
    Stores ofJson? f.toJson f := by
  have harguments := Stores.list fun a ha ↦ Argument.stores (h a ha)
  constructor
  · simp [toJson, harguments.integral]
  · rw [ofJson?, toJson]
    refine record?_obj_bind (by simp) fun r hfind ↦ ?_
    simp [required, defaulted, hfind, List.lookup_cons, harguments.decoded]

theorem Package.stores (p : Package) : Stores ofJson? p.toJson p where
  integral := by simp [toJson]
  decoded := by
    rw [ofJson?, toJson]
    refine record?_obj_bind (by simp) fun r hfind ↦ ?_
    simp [required, defaulted, hfind, List.lookup_cons]

theorem Sequence.stores (s : Sequence) : Stores ofJson? s.toJson s where
  integral := by simp [toJson]
  decoded := by
    rw [ofJson?, toJson]
    refine record?_obj_bind (by simp) fun r hfind ↦ ?_
    simp [required, hfind, List.lookup_cons]

namespace Schema

/-- Whether the ordinals of all arguments are numbers of 64 bits. -/
structure HasWordOrdinals (s : Schema) : Prop where
  procedures : ∀ p ∈ s.procedures, ∀ a ∈ p.arguments, a.ordinal < Nat.pow 2 64
  functions : ∀ f ∈ s.functions, ∀ a ∈ f.arguments, a.ordinal < Nat.pow 2 64

theorem HasWordOrdinals.stores {s : Schema} (h : s.HasWordOrdinals) :
    Stores ofJson? s.toJson s := by
  have htables := Stores.list fun t (_ : t ∈ s.tables) ↦ t.stores
  have hviews := Stores.list fun v (_ : v ∈ s.views) ↦ v.stores
  have hprocedures := Stores.list fun p hp ↦ Procedure.stores (h.procedures p hp)
  have hfunctions := Stores.list fun f hf ↦ Function.stores (h.functions f hf)
  have hpackages := Stores.list fun p (_ : p ∈ s.packages) ↦ p.stores
  have hsequences := Stores.list fun s' (_ : s' ∈ s.sequences) ↦ s'.stores
  constructor
  · simp [toJson, htables.integral, hviews.integral, hprocedures.integral, hfunctions.integral,
      hpackages.integral, hsequences.integral]
  · rw [ofJson?, toJson]
    refine record?_obj_bind (by simp) fun r hfind ↦ ?_
    simp [defaulted, hfind, List.lookup_cons, htables.decoded, hviews.decoded, hprocedures.decoded,
      hfunctions.decoded, hpackages.decoded, hsequences.decoded]

end Schema

end Lineage
