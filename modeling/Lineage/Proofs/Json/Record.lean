import Lineage.Json.Record
import Lineage.Proofs.Json.Printer

/-!
# Records that are read back

A writer and a reader belong together if the reader makes of a written value what it was made of,
and if the value can be told from its text. `Stores` says both at once, and then the text is read
back too (`Stores.read_writeTo`). For most types it comes down to their members: a record is written
as an object whose members have different names, so a reader finds each of them under its name.
-/

namespace Lineage.Json

variable {α : Type} {value : Json} {decode : Json → Option α} {a : α}

/-- Whether a value is read as `a`, and is of a form that can be told from its text. -/
structure Stores (decode : Json → Option α) (value : Json) (a : α) : Prop where
  integral : value.IsIntegral
  decoded : decode value = some a

theorem Stores.read_writeTo {layout : Layout} (hlayout : layout.IsBlank)
    (h : Stores decode value a) : (parse (writeTo layout 0 "" value)).bind decode = some a := by
  rw [h.integral.parse_writeTo hlayout, Option.bind_some, h.decoded]

/-! ## Single values -/

@[simp] theorem text?_str (text : String) : text? (.str text) = some text := rfl

@[simp] theorem bool?_bool (value : Bool) : bool? (.bool value) = some value := rfl

theorem natBelow?_nat {n bound : Nat} (h : n < bound) : natBelow? bound (.nat n) = some n := by
  have hbounds : 0 ≤ (n : Int) ∧ (n : Int) < bound := ⟨Int.natCast_nonneg n, Int.ofNat_lt.mpr h⟩
  rw [nat, natBelow?, if_pos hbounds, Int.toNat_natCast]

theorem Stores.natBelow {n bound : Nat} (h : n < bound) (hbound : bound ≤ Nat.pow 2 64) :
    Stores (natBelow? bound) (.nat n) n :=
  ⟨isIntegral_nat (Nat.lt_of_lt_of_le h hbound), natBelow?_nat h⟩

theorem Stores.nat {n : Nat} (h : n < Nat.pow 2 64) : Stores nat? (.nat n) n :=
  .natBelow h (Nat.le_refl _)

@[simp] theorem nullable_text?_strOrNull (text : Option String) :
    Record.nullable text? (strOrNull text) = some text := by
  cases text <;> rfl

/-! ## Lists -/

theorem mapM_map_eq_some {β : Type} {f : β → Option α} {encode : α → β} {as : List α}
    (h : ∀ a ∈ as, f (encode a) = some a) : (as.map encode).mapM f = some as := by
  induction as with
  | nil => rfl
  | cons a as ih =>
    rw [List.forall_mem_cons] at h
    rw [List.map_cons, List.mapM_cons, h.1, ih h.2]
    rfl

theorem Stores.list {encode : α → Json} {as : List α} (h : ∀ a ∈ as, Stores decode (encode a) a) :
    Stores (list? decode) (.arr (as.map encode)) as where
  integral := .arr (List.forall_mem_map.mpr fun a ha ↦ (h a ha).integral)
  decoded := mapM_map_eq_some fun a ha ↦ (h a ha).decoded

@[simp] theorem list?_text?_strs (texts : List String) : list? text? (strs texts) = some texts :=
  mapM_map_eq_some fun _ _ ↦ rfl

theorem Stores.members {encode : α → Json} {entries : List (String × α)}
    (h : ∀ e ∈ entries, Stores decode (encode e.2) e.2) :
    Stores (members? decode) (.obj (entries.map fun e ↦ (e.1, encode e.2))) entries where
  integral := .obj (List.forall_mem_map.mpr fun e he ↦ (h e he).integral)
  decoded := mapM_map_eq_some fun e he ↦ congrArg (·.map (e.1, ·)) (h e he).decoded

/-! ## Records -/

theorem repeats_eq_false {known : List String} {members : List (String × Json)}
    (h : (members.map (·.1)).Nodup) : repeats known members = false := by
  induction members with
  | nil => rfl
  | cons p members ih =>
    rw [List.map_cons, List.nodup_cons] at h
    have hany : members.any (·.1 == p.1) = false := by
      rw [List.any_eq_false]
      intro q hq heq
      exact h.1 (List.mem_map.mpr ⟨q, hq, eq_of_beq heq⟩)
    rw [repeats, hany, Bool.and_false, Bool.false_or, ih h.2]

theorem record?_obj {known : List String} {members : List (String × Json)}
    (h : (members.map (·.1)).Nodup) : record? known (.obj members) = some ⟨false, members⟩ := by
  rw [record?, repeats_eq_false h, if_neg Bool.false_ne_true]

/-- Of the record that an object is, only its members matter. -/
theorem record?_obj_bind {known : List String} {members : List (String × Json)}
    (h : (members.map (·.1)).Nodup) {f : Record → Option α}
    (hf : ∀ r : Record, (∀ name, r.find? name = members.lookup name) → f r = some a) :
    (record? known (.obj members)).bind f = some a := by
  rw [record?_obj h]
  exact hf _ fun _ ↦ rfl

/-! ## Members that may be left out -/

section Present

variable {members : List (String × Option Json)}

/-- The members that have a value. -/
def present (members : List (String × Option Json)) : List (String × Json) :=
  members.flatMap fun p ↦ (p.2.map (p.1, ·)).toList

theorem map_fst_present_sublist (members : List (String × Option Json)) :
    ((present members).map (·.1)).Sublist (members.map (·.1)) := by
  induction members with
  | nil => exact List.Sublist.refl []
  | cons p members ih =>
    rw [present, List.flatMap_cons, List.map_append, List.map_cons]
    cases p.2 with
    | none => exact ih.cons p.1
    | some value => exact ih.cons_cons p.1

theorem isIntegral_present (h : ∀ p ∈ members, ∀ value ∈ p.2, value.IsIntegral) :
    IsIntegral (.obj (present members)) := by
  refine .obj fun p hp ↦ ?_
  obtain ⟨q, hq, hp⟩ := List.mem_flatMap.mp hp
  obtain ⟨value, hvalue, rfl⟩ := Option.map_eq_some_iff.mp (Option.mem_toList.mp hp)
  exact h q hq value hvalue

theorem lookup_eq_none_of_not_mem {members : List (String × α)} {name : String}
    (h : name ∉ members.map (·.1)) : members.lookup name = none :=
  List.lookup_eq_none_iff.mpr fun p hp ↦
    bne_iff_ne.mpr fun heq ↦ h (List.mem_map.mpr ⟨p, hp, heq.symm⟩)

theorem lookup_present (h : (members.map (·.1)).Nodup) (name : String) :
    (present members).lookup name = (members.lookup name).join := by
  induction members with
  | nil => rfl
  | cons p members ih =>
    obtain ⟨key, value⟩ := p
    rw [List.map_cons, List.nodup_cons] at h
    rw [present, List.flatMap_cons, List.lookup_append, ← present]
    by_cases hname : name = key
    · have hrest : (present members).lookup name = none :=
        lookup_eq_none_of_not_mem fun hmem ↦
          h.1 (hname ▸ (map_fst_present_sublist members).subset hmem)
      rw [hrest, List.lookup_cons, hname, beq_self_eq_true]
      cases value <;> simp
    · have hfirst : (value.map (key, ·)).toList.lookup name = none := by
        cases value <;> simp [hname]
      rw [hfirst, Option.none_or, ih h.2, List.lookup_cons, beq_eq_false_iff_ne.mpr hname]

/-- Members that may be left out make a record if their names are different. A member is found under
its name if it has a value. -/
theorem exists_record?_present (known : List String) (h : (members.map (·.1)).Nodup) :
    ∃ r, record? known (.obj (present members)) = some r ∧ r.positional = false ∧
      ∀ name, r.find? name = (members.lookup name).join :=
  ⟨_, record?_obj (h.sublist (map_fst_present_sublist members)), rfl, lookup_present h⟩

end Present

end Lineage.Json
