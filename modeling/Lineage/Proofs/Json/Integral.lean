import Lineage.Json.Number
import Mathlib.Data.List.Basic

/-!
# Values with integers only

The values that hold nothing but texts and integers of 64 bits, apart from truth values and `null`.
All that the library stores on its own account is of this form, so these are the values that can be
told from their text. Numbers with a fraction are kept as they were written, and what else could be
written for them is no concern here.
-/

namespace Lineage.Json

/-- Whether an integer is kept as one: it is a signed or an unsigned number of 64 bits. -/
def IsInt64 (n : Int) : Prop := -(Nat.pow 2 63 : Nat) ≤ n ∧ n < (Nat.pow 2 64 : Nat)

/-- The values that hold only texts and integers of 64 bits. -/
inductive IsIntegral : Json → Prop where
  | null : IsIntegral .null
  | bool (value : Bool) : IsIntegral (.bool value)
  | int {n : Int} (h : IsInt64 n) : IsIntegral (.int n)
  | str (text : String) : IsIntegral (.str text)
  | arr {items : List Json} (h : ∀ item ∈ items, IsIntegral item) : IsIntegral (.arr items)
  | obj {members : List (String × Json)} (h : ∀ p ∈ members, IsIntegral p.2) :
    IsIntegral (.obj members)

variable {items : List Json} {members : List (String × Json)}

@[simp] theorem isIntegral_null : IsIntegral .null := .null

@[simp] theorem isIntegral_bool (value : Bool) : IsIntegral (.bool value) := .bool value

@[simp] theorem isIntegral_str (text : String) : IsIntegral (.str text) := .str text

@[simp] theorem isIntegral_arr_iff : IsIntegral (.arr items) ↔ ∀ item ∈ items, IsIntegral item :=
  ⟨fun | .arr h => h, .arr⟩

@[simp] theorem isIntegral_obj_iff : IsIntegral (.obj members) ↔ ∀ p ∈ members, IsIntegral p.2 :=
  ⟨fun | .obj h => h, .obj⟩

theorem isIntegral_nat {n : Nat} (h : n < Nat.pow 2 64) : IsIntegral (.nat n) := by
  have hlow : -(Nat.pow 2 63 : Nat) ≤ (n : Int) := by omega
  exact .int ⟨hlow, Int.ofNat_lt.mpr h⟩

@[simp] theorem isIntegral_strOrNull (text : Option String) : IsIntegral (strOrNull text) := by
  cases text with
  | none => exact .null
  | some text => exact .str text

@[simp] theorem isIntegral_strs (texts : List String) : IsIntegral (strs texts) :=
  .arr (List.forall_mem_map.mpr fun text _ ↦ .str text)

/-! ## Storable values -/

theorem areStorable_iff : areStorable items = true ↔ ∀ item ∈ items, item.isStorable = true := by
  induction items with
  | nil => simp [areStorable]
  | cons item items ih => rw [areStorable, Bool.and_eq_true, ih, List.forall_mem_cons]

theorem membersStorable_iff :
    membersStorable members = true ↔ ∀ p ∈ members, p.2.isStorable = true := by
  induction members with
  | nil => simp [membersStorable]
  | cons p members ih => rw [membersStorable, Bool.and_eq_true, ih, List.forall_mem_cons]

theorem IsIntegral.isStorable {value : Json} (h : IsIntegral value) : value.isStorable = true := by
  induction h with
  | null | bool | int | str => rfl
  | arr _ ih => rw [Json.isStorable, areStorable_iff.mpr ih]
  | obj _ ih => rw [Json.isStorable, membersStorable_iff.mpr ih]

end Lineage.Json
