import Lineage.Dictionary
import Mathlib.Algebra.GroupWithZero.Nat

/-!
# Keys of a dictionary

A dictionary made of a list has the keys of the list. What is found under a key is the first entry
that has the key, and it is also the first of all entries of a class of keys if no key of that class
comes before it. A value that is put under a key is found there and changes nothing elsewhere, so a
count that goes up by one makes the sum of all counts go up by one.
-/

namespace Lineage.Dictionary

variable {α : Type} {key k : String} {value : α}

theorem mem_keys_insertEntry_iff {entries : List (String × α)} :
    k ∈ (insertEntry key value entries).map (·.1) ↔ k = key ∨ k ∈ entries.map (·.1) := by
  fun_induction insertEntry key value entries with
  | case1 => simp
  | case2 other kept rest => simp
  | case3 kept rest => simp
  | case4 other kept rest _ _ ih =>
    rw [List.map_cons, List.mem_cons, ih, List.map_cons, List.mem_cons]
    exact or_left_comm

theorem mem_keys_insert {d : Dictionary α} : k ∈ (d.insert key value).keys ↔ k = key ∨ k ∈ d.keys :=
  mem_keys_insertEntry_iff

theorem mem_keys_ofList {entries : List (String × α)} :
    k ∈ (ofList entries).keys ↔ k ∈ entries.map (·.1) := by
  have hfold : ∀ d : Dictionary α, k ∈ (entries.foldl (fun d e ↦ d.insert e.1 e.2) d).keys ↔
      k ∈ d.keys ∨ k ∈ entries.map (·.1) := by
    induction entries with
    | nil => simp
    | cons e entries ih =>
      intro d
      rw [List.foldl_cons, ih, mem_keys_insert, List.map_cons, List.mem_cons, or_assoc,
        or_left_comm]
  have hempty : (empty : Dictionary α).keys = [] := rfl
  rw [ofList, hfold, hempty]
  exact or_iff_right List.not_mem_nil

theorem mem_keys_of_find?_eq_some {d : Dictionary α} (h : d.find? key = some value) :
    key ∈ d.keys := by
  obtain ⟨front, back, heq, -⟩ := List.lookup_eq_some_iff.mp h
  rw [keys, heq, List.map_append]
  exact List.mem_append_right _ List.mem_cons_self

/-- The entry of a key is the first of a class of keys that has no key before that one. -/
theorem find?_entries_of_least {d : Dictionary α} {p : String → Bool} (hkey : p key = true)
    (hleast : ∀ k ∈ d.keys, p k = true → ¬k < key) (h : d.find? key = some value) :
    d.entries.find? (p ·.1) = some (key, value) := by
  obtain ⟨front, back, heq, -⟩ := List.lookup_eq_some_iff.mp h
  refine List.find?_eq_some_iff_append.mpr ⟨hkey, front, back, heq, fun e he ↦ ?_⟩
  have hmem : e ∈ d.entries := heq ▸ List.mem_append_left _ he
  have hsorted := d.sorted
  rw [heq] at hsorted
  have hlt := (List.pairwise_append.mp hsorted).2.2 e he _ List.mem_cons_self
  rw [Bool.not_eq_true', ← Bool.not_eq_true]
  exact fun hp ↦ hleast _ (List.mem_map_of_mem hmem) hp hlt

theorem lookup_insertEntry (entries : List (String × α)) :
    (insertEntry key value entries).lookup k =
      if k = key then some value else entries.lookup k := by
  fun_induction insertEntry key value entries with
  | case1 =>
    by_cases h : k = key
    · rw [if_pos h, h, List.lookup_cons_self]
    · rw [if_neg h, List.lookup_cons, beq_false_of_ne h]
  | case2 other kept rest =>
    by_cases h : k = key
    · rw [if_pos h, h, List.lookup_cons_self]
    · rw [if_neg h, List.lookup_cons, beq_false_of_ne h]
  | case3 kept rest =>
    by_cases h : k = key
    · rw [if_pos h, h, List.lookup_cons_self]
    · rw [if_neg h, List.lookup_cons, List.lookup_cons, beq_false_of_ne h]
  | case4 other kept rest hlt hne ih =>
    rw [List.lookup_cons, List.lookup_cons, ih]
    by_cases hk : k = key
    · subst hk
      rw [beq_false_of_ne hne, if_pos rfl]
    · rw [if_neg hk, if_neg hk]

theorem find?_insert (d : Dictionary α) :
    (d.insert key value).find? k = if k = key then some value else d.find? k :=
  lookup_insertEntry d.entries

theorem eq_of_entries_eq {d d' : Dictionary α} (h : d.entries = d'.entries) : d = d' := by
  cases d
  cases d'
  cases h
  rfl

theorem insertEntry_of_forall_lt {entries : List (String × α)} (h : ∀ e ∈ entries, e.1 < key) :
    insertEntry key value entries = entries ++ [(key, value)] := by
  induction entries with
  | nil => rfl
  | cons e entries ih =>
    rw [List.forall_mem_cons] at h
    have hnot : ¬key < e.1 := String.lt_asymm h.1
    have hne : key ≠ e.1 := fun heq ↦ String.lt_irrefl key (heq ▸ h.1)
    rw [insertEntry, if_neg hnot, if_neg hne, ih h.2, List.cons_append]

theorem ofList_entries (d : Dictionary α) : ofList d.entries = d := by
  have hfold : ∀ (back : List (String × α)) (d' : Dictionary α),
      (d'.entries ++ back).Pairwise (·.1 < ·.1) →
        (back.foldl (fun d e ↦ d.insert e.1 e.2) d').entries = d'.entries ++ back := by
    intro back
    induction back with
    | nil => exact fun d' _ ↦ (List.append_nil _).symm
    | cons e back ih =>
      intro d' hsorted
      have hlast : (d'.insert e.1 e.2).entries = d'.entries ++ [e] :=
        insertEntry_of_forall_lt fun e' he' ↦
          (List.pairwise_append.mp hsorted).2.2 e' he' e List.mem_cons_self
      have hrest : (d'.insert e.1 e.2).entries ++ back = d'.entries ++ e :: back := by
        rw [hlast, List.append_assoc, List.singleton_append]
      rw [List.foldl_cons, ih _ (hrest ▸ hsorted), hrest]
  exact eq_of_entries_eq (hfold d.entries empty d.sorted)

/-! ## Counts -/

/-- The counts under the keys of a dictionary, taken together. -/
def sum (d : Dictionary Nat) : Nat := (d.entries.map (·.2)).sum

theorem lookup_eq_none_of_forall_lt {entries : List (String × α)} (h : ∀ e ∈ entries, key < e.1) :
    entries.lookup key = none := by
  rw [List.lookup_eq_none_iff]
  exact fun e he ↦ bne_iff_ne.mpr fun heq ↦ String.lt_irrefl e.1 (heq ▸ h e he)

/-- A new value takes the place of the one that was there, if there was one. -/
theorem sum_insertEntry {entries : List (String × Nat)} (hsorted : entries.Pairwise (·.1 < ·.1))
    (key : String) (n : Nat) :
    ((insertEntry key n entries).map (·.2)).sum + (entries.lookup key).getD 0 =
      (entries.map (·.2)).sum + n := by
  fun_induction insertEntry key n entries with
  | case1 => simp
  | case2 other kept rest hlt =>
    have hnone : ((other, kept) :: rest).lookup key = none := by
      refine lookup_eq_none_of_forall_lt (List.forall_mem_cons.mpr ⟨hlt, fun e he ↦ ?_⟩)
      exact String.lt_trans hlt (List.rel_of_pairwise_cons hsorted he)
    rw [hnone, Option.getD_none, List.map_cons, List.sum_cons]
    omega
  | case3 kept rest =>
    rw [List.lookup_cons_self, Option.getD_some, List.map_cons, List.sum_cons, List.map_cons,
      List.sum_cons]
    omega
  | case4 other kept rest hlt hne ih =>
    have hskip : ((other, kept) :: rest).lookup key = rest.lookup key := by
      rw [List.lookup_cons, beq_false_of_ne hne]
    rw [hskip, List.map_cons, List.sum_cons, List.map_cons, List.sum_cons, Nat.add_assoc,
      ih hsorted.of_cons, Nat.add_assoc]

theorem sum_increment (d : Dictionary Nat) (key : String) : (d.increment key).sum = d.sum + 1 := by
  have hentries : (d.increment key).entries =
      insertEntry key ((d.entries.lookup key).getD 0 + 1) d.entries := rfl
  have hsum := sum_insertEntry d.sorted key ((d.entries.lookup key).getD 0 + 1)
  rw [sum, hentries, sum]
  omega

theorem getD_find?_increment (d : Dictionary Nat) (key k : String) :
    ((d.increment key).find? k).getD 0 = (d.find? k).getD 0 + if k = key then 1 else 0 := by
  rw [increment, find?_insert]
  split
  · rename_i h
    rw [Option.getD_some, h]
  · rfl

end Lineage.Dictionary
