/-!
# Dictionaries

A finite map from texts, kept as its entries by increasing key. The order belongs to the type:
whoever lists a dictionary lists it by key, and two dictionaries with the same entries are equal.
Keys compare by code point, which is also the order of their UTF-8 bytes.
-/

namespace Lineage

/-- A finite map from texts, as its entries by increasing key. -/
structure Dictionary (α : Type) where
  entries : List (String × α)
  sorted : entries.Pairwise (·.1 < ·.1)
deriving DecidableEq

namespace Dictionary

variable {α : Type}

/-- Puts an entry at its place; an entry with the same key gives way. -/
def insertEntry (key : String) (value : α) : List (String × α) → List (String × α)
  | [] => [(key, value)]
  | (other, kept) :: rest =>
    if key < other then (key, value) :: (other, kept) :: rest
    else if key = other then (key, value) :: rest
    else (other, kept) :: insertEntry key value rest

theorem mem_keys_insertEntry {key : String} {value : α} {entries : List (String × α)}
    {e : String × α} (h : e ∈ insertEntry key value entries) :
    e.1 = key ∨ e ∈ entries := by
  fun_induction insertEntry key value entries <;> grind

theorem pairwise_insertEntry (key : String) (value : α) {entries : List (String × α)}
    (h : entries.Pairwise (·.1 < ·.1)) :
    (insertEntry key value entries).Pairwise (·.1 < ·.1) := by
  fun_induction insertEntry key value entries with
  | case1 => simp
  | case2 other kept rest hlt =>
    refine List.pairwise_cons.2 ⟨fun e he => ?_, h⟩
    rcases List.mem_cons.1 he with rfl | he
    · exact hlt
    · exact String.lt_trans hlt (List.rel_of_pairwise_cons h he)
  | case3 kept rest _ =>
    exact List.pairwise_cons.2 ⟨fun e he => List.rel_of_pairwise_cons h he, h.of_cons⟩
  | case4 other kept rest hlt hne ih =>
    refine List.pairwise_cons.2 ⟨fun e he => ?_, ih h.of_cons⟩
    rcases mem_keys_insertEntry he with hkey | he
    · grind
    · exact List.rel_of_pairwise_cons h he

/-- The dictionary without entries. -/
def empty : Dictionary α := ⟨[], .nil⟩

instance : Inhabited (Dictionary α) := ⟨empty⟩

/-- The dictionary with `value` under `key`, in place of what was there. -/
def insert (d : Dictionary α) (key : String) (value : α) : Dictionary α :=
  ⟨insertEntry key value d.entries, pairwise_insertEntry key value d.sorted⟩

/-- The value under a key. -/
def find? (d : Dictionary α) (key : String) : Option α := d.entries.lookup key

/-- The keys, in increasing order. -/
def keys (d : Dictionary α) : List String := d.entries.map (·.1)

/-- The number of entries. -/
def size (d : Dictionary α) : Nat := d.entries.length

/-- The entries whose key satisfies `p`. -/
def filterKeys (d : Dictionary α) (p : String → Bool) : Dictionary α :=
  ⟨d.entries.filter (p ·.1), d.sorted.filter _⟩

/-- The dictionary of a list of entries, the last of each key kept. -/
def ofList (entries : List (String × α)) : Dictionary α :=
  entries.foldl (fun d e => d.insert e.1 e.2) empty

/-- Adds one to the count under a key; a key without a count gets the count one. -/
def increment (d : Dictionary Nat) (key : String) : Dictionary Nat :=
  d.insert key (((d.find? key).getD 0) + 1)

end Dictionary

end Lineage
