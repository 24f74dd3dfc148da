import Lineage.Object.Key
import Lineage.Proofs.Lists

/-!
# Names that can be read back

An object is handed on as one text, `OWNER.NAME`, and taken apart again at the dot. This is safe for
plain names, those that are not empty and have no dot in them, and `splitQualified_qualified` says
so. Which object a text stands for, `ObjectKey.ofFullName`, does not depend on the case of its ASCII
letters: upper case undoes any change of case, and a change of case moves no dot.
-/

namespace Lineage

namespace Text

/-! ## Case -/

theorem forall_ascii {P : Char → Prop} (h : ∀ n : Fin 128, P (Char.ofNat n)) {c : Char}
    (hc : c.toNat < 128) : P c := by
  have hcode := h ⟨c.toNat, hc⟩
  rwa [Char.ofNat_toNat] at hcode

/-- What holds of the ASCII characters, and of every character that has no lower case of its own,
holds of all. -/
theorem char_cases {P : Char → Prop} (hascii : ∀ n : Fin 128, P (Char.ofNat n))
    (hfixed : ∀ c : Char, c.toLower = c → P c) (c : Char) : P c := by
  by_cases hc : c.toNat < 128
  · exact forall_ascii hascii hc
  · refine hfixed c (dif_neg fun h ↦ hc ?_)
    have hz : c.toNat ≤ 'Z'.toNat := h.2
    exact Nat.lt_of_le_of_lt hz (by decide)

theorem upcaseChar_toLower (c : Char) : upcaseChar c.toLower = upcaseChar c := by
  induction c using char_cases with
  | hascii n => revert n; decide
  | hfixed c h => rw [h]

theorem toLower_bne_dot (c : Char) : (c.toLower != '.') = (c != '.') := by
  induction c using char_cases with
  | hascii n => revert n; decide
  | hfixed c h => rw [h]

theorem upcaseChars_map_toLower (cs : List Char) :
    upcaseChars (cs.map Char.toLower) = upcaseChars cs := by
  rw [upcaseChars, List.flatMap_map, upcaseChars]
  exact congrArg (cs.flatMap ·) (funext upcaseChar_toLower)

theorem upcase_eq_of_asciiFolded_eq {a b : String} (h : asciiFolded a = asciiFolded b) :
    upcase a = upcase b := by
  rw [upcase, ← upcaseChars_map_toLower, ← asciiFolded, h, asciiFolded, upcaseChars_map_toLower,
    upcase]

theorem upcaseChar_ne_nil (c : Char) : upcaseChar c ≠ [] := by
  have hexpansions : ∀ e ∈ caseExpansions, e.2 ≠ [] := by decide
  rw [upcaseChar, upcaseWide]
  split
  · exact List.cons_ne_nil _ _
  · split
    · rename_i n codes hfind
      have hcodes : codes ≠ [] := hexpansions _ (List.mem_of_find?_eq_some hfind)
      simpa using hcodes
    · split <;> exact List.cons_ne_nil _ _

theorem upcase_eq_empty_iff {s : String} : upcase s = "" ↔ s = "" := by
  rw [← String.toList_eq_nil_iff, toList_upcase, ← String.toList_eq_nil_iff, upcaseChars,
    List.flatMap_eq_nil_iff]
  constructor
  · intro h
    exact List.eq_nil_iff_forall_not_mem.mpr fun c hc ↦ upcaseChar_ne_nil c (h c hc)
  · intro h c hc
    exact absurd (h ▸ hc) List.not_mem_nil

/-! ## Taking apart -/

/-- A name that survives being qualified: neither empty nor with a dot in it. -/
structure IsPlain (name : String) : Prop where
  ne_empty : name ≠ ""
  no_dot : '.' ∉ name.toList

instance (name : String) : Decidable (IsPlain name) :=
  decidable_of_iff (name ≠ "" ∧ '.' ∉ name.toList) ⟨fun h ↦ ⟨h.1, h.2⟩, fun h ↦ ⟨h.1, h.2⟩⟩

/-- The characters up to the first dot. -/
def beforeDot (cs : List Char) : List Char := cs.takeWhile (· != '.')

/-- The characters after the first dot. -/
def afterDot (cs : List Char) : List Char := (cs.dropWhile (· != '.')).tail

theorem beforeDot_eq_self {cs : List Char} (h : '.' ∉ cs) : beforeDot cs = cs :=
  List.takeWhile_eq_self_iff.mpr (bne_of_not_mem h)

theorem beforeDot_append {cs : List Char} (h : '.' ∉ cs) (rest : List Char) :
    beforeDot (cs ++ '.' :: rest) = cs := takeWhile_bne_append h rest

theorem afterDot_append {cs : List Char} (h : '.' ∉ cs) (rest : List Char) :
    afterDot (cs ++ '.' :: rest) = rest := by
  rw [afterDot, dropWhile_bne_append h, List.tail_cons]

/-- A reference with a dot gives the parts around it, one without is a name of the default owner. -/
theorem splitQualified_eq (reference owner : String) :
    splitQualified reference owner =
      if '.' ∈ reference.toList then
        (String.ofList (beforeDot reference.toList),
          String.ofList (beforeDot (afterDot reference.toList)))
      else (owner, reference) := by
  rw [splitQualified, List.span_eq_takeWhile_dropWhile]
  by_cases h : '.' ∈ reference.toList
  · obtain ⟨front, rest, heq, hfront⟩ := List.eq_append_cons_of_mem h
    rw [if_pos h, heq, afterDot_append hfront, dropWhile_bne_append hfront]
    rfl
  · rw [if_neg h, List.dropWhile_eq_nil_iff.mpr (bne_of_not_mem h)]

theorem splitQualified_of_bare {name : String} (h : '.' ∉ name.toList) (owner : String) :
    splitQualified name owner = (owner, name) := by
  rw [splitQualified_eq, if_neg h]

theorem splitQualified_of_dot {owner name : String} (ho : '.' ∉ owner.toList)
    (hn : '.' ∉ name.toList) (other : String) :
    splitQualified (owner ++ "." ++ name) other = (owner, name) := by
  have hlist : (owner ++ "." ++ name).toList = owner.toList ++ '.' :: name.toList := by simp
  rw [splitQualified_eq, hlist, if_pos (List.mem_append_right _ List.mem_cons_self),
    beforeDot_append ho, afterDot_append ho, beforeDot_eq_self hn, String.ofList_toList,
    String.ofList_toList]

theorem splitQualified_subset {reference : String} (h : '.' ∈ reference.toList) (other : String) :
    (splitQualified reference other).1.toList ⊆ reference.toList ∧
      (splitQualified reference other).2.toList ⊆ reference.toList := by
  have hbefore : ∀ cs : List Char, beforeDot cs ⊆ cs :=
    fun cs ↦ (List.takeWhile_sublist _).subset
  have hafter : ∀ cs : List Char, afterDot cs ⊆ cs :=
    fun cs ↦ ((List.tail_sublist _).trans (List.dropWhile_sublist _)).subset
  rw [splitQualified_eq, if_pos h, String.toList_ofList, String.toList_ofList]
  exact ⟨hbefore _, List.Subset.trans (hbefore _) (hafter _)⟩

theorem splitQualified_qualified {owner name : String} (ho : IsPlain owner) (hn : IsPlain name)
    (other : String) : splitQualified (qualified owner name) other = (owner, name) := by
  rw [qualified, if_neg (by simpa using ho.ne_empty)]
  exact splitQualified_of_dot ho.no_dot hn.no_dot other

/-- A reference as it stands in a source text: a name, or an owner and a name with a dot between
them. -/
inductive IsReference : String → Prop
  | bare {name : String} (hname : '.' ∉ name.toList) : IsReference name
  | qualified {owner name : String} (howner : '.' ∉ owner.toList) (hname : '.' ∉ name.toList) :
    IsReference (owner ++ "." ++ name)

theorem IsReference.dot_not_mem {reference : String} (h : IsReference reference) (owner : String) :
    '.' ∉ (splitQualified reference owner).2.toList := by
  cases h with
  | bare hname => rwa [splitQualified_of_bare hname]
  | qualified howner hname => rwa [splitQualified_of_dot howner hname]

theorem dot_mem_asciiFolded {s : String} : '.' ∈ asciiFolded s ↔ '.' ∈ s.toList := by
  have hdot : ∀ c : Char, c.toLower = '.' ↔ c = '.' := fun c ↦ by
    rw [← not_iff_not, ← Ne, ← Ne, ← bne_iff_ne, ← bne_iff_ne, toLower_bne_dot]
  simp [asciiFolded, hdot]

theorem asciiFolded_append (a b : String) :
    asciiFolded (a ++ b) = asciiFolded a ++ asciiFolded b := by
  simp [asciiFolded]

theorem asciiFolded_dotted (owner name : String) :
    asciiFolded (owner ++ "." ++ name) = asciiFolded owner ++ '.' :: asciiFolded name := by
  simp [asciiFolded]

theorem dot_mem_asciiFolded_dotted (owner name : String) :
    '.' ∈ asciiFolded (owner ++ "." ++ name) := by
  rw [asciiFolded_dotted]
  exact List.mem_append_right _ List.mem_cons_self

theorem asciiFolded_dotted_inj {owner name owner' name' : String} (hn : '.' ∉ name.toList)
    (hn' : '.' ∉ name'.toList) :
    asciiFolded (owner ++ "." ++ name) = asciiFolded (owner' ++ "." ++ name') ↔
      asciiFolded owner = asciiFolded owner' ∧ asciiFolded name = asciiFolded name' := by
  rw [asciiFolded_dotted, asciiFolded_dotted]
  constructor
  · exact append_cons_inj_of_not_mem (mt dot_mem_asciiFolded.mp hn) (mt dot_mem_asciiFolded.mp hn')
  · rintro ⟨howner, hname⟩
    rw [howner, hname]

/-- A change of case changes the parts of a qualified name only in case, if the name has no dot. -/
theorem asciiFolded_qualified_inj {owner name owner' name' : String} (hn : '.' ∉ name.toList)
    (hn' : '.' ∉ name'.toList) :
    asciiFolded (qualified owner name) = asciiFolded (qualified owner' name') ↔
      asciiFolded owner = asciiFolded owner' ∧ asciiFolded name = asciiFolded name' := by
  have hempty : ∀ s : String, s.isEmpty = (asciiFolded s).isEmpty := by
    intro s
    rw [Bool.eq_iff_iff, String.isEmpty_iff, List.isEmpty_iff, asciiFolded, List.map_eq_nil_iff,
      String.toList_eq_nil_iff]
  constructor
  · intro h
    rw [qualified, qualified] at h
    split at h <;> split at h
    · rename_i ho ho'
      rw [String.isEmpty_iff.mp ho, String.isEmpty_iff.mp ho']
      exact ⟨rfl, h⟩
    · exact absurd (dot_mem_asciiFolded.mp (h ▸ dot_mem_asciiFolded_dotted owner' name')) hn
    · exact absurd (dot_mem_asciiFolded.mp (h ▸ dot_mem_asciiFolded_dotted owner name)) hn'
    · exact (asciiFolded_dotted_inj hn hn').mp h
  · rintro ⟨howner, hname⟩
    rw [qualified, qualified, hempty, hempty, howner]
    split
    · exact hname
    · exact (asciiFolded_dotted_inj hn hn').mpr ⟨howner, hname⟩

theorem qualified_inj {owner name owner' name' : String} (hn : '.' ∉ name.toList)
    (hn' : '.' ∉ name'.toList) :
    qualified owner name = qualified owner' name' ↔ owner = owner' ∧ name = name' := by
  have hlist : ∀ o n : String, (o ++ "." ++ n).toList = o.toList ++ '.' :: n.toList := by simp
  have hdot : ∀ o n : String, '.' ∈ (o ++ "." ++ n).toList := by simp
  constructor
  · intro h
    rw [qualified, qualified] at h
    split at h <;> split at h
    · rename_i ho ho'
      rw [String.isEmpty_iff.mp ho, String.isEmpty_iff.mp ho']
      exact ⟨rfl, h⟩
    · exact absurd (h ▸ hdot owner' name') hn
    · exact absurd (h ▸ hdot owner name) hn'
    · rw [← String.toList_inj, hlist, hlist] at h
      obtain ⟨howner, hname⟩ := append_cons_inj_of_not_mem hn hn' h
      exact ⟨String.toList_inj.mp howner, String.toList_inj.mp hname⟩
  · rintro ⟨rfl, rfl⟩
    rfl

/-- A name is qualified in the same way only with the same owner, even if it has dots in it. -/
theorem qualified_left_inj {owner owner' name : String} :
    qualified owner name = qualified owner' name ↔ owner = owner' := by
  have hlist : ∀ o : String, (qualified o name).toList =
      (if o.isEmpty then [] else o.toList ++ ['.']) ++ name.toList := by
    intro o
    rw [qualified]
    split <;> simp
  rw [← String.toList_inj, hlist, hlist, List.append_left_inj]
  constructor
  · intro h
    split at h <;> split at h
    · rename_i ho ho'
      rw [String.isEmpty_iff.mp ho, String.isEmpty_iff.mp ho']
    · exact absurd h.symm (List.append_ne_nil_of_right_ne_nil _ (List.cons_ne_nil _ _))
    · exact absurd h (List.append_ne_nil_of_right_ne_nil _ (List.cons_ne_nil _ _))
    · exact String.toList_inj.mp (List.append_left_inj _ |>.mp h)
  · rintro rfl
    rfl

theorem splitQualified_asciiFolded_eq {a b : String} (h : asciiFolded a = asciiFolded b)
    (owner : String) :
    asciiFolded (splitQualified a owner).1 = asciiFolded (splitQualified b owner).1 ∧
      asciiFolded (splitQualified a owner).2 = asciiFolded (splitQualified b owner).2 := by
  -- no letter is folded to a dot, and no dot to a letter
  have hdot : ((· != '.') ∘ Char.toLower) = (· != '.') := funext toLower_bne_dot
  have hbefore : ∀ cs : List Char, (beforeDot cs).map Char.toLower =
      beforeDot (cs.map Char.toLower) := by
    intro cs
    rw [beforeDot, beforeDot, List.takeWhile_map, hdot]
  have hafter : ∀ cs : List Char, (afterDot cs).map Char.toLower =
      afterDot (cs.map Char.toLower) := by
    intro cs
    rw [afterDot, afterDot, List.dropWhile_map, hdot, List.map_tail]
  rw [splitQualified_eq, splitQualified_eq]
  by_cases ha : '.' ∈ a.toList
  · have hb : '.' ∈ b.toList := dot_mem_asciiFolded.mp (h ▸ dot_mem_asciiFolded.mpr ha)
    rw [if_pos ha, if_pos hb]
    simp only [asciiFolded, String.toList_ofList, hbefore, hafter]
    rw [← asciiFolded, ← asciiFolded, h]
    exact ⟨rfl, rfl⟩
  · have hb : '.' ∉ b.toList := fun hb ↦
      ha (dot_mem_asciiFolded.mp (h ▸ dot_mem_asciiFolded.mpr hb))
    rw [if_neg ha, if_neg hb]
    exact ⟨rfl, h⟩

/-! ## Names in full -/

@[simp] theorem upcase_append (a b : String) : upcase (a ++ b) = upcase a ++ upcase b := by
  rw [← String.toList_inj]
  simp

theorem upcase_dotted (a b : String) : upcase (a ++ "." ++ b) = upcase a ++ "." ++ upcase b := by
  have hdot : upcase "." = "." := by decide
  rw [upcase_append, upcase_append, hdot]

theorem upcase_qualified (owner name : String) :
    upcase (qualified owner name) = qualified (upcase owner) (upcase name) := by
  have hempty : (upcase owner).isEmpty = owner.isEmpty := by
    rw [Bool.eq_iff_iff, String.isEmpty_iff, String.isEmpty_iff, upcase_eq_empty_iff]
  rw [qualified, qualified, hempty]
  split
  · rfl
  · exact upcase_dotted owner name

/-- A reference with the owner that it has, or else with the default owner. -/
def inFull (reference owner : String) : String :=
  qualified (splitQualified reference owner).1 (splitQualified reference owner).2

/-- The upper case of a reference in full depends neither on the case of the reference nor on the
spelling of the default owner. -/
theorem upcase_inFull_congr {a b owner owner' : String} (h : asciiFolded a = asciiFolded b)
    (howner : upcase owner = upcase owner') :
    upcase (inFull a owner) = upcase (inFull b owner') := by
  obtain ⟨hfirst, hsecond⟩ := splitQualified_asciiFolded_eq h owner
  have hsame : upcase (inFull a owner) = upcase (inFull b owner) := by
    rw [inFull, inFull, upcase_qualified, upcase_qualified,
      upcase_eq_of_asciiFolded_eq hfirst, upcase_eq_of_asciiFolded_eq hsecond]
  rw [hsame, inFull, inFull, upcase_qualified, upcase_qualified, splitQualified_eq,
    splitQualified_eq]
  by_cases hdot : '.' ∈ b.toList
  · rw [if_pos hdot, if_pos hdot]
  · rw [if_neg hdot, if_neg hdot, howner]

end Text

/-! ## The object of a full name -/

namespace ObjectKey

/-- The identity of the object that a qualified name stands for. -/
def ofFullName (name : String) : ObjectKey :=
  .ofNames (Text.splitQualified name "").1 (Text.splitQualified name "").2

theorem ofFullName_qualified {owner name : String} (ho : Text.IsPlain owner)
    (hn : Text.IsPlain name) : ofFullName (Text.qualified owner name) = ofNames owner name := by
  rw [ofFullName, Text.splitQualified_qualified ho hn]

theorem ofFullName_eq_of_asciiFolded_eq {a b : String}
    (h : Text.asciiFolded a = Text.asciiFolded b) : ofFullName a = ofFullName b := by
  obtain ⟨howner, hname⟩ := Text.splitQualified_asciiFolded_eq h ""
  rw [ofFullName, ofNames, Text.upcase_eq_of_asciiFolded_eq howner,
    Text.upcase_eq_of_asciiFolded_eq hname, ofFullName, ofNames]

end ObjectKey

end Lineage
