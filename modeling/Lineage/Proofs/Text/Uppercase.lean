import Lineage.Proofs.Text.Name
import Lineage.Text.CharClass
import Mathlib.Data.Nat.Bitwise

/-!
# Upper case is final

A text in upper case is its own upper case. This rests on the tables of upper case: a code point to
which they lead is not one of those that they change. Both are many hundred, too many to compare
each with each, so they are made the bits of two numbers, which have none in common.

Beyond that, upper case makes no blank and no dot and removes none. So a text may be put in upper
case before the blanks around it are taken away or after, and it is cut at the same dots. And as no
ASCII letter comes before its upper case, a text in upper case is the first of its spellings.
-/

namespace Lineage.Text

/-! ## Sets of code points as numbers -/

/-- The number that has a bit for each number of a list. -/
def bitSet (ns : List Nat) : Nat := ns.foldr (fun n set ↦ 2 ^ n ||| set) 0

theorem testBit_bitSet {ns : List Nat} {n : Nat} : (bitSet ns).testBit n = true ↔ n ∈ ns := by
  induction ns with
  | nil => simp [bitSet]
  | cons k ns ih =>
    have hcons : bitSet (k :: ns) = 2 ^ k ||| bitSet ns := rfl
    rw [hcons, Nat.testBit_or, Bool.or_eq_true, ih, Nat.testBit_two_pow, decide_eq_true_eq,
      List.mem_cons, eq_comm]

theorem not_mem_of_bitSet_and_eq_zero {ns ks : List Nat} (h : bitSet ns &&& bitSet ks = 0) {n : Nat}
    (hns : n ∈ ns) : n ∉ ks := by
  intro hks
  have hboth : (bitSet ns &&& bitSet ks).testBit n = true := by
    rw [Nat.testBit_and, testBit_bitSet.mpr hns, testBit_bitSet.mpr hks, Bool.and_true]
  rw [h, Nat.zero_testBit] at hboth
  exact Bool.false_ne_true hboth

/-- The code points between boundaries. -/
def Spans.codesBetween : List Nat → List Nat
  | first :: stop :: rest => List.range' first (stop - first) ++ codesBetween rest
  | _ => []

theorem Spans.mem_codesBetween {n : Nat} {bounds : List Nat} (heven : bounds.length % 2 = 0)
    (h : containsFrom n bounds = true) : n ∈ codesBetween bounds := by
  fun_induction containsFrom n bounds with
  | case1 => cases h
  | case2 => cases heven
  | case3 => cases h
  | case4 first stop rest hfirst ih =>
    rw [Bool.or_eq_true, decide_eq_true_eq] at h
    rw [codesBetween, List.mem_append, List.mem_range'_1]
    rcases h with hstop | hrest
    · exact Or.inl (by omega)
    · rw [List.length_cons, List.length_cons] at heven
      exact Or.inr (ih (by omega) hrest)

/-! ## The tables -/

/-- The code points that a run moves. -/
def CaseRun.codes (r : CaseRun) : List Nat :=
  (List.range' r.first (r.last + 1 - r.first)).filter r.covers

theorem CaseRun.mem_codes {r : CaseRun} {n : Nat} : n ∈ r.codes ↔ r.covers n = true := by
  rw [codes, List.mem_filter, and_iff_right_iff_imp, List.mem_range'_1]
  intro h
  simp only [covers, Bool.and_eq_true, decide_eq_true_eq] at h
  omega

/-- The code points to which a run moves them. -/
def CaseRun.targets (r : CaseRun) : List Nat := r.codes.map fun n : Nat ↦ (n + r.shift).toNat

/-- The code points that the tables change. -/
def changedCodes : List Nat := caseExpansions.map (·.1) ++ caseRuns.flatMap (·.codes)

/-- The code points to which the tables lead. -/
def capitalCodes : List Nat :=
  caseExpansions.flatMap (·.2) ++ caseRuns.flatMap (·.targets)

theorem bitSet_capitalCodes_and_eq_zero : bitSet capitalCodes &&&
    bitSet (changedCodes ++ Spans.codesBetween whiteSpace.bounds) = 0 := by decide +kernel

/-- What the tables lead to are characters, and those of ASCII are letters in upper case. -/
theorem capitalCodes_all : (capitalCodes.all fun n ↦
    n.isValidChar && (128 ≤ n || (Char.ofNat n).isUpper)) = true := by decide +kernel

theorem upcaseWide_eq_self {c : Char} (h : c.toNat ∉ changedCodes) : upcaseWide c = [c] := by
  rw [changedCodes, List.mem_append, not_or] at h
  have hexpansions : caseExpansions.find? (·.1 == c.toNat) = none := by
    rw [List.find?_eq_none]
    intro e he heq
    exact h.1 (List.mem_map.mpr ⟨e, he, eq_of_beq heq⟩)
  have hruns : caseRuns.find? (·.covers c.toNat) = none := by
    rw [List.find?_eq_none]
    intro r hr hcovers
    exact h.2 (List.mem_flatMap.mpr ⟨r, hr, CaseRun.mem_codes.mpr hcovers⟩)
  rw [upcaseWide, hexpansions, hruns]

/-- The tables leave a character as it is or lead to nothing but their code points. -/
theorem upcaseWide_eq_self_or (c : Char) :
    upcaseWide c = [c] ∨ ∀ d ∈ upcaseWide c, ∃ n ∈ capitalCodes, d = Char.ofNat n := by
  rw [upcaseWide]
  cases hexpansion : caseExpansions.find? (·.1 == c.toNat) with
  | some e =>
    right
    intro d hd
    obtain ⟨n, hn, rfl⟩ := List.mem_map.mp hd
    have hcodes := List.mem_flatMap.mpr ⟨e, List.mem_of_find?_eq_some hexpansion, hn⟩
    exact ⟨n, List.mem_append_left _ hcodes, rfl⟩
  | none =>
    cases hrun : caseRuns.find? (·.covers c.toNat) with
    | some r =>
      right
      intro d hd
      have hcode : c.toNat ∈ r.codes :=
        CaseRun.mem_codes.mpr (@List.find?_some _ (CaseRun.covers · c.toNat) _ _ hrun)
      have htarget : (c.toNat + r.shift).toNat ∈ r.targets := List.mem_map_of_mem hcode
      have hcodes := List.mem_flatMap.mpr ⟨r, List.mem_of_find?_eq_some hrun, htarget⟩
      exact ⟨_, List.mem_append_right _ hcodes, List.mem_singleton.mp hd⟩
    | none => exact Or.inl rfl

/-! ## Capital characters -/

/-- A character that upper case leaves as it is, and that is neither blank nor a dot. -/
structure IsCapital (c : Char) : Prop where
  upcaseChar_eq : upcaseChar c = [c]
  isBlank_eq : isBlank c = false
  ne_dot : c ≠ '.'

instance (c : Char) : Decidable (IsCapital c) :=
  decidable_of_iff (upcaseChar c = [c] ∧ isBlank c = false ∧ c ≠ '.')
    ⟨fun h ↦ ⟨h.1, h.2.1, h.2.2⟩, fun h ↦ ⟨h.1, h.2, h.3⟩⟩

theorem isCapital_of_mem_capitalCodes {n : Nat} (h : n ∈ capitalCodes) :
    IsCapital (Char.ofNat n) := by
  have hascii : ∀ k : Fin 128, (Char.ofNat k).isUpper = true → IsCapital (Char.ofNat k) := by
    decide
  have hall := List.all_eq_true.mp capitalCodes_all n h
  rw [Bool.and_eq_true, Bool.or_eq_true, decide_eq_true_eq, decide_eq_true_eq] at hall
  obtain ⟨hvalid, hrange⟩ := hall
  by_cases hn : n < 128
  · exact hascii ⟨n, hn⟩ (hrange.resolve_left (Nat.not_le_of_lt hn))
  · -- beyond ASCII the tables decide, and they have no entry for what they lead to
    have hcode : (Char.ofNat n).toNat = n := by
      rw [Char.ofNat, dif_pos hvalid]
      rfl
    have hfree := not_mem_of_bitSet_and_eq_zero bitSet_capitalCodes_and_eq_zero h
    rw [List.mem_append, not_or, ← hcode] at hfree
    refine ⟨?_, ?_, ?_⟩
    · rw [upcaseChar, if_neg (hcode.symm ▸ hn), upcaseWide_eq_self hfree.1]
    · rw [isBlank, Spans.contains, ← Bool.not_eq_true]
      exact fun hblank ↦ hfree.2 (Spans.mem_codesBetween (by decide) hblank)
    · rintro hdot
      rw [hdot] at hcode
      exact hn (by rw [← hcode]; decide)

theorem upcaseChar_eq_self_or (c : Char) :
    upcaseChar c = [c] ∨ ∀ d ∈ upcaseChar c, IsCapital d := by
  by_cases hc : c.toNat < 128
  · have hcase : c.toUpper = c ∨ IsCapital c.toUpper :=
      @forall_ascii (fun c ↦ c.toUpper = c ∨ IsCapital c.toUpper) (by decide) c hc
    rw [upcaseChar, if_pos hc]
    rcases hcase with hsame | hcapital
    · exact Or.inl (by rw [hsame])
    · exact Or.inr fun d hd ↦ List.mem_singleton.mp hd ▸ hcapital
  · rw [upcaseChar, if_neg hc]
    refine (upcaseWide_eq_self_or c).imp_right fun hcodes d hd ↦ ?_
    obtain ⟨n, hn, rfl⟩ := hcodes d hd
    exact isCapital_of_mem_capitalCodes hn

theorem upcaseChar_of_isBlank {c : Char} (h : isBlank c = true) : upcaseChar c = [c] := by
  have hblanks : ∀ n ∈ Spans.codesBetween whiteSpace.bounds,
      upcaseChar (Char.ofNat n) = [Char.ofNat n] := by decide +kernel
  have hcode := hblanks c.toNat (Spans.mem_codesBetween (by decide) h)
  rwa [Char.ofNat_toNat] at hcode

theorem isBlank_eq_false_of_mem_upcaseChar {c d : Char} (h : isBlank c = false)
    (hd : d ∈ upcaseChar c) : isBlank d = false := by
  rcases upcaseChar_eq_self_or c with hsame | hcapital
  · rw [hsame, List.mem_singleton] at hd
    rwa [hd]
  · exact (hcapital d hd).isBlank_eq

theorem dot_mem_upcaseChar {c : Char} : '.' ∈ upcaseChar c ↔ c = '.' := by
  constructor
  · intro hdot
    rcases upcaseChar_eq_self_or c with hsame | hcapital
    · rw [hsame, List.mem_singleton] at hdot
      exact hdot.symm
    · exact absurd rfl (hcapital '.' hdot).ne_dot
  · rintro rfl
    decide

/-! ## Texts in upper case -/

/-- Whether a text is in upper case. -/
def IsUpcased (s : String) : Prop := ∀ c ∈ s.toList, upcaseChar c = [c]

theorem isUpcased_upcase (s : String) : IsUpcased (upcase s) := by
  intro d hd
  rw [toList_upcase, upcaseChars, List.mem_flatMap] at hd
  obtain ⟨c, -, hd⟩ := hd
  rcases upcaseChar_eq_self_or c with hsame | hcapital
  · rw [hsame, List.mem_singleton] at hd
    rw [hd, hsame]
  · exact (hcapital d hd).upcaseChar_eq

theorem IsUpcased.upcase_eq {s : String} (h : IsUpcased s) : upcase s = s := by
  have hchars : ∀ cs : List Char, (∀ c ∈ cs, upcaseChar c = [c]) → upcaseChars cs = cs := by
    intro cs hcs
    induction cs with
    | nil => rfl
    | cons c cs ih =>
      rw [List.forall_mem_cons] at hcs
      rw [upcaseChars_cons, hcs.1, ih hcs.2, List.singleton_append]
  rw [← String.toList_inj, toList_upcase, hchars _ h]

theorem IsUpcased.of_subset {s t : String} (h : IsUpcased s) (hsub : t.toList ⊆ s.toList) :
    IsUpcased t := fun c hc ↦ h c (hsub hc)

theorem upcase_upcase (s : String) : upcase (upcase s) = upcase s := (isUpcased_upcase s).upcase_eq

theorem dot_mem_upcase {s : String} : '.' ∈ (upcase s).toList ↔ '.' ∈ s.toList := by
  rw [toList_upcase, upcaseChars, List.mem_flatMap]
  simp only [dot_mem_upcaseChar, exists_eq_right]

theorem IsPlain.upcase {s : String} (h : IsPlain s) : IsPlain (upcase s) where
  ne_empty := mt upcase_eq_empty_iff.mp h.ne_empty
  no_dot := mt dot_mem_upcase.mp h.no_dot

/-! ## Blanks around a text -/

theorem trimStart_flatMap {f : Char → List Char} (hne : ∀ c, f c ≠ [])
    (hblank : ∀ c, isBlank c = true → f c = [c])
    (hkept : ∀ c, isBlank c = false → ∀ d ∈ f c, isBlank d = false) (cs : List Char) :
    trimStart (cs.flatMap f) = (trimStart cs).flatMap f := by
  induction cs with
  | nil => rfl
  | cons c cs ih =>
    by_cases hc : isBlank c = true
    · rw [List.flatMap_cons, hblank c hc, List.singleton_append, trimStart,
        List.dropWhile_cons_of_pos hc, trimStart, List.dropWhile_cons_of_pos hc]
      exact ih
    · obtain ⟨d, ds, hds⟩ := List.exists_cons_of_ne_nil (hne c)
      have hd := hkept c (Bool.eq_false_of_not_eq_true hc) d (hds ▸ List.mem_cons_self)
      rw [List.flatMap_cons, hds, List.cons_append, trimStart,
        List.dropWhile_cons_of_neg (Bool.not_eq_true _ ▸ hd), trimStart,
        List.dropWhile_cons_of_neg hc, List.flatMap_cons, hds, List.cons_append]

/-- Blanks may be taken away before a text is put in upper case or after. -/
theorem trim_upcase (s : String) : trim (upcase s) = upcase (trim s) := by
  have hstart : ∀ cs, trimStart (upcaseChars cs) = upcaseChars (trimStart cs) :=
    trimStart_flatMap upcaseChar_ne_nil (fun _ ↦ upcaseChar_of_isBlank)
      fun _ h _ ↦ isBlank_eq_false_of_mem_upcaseChar h
  -- the blanks at the end are at the start of the reverse, which is made of reversed upper cases
  have hstop : ∀ cs, trimStart (upcaseChars cs).reverse =
      (upcaseChars (trimStart cs.reverse).reverse).reverse := by
    intro cs
    rw [upcaseChars, List.reverse_flatMap, trimStart_flatMap, upcaseChars, List.reverse_flatMap,
      List.reverse_reverse]
    · exact fun c ↦ mt List.reverse_eq_nil_iff.mp (upcaseChar_ne_nil c)
    · intro c hc
      rw [Function.comp_apply, upcaseChar_of_isBlank hc, List.reverse_singleton]
    · intro c hc d hd
      exact isBlank_eq_false_of_mem_upcaseChar hc (List.mem_reverse.mp hd)
  rw [← String.toList_inj, trim, trim, String.toList_ofList, toList_upcase, toList_upcase,
    String.toList_ofList, trimChars, hstart, hstop, List.reverse_reverse, trimChars]

theorem trimStart_sublist (cs : List Char) : (trimStart cs).Sublist cs :=
  List.dropWhile_sublist isBlank

theorem trimChars_sublist_trimStart (cs : List Char) : (trimChars cs).Sublist (trimStart cs) := by
  have h := (trimStart_sublist (trimStart cs).reverse).reverse
  rwa [List.reverse_reverse] at h

theorem trim_subset (s : String) : (trim s).toList ⊆ s.toList := by
  rw [trim, String.toList_ofList]
  exact ((trimChars_sublist_trimStart _).trans (trimStart_sublist _)).subset

theorem trimChars_eq_self_iff {cs : List Char} :
    trimChars cs = cs ↔ trimStart cs = cs ∧ trimStart cs.reverse = cs.reverse := by
  constructor
  · intro h
    have hsub := trimChars_sublist_trimStart cs
    rw [h] at hsub
    have hstart : trimStart cs = cs := (trimStart_sublist cs).antisymm hsub
    rw [trimChars, hstart] at h
    exact ⟨hstart, by rw [← List.reverse_reverse (trimStart cs.reverse), h]⟩
  · rintro ⟨hstart, hstop⟩
    rw [trimChars, hstart, hstop, List.reverse_reverse]

theorem trimStart_append {cs : List Char} (hne : cs ≠ []) (h : trimStart cs = cs)
    (ds : List Char) : trimStart (cs ++ ds) = cs ++ ds := by
  rw [trimStart, List.dropWhile_append, ← trimStart, h, if_neg (by simpa using hne)]

theorem trim_dotted {a b : String} (ha : a ≠ "") (hb : b ≠ "") (hta : trim a = a)
    (htb : trim b = b) : trim (a ++ "." ++ b) = a ++ "." ++ b := by
  have hchars : ∀ {s : String}, trim s = s → trimChars s.toList = s.toList := by
    intro s hs
    rw [trim, ← String.toList_inj, String.toList_ofList] at hs
    exact hs
  have hlist : (a ++ "." ++ b).toList = a.toList ++ '.' :: b.toList := by simp
  have hstart := (trimChars_eq_self_iff.mp (hchars hta)).1
  have hstop := (trimChars_eq_self_iff.mp (hchars htb)).2
  rw [trim, ← String.toList_inj, String.toList_ofList, hlist, trimChars_eq_self_iff]
  constructor
  · exact trimStart_append (mt String.toList_eq_nil_iff.mp ha) hstart _
  · rw [List.reverse_append, List.reverse_cons, List.append_assoc]
    exact trimStart_append (by simpa using hb) hstop _

/-! ## The order of spellings -/

theorem toUpper_of_not_ascii {c : Char} (h : ¬c.toNat < 128) : c.toUpper = c := by
  refine dif_neg fun hletter ↦ h ?_
  have hz : c.toNat ≤ 'z'.toNat := hletter.2
  exact Nat.lt_of_le_of_lt hz (by decide)

theorem toUpper_toLower (c : Char) : c.toLower.toUpper = c.toUpper := by
  induction c using char_cases with
  | hascii n => revert n; decide
  | hfixed c h => rw [h]

theorem toUpper_eq_of_upcaseChar_eq {c : Char} (h : upcaseChar c = [c]) : c.toUpper = c := by
  by_cases hc : c.toNat < 128
  · rw [upcaseChar, if_pos hc, List.cons.injEq] at h
    exact h.1
  · exact toUpper_of_not_ascii hc

theorem not_lt_toUpper (c : Char) : ¬c < c.toUpper := by
  by_cases hc : c.toNat < 128
  · exact @forall_ascii (fun c ↦ ¬c < c.toUpper) (by decide) c hc
  · rw [toUpper_of_not_ascii hc]
    exact Char.lt_irrefl c

/-- A text in upper case comes first among its spellings in ASCII case. -/
theorem IsUpcased.not_lt {s t : String} (h : IsUpcased t) (hfold : asciiFolded s = asciiFolded t) :
    ¬s < t := by
  -- the arithmetic of ASCII makes the text out of any of its spellings
  have hchars : ∀ cs : List Char, ¬cs < cs.map Char.toUpper := by
    intro cs
    induction cs with
    | nil => exact List.not_lt_nil _
    | cons c cs ih =>
      rw [List.map_cons, List.cons_lt_cons_iff, not_or, not_and]
      exact ⟨not_lt_toUpper c, fun _ ↦ ih⟩
  have hupper : ∀ u : String, (asciiFolded u).map Char.toUpper = u.toList.map Char.toUpper := by
    intro u
    rw [asciiFolded, List.map_map]
    exact List.map_congr_left fun c _ ↦ toUpper_toLower c
  have hself : t.toList.map Char.toUpper = t.toList := by
    conv_rhs => rw [← List.map_id t.toList]
    exact List.map_congr_left fun c hc ↦ toUpper_eq_of_upcaseChar_eq (h c hc)
  have ht : t.toList = s.toList.map Char.toUpper := by rw [← hself, ← hupper, ← hfold, hupper]
  rw [String.lt_iff, ht]
  exact hchars s.toList

end Lineage.Text
