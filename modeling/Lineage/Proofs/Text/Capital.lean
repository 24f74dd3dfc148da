import Lineage.Proofs.Text.Uppercase

/-!
# Capitals

A text *in capitals* has its ASCII letters in upper case and all other characters as they are. It
has the same upper case as the text itself, so it is the same name: of a list of names the same ones
are kept as the first of their spelling, before the names are put in capitals and after.

A capital is of the same class as its letter. A character that is no letter is not a capital either,
so a mark stands in a text in capitals just where it stands in the text itself.
-/

namespace Lineage.Text

/-! ## Characters -/

/-- What gives the same for the ASCII characters and their capitals does so for all characters. -/
theorem apply_toUpper {β : Type} {f : Char → β}
    (hascii : ∀ n : Fin 128, f (Char.ofNat n).toUpper = f (Char.ofNat n)) (c : Char) :
    f c.toUpper = f c := by
  by_cases hc : c.toNat < 128
  · exact @forall_ascii (fun c ↦ f c.toUpper = f c) hascii c hc
  · rw [toUpper_of_not_ascii hc]

theorem toUpper_toUpper (c : Char) : c.toUpper.toUpper = c.toUpper :=
  apply_toUpper (f := Char.toUpper) (by decide) c

theorem upcaseChar_toUpper (c : Char) : upcaseChar c.toUpper = upcaseChar c :=
  apply_toUpper (by decide) c

theorem isAlpha_toUpper (c : Char) : c.toUpper.isAlpha = c.isAlpha := apply_toUpper (by decide) c

theorem isBlank_toUpper (c : Char) : isBlank c.toUpper = isBlank c := apply_toUpper (by decide) c

theorem isWord_toUpper (c : Char) : isWord c.toUpper = isWord c := apply_toUpper (by decide) c

theorem isAlphanumeric_toUpper (c : Char) : isAlphanumeric c.toUpper = isAlphanumeric c :=
  apply_toUpper (by decide) c

theorem toUpper_of_not_isAlpha {c : Char} (h : c.isAlpha = false) : c.toUpper = c := by
  by_cases hc : c.toNat < 128
  · revert h
    exact @forall_ascii (fun c ↦ c.isAlpha = false → c.toUpper = c) (by decide) c hc
  · exact toUpper_of_not_ascii hc

theorem toUpper_eq_iff {mark : Char} (hmark : mark.isAlpha = false) {c : Char} :
    c.toUpper = mark ↔ c = mark := by
  constructor
  · rintro rfl
    exact (toUpper_of_not_isAlpha (isAlpha_toUpper c ▸ hmark)).symm
  · rintro rfl
    exact toUpper_of_not_isAlpha hmark

theorem toUpper_ne {mark c : Char} (hmark : mark.isAlpha = false) (h : c ≠ mark) :
    c.toUpper ≠ mark := mt (toUpper_eq_iff hmark).mp h

theorem toUpper_beq {mark : Char} (hmark : mark.isAlpha = false) (c : Char) :
    (c.toUpper == mark) = (c == mark) := by
  rw [Bool.eq_iff_iff, beq_iff_eq, beq_iff_eq, toUpper_eq_iff hmark]

/-- A mark is part of the upper case of nothing but itself. -/
theorem mark_mem_upcaseChar {mark : Char} (hascii : mark.toNat < 128)
    (hmark : mark.isAlpha = false) {c : Char} : mark ∈ upcaseChar c ↔ c = mark := by
  by_cases hc : c.toNat < 128
  · rw [upcaseChar, if_pos hc, List.mem_singleton, eq_comm, toUpper_eq_iff hmark]
  · have hwide : mark ∉ upcaseWide c ∨ upcaseWide c = [c] := by
      refine (upcaseWide_eq_self_or c).symm.imp_left fun hcodes hmem ↦ ?_
      obtain ⟨n, hn, rfl⟩ := hcodes mark hmem
      have hall := List.all_eq_true.mp capitalCodes_all n hn
      rw [Bool.and_eq_true, Bool.or_eq_true, decide_eq_true_eq, decide_eq_true_eq] at hall
      obtain ⟨hvalid, hlarge | hupper⟩ := hall
      · rw [Char.ofNat, dif_pos hvalid] at hascii
        exact Nat.not_le_of_lt hascii hlarge
      · have halpha : (Char.ofNat n).isAlpha = true := (Bool.or_eq_true _ _).mpr (Or.inl hupper)
        rw [hmark] at halpha
        cases halpha
    rw [upcaseChar, if_neg hc]
    rcases hwide with hnot | hself
    · refine iff_of_false hnot ?_
      rintro rfl
      exact hc hascii
    · rw [hself, List.mem_singleton, eq_comm]

/-! ## Texts -/

theorem count_upcaseChars {mark : Char} (hascii : mark.toNat < 128) (hmark : mark.isAlpha = false)
    (cs : List Char) : (upcaseChars cs).count mark = cs.count mark := by
  induction cs with
  | nil => rfl
  | cons c cs ih =>
    rw [upcaseChars_cons, List.count_append, ih, List.count_cons, Nat.add_comm]
    by_cases hc : c = mark
    · subst hc
      rw [upcaseChar, if_pos hascii, toUpper_of_not_isAlpha hmark, List.count_singleton_self,
        if_pos (beq_self_eq_true c)]
    · rw [List.count_eq_zero.mpr (mt (mark_mem_upcaseChar hascii hmark).mp hc),
        if_neg (by simpa using hc)]

theorem map_toUpper_map_toUpper (cs : List Char) :
    (cs.map Char.toUpper).map Char.toUpper = cs.map Char.toUpper := by
  rw [List.map_map]
  exact List.map_congr_left fun c _ ↦ toUpper_toUpper c

theorem takeWhile_map_toUpper {p : Char → Bool} (hp : ∀ c : Char, p c.toUpper = p c)
    (cs : List Char) :
    (cs.map Char.toUpper).takeWhile p = (cs.takeWhile p).map Char.toUpper := by
  have hcomp : p ∘ Char.toUpper = p := funext hp
  rw [List.takeWhile_map, hcomp]

theorem trimStart_map_toUpper (cs : List Char) :
    trimStart (cs.map Char.toUpper) = (trimStart cs).map Char.toUpper := by
  have hcomp : isBlank ∘ Char.toUpper = isBlank := funext isBlank_toUpper
  rw [trimStart, List.dropWhile_map, hcomp, trimStart]

theorem head?_map_toUpper_beq {mark : Char} (hmark : mark.isAlpha = false) (cs : List Char) :
    ((cs.map Char.toUpper).head? == some mark) = (cs.head? == some mark) := by
  cases cs with
  | nil => rfl
  | cons c cs =>
    rw [List.map_cons, List.head?_cons, List.head?_cons, Option.some_beq_some,
      Option.some_beq_some, toUpper_beq hmark]

/-- A text with its ASCII letters in upper case. -/
def capitalized (s : String) : String := String.ofList (s.toList.map Char.toUpper)

@[simp] theorem toList_capitalized (s : String) :
    (capitalized s).toList = s.toList.map Char.toUpper := String.toList_ofList

theorem capitalized_ofList (cs : List Char) :
    capitalized (String.ofList cs) = String.ofList (cs.map Char.toUpper) := by
  rw [capitalized, String.toList_ofList]

theorem upcaseChars_map_toUpper (cs : List Char) :
    upcaseChars (cs.map Char.toUpper) = upcaseChars cs := by
  rw [upcaseChars, List.flatMap_map, upcaseChars]
  exact congrArg (cs.flatMap ·) (funext upcaseChar_toUpper)

@[simp] theorem upcase_capitalized (s : String) : upcase (capitalized s) = upcase s := by
  rw [upcase, toList_capitalized, upcaseChars_map_toUpper, upcase]

/-! ## Lists of names -/

theorem hasName_capitalized (names : List String) (name : String) :
    hasName (names.map capitalized) (capitalized name) = hasName names name := by
  have hsame : ∀ a b, sameName (capitalized a) (capitalized b) = sameName a b := by
    intro a b
    rw [sameName, upcase_capitalized, upcase_capitalized, sameName]
  rw [hasName, List.any_map, hasName]
  exact congrArg names.any (funext fun a ↦ hsame a name)

theorem distinctNames_map_capitalized (names : List String) :
    distinctNames (names.map capitalized) = (distinctNames names).map capitalized := by
  have hupcase : upcase ∘ capitalized = upcase := funext upcase_capitalized
  rw [distinctNames, ← map_distinctBy, hupcase, distinctNames]

end Lineage.Text
