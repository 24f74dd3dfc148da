import Lineage.Proofs.Source.Phrase

/-!
# Balanced parentheses

How many parentheses are open after a text, if never one is closed that was not opened. The count of
a text goes on from that of its front (`depthAfter?_append`). A list ends where its text is balanced
in front of a closing parenthesis: what is counted on the way is the text in the list, and the count
never goes below zero there. A list is never closed exactly if all of its text has a count.
-/

namespace Lineage.Source

open Text (isBlank)

variable {depth : Nat} {text front back rest inside found blanks parameters : List Char}

/-! ## Depth -/

/-- The number of parentheses open after a text in front of which `depth` are open; none if one is
closed that is not open. -/
def depthAfter? (depth : Nat) : List Char → Option Nat
  | [] => some depth
  | c :: text =>
    if c = '(' then depthAfter? (depth + 1) text
    else if c = ')' then
      match depth with
      | 0 => none
      | depth + 1 => depthAfter? depth text
    else depthAfter? depth text

/-- Whether the parentheses of a text are closed in the text, each after it is opened. -/
def IsBalanced (text : List Char) : Prop := depthAfter? 0 text = some 0

instance (text : List Char) : Decidable (IsBalanced text) :=
  inferInstanceAs (Decidable (_ = _))

@[simp] theorem depthAfter?_nil (depth : Nat) : depthAfter? depth [] = some depth := rfl

@[simp] theorem depthAfter?_open (depth : Nat) (text : List Char) :
    depthAfter? depth ('(' :: text) = depthAfter? (depth + 1) text := rfl

@[simp] theorem depthAfter?_close_zero (text : List Char) :
    depthAfter? 0 (')' :: text) = none := rfl

@[simp] theorem depthAfter?_close_succ (depth : Nat) (text : List Char) :
    depthAfter? (depth + 1) (')' :: text) = depthAfter? depth text := rfl

theorem depthAfter?_other {c : Char} (hopen : c ≠ '(') (hclose : c ≠ ')') (depth : Nat)
    (text : List Char) : depthAfter? depth (c :: text) = depthAfter? depth text := by
  rw [depthAfter?.eq_def]
  simp only [if_neg hopen, if_neg hclose]

theorem depthAfter?_cons_cases {c : Char} {after : Nat}
    (h : depthAfter? depth (c :: text) = some after) :
    (c = '(' ∧ depthAfter? (depth + 1) text = some after) ∨
      (∃ below, c = ')' ∧ depth = below + 1 ∧ depthAfter? below text = some after) ∨
      c ≠ '(' ∧ c ≠ ')' ∧ depthAfter? depth text = some after := by
  by_cases hopen : c = '('
  · subst hopen
    exact Or.inl ⟨rfl, h⟩
  by_cases hclose : c = ')'
  · subst hclose
    cases depth with
    | zero => cases h
    | succ below => exact Or.inr (Or.inl ⟨below, rfl, rfl, h⟩)
  · rw [depthAfter?_other hopen hclose] at h
    exact Or.inr (Or.inr ⟨hopen, hclose, h⟩)

theorem depthAfter?_append (depth : Nat) (front back : List Char) :
    depthAfter? depth (front ++ back) =
      (depthAfter? depth front).bind fun after ↦ depthAfter? after back := by
  induction front generalizing depth with
  | nil => rfl
  | cons c front ih =>
    rw [List.cons_append]
    by_cases hopen : c = '('
    · subst hopen
      rw [depthAfter?_open, depthAfter?_open, ih]
    by_cases hclose : c = ')'
    · subst hclose
      cases depth with
      | zero => rfl
      | succ depth => rw [depthAfter?_close_succ, depthAfter?_close_succ, ih]
    · rw [depthAfter?_other hopen hclose, depthAfter?_other hopen hclose, ih]

theorem depthAfter?_of_not_mem (hopen : '(' ∉ text) (hclose : ')' ∉ text) (depth : Nat) :
    depthAfter? depth text = some depth := by
  induction text with
  | nil => rfl
  | cons c text ih =>
    rw [List.mem_cons, not_or] at hopen hclose
    rw [depthAfter?_other (Ne.symm hopen.1) (Ne.symm hclose.1), ih hopen.2 hclose.2]

theorem isSome_depthAfter?_of_not_mem (hclose : ')' ∉ text) (depth : Nat) :
    (depthAfter? depth text).isSome = true := by
  induction text generalizing depth with
  | nil => rfl
  | cons c text ih =>
    rw [List.mem_cons, not_or] at hclose
    by_cases hopen : c = '('
    · subst hopen
      exact ih hclose.2 (depth + 1)
    · rw [depthAfter?_other hopen (Ne.symm hclose.1)]
      exact ih hclose.2 depth

/-! ## Lists -/

theorem closeList_other {c : Char} (hopen : c ≠ '(') (hclose : c ≠ ')') (depth : Nat)
    (found text : List Char) :
    closeList depth found (c :: text) = closeList depth (c :: found) text := by
  rw [closeList.eq_def]
  simp only [beq_false_of_ne hopen, beq_false_of_ne hclose, if_neg Bool.false_ne_true]

/-- A list ends where its text is balanced in front of a closing parenthesis. -/
theorem closeList_of_closed (hinside : depthAfter? depth inside = some 0) (found rest : List Char) :
    closeList depth found (inside ++ ')' :: rest) = (found.reverse ++ inside, rest) := by
  induction inside generalizing depth found with
  | nil =>
    obtain rfl := Option.some_inj.mp hinside
    rw [List.append_nil]
    rfl
  | cons c inside ih =>
    have hfound : found.reverse ++ c :: inside = (c :: found).reverse ++ inside := by simp
    rw [List.cons_append, hfound]
    by_cases hopen : c = '('
    · subst hopen
      rw [depthAfter?_open] at hinside
      exact ih hinside ('(' :: found)
    by_cases hclose : c = ')'
    · subst hclose
      cases depth with
      | zero => cases hinside
      | succ depth => exact ih hinside (')' :: found)
    · rw [depthAfter?_other hopen hclose] at hinside
      exact (closeList_other hopen hclose _ _ _).trans (ih hinside (c :: found))

theorem closeList_of_open {after : Nat} (htext : depthAfter? depth text = some after)
    (found : List Char) : closeList depth found text = (found.reverse ++ text, []) := by
  induction text generalizing depth found with
  | nil => rw [closeList, List.append_nil]
  | cons c text ih =>
    have hfound : found.reverse ++ c :: text = (c :: found).reverse ++ text := by simp
    rw [hfound]
    by_cases hopen : c = '('
    · subst hopen
      rw [depthAfter?_open] at htext
      exact ih htext ('(' :: found)
    by_cases hclose : c = ')'
    · subst hclose
      cases depth with
      | zero => cases htext
      | succ depth => exact ih htext (')' :: found)
    · rw [depthAfter?_other hopen hclose] at htext
      exact (closeList_other hopen hclose _ _ _).trans (ih htext (c :: found))

/-- Every text is balanced in front of a closing parenthesis somewhere, or has a count. -/
theorem exists_closed_or_open (depth : Nat) (text : List Char) :
    (∃ inside rest, depthAfter? depth inside = some 0 ∧ text = inside ++ ')' :: rest) ∨
      ∃ after, depthAfter? depth text = some after := by
  induction text generalizing depth with
  | nil => exact Or.inr ⟨depth, rfl⟩
  | cons c text ih =>
    by_cases hopen : c = '('
    · subst hopen
      refine (ih (depth + 1)).imp_left ?_
      rintro ⟨inside, rest, hinside, rfl⟩
      exact ⟨'(' :: inside, rest, hinside, rfl⟩
    by_cases hclose : c = ')'
    · subst hclose
      cases depth with
      | zero => exact Or.inl ⟨[], text, rfl, rfl⟩
      | succ depth =>
        refine (ih depth).imp_left ?_
        rintro ⟨inside, rest, hinside, rfl⟩
        exact ⟨')' :: inside, rest, hinside, rfl⟩
    · rw [depthAfter?_other hopen hclose]
      refine (ih depth).imp_left ?_
      rintro ⟨inside, rest, hinside, rfl⟩
      exact ⟨c :: inside, rest, by rw [depthAfter?_other hopen hclose, hinside], rfl⟩

theorem parameterList?_append (hblanks : AllBlank blanks) (text : List Char) :
    parameterList? (blanks ++ '(' :: text) = some (closeList 0 [] text) := by
  have hstops : Stops isBlank ('(' :: text) := stops_cons.mpr (by decide)
  rw [parameterList?, afterGap_append hblanks hstops]
  rfl

end Lineage.Source
