import Lineage.Proofs.Source.Parenthesis

/-!
# Parts of a parameter list

A parameter list is split at its commas, but not at those in parentheses. Parentheses are counted
from the last comma that splits the list, and one that closes none does not count, so every text has
a count (`openAfter`). A comma is *bare* where that count is zero.

The parts are told without the search for them: joined by commas they are the text, none of them has
a bare comma, and each but the last has closed what it opened, for else the comma behind it would
not split the list. No text has two lists of such parts (`splitTopLevel_eq_iff`), so parts that are
put together in this way are found again.
-/

namespace Lineage.Source

variable {depth : Nat} {c : Char} {text front back rest part : List Char} {parts : List (List Char)}

/-! ## Open parentheses -/

/-- The number of parentheses open after a character in front of which `depth` are open. -/
def nest (depth : Nat) (c : Char) : Nat :=
  if c = '(' then depth + 1 else if c = ')' then depth - 1 else depth

/-- The number of parentheses open after a text in front of which `depth` are open. One that is
closed and not open does not count. -/
def openAfter (depth : Nat) (text : List Char) : Nat := text.foldl nest depth

theorem openAfter_cons (depth : Nat) (c : Char) (text : List Char) :
    openAfter depth (c :: text) = openAfter (nest depth c) text := rfl

theorem openAfter_append (depth : Nat) (front back : List Char) :
    openAfter depth (front ++ back) = openAfter (openAfter depth front) back := List.foldl_append

/-- Where nothing is closed that is not open, the two counts are one. -/
theorem openAfter_of_depthAfter? {after : Nat} (h : depthAfter? depth text = some after) :
    openAfter depth text = after := by
  induction text generalizing depth with
  | nil => exact Option.some_inj.mp h
  | cons c text ih =>
    obtain ⟨rfl, h⟩ | ⟨below, rfl, rfl, h⟩ | ⟨hopen, hclose, h⟩ := depthAfter?_cons_cases h
    · exact ih h
    · exact ih h
    · rw [openAfter_cons, nest, if_neg hopen, if_neg hclose]
      exact ih h

theorem openAfter_of_not_mem (hopen : '(' ∉ text) (hclose : ')' ∉ text) (depth : Nat) :
    openAfter depth text = depth :=
  openAfter_of_depthAfter? (depthAfter?_of_not_mem hopen hclose depth)

/-! ## Bare commas -/

/-- Whether every comma of a text has an open parenthesis in front of it, where `depth` are open in
front of the text. -/
def HasNoBareComma (depth : Nat) (text : List Char) : Prop :=
  ∀ front back, text = front ++ ',' :: back → openAfter depth front ≠ 0

theorem hasNoBareComma_of_not_mem (h : ',' ∉ text) (depth : Nat) : HasNoBareComma depth text := by
  rintro front back rfl
  exact absurd (List.mem_append_right front List.mem_cons_self) h

theorem hasNoBareComma_cons : HasNoBareComma depth (c :: text) ↔
    (c = ',' → depth ≠ 0) ∧ HasNoBareComma (nest depth c) text := by
  constructor
  · intro h
    refine ⟨fun hc ↦ h [] text (by rw [hc, List.nil_append]), fun front back htext ↦ ?_⟩
    exact h (c :: front) back (by rw [htext, List.cons_append])
  · rintro ⟨hfirst, hrest⟩ front back htext
    cases front with
    | nil => exact hfirst (List.cons_eq_cons.mp htext).1
    | cons d front =>
      obtain ⟨rfl, hback⟩ := List.cons_eq_cons.mp htext
      exact hrest front back hback

theorem HasNoBareComma.append (hfront : HasNoBareComma depth front)
    (hback : HasNoBareComma (openAfter depth front) back) :
    HasNoBareComma depth (front ++ back) := by
  induction front generalizing depth with
  | nil => exact hback
  | cons c front ih =>
    obtain ⟨hfirst, hfront⟩ := hasNoBareComma_cons.mp hfront
    exact hasNoBareComma_cons.mpr ⟨hfirst, ih hfront hback⟩

/-- Whether a text has no bare comma and has closed what it opened. -/
structure IsClosedPart (part : List Char) : Prop where
  hasNoBareComma : HasNoBareComma 0 part
  openAfter_eq : openAfter 0 part = 0

theorem IsClosedPart.append (hfront : IsClosedPart front) (hback : IsClosedPart back) :
    IsClosedPart (front ++ back) where
  hasNoBareComma :=
    hfront.hasNoBareComma.append (hfront.openAfter_eq.symm ▸ hback.hasNoBareComma)
  openAfter_eq := by rw [openAfter_append, hfront.openAfter_eq, hback.openAfter_eq]

theorem isClosedPart_of_not_mem (hcomma : ',' ∉ text) (hopen : '(' ∉ text) (hclose : ')' ∉ text) :
    IsClosedPart text :=
  ⟨hasNoBareComma_of_not_mem hcomma 0, openAfter_of_not_mem hopen hclose 0⟩

theorem isClosedPart_parenthesized {body : List Char} (hopen : '(' ∉ body) (hclose : ')' ∉ body) :
    IsClosedPart ('(' :: (body ++ [')'])) where
  hasNoBareComma := by
    refine hasNoBareComma_cons.mpr ⟨fun h ↦ absurd h (by decide), .append ?_ ?_⟩
    · rintro front back rfl
      rw [openAfter_of_not_mem (fun h ↦ hopen (List.mem_append_left _ h))
        (fun h ↦ hclose (List.mem_append_left _ h))]
      decide
    · exact hasNoBareComma_of_not_mem (by decide) _
  openAfter_eq := by
    rw [openAfter_cons, openAfter_append, openAfter_of_not_mem hopen hclose]
    rfl

theorem hasNoBareComma_or_exists (depth : Nat) (text : List Char) :
    HasNoBareComma depth text ∨ ∃ front rest,
      HasNoBareComma depth front ∧ openAfter depth front = 0 ∧ text = front ++ ',' :: rest := by
  induction text generalizing depth with
  | nil => exact Or.inl (hasNoBareComma_of_not_mem List.not_mem_nil depth)
  | cons c text ih =>
    by_cases hbare : c = ',' ∧ depth = 0
    · obtain ⟨rfl, rfl⟩ := hbare
      exact Or.inr ⟨[], text, hasNoBareComma_of_not_mem List.not_mem_nil 0, rfl, rfl⟩
    have hfirst : c = ',' → depth ≠ 0 := fun hc hdepth ↦ hbare ⟨hc, hdepth⟩
    rcases ih (nest depth c) with htext | ⟨front, rest, hfront, hzero, rfl⟩
    · exact Or.inl (hasNoBareComma_cons.mpr ⟨hfirst, htext⟩)
    · exact Or.inr ⟨c :: front, rest, hasNoBareComma_cons.mpr ⟨hfirst, hfront⟩, hzero, rfl⟩

/-! ## Splitting -/

theorem beq_comma_eq_false (hbare : c = ',' → depth ≠ 0) : (c == ',' && depth == 0) = false := by
  rw [Bool.and_eq_false_imp]
  exact fun hc ↦ beq_false_of_ne (hbare (eq_of_beq hc))

theorem splitFrom_cons (hbare : c = ',' → depth ≠ 0) (part text : List Char) :
    splitFrom depth part (c :: text) = splitFrom (nest depth c) (c :: part) text := by
  rw [splitFrom, beq_comma_eq_false hbare, nest]
  simp only [beq_iff_eq, Bool.false_eq_true, if_false]
  split_ifs <;> rfl

theorem splitFrom_of_hasNoBareComma (h : HasNoBareComma depth text) (part : List Char) :
    splitFrom depth part text = [part.reverse ++ text] := by
  induction text generalizing depth part with
  | nil => rw [splitFrom, List.append_nil]
  | cons c text ih =>
    obtain ⟨hfirst, htext⟩ := hasNoBareComma_cons.mp h
    rw [splitFrom_cons hfirst, ih htext, List.reverse_cons, List.append_assoc,
      List.singleton_append]

theorem splitFrom_append_comma (h : HasNoBareComma depth front) (hzero : openAfter depth front = 0)
    (part rest : List Char) : splitFrom depth part (front ++ ',' :: rest) =
      (part.reverse ++ front) :: splitTopLevel rest := by
  induction front generalizing depth part with
  | nil =>
    obtain rfl : depth = 0 := hzero
    rw [List.append_nil]
    rfl
  | cons c front ih =>
    obtain ⟨hfirst, hfront⟩ := hasNoBareComma_cons.mp h
    rw [List.cons_append, splitFrom_cons hfirst, ih hfront hzero, List.reverse_cons,
      List.append_assoc, List.singleton_append]

/-- Whether some parts are what stands in a text between its bare commas. -/
structure IsSplit (parts : List (List Char)) (text : List Char) : Prop where
  ne_nil : parts ≠ []
  intercalate_eq : [','].intercalate parts = text
  hasNoBareComma : ∀ part ∈ parts, HasNoBareComma 0 part
  closed : ∀ part ∈ parts.dropLast, openAfter 0 part = 0

theorem IsSplit.cons (hpart : HasNoBareComma 0 part) (hclosed : openAfter 0 part = 0)
    (h : IsSplit parts rest) : IsSplit (part :: parts) (part ++ ',' :: rest) where
  ne_nil := List.cons_ne_nil _ _
  intercalate_eq := by
    rw [List.intercalate_cons_of_ne_nil h.ne_nil, h.intercalate_eq, List.append_assoc,
      List.singleton_append]
  hasNoBareComma := List.forall_mem_cons.mpr ⟨hpart, h.hasNoBareComma⟩
  closed := by
    rw [List.dropLast_cons_of_ne_nil h.ne_nil]
    exact List.forall_mem_cons.mpr ⟨hclosed, h.closed⟩

/-- Parts that have no bare comma and close what they open are a split of what they are joined
to. -/
theorem isSplit_intercalate (hne : parts ≠ []) (h : ∀ part ∈ parts, IsClosedPart part) :
    IsSplit parts ([','].intercalate parts) where
  ne_nil := hne
  intercalate_eq := rfl
  hasNoBareComma part hpart := (h part hpart).hasNoBareComma
  closed part hpart := (h part ((List.dropLast_sublist parts).subset hpart)).openAfter_eq

theorem isSplit_splitTopLevel (text : List Char) : IsSplit (splitTopLevel text) text := by
  rcases hasNoBareComma_or_exists 0 text with hone | ⟨front, rest, hfront, hzero, htext⟩
  · rw [splitTopLevel, splitFrom_of_hasNoBareComma hone]
    exact ⟨List.cons_ne_nil _ _, List.intercalate_singleton, List.forall_mem_singleton.mpr hone,
      nofun⟩
  · have hrest := isSplit_splitTopLevel rest
    rw [splitTopLevel, htext, splitFrom_append_comma hfront hzero]
    exact .cons hfront hzero hrest
termination_by text.length
decreasing_by
  rw [htext, List.length_append, List.length_cons]
  omega

/-- A split of a text is what is found in it. -/
theorem IsSplit.splitTopLevel_eq (h : IsSplit parts text) : splitTopLevel text = parts := by
  obtain ⟨hne, rfl, hparts, hclosed⟩ := h
  induction parts with
  | nil => exact absurd rfl hne
  | cons part parts ih =>
    obtain ⟨hpart, hparts⟩ := List.forall_mem_cons.mp hparts
    cases parts with
    | nil =>
      rw [List.intercalate_singleton, splitTopLevel, splitFrom_of_hasNoBareComma hpart]
      rfl
    | cons next parts =>
      rw [List.dropLast_cons_cons] at hclosed
      obtain ⟨hzero, hclosed⟩ := List.forall_mem_cons.mp hclosed
      rw [List.intercalate_cons_cons, List.append_assoc, List.singleton_append, splitTopLevel,
        splitFrom_append_comma hpart hzero, ih (List.cons_ne_nil _ _) hparts hclosed]
      rfl

theorem splitTopLevel_eq_iff : splitTopLevel text = parts ↔ IsSplit parts text :=
  ⟨fun h ↦ h ▸ isSplit_splitTopLevel text, IsSplit.splitTopLevel_eq⟩

end Lineage.Source
