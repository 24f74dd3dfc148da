import Lineage.Text.Scan

/-!
# Scanning a text part by part

A scan carries two things from one part of a text to the next: the characters before the position,
and how many characters are still to be passed. A recogniser *stops at* a mark when neither matters
across it: it never reads on over the mark nor looks back over it. What such a recogniser finds in a
text with the mark in it is what it finds before the mark, followed by what it finds after it.

Nor does it matter to a scan what the characters are, as long as the recogniser takes as many: when
each is replaced by another, what is found changes only as the recogniser changes it.
-/

namespace Lineage.Text

variable {α : Type} {recognise : Recogniser α} {mark : Char} {before rest : List Char} {skip : Nat}

/-! ## Single steps -/

theorem scanFrom_succ (c : Char) :
    scanFrom recognise [] (skip + 1) before (c :: rest) =
      scanFrom recognise [] skip (c :: before) rest := rfl

theorem scanFrom_of_none {c : Char} (h : recognise before (c :: rest) = none) :
    scanFrom recognise [] 0 before (c :: rest) = scanFrom recognise [] 0 (c :: before) rest := by
  rw [scanFrom, h]

theorem scanFrom_of_some {c : Char} {a : α} {length : Nat}
    (h : recognise before (c :: rest) = some (a, length)) :
    scanFrom recognise [] 0 before (c :: rest) =
      a :: scanFrom recognise [] (length - 1) (c :: before) rest := by
  rw [scanFrom, h]
  exact scanFrom_eq_append [a] _ _ _

/-! ## Texts with other characters -/

/-- If replacing characters changes what a recogniser finds at a position but not how many of them
it takes, then it changes what a scan finds item by item. -/
theorem scanFrom_map {β : Type} {recognise' : Recogniser β} {h : Char → Char} {f : α → β}
    (hfound : ∀ before text, recognise' (before.map h) (text.map h) =
      (recognise before text).map (Prod.map f id)) (text : List Char) :
    scanFrom recognise' [] skip (before.map h) (text.map h) =
      (scanFrom recognise [] skip before text).map f := by
  induction text generalizing skip before with
  | nil => rfl
  | cons c text ih =>
    cases skip with
    | succ skip =>
      -- nothing is asked at a position that is passed
      rw [scanFrom_succ, ← ih]
      rfl
    | zero =>
      have hsame := hfound before (c :: text)
      cases hnext : recognise before (c :: text) with
      | none =>
        rw [hnext] at hsame
        rw [scanFrom_of_none hnext, ← ih]
        exact scanFrom_of_none hsame
      | some found =>
        rw [hnext] at hsame
        rw [scanFrom_of_some hnext, List.map_cons, List.map_cons, ← ih]
        exact scanFrom_of_some hsame

theorem scan_map {β : Type} {recognise' : Recogniser β} {h : Char → Char} {f : α → β}
    (hfound : ∀ before text, recognise' (before.map h) (text.map h) =
      (recognise before text).map (Prod.map f id)) (text : List Char) :
    scan recognise' (text.map h) = (scan recognise text).map f := by
  have hstart : scanFrom recognise' [] 0 ([].map h) (text.map h) =
      (scanFrom recognise [] 0 [] text).map f := scanFrom_map hfound text
  exact hstart

/-! ## Marks -/

/-- Whether what a recogniser finds depends only on the text up to the next mark on either side. -/
structure StopsAt (recognise : Recogniser α) (mark : Char) : Prop where
  ahead (before text rest : List Char) :
    recognise before (text ++ mark :: rest) = recognise before text
  behind (before rest text : List Char) :
    recognise (before ++ mark :: rest) text = recognise before text
  length_bounds {before text : List Char} {a : α} {length : Nat} :
    recognise before text = some (a, length) → 0 < length ∧ length ≤ text.length

namespace StopsAt

theorem eq_none (h : StopsAt recognise mark) (before rest : List Char) :
    recognise before (mark :: rest) = none := by
  have hnil : recognise before (mark :: rest) = recognise before [] := h.ahead before [] rest
  rw [hnil, Option.eq_none_iff_forall_ne_some]
  rintro ⟨a, length⟩ hfound
  obtain ⟨hpos, hle⟩ := h.length_bounds hfound
  exact absurd hpos (Nat.not_lt_of_le hle)

theorem scanFrom_behind (h : StopsAt recognise mark) (text : List Char) :
    scanFrom recognise [] skip (before ++ mark :: rest) text =
      scanFrom recognise [] skip before text := by
  induction text generalizing skip before with
  | nil => rfl
  | cons c text ih =>
    cases skip with
    | succ skip => rw [scanFrom_succ, scanFrom_succ, ← List.cons_append, ih]
    | zero =>
      have hsame := h.behind before rest (c :: text)
      cases hfound : recognise before (c :: text) with
      | none =>
        rw [hfound] at hsame
        rw [scanFrom_of_none hfound, scanFrom_of_none hsame, ← List.cons_append, ih]
      | some found =>
        rw [hfound] at hsame
        rw [scanFrom_of_some hfound, scanFrom_of_some hsame, ← List.cons_append, ih]

theorem scanFrom_append (h : StopsAt recognise mark) {text : List Char}
    (hskip : skip ≤ text.length) (back : List Char) :
    scanFrom recognise [] skip before (text ++ mark :: back) =
      scanFrom recognise [] skip before text ++ scan recognise back := by
  induction text generalizing skip before with
  | nil =>
    have hback : scanFrom recognise [] 0 ([] ++ mark :: before) back = scan recognise back :=
      h.scanFrom_behind back
    rw [Nat.le_zero.mp hskip, List.nil_append, scanFrom_of_none (h.eq_none before back)]
    exact hback
  | cons c text ih =>
    cases skip with
    | succ skip =>
      rw [List.cons_append, scanFrom_succ, scanFrom_succ]
      exact ih (Nat.le_of_succ_le_succ hskip)
    | zero =>
      have hsame := h.ahead before (c :: text) back
      cases hfound : recognise before (c :: text) with
      | none =>
        rw [hfound, List.cons_append] at hsame
        rw [scanFrom_of_none hfound, List.cons_append, scanFrom_of_none hsame]
        exact ih (Nat.zero_le _)
      | some found =>
        -- what is found ends before the mark, so what is skipped is part of this text
        have hle : found.2 - 1 ≤ text.length :=
          Nat.sub_le_of_le_add (h.length_bounds hfound).2
        rw [hfound, List.cons_append] at hsame
        rw [scanFrom_of_some hfound, List.cons_append, scanFrom_of_some hsame, ih hle,
          List.cons_append]

/-- A recogniser that stops at a mark finds what there is before the mark and what there is after
it. -/
theorem scan_append (h : StopsAt recognise mark) (front back : List Char) :
    scan recognise (front ++ mark :: back) = scan recognise front ++ scan recognise back :=
  h.scanFrom_append (Nat.zero_le _) back

end StopsAt

end Lineage.Text
