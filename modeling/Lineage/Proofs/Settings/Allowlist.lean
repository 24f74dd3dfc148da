import Lineage.Proofs.Lists
import Lineage.Proofs.Text.Capital
import Lineage.Settings.Allowlist

/-!
# What the rules of an allowlist match

A pattern *stands for* the texts that are left when each of its wildcards is replaced by some text.
The rules of an allowlist are simpler: only the first wildcard of a rule is one, and any further
star is an ordinary character, except that two stars alone match everything. The test on the two
ends of a name and on the lengths is exactly that (`globMatches_iff`): what is between the ends is
the text in place of the wildcard, and the lengths say that the ends do not overlap.

A further star is one of the texts that a wildcard may be replaced by, so a rule never matches a
name that it does not stand for. The converse holds where there is one wildcard only, and fails
where there are more: a rule stands for what is left of it without its stars, but a name without
stars does not end as the rule does. Upper case neither makes a star nor removes one, so the number
of wildcards is that of the rule as it is written.
-/

namespace Lineage.Allowlist

variable {pattern start stop text : List Char} {rule object : String}

/-! ## Patterns -/

/-- Whether a text is left when each wildcard of a pattern is replaced by some text. -/
inductive StandsFor : List Char → List Char → Prop
  | nil : StandsFor [] []
  | wildcard {pattern text : List Char} (filler : List Char) (h : StandsFor pattern text) :
      StandsFor ('*' :: pattern) (filler ++ text)
  | letter {c : Char} {pattern text : List Char} (hc : c ≠ '*') (h : StandsFor pattern text) :
      StandsFor (c :: pattern) (c :: text)

/-- Whether a text is left when the first wildcard of a pattern is replaced by some text. -/
def FirstStandsFor (pattern text : List Char) : Prop :=
  ∃ start filler stop,
    '*' ∉ start ∧ pattern = start ++ '*' :: stop ∧ text = start ++ (filler ++ stop)

theorem standsFor_self (pattern : List Char) : StandsFor pattern pattern := by
  induction pattern with
  | nil => exact .nil
  | cons c pattern ih =>
    by_cases hc : c = '*'
    · subst hc
      exact .wildcard ['*'] ih
    · exact .letter hc ih

theorem standsFor_filter (pattern : List Char) : StandsFor pattern (pattern.filter (· != '*')) := by
  induction pattern with
  | nil => exact .nil
  | cons c pattern ih =>
    by_cases hc : c = '*'
    · subst hc
      exact .wildcard [] ih
    · rw [List.filter_cons_of_pos (by simpa using hc)]
      exact .letter hc ih

theorem StandsFor.eq_of_not_mem (h : StandsFor pattern text) (hpattern : '*' ∉ pattern) :
    text = pattern := by
  induction h with
  | nil => rfl
  | wildcard => exact absurd List.mem_cons_self hpattern
  | letter _ _ ih => rw [ih fun hmem ↦ hpattern (List.mem_cons_of_mem _ hmem)]

theorem standsFor_append_iff (hstart : '*' ∉ start) :
    StandsFor (start ++ '*' :: stop) text ↔
      ∃ filler back, StandsFor stop back ∧ text = start ++ (filler ++ back) := by
  induction start generalizing text with
  | nil =>
    constructor
    · intro h
      cases h with
      | wildcard filler h => exact ⟨filler, _, h, rfl⟩
      | letter hc => exact absurd rfl hc
    · rintro ⟨filler, back, hback, rfl⟩
      exact .wildcard filler hback
  | cons c start ih =>
    rw [List.mem_cons, not_or] at hstart
    constructor
    · intro h
      cases h with
      | wildcard => exact absurd rfl hstart.1
      | letter _ h =>
        obtain ⟨filler, back, hback, rfl⟩ := (ih hstart.2).mp h
        exact ⟨filler, back, hback, rfl⟩
    · rintro ⟨filler, back, hback, rfl⟩
      exact .letter (Ne.symm hstart.1) ((ih hstart.2).mpr ⟨filler, back, hback, rfl⟩)

theorem FirstStandsFor.standsFor (h : FirstStandsFor pattern text) : StandsFor pattern text := by
  obtain ⟨start, filler, stop, hstart, rfl, rfl⟩ := h
  exact (standsFor_append_iff hstart).mpr ⟨filler, stop, standsFor_self stop, rfl⟩

/-- The first wildcard is all that matters where it is the only one. -/
theorem StandsFor.firstStandsFor (h : StandsFor pattern text) (hone : pattern.count '*' = 1) :
    FirstStandsFor pattern text := by
  have hmem : '*' ∈ pattern := List.count_pos_iff.mp (hone ▸ Nat.one_pos)
  obtain ⟨start, stop, rfl, hstart⟩ := List.eq_append_cons_of_mem hmem
  have hstop : '*' ∉ stop := by
    rw [List.count_append, List.count_cons_self, List.count_eq_zero.mpr hstart] at hone
    exact List.count_eq_zero.mp (by omega)
  obtain ⟨filler, back, hback, rfl⟩ := (standsFor_append_iff hstart).mp h
  exact ⟨start, filler, stop, hstart, rfl, by rw [hback.eq_of_not_mem hstop]⟩

/-! ## Rules -/

theorem ends_iff : start.length + stop.length ≤ text.length ∧ start <+: text ∧ stop <:+ text ↔
    ∃ filler, text = start ++ (filler ++ stop) := by
  constructor
  · rintro ⟨hlength, ⟨rest, rfl⟩, hstop⟩
    rw [List.length_append, Nat.add_le_add_iff_left] at hlength
    obtain ⟨filler, rfl⟩ :=
      List.suffix_of_suffix_length_le hstop (List.suffix_append start rest) hlength
    exact ⟨filler, rfl⟩
  · rintro ⟨filler, rfl⟩
    refine ⟨?_, List.prefix_append _ _, ?_⟩
    · simp only [List.length_append]
      omega
    · exact (List.suffix_append filler stop).trans (List.suffix_append start _)

/-- A pattern with a wildcard matches what it stands for by the first one, and two stars alone match
everything. -/
theorem globMatches_iff (hwild : '*' ∈ pattern) :
    globMatches pattern text = true ↔ pattern = ['*', '*'] ∨ FirstStandsFor pattern text := by
  obtain ⟨start, stop, rfl, hstart⟩ := List.eq_append_cons_of_mem hwild
  have hspan : (start ++ '*' :: stop).span (· != '*') = (start, '*' :: stop) := by
    rw [List.span_eq_takeWhile_dropWhile, takeWhile_bne_append hstart, dropWhile_bne_append hstart]
  -- the first wildcard is the only one with none before it
  have hfirst : FirstStandsFor (start ++ '*' :: stop) text ↔
      ∃ filler, text = start ++ (filler ++ stop) := by
    constructor
    · rintro ⟨start', filler, stop', hstart', heq, rfl⟩
      have hsame : start = start' := by
        rw [← takeWhile_bne_append hstart stop, heq, takeWhile_bne_append hstart']
      subst hsame
      rw [List.append_cancel_left_eq, List.cons_inj_right] at heq
      exact ⟨filler, by rw [heq]⟩
    · rintro ⟨filler, rfl⟩
      exact ⟨start, filler, stop, hstart, rfl, rfl⟩
  rw [globMatches, hspan, hfirst]
  split_ifs with hall
  · rcases hall with hall | hall
    · -- a single star has nothing before it and nothing after it
      obtain ⟨rfl, hcons⟩ | ⟨_, rfl, hnil⟩ := List.append_eq_cons_iff.mp hall
      · obtain rfl := (List.cons_eq_cons.mp hcons).2
        exact iff_of_true rfl (Or.inr ⟨text, by simp⟩)
      · simp at hnil
    · exact iff_of_true rfl (Or.inl hall)
  · rw [or_iff_right (not_or.mp hall).2, ← ends_iff]
    simp only [Bool.and_eq_true, decide_eq_true_eq, List.isPrefixOf_iff_prefix,
      List.isSuffixOf_iff_suffix, and_assoc]

theorem upcaseChars_filter_bne (cs : List Char) :
    Text.upcaseChars (cs.filter (· != '*')) = (Text.upcaseChars cs).filter (· != '*') := by
  induction cs with
  | nil => rfl
  | cons c cs ih =>
    rw [Text.upcaseChars_cons, List.filter_append, ← ih]
    by_cases hc : c = '*'
    · subst hc
      rfl
    · have hkept : (Text.upcaseChar c).filter (· != '*') = Text.upcaseChar c :=
        List.filter_eq_self.mpr
          (bne_of_not_mem (mt (Text.mark_mem_upcaseChar (by decide) (by decide)).mp hc))
      rw [List.filter_cons_of_pos (by simpa using hc), Text.upcaseChars_cons, hkept]

theorem upcaseChars_eq_stars_iff {cs : List Char} :
    Text.upcaseChars cs = ['*', '*'] ↔ cs = ['*', '*'] := by
  constructor
  · intro h
    have hcount : cs.count '*' = 2 := by
      rw [← Text.count_upcaseChars (by decide) (by decide), h]
      rfl
    have hall : ∀ c ∈ cs, c = '*' := by
      intro c hc
      obtain ⟨d, ds, hd⟩ := List.exists_cons_of_ne_nil (Text.upcaseChar_ne_nil c)
      have hmem : d ∈ Text.upcaseChars cs :=
        List.mem_flatMap.mpr ⟨c, hc, hd ▸ List.mem_cons_self⟩
      rw [h, List.mem_pair, or_self] at hmem
      subst hmem
      exact (Text.mark_mem_upcaseChar (by decide) (by decide)).mp (hd ▸ List.mem_cons_self)
    have hrepeat := List.eq_replicate_of_mem hall
    rw [hrepeat, List.count_replicate_self] at hcount
    rw [hrepeat, hcount]
    rfl
  · rintro rfl
    decide

/-- Whether a rule stands for an object by its first wildcard, or is two stars. -/
def Covers (rule object : String) : Prop :=
  rule = "**" ∨ FirstStandsFor (Text.upcase rule).toList (Text.upcase object).toList

/-- Whether a rule stands for an object by all of its wildcards. -/
def Globs (rule object : String) : Prop :=
  StandsFor (Text.upcase rule).toList (Text.upcase object).toList

theorem ruleMatches_iff (hwild : '*' ∈ rule.toList) :
    ruleMatches object rule = true ↔ Covers rule object := by
  have hupper : '*' ∈ Text.upcaseChars rule.toList := by
    rwa [← List.count_pos_iff, Text.count_upcaseChars (by decide) (by decide), List.count_pos_iff]
  have hstars : rule.toList = ['*', '*'] ↔ rule = "**" := by
    rw [← String.toList_inj]
    rfl
  rw [ruleMatches, if_pos (List.contains_iff_mem.mpr hwild), globMatches_iff hupper,
    upcaseChars_eq_stars_iff, hstars, Covers, Text.toList_upcase, Text.toList_upcase]

theorem Covers.globs (h : Covers rule object) : Globs rule object := by
  rcases h with rfl | hfirst
  · have hall : StandsFor ['*', '*'] (Text.upcase object).toList :=
      List.append_nil (Text.upcase object).toList ▸ .wildcard _ (.wildcard [] .nil)
    exact hall
  · exact hfirst.standsFor

/-- A rule stands for what is left of it without its stars, but does not match that if a star comes
after the first one. -/
theorem count_le_one_of_forall_covers (h : ∀ object, Globs rule object → Covers rule object) :
    rule.toList.count '*' ≤ 1 ∨ rule = "**" := by
  have hkept : (Text.upcase (String.ofList (rule.toList.filter (· != '*')))).toList =
      (Text.upcaseChars rule.toList).filter (· != '*') := by
    rw [Text.toList_upcase, String.toList_ofList, upcaseChars_filter_bne]
  have hglobs := h (String.ofList (rule.toList.filter (· != '*')))
  rw [Globs, Covers, hkept, Text.toList_upcase] at hglobs
  refine (hglobs (standsFor_filter _)).symm.imp_left ?_
  rintro ⟨start, filler, stop, hstart, hrule, hobject⟩
  have hstop : '*' ∉ stop := by
    intro hmem
    have hstar : '*' ∈ (Text.upcaseChars rule.toList).filter (· != '*') := by
      rw [hobject]
      exact List.mem_append_right _ (List.mem_append_right _ hmem)
    exact absurd (List.mem_filter.mp hstar).2 (by decide)
  rw [← Text.count_upcaseChars (by decide) (by decide), hrule, List.count_append,
    List.count_cons_self, List.count_eq_zero.mpr hstart, List.count_eq_zero.mpr hstop]

/-- **Rules with wildcards.** A list of one rule with a wildcard matches an object exactly if the
rule is two stars or, in upper case, the object is what is left of the rule when its first star is
replaced by some text; the rule then stands for the object by all of its stars as well. It matches
everything that it stands for exactly if it has one star only or is two stars. -/
theorem rule_matches_iff (hwild : '*' ∈ rule.toList) :
    (∀ (object : String) (others : List String),
      ((⟨[rule], others⟩ : Allowlist).skips object = true ↔ Covers rule object) ∧
      ((⟨others, [rule]⟩ : Allowlist).allowsDynamicSql object = true ↔ Covers rule object) ∧
      (Covers rule object → Globs rule object)) ∧
    ((∀ object, Covers rule object ↔ Globs rule object) ↔
      rule.toList.count '*' = 1 ∨ rule = "**") := by
  have hpos : 0 < rule.toList.count '*' := List.count_pos_iff.mpr hwild
  constructor
  · intro object others
    have hmatch : [rule].any (ruleMatches object) = true ↔ Covers rule object := by
      rw [List.any_cons, List.any_nil, Bool.or_false, ruleMatches_iff hwild]
    exact ⟨hmatch, hmatch, Covers.globs⟩
  · constructor
    · intro h
      refine (count_le_one_of_forall_covers fun object ↦ (h object).mpr).imp_left fun hle ↦ ?_
      omega
    · rintro (hone | rfl) object
      · refine ⟨Covers.globs, fun hglobs ↦ Or.inr (hglobs.firstStandsFor ?_)⟩
        rwa [Text.toList_upcase, Text.count_upcaseChars (by decide) (by decide)]
      · exact ⟨Covers.globs, fun _ ↦ Or.inl rfl⟩

/-- A rule may be written in lower case, and what is between its ends may be empty. -/
theorem rule_matches_emptyFiller : '*' ∈ "etl.*_log".toList ∧
    (⟨["etl.*_log"], []⟩ : Allowlist).skips "Etl._LOG" = true ∧
    ¬(⟨["etl.*_log"], []⟩ : Allowlist).skips "Etl.LOG" = true := by
  have hwild : '*' ∈ "etl.*_log".toList := by decide
  refine ⟨hwild, ?_, ?_⟩
  · rw [((rule_matches_iff hwild).1 "Etl._LOG" []).1]
    exact Or.inr ⟨"ETL.".toList, [], "_LOG".toList, by decide, by decide, by decide⟩
  · rw [((rule_matches_iff hwild).1 "Etl.LOG" []).1]
    rintro (h | ⟨start, filler, stop, -, hrule, hobject⟩)
    · exact absurd h (by decide)
    · have hlength := congrArg List.length hrule
      have hlength' := congrArg List.length hobject
      simp only [List.length_append, List.length_cons] at hlength hlength'
      have hnine : (Text.upcase "etl.*_log").toList.length = 9 := by decide
      have hseven : (Text.upcase "Etl.LOG").toList.length = 7 := by decide
      omega

/-- A second star is no wildcard. -/
theorem not_skips_secondStar :
    '*' ∈ "A*B*".toList ∧ Globs "A*B*" "AXBY" ∧
      (⟨["A*B*"], ["A*B*"]⟩ : Allowlist).skips "AXBY" = false ∧
      (⟨["A*B*"], ["A*B*"]⟩ : Allowlist).allowsDynamicSql "AXBY" = false := by
  refine ⟨by decide, ?_, by decide, by decide⟩
  have hstands : StandsFor "A*B*".toList "AXBY".toList :=
    .letter (by decide) (.wildcard ['X'] (.letter (by decide) (.wildcard ['Y'] .nil)))
  exact hstands

end Lineage.Allowlist
