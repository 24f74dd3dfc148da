import Lineage.Proofs.Text.Uppercase
import Lineage.Source.Call

/-!
# Names as they stand in a text

Names are read from the front of a text as far as they go. Here they are described by themselves,
`IsName` and `IsQualifiedName`, and a name is read exactly where it stands and what comes after it
does not belong to it. Before an opening parenthesis there is no doubt about that: a name and the
blanks behind it have no characters in common, so a text that starts with a name, blanks and a
parenthesis does so in one way (`nameBeforeParen?_eq_some_iff`).

There are few blanks, so what is said of all of them is checked one by one.
-/

namespace Lineage

/-! ## Blanks -/

namespace Text

theorem forall_isBlank {P : Char → Prop}
    (h : ∀ n ∈ Spans.codesBetween whiteSpace.bounds, P (Char.ofNat n)) {c : Char}
    (hc : isBlank c = true) : P c := by
  have hcode := h c.toNat (Spans.mem_codesBetween (by decide) hc)
  rwa [Char.ofNat_toNat] at hcode

end Text

namespace Source

open Text (isBlank isWord)

variable {text rest name : List Char}

theorem isNameChar_of_isBlank {c : Char} (hc : isBlank c = true) : isNameChar c = false :=
  @Text.forall_isBlank (isNameChar · = false) (by decide +kernel) c hc

theorem isNameStart_of_isBlank {c : Char} (hc : isBlank c = true) : isNameStart c = false :=
  @Text.forall_isBlank (isNameStart · = false) (by decide) c hc

theorem isWord_of_isBlank {c : Char} (hc : isBlank c = true) : isWord c = false :=
  @Text.forall_isBlank (isWord · = false) (by decide +kernel) c hc

theorem ne_of_isBlank {c mark : Char} (hmark : isBlank mark = false) (hc : isBlank c = true) :
    c ≠ mark := by
  rintro rfl
  exact absurd hc (by simp [hmark])

/-- Whether some characters are all blank. -/
def AllBlank (blanks : List Char) : Prop := ∀ c ∈ blanks, isBlank c = true

@[simp] theorem allBlank_nil : AllBlank [] := nofun

theorem AllBlank.not_mem {blanks : List Char} (h : AllBlank blanks) {mark : Char}
    (hmark : isBlank mark = false) : mark ∉ blanks :=
  fun hmem ↦ ne_of_isBlank hmark (h mark hmem) rfl

theorem drop_gap (text : List Char) : text.drop (gap text) = text.dropWhile isBlank := by
  have hsplit : text.takeWhile isBlank ++ text.dropWhile isBlank = text :=
    List.takeWhile_append_dropWhile
  have hdrop : (text.takeWhile isBlank ++ text.dropWhile isBlank).drop (gap text) =
      text.dropWhile isBlank := List.drop_left
  rwa [hsplit] at hdrop

theorem gap_of_allBlank {blanks : List Char} (h : AllBlank blanks) {mark : Char}
    (hmark : isBlank mark = false) (rest : List Char) :
    gap (blanks ++ mark :: rest) = blanks.length := by
  rw [gap, takeWhile_append_cons_of_neg hmark, List.takeWhile_eq_self_iff.mpr h]

/-! ## Names -/

/-- Whether some characters are a name. -/
def IsName : List Char → Prop
  | [] => False
  | c :: cs => isNameStart c = true ∧ ∀ d ∈ cs, isNameChar d = true

/-- Whether some characters are a name or two names with a dot between them. -/
inductive IsQualifiedName : List Char → Prop
  | bare {name : List Char} (hname : IsName name) : IsQualifiedName name
  | dotted {owner name : List Char} (howner : IsName owner) (hname : IsName name) :
      IsQualifiedName (owner ++ '.' :: name)

theorem IsName.not_mem (h : IsName name) {mark : Char} (hstart : isNameStart mark = false)
    (hchar : isNameChar mark = false) : mark ∉ name := by
  cases name with
  | nil => exact List.not_mem_nil
  | cons c cs =>
    rw [List.mem_cons, not_or]
    constructor
    · rintro rfl
      exact absurd h.1 (by simp [hstart])
    · exact fun hmem ↦ absurd (h.2 mark hmem) (by simp [hchar])

theorem IsQualifiedName.not_mem (h : IsQualifiedName name) {mark : Char}
    (hstart : isNameStart mark = false) (hchar : isNameChar mark = false) (hdot : mark ≠ '.') :
    mark ∉ name := by
  cases h with
  | bare hname => exact hname.not_mem hstart hchar
  | dotted howner hname =>
    rw [List.mem_append, List.mem_cons, not_or, not_or]
    exact ⟨howner.not_mem hstart hchar, hdot, hname.not_mem hstart hchar⟩

theorem IsQualifiedName.exists_cons (h : IsQualifiedName name) :
    ∃ c cs, name = c :: cs ∧ isNameStart c = true := by
  cases h with
  | bare hname =>
    cases name with
    | nil => exact hname.elim
    | cons c cs => exact ⟨c, cs, rfl, hname.1⟩
  | @dotted owner _ howner _ =>
    cases owner with
    | nil => exact howner.elim
    | cons c cs => exact ⟨c, _, rfl, howner.1⟩

theorem name?_of_isName (hname : IsName name) (hrest : ∀ c ∈ rest.head?, isNameChar c = false) :
    name? (name ++ rest) = some name := by
  have htake : rest.takeWhile isNameChar = [] := by
    cases rest with
    | nil => rfl
    | cons c rest => rw [List.takeWhile_cons, hrest c rfl, if_neg Bool.false_ne_true]
  cases name with
  | nil => exact hname.elim
  | cons c cs =>
    rw [List.cons_append, name?, if_pos hname.1, List.takeWhile_append_of_pos hname.2, htake,
      List.append_nil]

theorem isName_of_name? (h : name? text = some name) : IsName name ∧ name <+: text := by
  cases text with
  | nil => cases h
  | cons c text =>
    rw [name?] at h
    split at h
    · rename_i hc
      rw [← Option.some_inj.mp h]
      exact ⟨⟨hc, fun d hd ↦ List.mem_takeWhile_imp hd⟩,
        List.cons_prefix_cons.mpr ⟨rfl, List.takeWhile_prefix _⟩⟩
    · cases h

theorem qualifiedName?_of_isQualifiedName (hname : IsQualifiedName name)
    (hrest : ∀ c ∈ rest.head?, isNameChar c = false ∧ c ≠ '.') :
    qualifiedName? (name ++ rest) = some name := by
  cases hname with
  | bare hname =>
    rw [qualifiedName?, name?_of_isName hname fun c hc ↦ (hrest c hc).1, Option.map_some,
      List.drop_left]
    split
    · exact absurd rfl (hrest '.' rfl).2
    · rfl
  | @dotted owner name howner hname =>
    have hdot : ∀ c ∈ ('.' :: (name ++ rest)).head?, isNameChar c = false := by
      rintro c ⟨rfl⟩
      decide
    rw [List.append_assoc, List.cons_append, qualifiedName?, name?_of_isName howner hdot]
    simp only [Option.map_some, List.drop_left, name?_of_isName hname fun c hc ↦ (hrest c hc).1]

theorem isQualifiedName_of_qualifiedName? (h : qualifiedName? text = some name) :
    IsQualifiedName name ∧ name <+: text := by
  rw [qualifiedName?, Option.map_eq_some_iff] at h
  obtain ⟨first, hfirst, rfl⟩ := h
  obtain ⟨hname, rest, rfl⟩ := isName_of_name? hfirst
  rw [List.drop_left]
  split
  · split
    · rename_i rest second hsecond
      obtain ⟨hname', hprefix⟩ := isName_of_name? hsecond
      exact ⟨.dotted hname hname',
        (List.prefix_append_right_inj first).mpr (List.cons_prefix_cons.mpr ⟨rfl, hprefix⟩)⟩
    · exact ⟨.bare hname, List.prefix_append _ _⟩
  · exact ⟨.bare hname, List.prefix_append _ _⟩

/-! ## Names before a parenthesis -/

/-- A name is read before a parenthesis exactly where it stands before one, blanks between them
aside. -/
theorem nameBeforeParen?_eq_some_iff {length : Nat} :
    nameBeforeParen? text = some (name, length) ↔
      IsQualifiedName name ∧ ∃ blanks rest, AllBlank blanks ∧
        text = name ++ (blanks ++ '(' :: rest) ∧ length = name.length + blanks.length + 1 := by
  constructor
  · intro h
    rw [nameBeforeParen?, Option.bind_eq_bind, Option.bind_eq_some_iff] at h
    obtain ⟨found, hfound, h⟩ := h
    obtain ⟨hname, back, rfl⟩ := isQualifiedName_of_qualifiedName? hfound
    rw [List.drop_left] at h
    dsimp only at h
    split at h
    · rename_i rest hrest
      obtain ⟨rfl, rfl⟩ := Prod.mk.inj (Option.some_inj.mp h)
      rw [drop_gap] at hrest
      refine ⟨hname, back.takeWhile isBlank, rest, fun c hc ↦ List.mem_takeWhile_imp hc, ?_, rfl⟩
      rw [← hrest, List.takeWhile_append_dropWhile]
    · cases h
  · rintro ⟨hname, blanks, rest, hblanks, rfl, rfl⟩
    -- neither a blank nor the parenthesis goes on with the name
    have hends : ∀ c ∈ (blanks ++ '(' :: rest).head?, isNameChar c = false ∧ c ≠ '.' := by
      cases blanks with
      | nil =>
        rintro c ⟨rfl⟩
        decide
      | cons b blanks =>
        rintro c ⟨rfl⟩
        have hb := hblanks b List.mem_cons_self
        exact ⟨isNameChar_of_isBlank hb, ne_of_isBlank (by decide) hb⟩
    rw [nameBeforeParen?, qualifiedName?_of_isQualifiedName hname hends]
    simp only [Option.bind_eq_bind, Option.bind_some, List.drop_left,
      gap_of_allBlank hblanks (by decide : isBlank '(' = false)]

end Source

end Lineage
