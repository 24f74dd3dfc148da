import Lineage.Command.Target
import Lineage.Proofs.Dictionary
import Lineage.Proofs.Text.Uppercase
import Lineage.Reconciliation.Findings

/-!
# Which source texts are examined

When everything is to be compared, the objects are named by the keys of the source texts in upper
case, and the texts are looked up again under those names. The way there is upper case for all
characters; the way back only ignores the case of ASCII letters, and takes the first key that
agrees.

Upper case is final, so every object is looked up under the one name in upper case that it has, and
that name is the first of its spellings. What is found is therefore the text of the first key that
agrees with it in ASCII case, if there is one. A key with another letter in lower case does not
agree, and so a text under it is not examined; and a blank text hides those behind it.
-/

namespace Lineage

/-! ## Looking up a source text -/

/-- The text under a name is that of the first key that agrees with it, if the name is a key itself
only when no key that agrees comes before it. -/
theorem Sources.find?_of_least {sources : Dictionary String} {owner name : String}
    (hleast : owner ++ "." ++ name ∈ sources.keys → ∀ key ∈ sources.keys,
      Text.eqIgnoringAsciiCase key (owner ++ "." ++ name) = true →
        ¬key < owner ++ "." ++ name) :
    Sources.find? sources owner name =
      (sources.entries.find? (Text.eqIgnoringAsciiCase ·.1 (owner ++ "." ++ name))).map (·.2) := by
  let agrees (key : String) : Bool := Text.eqIgnoringAsciiCase key (owner ++ "." ++ name)
  have hself : agrees (owner ++ "." ++ name) = true := Text.eqIgnoringAsciiCase_iff.mpr rfl
  rw [find?]
  cases hfind : Dictionary.find? sources (owner ++ "." ++ name) with
  | none => rfl
  | some source =>
    have hfirst := Dictionary.find?_entries_of_least hself
      (hleast (Dictionary.mem_keys_of_find?_eq_some hfind)) hfind
    exact (congrArg (Option.map (·.2)) hfirst).symm

/-- The text under a name in upper case is that of the first key that agrees with it, as no spelling
comes before upper case. -/
theorem Sources.find?_of_isUpcased {sources : Dictionary String} {owner name : String}
    (h : Text.IsUpcased (owner ++ "." ++ name)) :
    Sources.find? sources owner name =
      (sources.entries.find? (Text.eqIgnoringAsciiCase ·.1 (owner ++ "." ++ name))).map (·.2) :=
  find?_of_least fun _ _ _ hagrees ↦ h.not_lt (Text.eqIgnoringAsciiCase_iff.mp hagrees)

theorem Reconciler.hasSource_reconcile {r : Reconciler} {owner name : String} :
    (r.reconcile owner name).hasSource = true ↔
      ∃ source, Sources.find? r.sources owner name = some source ∧
        Text.isBlankText source = false := by
  have hsource : (r.reconcile owner name).hasSource = (r.sourceOf? owner name).isSome := by
    rw [Reconciliation.hasSource, reconcile, Option.isSome_map]
  rw [hsource, sourceOf?, Option.isSome_filter, Option.any_eq_true]
  simp only [Bool.not_eq_true']

theorem Reconciliation.code_ne_sourceUnavailable_of_hasSource {r : Reconciliation}
    (h : r.hasSource = true) {settings : Settings} {f : Finding} (hf : f ∈ r.findings settings) :
    f.code ≠ .sourceUnavailable := by
  rw [findings, if_pos h, List.nil_append] at hf
  split at hf
  · cases hf
  · rcases List.mem_append.mp hf with hunlisted | hdynamic
    · obtain ⟨o, -, rfl⟩ := List.mem_map.mp hunlisted
      exact FindingCode.noConfusion
    · split at hdynamic
      · cases hdynamic
      · obtain ⟨message, -, rfl⟩ := List.mem_map.mp hdynamic
        exact FindingCode.noConfusion

/-! ## Targets -/

theorem qualify_dotted {owner name : String} (ho : Text.IsPlain owner) (hn : Text.IsPlain name)
    (hto : Text.trim owner = owner) (htn : Text.trim name = name) (assumed : Option String) :
    qualify (owner ++ "." ++ name) assumed = .ok (owner, name) := by
  have hempty : (owner ++ "." ++ name).isEmpty = false := by
    rw [← Bool.not_eq_true, String.isEmpty_iff, ← String.toList_eq_nil_iff]
    simp
  have hdot : (owner ++ "." ++ name).toList.contains '.' = true := by simp
  simp only [qualify, Text.trim_dotted ho.ne_empty hn.ne_empty hto htn, hempty, hdot,
    Bool.false_eq_true, if_false, if_true, Text.splitQualified_of_dot ho.no_dot hn.no_dot]

theorem isUpcased_of_qualify {reference owner name : String} (h : Text.IsUpcased reference)
    (hqualify : qualify reference none = .ok (owner, name)) :
    Text.IsUpcased owner ∧ Text.IsUpcased name := by
  simp only [qualify] at hqualify
  split at hqualify
  · cases hqualify
  · split at hqualify
    · -- both parts are made of characters of the reference
      rename_i hdot
      have htrim := h.of_subset (Text.trim_subset reference)
      obtain ⟨howner, hname⟩ := Text.splitQualified_subset (List.contains_iff_mem.mp hdot) ""
      rw [Except.ok.inj hqualify] at howner hname
      exact ⟨htrim.of_subset howner, htrim.of_subset hname⟩
    · cases hqualify

namespace Snapshot

variable {s : Snapshot} {target owner name : String}

theorem mem_programUnits : target ∈ s.programUnits ↔ target ∈ s.sources.keys.map Text.upcase ∨
    target ∈ (s.dependencies.filter (·.source.kind.isComparable)).map (·.source.key.text) := by
  have hkeys : ∀ targets : List String, (targets.map (·, ())).map (·.1) = targets := by
    intro targets
    rw [List.map_map]
    exact List.map_id targets
  simp only [programUnits, Dictionary.mem_keys_ofList, hkeys, List.mem_append]

theorem isUpcased_of_mem_programUnits (h : target ∈ s.programUnits) : Text.IsUpcased target := by
  rcases mem_programUnits.mp h with hsource | hdepending
  · obtain ⟨key, -, rfl⟩ := List.mem_map.mp hsource
    exact Text.isUpcased_upcase key
  · obtain ⟨d, -, rfl⟩ := List.mem_map.mp hdepending
    rw [ObjectKey.text, ObjectRef.key, ObjectKey.ofNames, ← Text.upcase_dotted]
    exact Text.isUpcased_upcase _

/-- Whether the source text of an object is examined when all program units are compared: one of
them stands for the object, and when it is compared there is a source text and so no finding that it
is missing. An owner may be assumed for those that have none. -/
def Examines (s : Snapshot) (assumed : Option String) (key : ObjectKey) : Prop :=
  ∃ target ∈ s.programUnits, ∃ owner name, qualify target assumed = .ok (owner, name) ∧
    ObjectKey.ofNames owner name = key ∧
    ((Reconciler.ofSnapshot s).reconcile owner name).hasSource = true ∧
    ∀ settings, ∀ f ∈ ((Reconciler.ofSnapshot s).reconcile owner name).findings settings,
      f.code ≠ .sourceUnavailable

/-- The first entry of the source texts whose key agrees with an owner and name in upper case. -/
def firstSource? (s : Snapshot) (owner name : String) : Option (String × String) :=
  s.sources.entries.find? (Text.eqIgnoringAsciiCase ·.1 (Text.upcase (owner ++ "." ++ name)))

theorem upcase_of_firstSource?_eq_some {e : String × String}
    (h : s.firstSource? owner name = some e) :
    e ∈ s.sources.entries ∧ Text.upcase e.1 = Text.upcase (owner ++ "." ++ name) := by
  rw [firstSource?] at h
  have hagrees := List.find?_some h
  have hupcase := Text.upcase_eq_of_asciiFolded_eq (Text.eqIgnoringAsciiCase_iff.mp hagrees)
  rw [Text.upcase_upcase] at hupcase
  exact ⟨List.mem_of_find?_eq_some h, hupcase⟩

theorem hasSource_upcase_iff :
    ((Reconciler.ofSnapshot s).reconcile (Text.upcase owner) (Text.upcase name)).hasSource = true ↔
      ∃ e, s.firstSource? owner name = some e ∧ Text.isBlankText e.2 = false := by
  have hupcased : Text.IsUpcased (Text.upcase owner ++ "." ++ Text.upcase name) :=
    Text.upcase_dotted owner name ▸ Text.isUpcased_upcase _
  have hsources : (Reconciler.ofSnapshot s).sources = s.sources := rfl
  rw [Reconciler.hasSource_reconcile, Sources.find?_of_isUpcased hupcased, hsources,
    ← Text.upcase_dotted, ← firstSource?]
  simp only [Option.map_eq_some_iff, exists_exists_and_eq_and]

theorem hasSource_upcase_of_examines (h : s.Examines none (.ofNames owner name)) :
    ((Reconciler.ofSnapshot s).reconcile (Text.upcase owner) (Text.upcase name)).hasSource =
      true := by
  obtain ⟨target, htarget, owner', name', hqualify, hkey, hsource, -⟩ := h
  obtain ⟨howner, hname⟩ := isUpcased_of_qualify (isUpcased_of_mem_programUnits htarget) hqualify
  rw [ObjectKey.ofNames, ObjectKey.ofNames, howner.upcase_eq, hname.upcase_eq,
    ObjectKey.mk.injEq] at hkey
  rwa [← hkey.1, ← hkey.2]

theorem examines_of_hasSource (ho : Text.IsPlain owner) (hn : Text.IsPlain name)
    (hto : Text.trim owner = owner) (htn : Text.trim name = name)
    (h : ((Reconciler.ofSnapshot s).reconcile (Text.upcase owner) (Text.upcase name)).hasSource =
      true) (assumed : Option String) : s.Examines assumed (.ofNames owner name) := by
  refine ⟨Text.upcase owner ++ "." ++ Text.upcase name, ?_, Text.upcase owner, Text.upcase name,
    ?_, ?_, h,
    fun _ _ hf ↦ Reconciliation.code_ne_sourceUnavailable_of_hasSource h hf⟩
  · -- the key that leads to the text has this upper case, however it is spelled
    obtain ⟨e, he, -⟩ := hasSource_upcase_iff.mp h
    obtain ⟨hmem, hupcase⟩ := upcase_of_firstSource?_eq_some he
    rw [Text.upcase_dotted] at hupcase
    exact mem_programUnits.mpr
      (Or.inl (List.mem_map.mpr ⟨e.1, List.mem_map_of_mem hmem, hupcase⟩))
  · refine qualify_dotted ho.upcase hn.upcase ?_ ?_ assumed
    · rw [Text.trim_upcase, hto]
    · rw [Text.trim_upcase, htn]
  · rw [ObjectKey.ofNames, Text.upcase_upcase, Text.upcase_upcase, ObjectKey.ofNames]

/-- **Examining every source text.** Let an owner and a name be plain and without blanks around
them. When all program units are compared, the object is examined for every assumed owner exactly if
the first key that agrees with its name in upper case, ignoring ASCII case, has a text that is not
blank. -/
theorem examines_iff (ho : Text.IsPlain owner) (hn : Text.IsPlain name)
    (hto : Text.trim owner = owner) (htn : Text.trim name = name) :
    (∀ assumed, s.Examines assumed (.ofNames owner name)) ↔
      ∃ e, s.firstSource? owner name = some e ∧ Text.isBlankText e.2 = false := by
  rw [← hasSource_upcase_iff]
  constructor
  · intro h
    exact hasSource_upcase_of_examines (h none)
  · intro h
    exact examines_of_hasSource ho hn hto htn h

/-- Texts under keys whose letters beyond ASCII are in upper case are examined, if none of the keys
that agree with them has a blank text. -/
theorem examines_of_asciiFolded_eq {source : String} (ho : Text.IsPlain owner)
    (hn : Text.IsPlain name) (hto : Text.trim owner = owner) (htn : Text.trim name = name)
    (hmem : (owner ++ "." ++ name, source) ∈ s.sources.entries)
    (hfold : Text.asciiFolded (Text.upcase (owner ++ "." ++ name)) =
      Text.asciiFolded (owner ++ "." ++ name))
    (hblank : ∀ e ∈ s.sources.entries, Text.upcase e.1 = Text.upcase (owner ++ "." ++ name) →
      Text.isBlankText e.2 = false) (assumed : Option String) :
    s.Examines assumed (.ofNames owner name) := by
  have hfirst : (s.firstSource? owner name).isSome = true :=
    List.find?_isSome.mpr ⟨_, hmem, Text.eqIgnoringAsciiCase_iff.mpr hfold.symm⟩
  obtain ⟨e, he⟩ := Option.isSome_iff_exists.mp hfirst
  obtain ⟨hentry, hupcase⟩ := upcase_of_firstSource?_eq_some he
  refine examines_of_hasSource ho hn hto htn ?_ assumed
  exact hasSource_upcase_iff.mpr ⟨e, he, hblank e hentry hupcase⟩

/-- A snapshot with one source text. -/
def ofSource (key source : String) : Snapshot :=
  { Snapshot.empty with sources := ⟨[(key, source)], List.pairwise_singleton _ _⟩ }

/-- A text under a key in lower case is examined. -/
theorem examines_lowerCase :
    let s := ofSource "hr.pay" "BEGIN NULL; END;"
    (Text.IsPlain "hr" ∧ Text.trim "hr" = "hr") ∧ (Text.IsPlain "pay" ∧ Text.trim "pay" = "pay") ∧
      ∀ assumed, s.Examines assumed (.ofNames "hr" "pay") := by
  intro s
  have ho : Text.IsPlain "hr" ∧ Text.trim "hr" = "hr" := by decide
  have hn : Text.IsPlain "pay" ∧ Text.trim "pay" = "pay" := by decide
  have hfirst : s.firstSource? "hr" "pay" = some ("hr.pay", "BEGIN NULL; END;") := by decide +kernel
  exact ⟨ho, hn, (examines_iff ho.1 hn.1 ho.2 hn.2).mpr ⟨_, hfirst, by decide⟩⟩

/-- A text under a key with an accented letter in lower case is not examined. -/
theorem not_examines_accented :
    let s := ofSource "HR.préparer" "BEGIN NULL; END;"
    (Text.IsPlain "HR" ∧ Text.trim "HR" = "HR") ∧
      (Text.IsPlain "préparer" ∧ Text.trim "préparer" = "préparer") ∧
      ("HR" ++ "." ++ "préparer", "BEGIN NULL; END;") ∈ s.sources.entries ∧
      Text.isBlankText "BEGIN NULL; END;" = false ∧
      ¬s.Examines none (.ofNames "HR" "préparer") := by
  intro s
  have hmissing : ((Reconciler.ofSnapshot s).reconcile (Text.upcase "HR")
      (Text.upcase "préparer")).hasSource = false := by decide +kernel
  refine ⟨by decide, by decide, by decide, by decide, fun h ↦ ?_⟩
  exact Bool.false_ne_true (hmissing.symm.trans (hasSource_upcase_of_examines h))

/-- A text is not examined if a blank one stands before it, under a key that differs in case. -/
theorem not_examines_hidden :
    let s : Snapshot :=
      { Snapshot.empty with sources := .ofList [("HR.pay", " "), ("hr.pay", "BEGIN NULL; END;")] }
    ¬s.Examines none (.ofNames "hr" "pay") := by
  intro s h
  have hmissing : ((Reconciler.ofSnapshot s).reconcile (Text.upcase "hr")
      (Text.upcase "pay")).hasSource = false := by decide +kernel
  exact Bool.false_ne_true (hmissing.symm.trans (hasSource_upcase_of_examines h))

end Snapshot

end Lineage
