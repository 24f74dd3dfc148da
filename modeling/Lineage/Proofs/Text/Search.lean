import Lineage.Proofs.Text.Scan

/-!
# Searching a text round by round

A scan asks its recogniser at one position after the other and passes over the matches that it
finds. Seen from the matches it is a search in rounds: each round takes the first match from a
position on and goes on from where that match stops. This is how a search is told from outside,
without the state of the scan, and a scan is such a search (`exists_rounds`).

Two things follow for every recogniser whose matches take some of the text. The position grows in
every round, so the rounds come to an end. And a match is found exactly if none that is found
reaches over its start (`finds_iff`): where no match does, everything is found that is there, in
order of position.
-/

namespace Lineage.Text

variable {α : Type} {recognise : Recogniser α} {text : List Char} {pos : Nat}

/-- What is recognised at a position of a text. -/
structure Match (α : Type) where
  start : Nat
  value : α
  length : Nat

/-- The position from which a search goes on after a match. -/
def Match.stop (m : Match α) : Nat := m.start + m.length

/-- What is recognised at a position, if anything is. -/
def matchAt? (recognise : Recogniser α) (text : List Char) (i : Nat) : Option (Match α) :=
  (recognise (text.take i).reverse (text.drop i)).map fun found ↦ ⟨i, found.1, found.2⟩

/-- Whether all that is recognised takes some of the text that is there. -/
def TakesText (recognise : Recogniser α) : Prop :=
  ∀ ⦃before text : List Char⦄ ⦃a : α⦄ ⦃length : Nat⦄,
    recognise before text = some (a, length) → 0 < length ∧ length ≤ text.length

/-- Whether a match is the first one from a position on. -/
structure IsFirst (recognise : Recogniser α) (text : List Char) (pos : Nat) (m : Match α) :
    Prop where
  le_start : pos ≤ m.start
  matchAt?_start : matchAt? recognise text m.start = some m
  none_before : ∀ i, pos ≤ i → i < m.start → matchAt? recognise text i = none

/-- The matches of a search that starts at a position: each is the first one from where the last one
stops, and after the last of all there is none. -/
inductive Rounds (recognise : Recogniser α) (text : List Char) : Nat → List (Match α) → Prop
  | done {pos : Nat} (hnone : ∀ i, pos ≤ i → matchAt? recognise text i = none) :
      Rounds recognise text pos []
  | next {pos : Nat} {m : Match α} {ms : List (Match α)} (hfirst : IsFirst recognise text pos m)
      (hrest : Rounds recognise text m.stop ms) : Rounds recognise text pos (m :: ms)

/-! ## Matches at a position -/

theorem start_of_matchAt? {i : Nat} {m : Match α} (h : matchAt? recognise text i = some m) :
    m.start = i := by
  obtain ⟨found, -, rfl⟩ := Option.map_eq_some_iff.mp h
  rfl

theorem matchAt?_append (recognise : Recogniser α) (front back : List Char) :
    matchAt? recognise (front ++ back) front.length =
      (recognise front.reverse back).map fun found ↦ ⟨front.length, found.1, found.2⟩ := by
  rw [matchAt?, List.take_left, List.drop_left]

theorem recognise_of_matchAt? {i : Nat} {m : Match α} (h : matchAt? recognise text i = some m) :
    recognise (text.take i).reverse (text.drop i) = some (m.value, m.length) := by
  obtain ⟨found, hfound, rfl⟩ := Option.map_eq_some_iff.mp h
  exact hfound

namespace TakesText

theorem start_lt_stop (h : TakesText recognise) {i : Nat} {m : Match α}
    (hm : matchAt? recognise text i = some m) : i < m.stop ∧ m.stop ≤ text.length := by
  obtain ⟨hpos, hle⟩ := h (recognise_of_matchAt? hm)
  rw [List.length_drop] at hle
  rw [Match.stop, start_of_matchAt? hm]
  omega

theorem matchAt?_of_length_le (h : TakesText recognise) {i : Nat} (hi : text.length ≤ i) :
    matchAt? recognise text i = none := by
  rw [Option.eq_none_iff_forall_ne_some]
  intro m hm
  have hstop := h.start_lt_stop hm
  omega

/-! ## Progress -/

/-- A round goes on from a later position. -/
theorem lt_stop_of_isFirst (h : TakesText recognise) {m : Match α}
    (hm : IsFirst recognise text pos m) : pos < m.stop ∧ m.stop ≤ text.length := by
  obtain ⟨hlt, hle⟩ := h.start_lt_stop hm.matchAt?_start
  exact ⟨Nat.lt_of_le_of_lt hm.le_start hlt, hle⟩

end TakesText

theorem IsFirst.unique {m m' : Match α} (h : IsFirst recognise text pos m)
    (h' : IsFirst recognise text pos m') : m = m' := by
  have hnot : ∀ {a b : Match α}, IsFirst recognise text pos a → IsFirst recognise text pos b →
      ¬a.start < b.start := by
    intro a b ha hb hlt
    exact absurd ha.matchAt?_start (by simp [hb.none_before a.start ha.le_start hlt])
  have hstart : m.start = m'.start := Nat.le_antisymm (Nat.not_lt.mp (hnot h' h))
    (Nat.not_lt.mp (hnot h h'))
  exact Option.some_inj.mp (h.matchAt?_start.symm.trans (hstart ▸ h'.matchAt?_start))

namespace Rounds

variable {ms : List (Match α)}

theorem pairwise_stops (h : TakesText recognise) (hms : Rounds recognise text pos ms) :
    (pos :: ms.map Match.stop).Pairwise (· < ·) := by
  induction hms with
  | done _ => exact List.pairwise_singleton _ _
  | next hfirst _ ih =>
    obtain ⟨hlt, -⟩ := h.lt_stop_of_isFirst hfirst
    refine List.pairwise_cons.mpr ⟨fun stop hstop ↦ ?_, ih⟩
    rcases List.mem_cons.mp hstop with rfl | hstop
    · exact hlt
    · exact Nat.lt_trans hlt (List.rel_of_pairwise_cons ih hstop)

theorem le_start (h : TakesText recognise) (hms : Rounds recognise text pos ms) :
    ∀ m ∈ ms, pos ≤ m.start := by
  induction hms with
  | done _ => exact nofun
  | @next pos m ms hfirst _ ih =>
    obtain ⟨hlt, -⟩ := h.lt_stop_of_isFirst hfirst
    intro m' hm'
    rcases List.mem_cons.mp hm' with rfl | hm'
    · exact hfirst.le_start
    · exact Nat.le_trans (Nat.le_of_lt hlt) (ih m' hm')

theorem pairwise_start (h : TakesText recognise) (hms : Rounds recognise text pos ms) :
    ms.Pairwise (·.start < ·.start) := by
  induction hms with
  | done _ => exact List.Pairwise.nil
  | next hfirst hrest ih =>
    refine List.pairwise_cons.mpr ⟨fun m hm ↦ ?_, ih⟩
    exact Nat.lt_of_lt_of_le (h.start_lt_stop hfirst.matchAt?_start).1 (hrest.le_start h m hm)

theorem matchAt?_of_mem (hms : Rounds recognise text pos ms) :
    ∀ m ∈ ms, matchAt? recognise text m.start = some m := by
  induction hms with
  | done _ => exact nofun
  | next hfirst _ ih => exact List.forall_mem_cons.mpr ⟨hfirst.matchAt?_start, ih⟩

/-- What is recognised at a position is found if nothing that is found reaches over it. -/
theorem mem_of_forall_stop_le (hms : Rounds recognise text pos ms) {m : Match α} {i : Nat}
    (hm : matchAt? recognise text i = some m) (hpos : pos ≤ i)
    (hclear : ∀ m' ∈ ms, m'.start < i → m'.stop ≤ i) : m ∈ ms := by
  induction hms with
  | done hnone =>
    rw [hnone i hpos] at hm
    cases hm
  | @next pos m' ms hfirst _ ih =>
    obtain ⟨hstop, hclear⟩ := List.forall_mem_cons.mp hclear
    rcases Nat.lt_trichotomy i m'.start with hlt | rfl | hgt
    · rw [hfirst.none_before i hpos hlt] at hm
      cases hm
    · rw [hfirst.matchAt?_start] at hm
      exact Option.some_inj.mp hm ▸ List.mem_cons_self
    · exact List.mem_cons_of_mem _ (ih (hstop hgt) hclear)

theorem mem_of_matchAt? (hms : Rounds recognise text pos ms) {m : Match α} {i : Nat}
    (hm : matchAt? recognise text i = some m) (hpos : pos ≤ i)
    (hclear : ∀ j < i, ∀ m', matchAt? recognise text j = some m' → m'.stop ≤ i) : m ∈ ms :=
  hms.mem_of_forall_stop_le hm hpos fun m' hm' hlt ↦ hclear _ hlt m' (hms.matchAt?_of_mem m' hm')

theorem stop_le_start (h : TakesText recognise) (hms : Rounds recognise text pos ms)
    {m m' : Match α} (hm : m ∈ ms) (hm' : m' ∈ ms) (hlt : m.start < m'.start) :
    m.stop ≤ m'.start := by
  induction hms with
  | done _ => cases hm
  | next hfirst hrest ih =>
    have hstart := (h.start_lt_stop hfirst.matchAt?_start).1
    have hbehind := hrest.le_start h
    rcases List.mem_cons.mp hm with rfl | hmem <;> rcases List.mem_cons.mp hm' with rfl | hmem'
    · exact absurd hlt (Nat.lt_irrefl _)
    · exact hbehind m' hmem'
    · exact absurd (Nat.lt_trans hlt hstart) (Nat.not_lt.mpr (hbehind m hmem))
    · exact ih hmem hmem'

theorem unique {ms' : List (Match α)} (hms : Rounds recognise text pos ms)
    (hms' : Rounds recognise text pos ms') : ms = ms' := by
  induction hms generalizing ms' with
  | done hnone =>
    cases hms' with
    | done _ => rfl
    | next hfirst _ => exact absurd hfirst.matchAt?_start (by simp [hnone _ hfirst.le_start])
  | next hfirst _ ih =>
    cases hms' with
    | done hnone => exact absurd hfirst.matchAt?_start (by simp [hnone _ hfirst.le_start])
    | next hfirst' hrest' =>
      obtain rfl := hfirst.unique hfirst'
      rw [ih hrest']

theorem of_none (hnone : matchAt? recognise text pos = none)
    (hms : Rounds recognise text (pos + 1) ms) : Rounds recognise text pos ms := by
  have hsame : ∀ i, pos ≤ i → i = pos ∨ pos + 1 ≤ i := fun i hi ↦ by omega
  cases hms with
  | done hlater =>
    refine .done fun i hi ↦ ?_
    rcases hsame i hi with rfl | hi
    · exact hnone
    · exact hlater i hi
  | next hfirst hrest =>
    refine .next ⟨?_, hfirst.matchAt?_start, fun i hi hlt ↦ ?_⟩ hrest
    · exact Nat.le_of_succ_le hfirst.le_start
    · rcases hsame i hi with rfl | hi
      · exact hnone
      · exact hfirst.none_before i hi hlt

end Rounds

/-! ## Scans -/

theorem exists_rounds_scanFrom (h : TakesText recognise) (before rest : List Char) (skip : Nat) :
    ∃ ms, Rounds recognise (before.reverse ++ rest) (before.length + skip) ms ∧
      scanFrom recognise [] skip before rest = ms.map Match.value := by
  induction rest generalizing before skip with
  | nil =>
    refine ⟨[], .done fun i hi ↦ h.matchAt?_of_length_le ?_, rfl⟩
    rw [List.append_nil, List.length_reverse]
    omega
  | cons c rest ih =>
    have htext : (c :: before).reverse ++ rest = before.reverse ++ c :: rest := by simp
    have hlength : (c :: before).length = before.length + 1 := rfl
    -- what is recognised here is the match at the position behind `before`
    have hat : matchAt? recognise (before.reverse ++ c :: rest) before.length =
        (recognise before (c :: rest)).map fun found ↦ ⟨before.length, found.1, found.2⟩ := by
      simpa using matchAt?_append recognise before.reverse (c :: rest)
    cases skip with
    | succ skip =>
      obtain ⟨ms, hms, hscan⟩ := ih (c :: before) skip
      rw [htext, hlength, Nat.add_assoc, Nat.add_comm 1] at hms
      exact ⟨ms, hms, scanFrom_succ c ▸ hscan⟩
    | zero =>
      cases hfound : recognise before (c :: rest) with
      | none =>
        obtain ⟨ms, hms, hscan⟩ := ih (c :: before) 0
        rw [htext, hlength] at hms
        rw [hfound] at hat
        exact ⟨ms, .of_none hat hms, (scanFrom_of_none hfound).trans hscan⟩
      | some found =>
        obtain ⟨a, length⟩ := found
        obtain ⟨ms, hms, hscan⟩ := ih (c :: before) (length - 1)
        -- the character that is passed here is the first of the match
        have hstop : (c :: before).length + (length - 1) = before.length + length := by
          have hpos := (h hfound).1
          rw [hlength]
          omega
        rw [htext, hstop] at hms
        rw [hfound] at hat
        refine ⟨⟨before.length, a, length⟩ :: ms, .next ⟨Nat.le_refl _, hat, ?_⟩ hms, ?_⟩
        · exact fun i hi hlt ↦ absurd hi (Nat.not_le.mpr hlt)
        · rw [scanFrom_of_some hfound, hscan, List.map_cons]

/-- A scan is a search of the whole text. -/
theorem exists_rounds (h : TakesText recognise) (text : List Char) :
    ∃ ms, Rounds recognise text 0 ms ∧ scan recognise text = ms.map Match.value :=
  exists_rounds_scanFrom h [] text 0

theorem mem_scan_of_matchAt? (h : TakesText recognise) {m : Match α} {i : Nat}
    (hm : matchAt? recognise text i = some m)
    (hclear : ∀ j < i, ∀ m', matchAt? recognise text j = some m' → m'.stop ≤ i) :
    m.value ∈ scan recognise text := by
  obtain ⟨ms, hms, hscan⟩ := exists_rounds h text
  rw [hscan]
  exact List.mem_map_of_mem (hms.mem_of_matchAt? hm (Nat.zero_le i) hclear)

/-- Whether a match is found when a text is searched. -/
def Finds (recognise : Recogniser α) (text : List Char) (m : Match α) : Prop :=
  ∃ ms, Rounds recognise text 0 ms ∧ m ∈ ms

/-- What is found is what is recognised and not reached over by anything else that is found. -/
theorem finds_iff (h : TakesText recognise) {m : Match α} : Finds recognise text m ↔
    matchAt? recognise text m.start = some m ∧
      ∀ m', Finds recognise text m' → m'.start < m.start → m'.stop ≤ m.start := by
  constructor
  · rintro ⟨ms, hms, hm⟩
    refine ⟨hms.matchAt?_of_mem m hm, ?_⟩
    rintro m' ⟨ms', hms', hm'⟩ hlt
    obtain rfl := hms.unique hms'
    exact hms.stop_le_start h hm' hm hlt
  · rintro ⟨hm, hclear⟩
    obtain ⟨ms, hms, -⟩ := exists_rounds h text
    exact ⟨ms, hms, hms.mem_of_forall_stop_le hm (Nat.zero_le _)
      fun m' hm' hlt ↦ hclear m' ⟨ms, hms, hm'⟩ hlt⟩

/-- What is recognised behind a text is found if nothing that is found reaches over the end of that
text. -/
theorem finds_append (h : TakesText recognise) {front back : List Char} {a : α} {length : Nat}
    (ha : recognise front.reverse back = some (a, length))
    (hclear : ∀ m, Finds recognise (front ++ back) m → m.start < front.length →
      m.stop ≤ front.length) :
    Finds recognise (front ++ back) ⟨front.length, a, length⟩ := by
  refine (finds_iff h).mpr ⟨?_, hclear⟩
  rw [matchAt?_append, ha, Option.map_some]

theorem mem_scan_iff (h : TakesText recognise) {a : α} :
    a ∈ scan recognise text ↔ ∃ m, Finds recognise text m ∧ m.value = a := by
  obtain ⟨ms, hms, hscan⟩ := exists_rounds h text
  rw [hscan, List.mem_map]
  constructor
  · rintro ⟨m, hm, ha⟩
    exact ⟨m, ⟨ms, hms, hm⟩, ha⟩
  · rintro ⟨m, ⟨ms', hms', hm⟩, ha⟩
    exact ⟨m, hms.unique hms' ▸ hm, ha⟩

theorem exists_matchAt?_of_mem_scan (h : TakesText recognise) {a : α}
    (ha : a ∈ scan recognise text) :
    ∃ m i, matchAt? recognise text i = some m ∧ m.value = a := by
  obtain ⟨ms, hms, hscan⟩ := exists_rounds h text
  rw [hscan] at ha
  obtain ⟨m, hm, rfl⟩ := List.mem_map.mp ha
  exact ⟨m, m.start, hms.matchAt?_of_mem m hm, rfl⟩

end Lineage.Text
