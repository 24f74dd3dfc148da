import Lineage.Distinct
import Mathlib.Data.List.Forall2
import Mathlib.Data.List.TakeDrop
import Mathlib.Data.List.TakeWhile

/-!
# Lists

Facts on lists that more than one part of the theory needs: what is left and right of an occurrence
of an item, which values a list keeps when its repeats are left out, how a list is put together from
its items of each kind, how a sorted list is ordered, and what lists have in common whose items are
related one by one.
-/

namespace Lineage

variable {α β γ : Type}

/-! ## Occurrences of an item -/

section FirstOccurrence

variable [BEq α] [LawfulBEq α] {a : α} {front : List α}

theorem bne_of_not_mem (h : a ∉ front) : ∀ x ∈ front, (x != a) = true :=
  fun _ hx ↦ bne_iff_ne.mpr fun heq ↦ h (heq ▸ hx)

theorem takeWhile_bne_append (h : a ∉ front) (rest : List α) :
    (front ++ a :: rest).takeWhile (· != a) = front := by
  rw [List.takeWhile_append_of_pos (bne_of_not_mem h), List.takeWhile_cons_of_neg (by simp),
    List.append_nil]

theorem dropWhile_bne_append (h : a ∉ front) (rest : List α) :
    (front ++ a :: rest).dropWhile (· != a) = a :: rest := by
  rw [List.dropWhile_append_of_pos (bne_of_not_mem h), List.dropWhile_cons_of_neg (by simp)]

theorem append_cons_inj_of_not_mem {front' back back' : List α} (hback : a ∉ back)
    (hback' : a ∉ back') (h : front ++ a :: back = front' ++ a :: back') :
    front = front' ∧ back = back' := by
  have hreverse : back.reverse ++ a :: front.reverse = back'.reverse ++ a :: front'.reverse := by
    simpa using congrArg List.reverse h
  have hsame : back.reverse = back'.reverse := by
    rw [← takeWhile_bne_append (mt List.mem_reverse.mp hback) front.reverse, hreverse,
      takeWhile_bne_append (mt List.mem_reverse.mp hback')]
  rw [hsame, List.append_cancel_left_eq, List.cons_inj_right] at hreverse
  exact ⟨List.reverse_injective hreverse, List.reverse_injective hsame⟩

theorem eq_of_infix_of_nodup {as : List α} (hnodup : as.Nodup) {b c : α} (hb : [a, b] <:+: as)
    (hc : [a, c] <:+: as) : b = c := by
  have hcut : ∀ {x : α}, [a, x] <:+: as → ∃ back, as.dropWhile (· != a) = a :: x :: back := by
    rintro x ⟨front, back, rfl⟩
    rw [List.append_assoc] at hnodup ⊢
    have hfront : a ∉ front := fun hmem ↦
      (List.nodup_append.mp hnodup).2.2 a hmem a List.mem_cons_self rfl
    exact ⟨back, dropWhile_bne_append hfront (x :: back)⟩
  obtain ⟨back, hback⟩ := hcut hb
  obtain ⟨back', hback'⟩ := hcut hc
  rw [hback] at hback'
  exact (List.cons_eq_cons.mp (List.cons_eq_cons.mp hback').2).1

end FirstOccurrence

section Boundary

variable {p : α → Bool} {a : α}

theorem takeWhile_append_cons_of_neg (ha : p a = false) (front back : List α) :
    (front ++ a :: back).takeWhile p = front.takeWhile p := by
  induction front with
  | nil => simp [ha]
  | cons b front ih => rw [List.cons_append, List.takeWhile_cons, List.takeWhile_cons, ih]

theorem dropWhile_append_cons_of_neg (ha : p a = false) (front back : List α) :
    (front ++ a :: back).dropWhile p = front.dropWhile p ++ a :: back := by
  induction front with
  | nil => simp [ha]
  | cons b front ih =>
    rw [List.cons_append, List.dropWhile_cons, List.dropWhile_cons, ih]
    split
    · rfl
    · rw [List.cons_append]

end Boundary

theorem head?_append_of_forall_eq {as bs : List α} {a : α} (hmem : a ∈ as)
    (hsame : ∀ b ∈ as, b = a) : (as ++ bs).head? = some a := by
  cases as with
  | nil => exact absurd hmem List.not_mem_nil
  | cons b as => rw [List.cons_append, List.head?_cons, hsame b List.mem_cons_self]

/-- An item of two lists, one after the other, is in the first or in the second. -/
theorem split_append {as bs front back : List α} {a : α} (h : as ++ bs = front ++ a :: back) :
    (∃ behind, as = front ++ a :: behind) ∨
      ∃ before, front = as ++ before ∧ bs = before ++ a :: back := by
  rcases List.append_eq_append_iff.mp h with ⟨before, hfront, hbs⟩ | ⟨cs, has, hcons⟩
  · exact Or.inr ⟨before, hfront, hbs⟩
  · rcases List.cons_eq_append_iff.mp hcons with ⟨rfl, hbs⟩ | ⟨behind, rfl, -⟩
    · rw [List.append_nil] at has
      exact Or.inr ⟨[], by rw [has, List.append_nil], hbs⟩
    · exact Or.inl ⟨behind, has⟩

theorem split_append_of_not_mem {as bs front back : List α} {a : α} (ha : a ∉ as)
    (h : as ++ bs = front ++ a :: back) :
    ∃ before, front = as ++ before ∧ bs = before ++ a :: back := by
  rcases split_append h with ⟨behind, rfl⟩ | hbefore
  · exact absurd (List.mem_append_right front List.mem_cons_self) ha
  · exact hbefore

theorem drop_append_append (as bs cs : List α) :
    (as ++ (bs ++ cs)).drop (as.length + bs.length) = cs := by
  rw [← List.append_assoc, ← List.length_append, List.drop_left]

/-- What stands in a list behind a position, free of an item, does not reach over a later position
at which that item is. -/
theorem add_length_le_of_not_mem {as bs cs : List α} {a : α} {i j : Nat}
    (hdrop : as.drop j = bs ++ cs) (ha : as[i]? = some a) (hle : j ≤ i) (hbs : a ∉ bs) :
    j + bs.length ≤ i := by
  by_contra hlt
  have hinside : i - j < bs.length := by omega
  have hat : bs[i - j]? = some a := by
    rw [← List.getElem?_append_left hinside, ← hdrop, List.getElem?_drop, Nat.add_sub_cancel' hle,
      ha]
  exact hbs (List.mem_of_getElem? hat)

/-! ## Lists without repeats -/

/-- Of a list without repeats the values are those of the whole list, for any function that does not
tell repeats apart. -/
theorem mem_map_distinctBy_of_factors [DecidableEq β] {f : α → β} {g : α → γ}
    (h : ∀ a b, f a = f b → g a = g b) {as : List α} {c : γ} :
    c ∈ (distinctBy f as).map g ↔ c ∈ as.map g := by
  constructor
  · intro hc
    exact ((distinctBy_sublist f as).map g).subset hc
  · intro hc
    obtain ⟨a, ha, rfl⟩ := List.mem_map.mp hc
    have hkept : f a ∈ (distinctBy f as).map f := mem_map_distinctBy.mpr (List.mem_map_of_mem ha)
    obtain ⟨b, hb, hba⟩ := List.mem_map.mp hkept
    exact List.mem_map.mpr ⟨b, hb, h b a hba⟩

section Distinct

variable [DecidableEq β] {f : α → β}

/-- Of two lists, one after the other, the second adds the items whose values the first lacks. -/
theorem distinctBy_append (f : α → β) (as bs : List α) :
    distinctBy f (as ++ bs) = distinctBy f as ++ (distinctBy f bs).filter (f · ∉ as.map f) := by
  induction as with
  | nil => simp
  | cons a as ih =>
    have hnew : ∀ b, (f b ≠ f a ∧ f b ∉ as.map f) ↔ f b ∉ (a :: as).map f := by
      intro b
      rw [List.map_cons, List.mem_cons, not_or]
    rw [List.cons_append, distinctBy_cons, distinctBy_cons, ih, List.filter_append,
      List.filter_filter, List.cons_append]
    simp only [← hnew, Bool.decide_and]

theorem distinctBy_of_nodup {as : List α} (h : (as.map f).Nodup) : distinctBy f as = as := by
  induction as with
  | nil => rfl
  | cons a as ih =>
    obtain ⟨ha, hnodup⟩ := List.nodup_cons.mp h
    rw [distinctBy_cons, ih hnodup, List.filter_eq_self.mpr]
    intro b hb
    exact decide_eq_true fun heq ↦ ha (heq ▸ List.mem_map_of_mem hb)

theorem distinctBy_distinctBy_append (f : α → β) (as bs : List α) :
    distinctBy f (distinctBy f as ++ bs) = distinctBy f (as ++ bs) := by
  rw [distinctBy_append, distinctBy_append, distinctBy_of_nodup (nodup_map_distinctBy f as)]
  simp only [mem_map_distinctBy]

theorem distinctBy_append_distinctBy (f : α → β) (as bs : List α) :
    distinctBy f (as ++ distinctBy f bs) = distinctBy f (as ++ bs) := by
  rw [distinctBy_append, distinctBy_append, distinctBy_of_nodup (nodup_map_distinctBy f bs)]

/-- A list with the items of another whose values it lacks, each once. Its own repeats stay. -/
def addDistinct (f : α → β) (as bs : List α) : List α :=
  as ++ (distinctBy f bs).filter (f · ∉ as.map f)

theorem mem_map_addDistinct {as bs : List α} {b : β} :
    b ∈ (addDistinct f as bs).map f ↔ b ∈ as.map f ∨ b ∈ bs.map f := by
  rw [addDistinct, List.map_append, List.mem_append]
  constructor
  · rintro (h | h)
    · exact Or.inl h
    · exact Or.inr (mem_map_distinctBy.mp ((List.filter_sublist.map f).subset h))
  · rintro (h | h)
    · exact Or.inl h
    · by_cases hb : b ∈ as.map f
      · exact Or.inl hb
      · obtain ⟨c, hc, rfl⟩ := List.mem_map.mp (mem_map_distinctBy.mpr h)
        have hnew : c ∈ (distinctBy f bs).filter (f · ∉ as.map f) :=
          List.mem_filter.mpr ⟨hc, decide_eq_true hb⟩
        exact Or.inr (List.mem_map_of_mem hnew)

theorem distinctBy_addDistinct (f : α → β) (as bs : List α) :
    distinctBy f (addDistinct f as bs) = distinctBy f (as ++ bs) := by
  have hnodup : (((distinctBy f bs).filter (f · ∉ as.map f)).map f).Nodup :=
    (nodup_map_distinctBy f bs).sublist (List.filter_sublist.map f)
  rw [addDistinct, distinctBy_append, distinctBy_of_nodup hnodup, List.filter_filter,
    distinctBy_append]
  simp only [Bool.and_self]

/-- It does not matter whether items are added to a list before or after others are added to
them. -/
theorem addDistinct_assoc (f : α → β) (as bs cs : List α) :
    addDistinct f (addDistinct f as bs) cs = addDistinct f as (addDistinct f bs cs) := by
  have hlacks : ∀ c, (f c ∉ (addDistinct f as bs).map f) ↔ f c ∉ as.map f ∧ f c ∉ bs.map f := by
    intro c
    rw [mem_map_addDistinct, not_or]
  calc addDistinct f (addDistinct f as bs) cs
      = addDistinct f as bs ++ (distinctBy f cs).filter fun c ↦
          decide (f c ∉ as.map f) && decide (f c ∉ bs.map f) := by
        rw [addDistinct]
        simp only [hlacks, Bool.decide_and]
    _ = as ++ (distinctBy f (bs ++ cs)).filter (f · ∉ as.map f) := by
        rw [distinctBy_append, List.filter_append, List.filter_filter, ← List.append_assoc,
          addDistinct]
    _ = addDistinct f as (addDistinct f bs cs) := by
        rw [addDistinct, distinctBy_addDistinct]

theorem map_distinctBy (k : γ → β) (g : α → γ) (as : List α) :
    (distinctBy (k ∘ g) as).map g = distinctBy k (as.map g) := by
  induction as with
  | nil => rfl
  | cons a as ih =>
    rw [distinctBy_cons, List.map_cons, List.map_cons, distinctBy_cons, ← ih, List.filter_map]
    rfl

theorem map_addDistinct (k : γ → β) (g : α → γ) (as bs : List α) :
    (addDistinct (k ∘ g) as bs).map g = addDistinct k (as.map g) (bs.map g) := by
  rw [addDistinct, List.map_append, addDistinct, ← map_distinctBy, List.filter_map, List.map_map]
  rfl

end Distinct

/-! ## Items by kind -/

theorem flatMap_filter_perm [DecidableEq β] (f : α → β) (as : List α) {kinds : List β}
    (hnodup : kinds.Nodup) :
    (kinds.flatMap fun b ↦ as.filter (f · == b)).Perm (as.filter (f · ∈ kinds)) := by
  induction kinds with
  | nil => simp
  | cons b kinds ih =>
    obtain ⟨hb, hnodup⟩ := List.nodup_cons.mp hnodup
    have hfirst : as.filter (f · == b) = (as.filter (f · ∈ b :: kinds)).filter (f · == b) := by
      rw [List.filter_filter]
      refine List.filter_congr fun a _ ↦ ?_
      by_cases h : f a = b <;> simp [h]
    have hrest : as.filter (f · ∈ kinds) = (as.filter (f · ∈ b :: kinds)).filter (!f · == b) := by
      rw [List.filter_filter]
      refine List.filter_congr fun a _ ↦ ?_
      by_cases h : f a = b <;> simp [h, hb]
    rw [List.flatMap_cons, hfirst]
    refine ((ih hnodup).append_left _).trans ?_
    rw [hrest]
    exact List.filter_append_perm _ _

/-- What is kept of a list put together from parts is put together from the parts that are kept,
when all items of a part are kept or none. -/
theorem filter_flatMap_of_forall {f : α → List β} {p : α → Bool} {q : β → Bool}
    (h : ∀ a, ∀ b ∈ f a, q b = p a) (as : List α) :
    (as.flatMap f).filter q = (as.filter p).flatMap f := by
  induction as with
  | nil => rfl
  | cons a as ih =>
    have hpart : (f a).filter q = if p a then f a else [] := by
      by_cases ha : p a
      · rw [if_pos ha, List.filter_eq_self]
        exact fun b hb ↦ (h a b hb).trans ha
      · rw [if_neg ha, List.filter_eq_nil_iff]
        exact fun b hb hq ↦ ha ((h a b hb).symm.trans hq)
    rw [List.flatMap_cons, List.filter_append, ih, hpart, List.filter_cons]
    by_cases ha : p a
    · rw [if_pos ha, if_pos ha, List.flatMap_cons]
    · rw [if_neg ha, if_neg ha, List.nil_append]

/-! ## Sorted lists -/

theorem pairwise_mergeSort_of_total {r : α → α → Prop} [DecidableRel r]
    (htrans : ∀ a b c, r a b → r b c → r a c) (htotal : ∀ a b, r a b ∨ r b a) (as : List α) :
    (as.mergeSort fun a b ↦ r a b).Pairwise r := by
  have h : (as.mergeSort fun a b ↦ r a b).Pairwise fun a b ↦ decide (r a b) = true := by
    refine List.pairwise_mergeSort (fun a b c hab hbc ↦ ?_) (fun a b ↦ ?_) as
    · exact decide_eq_true (htrans a b c (of_decide_eq_true hab) (of_decide_eq_true hbc))
    · simpa only [Bool.or_eq_true, decide_eq_true_eq] using htotal a b
  simpa only [decide_eq_true_eq] using h

/-! ## Lists related item by item -/

section Related

variable {r : α → β → Prop} {as : List α} {bs : List β}

theorem exists_mem_of_forall₂ (h : List.Forall₂ r as bs) {a : α} (ha : a ∈ as) :
    ∃ b ∈ bs, r a b := by
  induction h with
  | nil => exact absurd ha List.not_mem_nil
  | cons hab _ ih =>
    rcases List.mem_cons.mp ha with rfl | ha
    · exact ⟨_, List.mem_cons_self, hab⟩
    · obtain ⟨b, hb, hab⟩ := ih ha
      exact ⟨b, List.mem_cons_of_mem _ hb, hab⟩

theorem exists_split_of_forall₂ {front back : List β} {b : β}
    (h : List.Forall₂ r as (front ++ b :: back)) :
    ∃ front' a back', as = front' ++ a :: back' ∧ List.Forall₂ r front' front ∧ r a b := by
  induction front generalizing as with
  | nil =>
    obtain ⟨a, back', hab, -, rfl⟩ := List.forall₂_cons_right_iff.mp h
    exact ⟨[], a, back', rfl, .nil, hab⟩
  | cons c front ih =>
    obtain ⟨a', as', hac, htail, rfl⟩ := List.forall₂_cons_right_iff.mp h
    obtain ⟨front', a, back', rfl, hfront, hab⟩ := ih htail
    exact ⟨a' :: front', a, back', rfl, .cons hac hfront, hab⟩

theorem map_eq_map_of_forall₂ {f : α → γ} {g : β → γ} (hfg : ∀ a b, r a b → f a = g b)
    (h : List.Forall₂ r as bs) : as.map f = bs.map g := by
  induction h with
  | nil => rfl
  | cons hab _ ih => rw [List.map_cons, List.map_cons, hfg _ _ hab, ih]

/-- What is kept of a list is related to some of the items that it is made of, in order. -/
theorem exists_sublist_forall₂_filterMap {f : γ → α} {g : γ → Option β} {cs : List γ}
    (h : ∀ c ∈ cs, ∀ b, g c = some b → r (f c) b) :
    ∃ as, as.Sublist (cs.map f) ∧ List.Forall₂ r as (cs.filterMap g) := by
  induction cs with
  | nil => exact ⟨[], List.nil_sublist _, .nil⟩
  | cons c cs ih =>
    obtain ⟨hc, hcs⟩ := List.forall_mem_cons.mp h
    obtain ⟨as, hsub, has⟩ := ih hcs
    cases hg : g c with
    | none =>
      rw [List.filterMap_cons_none hg]
      exact ⟨as, hsub.cons (f c), has⟩
    | some b =>
      rw [List.filterMap_cons_some hg]
      exact ⟨f c :: as, hsub.cons_cons (f c), .cons (hc b hg) has⟩

end Related

end Lineage
