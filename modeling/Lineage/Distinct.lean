/-!
# Lists without repeats

`distinctBy f` keeps the first item of each class, two items being of one class when `f` gives the
same for both. The items that are kept stay in order. The values of `f` are worked out once, before
they are compared; `distinctBy_cons` says what comes of it.
-/

namespace Lineage

variable {α β : Type} [DecidableEq β]

/-- The first item under each label, in order. -/
def firstByLabel : List (β × α) → List (β × α)
  | [] => []
  | (b, a) :: rest => (b, a) :: (firstByLabel rest).filter (·.1 ≠ b)

/-- The first item of each value of `f`, in order. -/
def distinctBy (f : α → β) (as : List α) : List α :=
  (firstByLabel (as.map fun a => (f a, a))).map (·.2)

theorem firstByLabel_sublist (pairs : List (β × α)) : (firstByLabel pairs).Sublist pairs := by
  induction pairs with
  | nil => simp [firstByLabel]
  | cons p rest ih => exact (List.filter_sublist.trans ih).cons_cons p

@[simp] theorem distinctBy_nil (f : α → β) : distinctBy f [] = [] := rfl

theorem distinctBy_cons (f : α → β) (a : α) (as : List α) :
    distinctBy f (a :: as) = a :: (distinctBy f as).filter (f · ≠ f a) := by
  have h : ∀ p ∈ firstByLabel (as.map fun a => (f a, a)), p.1 = f p.2 := by
    intro p hp
    obtain ⟨b, _, rfl⟩ := List.mem_map.1 ((firstByLabel_sublist _).subset hp)
    rfl
  simp only [distinctBy, List.map_cons, firstByLabel, List.filter_map]
  congr 2
  refine List.filter_congr fun p hp => ?_
  simp [h p hp]

theorem distinctBy_sublist (f : α → β) (as : List α) : (distinctBy f as).Sublist as := by
  induction as with
  | nil => simp
  | cons a as ih =>
    rw [distinctBy_cons]
    exact (List.filter_sublist.trans ih).cons_cons a

theorem nodup_map_distinctBy (f : α → β) (as : List α) : ((distinctBy f as).map f).Nodup := by
  induction as with
  | nil => simp
  | cons a as ih =>
    simp only [distinctBy_cons, List.map_cons, List.nodup_cons, List.mem_map, List.mem_filter]
    refine ⟨?_, ih.sublist (List.filter_sublist.map f)⟩
    rintro ⟨b, ⟨_, hne⟩, heq⟩
    simp [heq] at hne

theorem mem_map_distinctBy {f : α → β} {as : List α} {b : β} :
    b ∈ (distinctBy f as).map f ↔ b ∈ as.map f := by
  induction as with
  | nil => simp
  | cons a as ih =>
    simp only [distinctBy_cons, List.map_cons, List.mem_cons]
    refine ⟨?_, ?_⟩
    · rintro (h | h)
      · exact .inl h
      · exact .inr (ih.1 ((List.filter_sublist.map f).subset h))
    · rintro (h | h)
      · exact .inl h
      · by_cases hb : b = f a
        · exact .inl hb
        · obtain ⟨c, hc, rfl⟩ := List.mem_map.1 (ih.2 h)
          exact .inr (List.mem_map.2 ⟨c, List.mem_filter.2 ⟨hc, by simpa using hb⟩, rfl⟩)

end Lineage
