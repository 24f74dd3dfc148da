import Lineage.Traversal.BreadthFirst
import Mathlib.Data.List.Chain
import Mathlib.Data.List.Nodup
import Mathlib.Data.Nat.Find
import Mathlib.Logic.Relation

/-!
# What a breadth-first search finds

The search keeps chains of places, layer by layer, and answers three questions from the layers: the
first shortest chain to a place, the places within a number of steps, and all places that can be
reached. Each answer is determined by one number, the *distance* of a place from the start, which is
the least number of steps that lead to it.

## The invariant

A layer is right at a distance when its chains are walks of that length from the start, one for each
place at that distance, and the pending places are those that are farther away. Settling the
extensions of a layer that is right gives one that is right at the next distance, `IsLayer.settle`.
The search ends with an empty layer, and this loses nothing: on the way to any place there is a
place at every smaller distance, so beyond an empty layer there is no place at all.

## Shortest walks

A walk that is as long as the distance between its ends has every place at its own distance, for any
shorter way to the place would make a shorter walk of the whole. So it comes to no place twice,
`IsWalk.nodup_of_isDistance`.
-/

open Relation

namespace Lineage.BreadthFirst

variable {κ : Type} {next : κ → List κ} {a b c start stop : κ} {d n : Nat}

/-! ## Distances -/

/-- Whether some number of steps leads from a place to another. -/
inductive Steps (next : κ → List κ) (start : κ) : Nat → κ → Prop
  | refl : Steps next start 0 start
  | tail {n : Nat} {a b : κ} (h : Steps next start n a) (hb : b ∈ next a) :
      Steps next start (n + 1) b

/-- Whether a number of steps leads from a place to another and no smaller number does. -/
def IsDistance (next : κ → List κ) (start stop : κ) (d : Nat) : Prop :=
  Steps next start d stop ∧ ∀ m < d, ¬Steps next start m stop

namespace Steps

theorem head (hb : b ∈ next a) (h : Steps next b n c) : Steps next a (n + 1) c := by
  induction h with
  | refl => exact .tail .refl hb
  | tail _ hc ih => exact .tail ih hc

theorem trans {m : Nat} (h : Steps next a m b) (h' : Steps next b n c) :
    Steps next a (m + n) c := by
  induction h' with
  | refl => exact h
  | tail _ hc ih => exact ih.tail hc

theorem symm (hsymm : ∀ a b, b ∈ next a → a ∈ next b) (h : Steps next a n b) :
    Steps next b n a := by
  induction h with
  | refl => exact .refl
  | tail _ hb ih => exact ih.head (hsymm _ _ hb)

theorem mem {places : List κ} (hclosed : ∀ a ∈ places, next a ⊆ places) (hstart : start ∈ places)
    (h : Steps next start n b) : b ∈ places := by
  induction h with
  | refl => exact hstart
  | tail _ hb ih => exact hclosed _ ih hb

end Steps

theorem exists_steps_iff : (∃ n, Steps next a n b) ↔ ReflTransGen (fun a b ↦ b ∈ next a) a b := by
  constructor
  · rintro ⟨n, h⟩
    induction h with
    | refl => exact .refl
    | tail _ hb ih => exact ih.tail hb
  · intro h
    induction h with
    | refl => exact ⟨0, .refl⟩
    | tail _ hb ih =>
      obtain ⟨n, h⟩ := ih
      exact ⟨n + 1, h.tail hb⟩

theorem Steps.exists_isDistance (h : Steps next start n b) :
    ∃ d ≤ n, IsDistance next start b d := by
  classical
  have hex : ∃ m, Steps next start m b := ⟨n, h⟩
  exact ⟨Nat.find hex, Nat.find_min' hex h, Nat.find_spec hex, fun _ ↦ Nat.find_min hex⟩

theorem exists_isDistance_iff :
    (∃ d, IsDistance next a b d) ↔ ReflTransGen (fun a b ↦ b ∈ next a) a b := by
  rw [← exists_steps_iff]
  constructor
  · rintro ⟨d, h⟩
    exact ⟨d, h.1⟩
  · rintro ⟨n, h⟩
    obtain ⟨d, -, h⟩ := h.exists_isDistance
    exact ⟨d, h⟩

namespace IsDistance

theorem eq {d' : Nat} (h : IsDistance next start b d) (h' : IsDistance next start b d') :
    d = d' := by
  rcases Nat.lt_trichotomy d d' with hlt | heq | hlt
  · exact absurd h.1 (h'.2 d hlt)
  · exact heq
  · exact absurd h'.1 (h.2 d' hlt)

theorem symm (hsymm : ∀ a b, b ∈ next a → a ∈ next b) (h : IsDistance next a b d) :
    IsDistance next b a d :=
  ⟨h.1.symm hsymm, fun m hm hsteps ↦ h.2 m hm (hsteps.symm hsymm)⟩

theorem exists_pred (h : IsDistance next start c (d + 1)) :
    ∃ b, IsDistance next start b d ∧ c ∈ next b := by
  obtain ⟨hsteps, hmin⟩ := h
  cases hsteps with
  | @tail _ b _ hb hc =>
    refine ⟨b, ⟨hb, fun m hm hsteps ↦ ?_⟩, hc⟩
    exact hmin (m + 1) (Nat.succ_lt_succ hm) (hsteps.tail hc)

/-- On the way to a place there is one at every smaller distance. -/
theorem exists_of_le (h : IsDistance next start c n) (hle : d ≤ n) :
    ∃ b, IsDistance next start b d := by
  induction hle generalizing c with
  | refl => exact ⟨c, h⟩
  | step _ ih =>
    obtain ⟨b, hb, -⟩ := h.exists_pred
    exact ih hb

end IsDistance

/-! ## Settling -/

/-- The places at which chains end, a chain having its latest place first. -/
def ends (chains : List (List κ)) : List κ := chains.filterMap List.head?

@[simp] theorem ends_nil : ends ([] : List (List κ)) = [] := rfl

@[simp] theorem ends_cons (place : κ) (chain : List κ) (chains : List (List κ)) :
    ends ((place :: chain) :: chains) = place :: ends chains := rfl

theorem mem_ends {chains : List (List κ)} {p : κ} :
    p ∈ ends chains ↔ ∃ chain ∈ chains, chain.head? = some p := List.mem_filterMap

theorem mem_extensions {chains : List (List κ)} {p : κ} {chain : List κ} :
    (p, chain) ∈ extensions next chains ↔
      chain ∈ chains ∧ ∃ last, chain.head? = some last ∧ p ∈ next last := by
  rw [extensions, List.mem_flatMap]
  constructor
  · rintro ⟨other, hother, hmem⟩
    cases other with
    | nil => exact absurd hmem List.not_mem_nil
    | cons last rest =>
      obtain ⟨q, hq, heq⟩ := List.mem_map.mp hmem
      obtain ⟨rfl, rfl⟩ := Prod.mk.inj heq
      exact ⟨hother, last, List.head?_cons, hq⟩
  · rintro ⟨hchain, last, hlast, hp⟩
    refine ⟨chain, hchain, ?_⟩
    cases chain with
    | nil => exact absurd hlast (by simp)
    | cons first rest =>
      rw [List.head?_cons, Option.some_inj] at hlast
      subst hlast
      exact List.mem_map_of_mem hp

theorem exists_mem_extensions {chains : List (List κ)} {p : κ} :
    (∃ chain, (p, chain) ∈ extensions next chains) ↔ ∃ last ∈ ends chains, p ∈ next last := by
  constructor
  · rintro ⟨chain, hmem⟩
    obtain ⟨hchain, last, hlast, hp⟩ := mem_extensions.mp hmem
    exact ⟨last, mem_ends.mpr ⟨chain, hchain, hlast⟩, hp⟩
  · rintro ⟨last, hlast, hp⟩
    obtain ⟨chain, hchain, hhead⟩ := mem_ends.mp hlast
    exact ⟨chain, mem_extensions.mpr ⟨hchain, last, hhead, hp⟩⟩

section Settle

variable [BEq κ] [LawfulBEq κ] {pending : List κ} {candidates : List (κ × List κ)} {p : κ}

theorem settle_cons_of_mem (h : a ∈ pending) (chain : List κ) :
    settle pending ((a, chain) :: candidates) =
      ((a :: chain) :: (settle (pending.filter (· != a)) candidates).1,
        (settle (pending.filter (· != a)) candidates).2) := by
  rw [settle, if_pos (List.contains_iff_mem.mpr h)]

theorem settle_cons_of_not_mem (h : a ∉ pending) (chain : List κ) :
    settle pending ((a, chain) :: candidates) = settle pending candidates := by
  rw [settle, if_neg (by simpa using h)]

theorem mem_filter_bne : p ∈ pending.filter (· != a) ↔ p ∈ pending ∧ p ≠ a := by
  rw [List.mem_filter, bne_iff_ne]

theorem mem_settle_snd :
    p ∈ (settle pending candidates).2 ↔ p ∈ pending ∧ ¬∃ chain, (p, chain) ∈ candidates := by
  induction candidates generalizing pending with
  | nil => simp [settle]
  | cons candidate candidates ih =>
    obtain ⟨a, chain⟩ := candidate
    by_cases ha : a ∈ pending
    · rw [settle_cons_of_mem ha, ih, mem_filter_bne]
      grind
    · rw [settle_cons_of_not_mem ha, ih]
      grind

/-- The places that chains are kept for are the pending ones with a candidate. -/
theorem mem_ends_settle :
    p ∈ ends (settle pending candidates).1 ↔
      p ∈ pending ∧ ∃ chain, (p, chain) ∈ candidates := by
  induction candidates generalizing pending with
  | nil => simp [settle]
  | cons candidate candidates ih =>
    obtain ⟨a, chain⟩ := candidate
    by_cases ha : a ∈ pending
    · rw [settle_cons_of_mem ha, ends_cons, List.mem_cons, ih, mem_filter_bne]
      grind
    · rw [settle_cons_of_not_mem ha, ih]
      grind

theorem nodup_ends_settle : (ends (settle pending candidates).1).Nodup := by
  induction candidates generalizing pending with
  | nil => simp [settle]
  | cons candidate candidates ih =>
    obtain ⟨a, chain⟩ := candidate
    by_cases ha : a ∈ pending
    · rw [settle_cons_of_mem ha, ends_cons, List.nodup_cons, mem_ends_settle, mem_filter_bne]
      exact ⟨fun h ↦ h.1.2 rfl, ih⟩
    · rw [settle_cons_of_not_mem ha]
      exact ih

theorem exists_of_mem_settle {chain : List κ} (h : chain ∈ (settle pending candidates).1) :
    ∃ place rest, chain = place :: rest ∧ (place, rest) ∈ candidates := by
  induction candidates generalizing pending with
  | nil => simp [settle] at h
  | cons candidate candidates ih =>
    obtain ⟨a, rest⟩ := candidate
    by_cases ha : a ∈ pending
    · rw [settle_cons_of_mem ha, List.mem_cons] at h
      rcases h with rfl | h
      · exact ⟨a, rest, rfl, List.mem_cons_self⟩
      · obtain ⟨place, rest', hchain, hmem⟩ := ih h
        exact ⟨place, rest', hchain, List.mem_cons_of_mem _ hmem⟩
    · rw [settle_cons_of_not_mem ha] at h
      obtain ⟨place, rest', hchain, hmem⟩ := ih h
      exact ⟨place, rest', hchain, List.mem_cons_of_mem _ hmem⟩

end Settle

/-! ## Layers -/

/-- Whether a path is a walk of some number of steps from a place to another. -/
structure IsWalk (next : κ → List κ) (start stop : κ) (n : Nat) (path : List κ) : Prop where
  length_eq : path.length = n + 1
  head?_eq : path.head? = some start
  getLast?_eq : path.getLast? = some stop
  chain : path.IsChain fun a b ↦ b ∈ next a

/-- Whether pending places and a layer are as they should be at a distance from the start. -/
structure IsLayer (next : κ → List κ) (places : List κ) (start : κ) (d : Nat) (pending : List κ)
    (layer : List (List κ)) : Prop where
  isWalk : ∀ chain ∈ layer, ∀ last, chain.head? = some last →
    IsWalk next start last d chain.reverse
  mem_ends : ∀ p, p ∈ ends layer ↔ IsDistance next start p d
  nodup_ends : (ends layer).Nodup
  mem_pending : ∀ p, p ∈ pending ↔ p ∈ places ∧ ∀ m ≤ d, ¬Steps next start m p

theorem IsWalk.singleton (start : κ) : IsWalk next start start 0 [start] :=
  ⟨rfl, rfl, rfl, .singleton start⟩

theorem IsWalk.concat {path : List κ} (h : IsWalk next start stop n path) (hb : b ∈ next stop) :
    IsWalk next start b (n + 1) (path ++ [b]) where
  length_eq := by rw [List.length_append, h.length_eq, List.length_singleton]
  head?_eq := by rw [List.head?_append, h.head?_eq, Option.some_or]
  getLast?_eq := List.getLast?_concat
  chain := by
    refine List.isChain_append.mpr ⟨h.chain, .singleton b, fun x hx y hy ↦ ?_⟩
    rw [h.getLast?_eq, Option.mem_some] at hx
    rw [List.head?_cons, Option.mem_some] at hy
    rwa [← hx, ← hy]

namespace IsWalk

variable {path : List κ}

theorem steps (h : IsWalk next start stop n path) : Steps next start n stop := by
  induction path generalizing start n with
  | nil => cases h.head?_eq
  | cons a rest ih =>
    obtain ⟨hlength, hhead, hlast, hchain⟩ := h
    rw [List.head?_cons, Option.some_inj] at hhead
    subst hhead
    cases rest with
    | nil =>
      obtain rfl : n = 0 := (Nat.succ.inj hlength).symm
      rw [List.getLast?_singleton, Option.some_inj] at hlast
      exact hlast ▸ .refl
    | cons b rest =>
      obtain rfl : n = rest.length + 1 := (Nat.succ.inj hlength).symm
      rw [List.getLast?_cons_cons] at hlast
      have hrest : IsWalk next b stop rest.length (b :: rest) :=
        ⟨List.length_cons, List.head?_cons, hlast, hchain.tail⟩
      exact (ih hrest).head hchain.rel

variable {i : Nat} {p : κ}

theorem take (h : IsWalk next start stop n path) (hp : path[i]? = some p) :
    IsWalk next start p i (path.take (i + 1)) where
  length_eq := by
    rw [List.length_take, Nat.min_eq_left (List.getElem?_eq_some_iff.mp hp).choose]
  head?_eq := by rw [List.head?_take, if_neg (Nat.succ_ne_zero i), h.head?_eq]
  getLast?_eq := by
    rw [List.getLast?_take, if_neg (Nat.succ_ne_zero i), Nat.add_sub_cancel, hp, Option.some_or]
  chain := h.chain.take _

theorem drop (h : IsWalk next start stop n path) (hp : path[i]? = some p) :
    IsWalk next p stop (n - i) (path.drop i) where
  length_eq := by
    have hlt : i < path.length := (List.getElem?_eq_some_iff.mp hp).choose
    have hlength := h.length_eq
    rw [List.length_drop]
    omega
  head?_eq := by rw [List.head?_drop, hp]
  getLast?_eq := by
    have hlt : i < path.length := (List.getElem?_eq_some_iff.mp hp).choose
    rw [List.getLast?_drop, if_neg (Nat.not_le_of_lt hlt), h.getLast?_eq]
  chain := h.chain.drop i

/-- Every place of a shortest walk is as far from the start as it stands in the walk: a shorter way
to it would make the whole walk shorter. -/
theorem isDistance_getElem (h : IsWalk next start stop d path)
    (hdist : IsDistance next start stop d) (hp : path[i]? = some p) :
    IsDistance next start p i := by
  refine ⟨(h.take hp).steps, fun m hm hsteps ↦ ?_⟩
  have hlt : i < path.length := (List.getElem?_eq_some_iff.mp hp).choose
  have hlength := h.length_eq
  exact hdist.2 (m + (d - i)) (by omega) (hsteps.trans (h.drop hp).steps)

theorem nodup_of_isDistance (h : IsWalk next start stop d path)
    (hdist : IsDistance next start stop d) : path.Nodup := by
  refine List.pairwise_iff_getElem.mpr fun i j hi hj hlt heq ↦ ?_
  have hdi := h.isDistance_getElem hdist (List.getElem?_eq_getElem hi)
  have hdj := h.isDistance_getElem hdist (List.getElem?_eq_getElem hj)
  exact absurd (hdi.eq (heq ▸ hdj)) (Nat.ne_of_lt hlt)

theorem le_of_isDistance (h : IsWalk next start stop n path)
    (hdist : IsDistance next start stop d) : d ≤ n :=
  Nat.le_of_not_lt fun hlt ↦ hdist.2 n hlt h.steps

end IsWalk

variable [BEq κ] [LawfulBEq κ] {places pending : List κ} {layer : List (List κ)}

theorem isLayer_start : IsLayer next places start 0 (places.filter (· != start)) [[start]] where
  isWalk := by
    intro chain hchain last hlast
    rw [List.mem_singleton.mp hchain, List.head?_cons, Option.some_inj] at hlast
    rw [List.mem_singleton.mp hchain, List.reverse_singleton, ← hlast]
    exact .singleton start
  mem_ends := by
    intro p
    rw [ends_cons, ends_nil, List.mem_singleton]
    constructor
    · rintro rfl
      exact ⟨.refl, fun m hm ↦ absurd hm (Nat.not_lt_zero m)⟩
    · rintro ⟨h, -⟩
      cases h
      rfl
  nodup_ends := List.nodup_singleton start
  mem_pending := by
    intro p
    rw [mem_filter_bne]
    refine and_congr_right fun _ ↦ ⟨fun hne m hm h ↦ ?_, fun h heq ↦ ?_⟩
    · rw [Nat.le_zero.mp hm] at h
      cases h
      exact hne rfl
    · exact h 0 (Nat.le_refl 0) (heq ▸ .refl)

/-- **The next layer.** Settling the extensions of a layer leads to the next distance. -/
theorem IsLayer.settle (hclosed : ∀ a ∈ places, next a ⊆ places) (hstart : start ∈ places)
    (h : IsLayer next places start d pending layer) :
    IsLayer next places start (d + 1) (settle pending (extensions next layer)).2
      (settle pending (extensions next layer)).1 := by
  -- what is next to the layer can be reached in one step more, and what is that far is next to it
  have hnext : ∀ p, (∃ chain, (p, chain) ∈ extensions next layer) →
      Steps next start (d + 1) p := by
    intro p hp
    obtain ⟨last, hlast, hp⟩ := exists_mem_extensions.mp hp
    exact ((h.mem_ends last).mp hlast).1.tail hp
  have hprev : ∀ p, IsDistance next start p (d + 1) →
      ∃ chain, (p, chain) ∈ extensions next layer := by
    intro p hp
    obtain ⟨b, hb, hpb⟩ := hp.exists_pred
    exact exists_mem_extensions.mpr ⟨b, (h.mem_ends b).mpr hb, hpb⟩
  refine ⟨fun chain hchain place hhead ↦ ?_, fun p ↦ ?_, nodup_ends_settle, fun p ↦ ?_⟩
  · -- a chain that is kept prolongs one of the layer
    obtain ⟨p, rest, rfl, hmem⟩ := exists_of_mem_settle hchain
    obtain ⟨hrest, last, hlast, hp⟩ := mem_extensions.mp hmem
    rw [List.head?_cons, Option.some_inj] at hhead
    rw [List.reverse_cons, ← hhead]
    exact (h.isWalk rest hrest last hlast).concat hp
  · -- only a place that is not nearer was still pending
    rw [mem_ends_settle, h.mem_pending]
    constructor
    · rintro ⟨⟨-, hfar⟩, hp⟩
      exact ⟨hnext p hp, fun m hm ↦ hfar m (Nat.le_of_lt_succ hm)⟩
    · intro hp
      refine ⟨⟨hp.1.mem hclosed hstart, fun m hm ↦ hp.2 m (Nat.lt_succ_of_le hm)⟩, hprev p hp⟩
  · rw [mem_settle_snd, h.mem_pending]
    constructor
    · rintro ⟨⟨hplace, hfar⟩, hnone⟩
      refine ⟨hplace, fun m hm hsteps ↦ ?_⟩
      rcases Nat.le_succ_iff.mp hm with hm | rfl
      · exact hfar m hm hsteps
      · exact hnone (hprev p ⟨hsteps, fun m hm ↦ hfar m (Nat.le_of_lt_succ hm)⟩)
    · rintro ⟨hplace, hfar⟩
      refine ⟨⟨hplace, fun m hm ↦ hfar m (Nat.le_succ_of_le hm)⟩, fun hp ↦ ?_⟩
      exact hfar (d + 1) (Nat.le_refl _) (hnext p hp)

theorem IsLayer.layersFrom (hclosed : ∀ a ∈ places, next a ⊆ places) (hstart : start ∈ places)
    (h : IsLayer next places start d pending layer) {i : Nat} {found : List (List κ)}
    (hfound : (layersFrom next pending layer)[i]? = some found) :
    ∃ left, IsLayer next places start (d + i) left found := by
  -- along the recursion of the search, which settles one layer and goes on from the next distance
  induction pending, layer using layersFrom.induct next generalizing d i with
  | case1 pending => simp [BreadthFirst.layersFrom] at hfound
  | case2 pending layer hne _ =>
    rename_i ih
    rw [BreadthFirst.layersFrom, if_neg hne] at hfound
    cases i with
    | zero =>
      rw [List.getElem?_cons_zero, Option.some_inj] at hfound
      exact ⟨pending, hfound ▸ h⟩
    | succ i =>
      rw [List.getElem?_cons_succ] at hfound
      have hlayer := ih (h.settle hclosed hstart) hfound
      rwa [Nat.add_assoc, Nat.add_comm 1 i] at hlayer

theorem IsLayer.exists_layersFrom (hclosed : ∀ a ∈ places, next a ⊆ places)
    (hstart : start ∈ places) (h : IsLayer next places start d pending layer) {i : Nat} {p : κ}
    (hp : IsDistance next start p (d + i)) :
    ∃ found, (BreadthFirst.layersFrom next pending layer)[i]? = some found := by
  induction pending, layer using layersFrom.induct next generalizing d i with
  | case1 pending =>
    -- an empty layer says that no place is at its distance
    obtain ⟨b, hb⟩ := hp.exists_of_le (Nat.le_add_right d i)
    exact absurd ((h.mem_ends b).mpr hb) List.not_mem_nil
  | case2 pending layer hne _ =>
    rename_i ih
    rw [BreadthFirst.layersFrom, if_neg hne]
    cases i with
    | zero => exact ⟨layer, List.getElem?_cons_zero⟩
    | succ i =>
      rw [List.getElem?_cons_succ]
      exact ih (h.settle hclosed hstart) (by rwa [Nat.add_assoc, Nat.add_comm 1 i])

/-! ## The answers of the search -/

section Answers

variable (hclosed : ∀ a ∈ places, next a ⊆ places) (hstart : start ∈ places)

include hclosed hstart

theorem isLayer_of_getElem? {i : Nat} {found : List (List κ)}
    (hfound : (layers next places start)[i]? = some found) :
    ∃ left, IsLayer next places start i left found := by
  have h := isLayer_start.layersFrom hclosed hstart hfound
  rwa [Nat.zero_add] at h

theorem exists_mem_layers_iff {p : κ} {i : Nat} :
    (∃ found, (layers next places start)[i]? = some found ∧ p ∈ ends found) ↔
      IsDistance next start p i := by
  constructor
  · rintro ⟨found, hfound, hp⟩
    obtain ⟨left, hlayer⟩ := isLayer_of_getElem? hclosed hstart hfound
    exact (hlayer.mem_ends p).mp hp
  · intro hp
    obtain ⟨found, hfound⟩ :=
      isLayer_start.exists_layersFrom hclosed hstart ((Nat.zero_add i).symm ▸ hp)
    obtain ⟨left, hlayer⟩ := isLayer_of_getElem? hclosed hstart hfound
    exact ⟨found, hfound, (hlayer.mem_ends p).mpr hp⟩

omit [BEq κ] [LawfulBEq κ] hclosed hstart in
theorem ends_flatten (found : List (List (List κ))) : ends found.flatten = found.flatMap ends := by
  rw [ends, List.filterMap_flatten, List.flatMap_def]
  rfl

theorem mem_within_iff {p : κ} {steps : Nat} :
    p ∈ within next places start steps ↔ ∃ m ≤ steps, Steps next start m p := by
  rw [within, ← ends, ends_flatten, List.mem_flatMap]
  constructor
  · rintro ⟨found, hfound, hp⟩
    obtain ⟨i, hi, hfound⟩ := List.mem_take_iff_getElem.mp hfound
    have hp := (exists_mem_layers_iff hclosed hstart).mp
      ⟨found, List.getElem?_eq_some_iff.mpr ⟨by omega, hfound⟩, hp⟩
    exact ⟨i, by omega, hp.1⟩
  · rintro ⟨m, hm, h⟩
    obtain ⟨d, hd, hdist⟩ := h.exists_isDistance
    obtain ⟨found, hfound, hp⟩ := (exists_mem_layers_iff hclosed hstart).mpr hdist
    obtain ⟨hlt, hfound⟩ := List.getElem?_eq_some_iff.mp hfound
    exact ⟨found, List.mem_take_iff_getElem.mpr ⟨d, by omega, hfound⟩, hp⟩

/-- **The places reached are those that can be reached.** -/
theorem mem_reached_iff {p : κ} :
    p ∈ reached next places start ↔ ReflTransGen (fun a b ↦ b ∈ next a) start p := by
  rw [← exists_isDistance_iff, reached, ← ends, ends_flatten, List.mem_flatMap]
  constructor
  · rintro ⟨found, hfound, hp⟩
    obtain ⟨i, hfound⟩ := List.mem_iff_getElem?.mp hfound
    exact ⟨i, (exists_mem_layers_iff hclosed hstart).mp ⟨found, hfound, hp⟩⟩
  · rintro ⟨d, h⟩
    obtain ⟨found, hfound, hp⟩ := (exists_mem_layers_iff hclosed hstart).mpr h
    exact ⟨found, List.mem_of_getElem? hfound, hp⟩

theorem nodup_reached : (reached next places start).Nodup := by
  rw [reached, ← ends, ends_flatten, List.nodup_flatMap]
  constructor
  · intro found hfound
    obtain ⟨i, hfound⟩ := List.mem_iff_getElem?.mp hfound
    obtain ⟨left, hlayer⟩ := isLayer_of_getElem? hclosed hstart hfound
    exact hlayer.nodup_ends
  · -- a place of two layers would be at two distances
    refine List.pairwise_iff_getElem.mpr fun i j hi hj hlt p hpi hpj ↦ ?_
    have hdi := (exists_mem_layers_iff hclosed hstart).mp ⟨_, List.getElem?_eq_getElem hi, hpi⟩
    have hdj := (exists_mem_layers_iff hclosed hstart).mp ⟨_, List.getElem?_eq_getElem hj, hpj⟩
    exact absurd (hdi.eq hdj) (Nat.ne_of_lt hlt)

theorem exists_isWalk_of_path?_eq_some {path : List κ}
    (h : path? next places start stop = some path) :
    ∃ d, IsDistance next start stop d ∧ IsWalk next start stop d path := by
  obtain ⟨chain, hfind, rfl⟩ := Option.map_eq_some_iff.mp h
  obtain ⟨found, hfound, hchain⟩ := List.mem_flatten.mp (List.mem_of_find?_eq_some hfind)
  obtain ⟨i, hfound⟩ := List.mem_iff_getElem?.mp hfound
  have hstop := List.find?_some hfind
  obtain ⟨last, hlast, heq⟩ := (Option.any_eq_true ..).mp hstop
  rw [beq_iff_eq] at heq
  subst heq
  obtain ⟨left, hlayer⟩ := isLayer_of_getElem? hclosed hstart hfound
  exact ⟨i, (hlayer.mem_ends last).mp (mem_ends.mpr ⟨chain, hchain, hlast⟩),
    hlayer.isWalk chain hchain last hlast⟩

theorem isSome_path?_of_isDistance (h : IsDistance next start stop d) :
    (path? next places start stop).isSome := by
  obtain ⟨found, hfound, hstop⟩ := (exists_mem_layers_iff hclosed hstart).mpr h
  obtain ⟨chain, hchain, hlast⟩ := mem_ends.mp hstop
  rw [path?, Option.isSome_map, List.find?_isSome]
  refine ⟨chain, List.mem_flatten.mpr ⟨found, List.mem_of_getElem? hfound, hchain⟩, ?_⟩
  rw [hlast, Option.any_some, beq_self_eq_true]

/-- **The path that is found is a shortest one.** It has one place more than the distance between
its ends, and there is none only if there is no distance. -/
theorem map_length_path?_eq_some_iff {l : Nat} :
    (path? next places start stop).map List.length = some l ↔
      ∃ d, IsDistance next start stop d ∧ l = d + 1 := by
  constructor
  · intro h
    obtain ⟨path, hpath, rfl⟩ := Option.map_eq_some_iff.mp h
    obtain ⟨d, hdist, hwalk⟩ := exists_isWalk_of_path?_eq_some hclosed hstart hpath
    exact ⟨d, hdist, hwalk.length_eq⟩
  · rintro ⟨d, hdist, rfl⟩
    have hsome := isSome_path?_of_isDistance hclosed hstart hdist
    obtain ⟨path, hpath⟩ := Option.isSome_iff_exists.mp hsome
    obtain ⟨d', hdist', hwalk⟩ := exists_isWalk_of_path?_eq_some hclosed hstart hpath
    rw [hpath, Option.map_some, hwalk.length_eq, hdist'.eq hdist]

end Answers

end Lineage.BreadthFirst
