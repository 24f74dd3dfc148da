import Mathlib.Data.List.Chain

/-!
# Closed walks

A closed walk along a relation is written as the list of its places, with the place that it starts
from once more at the end. So the shortest closed walk, along a loop, is a list of two. A cycle is a
closed walk that comes to no place twice.

Lists are what a search reports; paths as such are the transitive closure of the relation. The
lemmas here lead from one to the other, and to `not_acc_of_transGen`, by which a relation that is
well-founded at a place has no closed walk there.
-/

open Relation

namespace Lineage

variable {α : Type} {r s : α → α → Prop} {walk : List α}

/-- A walk of at least one step that ends where it starts. -/
structure IsClosedWalk (r : α → α → Prop) (walk : List α) : Prop where
  two_le_length : 2 ≤ walk.length
  head?_eq_getLast? : walk.head? = walk.getLast?
  chain : walk.IsChain r

/-- A closed walk without repeats other than its end. -/
structure IsSimpleCycle (r : α → α → Prop) (walk : List α) : Prop extends IsClosedWalk r walk where
  nodup_dropLast : walk.dropLast.Nodup

theorem rel_of_step (h : walk.IsChain r) {a b : α} (hstep : [a, b] <:+: walk) : r a b := by
  obtain ⟨front, rest, rfl⟩ := hstep
  have happend : front ++ [a, b] ++ rest = front ++ a :: b :: rest := by simp
  exact List.isChain_iff_forall_rel_of_append_cons_cons.mp h happend

theorem isChain_of_forall_step (h : ∀ a b, [a, b] <:+: walk → r a b) : walk.IsChain r := by
  refine List.isChain_iff_forall_rel_of_append_cons_cons.mpr fun a b l₁ l₂ heq ↦ ?_
  exact h a b ⟨l₁, l₂, by rw [heq]; simp⟩

namespace IsClosedWalk

theorem imp (h : IsClosedWalk r walk) (hs : ∀ a b, [a, b] <:+: walk → r a b → s a b) :
    IsClosedWalk s walk where
  two_le_length := h.two_le_length
  head?_eq_getLast? := h.head?_eq_getLast?
  chain := isChain_of_forall_step fun a b hstep ↦ hs a b hstep (rel_of_step h.chain hstep)

theorem exists_mem (h : IsClosedWalk r walk) : ∃ a, a ∈ walk :=
  List.exists_mem_of_length_pos (Nat.lt_of_lt_of_le Nat.two_pos h.two_le_length)

theorem reflTransGen (h : IsClosedWalk r walk) {a b : α} (ha : a ∈ walk) (hb : b ∈ walk) :
    ReflTransGen r a b := by
  have hne : walk ≠ [] := List.ne_nil_of_mem ha
  have hends : walk.head hne = walk.getLast hne := by
    have := h.head?_eq_getLast?
    rwa [List.head?_eq_some_head hne, List.getLast?_eq_some_getLast hne, Option.some_inj] at this
  have hto : ReflTransGen r a (walk.getLast hne) :=
    h.chain.backwards_induction (ReflTransGen r · (walk.getLast hne)) walk
      (fun _ _ hxy hy ↦ hy.head hxy) (fun _ ↦ ReflTransGen.refl) a ha
  have hfrom : ReflTransGen r (walk.head hne) b :=
    h.chain.induction (ReflTransGen r (walk.head hne) ·) walk
      (fun _ _ hxy hx ↦ hx.tail hxy) (fun _ ↦ ReflTransGen.refl) b hb
  exact hto.trans (hends ▸ hfrom)

theorem transGen (h : IsClosedWalk r walk) {k : α} (hk : k ∈ walk) : TransGen r k k := by
  obtain ⟨a, b, rest, rfl⟩ : ∃ a b rest, walk = a :: b :: rest := by
    match walk, h.two_le_length with
    | a :: b :: rest, _ => exact ⟨a, b, rest, rfl⟩
  have hab : r a b := h.chain.rel
  exact TransGen.trans_right (h.reflTransGen hk List.mem_cons_self)
    (TransGen.head' hab (h.reflTransGen (List.mem_cons_of_mem _ List.mem_cons_self) hk))

theorem mem_dropLast_iff (h : IsClosedWalk r walk) {a : α} : a ∈ walk.dropLast ↔ a ∈ walk := by
  refine ⟨fun ha ↦ List.dropLast_subset walk ha, fun ha ↦ ?_⟩
  match walk, h.two_le_length, h.head?_eq_getLast? with
  | c :: d :: rest, _, hends =>
    have hinit : (c :: d :: rest).dropLast ++ [c] = c :: d :: rest :=
      List.dropLast_append_getLast? c hends.symm
    rw [← hinit] at ha
    rcases List.mem_append.mp ha with ha | ha
    · exact ha
    · rw [List.mem_singleton.mp ha, List.dropLast_cons_cons]
      exact List.mem_cons_self

theorem three_le_length (h : IsClosedWalk r walk) {a b : α} (hstep : [a, b] <:+: walk)
    (hne : a ≠ b) : 3 ≤ walk.length := by
  by_contra hlength
  have htwo : [a, b] = walk := hstep.eq_of_length_le (by
    rw [List.length_cons, List.length_singleton]
    omega)
  have hends := h.head?_eq_getLast?
  rw [← htwo] at hends
  exact hne (Option.some_inj.mp hends)

theorem exists_rel (h : IsClosedWalk r walk) {a : α} (ha : a ∈ walk) : ∃ b, r a b := by
  obtain ⟨b, hab, -⟩ := TransGen.head'_iff.mp (h.transGen ha)
  exact ⟨b, hab⟩

end IsClosedWalk

namespace IsSimpleCycle

/-- A cycle through a step is that step and a path back from its end to its start. -/
theorem exists_path (h : IsSimpleCycle r walk) {a b : α} (hstep : [a, b] <:+: walk) :
    ∃ path : List α, path.IsChain r ∧ path.head? = some b ∧ path.getLast? = some a ∧
      path.Perm walk.dropLast := by
  obtain ⟨front, back, rfl⟩ := hstep
  have hne : front ++ [a] ≠ [] := by simp
  have hne' : b :: back ≠ [] := List.cons_ne_nil b back
  have hsplit : front ++ [a, b] ++ back = (front ++ [a]) ++ b :: back := by simp
  obtain ⟨hbefore, hafter, -⟩ := List.isChain_append.mp (hsplit ▸ h.chain)
  -- what comes after the step ends where what comes before it starts
  obtain ⟨place, hplace⟩ : ∃ place, (b :: back).getLast? = some place :=
    ⟨_, List.getLast?_eq_some_getLast hne'⟩
  have hhead : (front ++ [a]).head? = some place := by
    have hends := h.head?_eq_getLast?
    rwa [hsplit, List.head?_append_of_ne_nil _ hne, List.getLast?_append_of_ne_nil _ hne',
      hplace] at hends
  have hinit : (b :: back).dropLast ++ [place] = b :: back :=
    List.dropLast_append_getLast? place hplace
  refine ⟨(b :: back).dropLast ++ (front ++ [a]), ?_, ?_, ?_, ?_⟩
  · rw [← hinit, List.isChain_append] at hafter
    refine List.isChain_append.mpr ⟨hafter.1, hbefore, ?_⟩
    rw [hhead]
    exact hafter.2.2
  · have hfirst : ((b :: back).dropLast ++ [place]).head? = some b := by
      rw [hinit, List.head?_cons]
    rwa [List.head?_append, List.head?_singleton, ← hhead, ← List.head?_append] at hfirst
  · rw [List.getLast?_append_of_ne_nil _ hne, List.getLast?_concat]
  · rw [hsplit, List.dropLast_append_of_ne_nil hne']
    exact List.perm_append_comm

theorem ne_of_step (h : IsSimpleCycle r walk) (hlength : 3 ≤ walk.length) {a b : α}
    (hstep : [a, b] <:+: walk) : a ≠ b := by
  obtain ⟨path, -, hhead, hlast, hperm⟩ := h.exists_path hstep
  obtain ⟨rest, rfl⟩ := List.head?_eq_some_iff.mp hhead
  have hb : b ∉ rest := (List.nodup_cons.mp (hperm.nodup_iff.mpr h.nodup_dropLast)).1
  have hlong : 2 ≤ (b :: rest).length := by
    rw [hperm.length_eq, List.length_dropLast]
    omega
  rintro rfl
  cases rest with
  | nil => simp at hlong
  | cons c rest =>
    rw [List.getLast?_cons_cons] at hlast
    exact hb (List.mem_of_getLast? hlast)

end IsSimpleCycle

/-- A place that leads back to itself is on a closed walk. -/
theorem exists_isClosedWalk {k : α} (h : TransGen r k k) :
    ∃ walk, IsClosedWalk r walk ∧ k ∈ walk := by
  obtain ⟨b, hkb, hbk⟩ := TransGen.head'_iff.mp h
  obtain ⟨rest, hchain, hlast⟩ := List.exists_isChain_cons_of_relationReflTransGen hbk
  refine ⟨k :: b :: rest, ⟨by simp, ?_, hchain.cons_cons hkb⟩, List.mem_cons_self⟩
  rw [List.head?_cons, List.getLast?_cons_cons,
    List.getLast?_eq_some_getLast (List.cons_ne_nil _ _), hlast]

/-- A relation that is well-founded against its direction at a place has no closed walk there. -/
theorem not_acc_of_transGen {k : α} (h : TransGen r k k) : ¬Acc (Function.swap r) k := by
  intro hacc
  have hswap : Acc (TransGen (Function.swap r)) k := hacc.transGen
  have hk : TransGen (Function.swap r) k k := transGen_swap.mpr h
  clear h hacc
  induction hswap with
  | intro k _ ih => exact ih k hk hk

end Lineage
