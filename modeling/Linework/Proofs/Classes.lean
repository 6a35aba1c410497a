import Linework.Proofs.Component

/-! The components of a set as its classes.

A set comes apart into the classes of cells that can be reached from one another. Each class starts
with the cell of it that the set has first, and the classes come in the order of these cells. Which
cell is found next depends on which cells there are and not on their order, so a class is its own
only class, with its cells in the same order.
-/

set_option autoImplicit false

namespace Linework.CellSet

variable {cells left others : List Cell} {seed c n : Cell} {v w : Growth} {s t : CellSet}

namespace Growth

theorem run_nil (rest left : List Cell) : run ⟨rest, []⟩ left = (rest, left) := by
  rw [run]

theorem run_cons (rest found left : List Cell) (c : Cell) :
    run ⟨rest, c :: found⟩ left
      = run (c.surrounding.foldl visit ⟨rest, found⟩) (c :: left) := by
  rw [run]

theorem rest_visit_sublist (w : Growth) (n : Cell) : (w.visit n).rest.Sublist w.rest := by
  unfold visit
  split
  · exact List.erase_sublist
  · exact List.Sublist.refl _

theorem rest_foldl_visit_sublist (w : Growth) (ns : List Cell) :
    (ns.foldl visit w).rest.Sublist w.rest := by
  induction ns generalizing w with
  | nil => exact List.Sublist.refl _
  | cons n ns ih => exact (ih (w.visit n)).trans (rest_visit_sublist w n)

theorem rest_run_sublist (w : Growth) (left : List Cell) : (w.run left).1.Sublist w.rest := by
  fun_induction run w left with
  | case1 => exact List.Sublist.refl _
  | case2 w left c found here ih => exact ih.trans (rest_foldl_visit_sublist ..)

theorem suffix_run (w : Growth) (left : List Cell) : left <:+ (w.run left).2 := by
  fun_induction run w left with
  | case1 => exact List.suffix_refl _
  | case2 w left c found here ih => exact (List.suffix_cons c left).trans ih

end Growth

/-- Two components under way that have found the same cells, where the first has only those cells
ahead that can be reached from the seed. -/
structure Abreast (cells : List Cell) (seed : Cell) (v w : Growth) : Prop where
  found : v.found = w.found
  nodup : v.rest.Nodup ∧ w.rest.Nodup
  rest : ∀ c, c ∈ v.rest ↔ c ∈ w.rest ∧ (touching cells).Reachable seed c

namespace Abreast

theorem visit (abreast : Abreast cells seed v w)
    (reach : n ∈ w.rest → (touching cells).Reachable seed n) :
    Abreast cells seed (v.visit n) (w.visit n) := by
  obtain ⟨found, nodup, rest⟩ := abreast
  by_cases here : n ∈ w.rest
  · have there : n ∈ v.rest := (rest n).2 ⟨here, reach here⟩
    rw [Growth.visit, Growth.visit, if_pos here, if_pos there]
    refine ⟨congrArg (n :: ·) found, ⟨nodup.1.erase n, nodup.2.erase n⟩, fun c => ?_⟩
    simp only [nodup.1.mem_erase_iff, nodup.2.mem_erase_iff, rest, and_assoc]
  · have out : n ∉ v.rest := fun there => here ((rest n).1 there).1
    rw [Growth.visit, Growth.visit, if_neg here, if_neg out]
    exact ⟨found, nodup, rest⟩

theorem foldl {ns : List Cell} (abreast : Abreast cells seed v w)
    (reach : ∀ n ∈ ns, n ∈ w.rest → (touching cells).Reachable seed n) :
    Abreast cells seed (ns.foldl Growth.visit v) (ns.foldl Growth.visit w) := by
  induction ns generalizing v w with
  | nil => exact abreast
  | cons n ns ih =>
    obtain ⟨first, later⟩ := List.forall_mem_cons.1 reach
    apply ih (abreast.visit first)
    intro m mem here
    exact later m mem ((Growth.rest_visit_sublist w n).subset here)

/-- They leave the same cells in the same order. -/
theorem run (abreast : Abreast cells seed v w) (growing : Growing cells seed w left) :
    (v.run left).2 = (w.run left).2 := by
  fun_induction Growth.run w left generalizing v with
  | case1 w left done =>
    obtain ⟨rest, found⟩ := v
    obtain rfl : found = [] := abreast.found.trans done
    rw [Growth.run_nil]
  | case2 w left c found here ih =>
    obtain ⟨rest, found'⟩ := v
    obtain rfl : found' = c :: found := abreast.found.trans here
    rw [Growth.run_cons]
    have growing : Growing cells seed ⟨w.rest, c :: found⟩ left := by rwa [← here]
    refine ih (Abreast.foldl ⟨rfl, abreast.nodup, abreast.rest⟩ ?_) growing.step
    -- Whatever the cell left touches can be reached through it.
    intro n near ahead
    have atC : c ∈ (c :: found) ++ left := List.mem_cons_self ..
    have inside {a : Cell} (mem : a ∈ w.rest ++ ((c :: found) ++ left)) : a ∈ cells :=
      growing.perm.mem_iff.1 mem
    have adj : (touching cells).Adj c n :=
      ⟨⟨inside (List.mem_append_right _ atC), inside (List.mem_append_left _ ahead)⟩, near⟩
    exact (growing.reached c atC).trans adj.reachable

end Abreast

structure IsLed (cells : List Cell) (seed : Cell) (t : CellSet) : Prop where
  mem : seed ∈ cells
  starts : t.first? = some seed
  component : IsComponent cells seed t
  first : ∀ c ∈ t, c ≠ seed → [seed, c].Sublist cells

/-- A component of the cells that cannot be reached from a seed is a component of all. -/
theorem IsLed.lift {rest : List Cell} {a : Cell} (led : IsLed rest a t)
    (sublist : rest.Sublist cells)
    (mem : ∀ c, c ∈ rest ↔ c ∈ cells ∧ ¬ (touching cells).Reachable seed c) :
    IsLed cells a t where
  mem := sublist.subset led.mem
  starts := led.starts
  component c := (led.component c).trans (reachable_rest mem led.mem)
  first c there differ := (led.first c there differ).trans sublist

theorem toList_start (nodup : (seed :: others).Nodup) :
    ∃ later, (Growth.run ⟨others, [seed]⟩ []).2.reverse = seed :: later ∧
      (ofList (Growth.run ⟨others, [seed]⟩ []).2.reverse).toList = seed :: later := by
  obtain ⟨perm, -, -⟩ := run_start nodup
  have all := (perm.nodup_iff.2 nodup).of_append_right
  have suffix := Growth.suffix_run (seed.surrounding.foldl Growth.visit ⟨others, []⟩) [seed]
  rw [← Growth.run_cons] at suffix
  obtain ⟨later, left⟩ := suffix
  have starts : (Growth.run ⟨others, [seed]⟩ []).2.reverse = seed :: later.reverse := by
    rw [← left, List.reverse_append, List.reverse_singleton, List.singleton_append]
  exact ⟨later.reverse, starts, by rw [toList_ofList (List.nodup_reverse.2 all), starts]⟩

/-- The components come in the order of the cells they start with. -/
theorem componentsAmong_led (nodup : cells.Nodup) :
    ∃ seeds, seeds.Sublist cells ∧ List.Forall₂ (IsLed cells) seeds (componentsAmong cells) := by
  fun_induction componentsAmong cells with
  | case1 => exact ⟨[], List.Sublist.refl _, .nil⟩
  | case2 seed others grown ih =>
    obtain ⟨perm, reach, mem⟩ := run_start nodup
    obtain ⟨later, starts, list⟩ := toList_start nodup
    have rest : grown.1.Sublist others := Growth.rest_run_sublist ⟨others, [seed]⟩ []
    have component : IsComponent (seed :: others) seed (ofList grown.2.reverse) := fun c => by
      rw [mem_ofList, List.mem_reverse, reach]
    obtain ⟨seeds, sublist, led⟩ := ih (perm.nodup_iff.2 nodup).of_append_left
    refine ⟨seed :: seeds, (sublist.trans rest).cons_cons seed, .cons ?_ ?_⟩
    · refine ⟨List.mem_cons_self .., congrArg List.head? list, component, fun c there differ => ?_⟩
      have inside : c ∈ seed :: others :=
        mem_of_touching_reachable ((component c).1 there) (List.mem_cons_self ..)
      exact (List.singleton_sublist.2 (List.mem_of_ne_of_mem differ inside)).cons_cons seed
    · exact led.imp fun _ _ led => led.lift (rest.trans (List.sublist_cons_self ..)) mem

/-- A component comes apart into itself alone. -/
theorem components_of_component (nodup : cells.Nodup) (there : t ∈ componentsAmong cells) :
    t.components = [t] := by
  fun_induction componentsAmong cells with
  | case1 => cases there
  | case2 seed others grown ih =>
    obtain ⟨perm, reach, mem⟩ := run_start nodup
    rcases List.mem_cons.1 there with rfl | there
    · obtain ⟨later, starts, list⟩ := toList_start nodup
      have once : (seed :: later).Nodup := list ▸ CellSet.nodup _
      have met (c : Cell) : c ∈ seed :: later ↔ (touching (seed :: others)).Reachable seed c := by
        rw [← starts, List.mem_reverse, reach]
      have abreast : Abreast (seed :: others) seed ⟨later, [seed]⟩ ⟨others, [seed]⟩ := by
        refine ⟨rfl, ⟨once.of_cons, nodup.of_cons⟩, fun c => ?_⟩
        have inside : (touching (seed :: others)).Reachable seed c → c ∈ seed :: others :=
          fun met => mem_of_touching_reachable met (List.mem_cons_self ..)
        have apart : c = seed → c ∉ later ∧ c ∉ others := by
          rintro rfl
          exact ⟨(List.nodup_cons.1 once).1, (List.nodup_cons.1 nodup).1⟩
        simp only [List.mem_cons] at met inside
        have met := met c
        tauto
      have same := abreast.run (Growing.start seed others)
      -- All cells of the component are met again, so none is left over.
      have none : (Growth.run ⟨later, [seed]⟩ []).1 = [] := by
        have count := (run_start once).1.length_eq
        rw [List.length_append, same, ← starts, List.length_reverse] at count
        exact List.length_eq_zero_iff.1 (by omega)
      rw [components, list, componentsAmong, same, none, componentsAmong]
    · exact ih (perm.nodup_iff.2 nodup).of_append_left there

/-- The components of a set are its classes under paths from cell to cell over edges and corners:
each starts with its first cell in the set, they come in the order of these cells and share no
cell, all cells are in them, and each comes apart into itself alone. -/
theorem components_are_classes (s : CellSet) :
    (∃ seeds, seeds.Sublist s.toList ∧ List.Forall₂ (IsLed s.toList) seeds s.components) ∧
      (∀ c, c ∈ s ↔ ∃ t ∈ s.components, c ∈ t) ∧
      (s.components.Pairwise fun t u => ∀ c ∈ t, c ∉ u) ∧
      ∀ t ∈ s.components, t.components = [t] := by
  obtain ⟨component, covered, apart⟩ := componentsAmong_spec s.nodup
  refine ⟨componentsAmong_led s.nodup, fun c => ⟨covered c, ?_⟩, apart, fun t there =>
    components_of_component s.nodup there⟩
  rintro ⟨t, there, inside⟩
  obtain ⟨seed, here, is⟩ := component t there
  exact mem_of_touching_reachable ((is c).1 inside) here

end Linework.CellSet
