import Linework.CellSet
import Linework.Proofs.Return

/-! The components of a set, and what of them a loop is.

A component grows from its first cell to all that can be reached from it over edges and corners. The
line around which the walk of a loop goes lies in one of them; whatever else the set holds is in the
same one only if it can be reached from there.
-/

set_option autoImplicit false

namespace Linework

namespace Cell

variable {c n : Cell}

theorem mem_surrounding : n ∈ c.surrounding ↔
    n ≠ c ∧ (n.x - c.x).natAbs ≤ 1 ∧ (n.y - c.y).natAbs ≤ 1 := by
  obtain ⟨x, y⟩ := c
  obtain ⟨u, v⟩ := n
  simp only [surrounding, northWest, north, northEast, west, east, southWest, south, southEast,
    step, translate, Direction.dx, Direction.dy, List.mem_cons, List.not_mem_nil, or_false, ne_eq,
    Cell.mk.injEq]
  omega

theorem step_mem_surrounding (c : Cell) (d : Direction) : c.step d ∈ c.surrounding := by
  rw [mem_surrounding]
  refine ⟨c.step_ne d, ?_⟩
  cases d <;> simp [Direction.dx, Direction.dy]

end Cell

namespace CellSet

variable {cells left others : List Cell} {seed c n : Cell} {w : Growth} {s t : CellSet}

def touching (cells : List Cell) : SimpleGraph Cell where
  Adj c n := (c ∈ cells ∧ n ∈ cells) ∧ n ∈ c.surrounding
  symm := ⟨fun c n ⟨both, near⟩ => ⟨both.symm, by
    rw [Cell.mem_surrounding] at near ⊢
    exact ⟨near.1.symm, by omega, by omega⟩⟩⟩
  loopless := ⟨fun _ ⟨_, near⟩ => (Cell.mem_surrounding.1 near).1 rfl⟩

namespace Growth

theorem perm_visit (w : Growth) (n : Cell) :
    ((w.visit n).rest ++ (w.visit n).found).Perm (w.rest ++ w.found) := by
  unfold visit
  split
  · rename_i here
    exact List.perm_middle.trans ((List.perm_cons_erase here).symm.append_right w.found)
  · exact List.Perm.refl _

theorem mem_found_visit : c ∈ (w.visit n).found ↔ c ∈ w.found ∨ c ∈ w.rest ∧ c = n := by
  unfold visit
  split
  · rename_i here
    simp only [List.mem_cons]
    constructor
    · rintro (rfl | old)
      · exact .inr ⟨here, rfl⟩
      · exact .inl old
    · rintro (old | ⟨-, rfl⟩)
      · exact .inr old
      · exact .inl rfl
  · rename_i out
    refine ⟨.inl, fun found => found.resolve_right ?_⟩
    rintro ⟨here, rfl⟩
    exact out here

theorem mem_rest_visit (differ : c ≠ n) : c ∈ (w.visit n).rest ↔ c ∈ w.rest := by
  unfold visit
  split
  · exact List.mem_erase_of_ne differ
  · rfl

theorem perm_foldl_visit (w : Growth) (ns : List Cell) :
    ((ns.foldl visit w).rest ++ (ns.foldl visit w).found).Perm (w.rest ++ w.found) := by
  induction ns generalizing w with
  | nil => exact List.Perm.refl _
  | cons n ns ih => exact (ih _).trans (perm_visit w n)

theorem mem_found_foldl_visit {ns : List Cell} :
    c ∈ (ns.foldl visit w).found ↔ c ∈ w.found ∨ c ∈ w.rest ∧ c ∈ ns := by
  induction ns generalizing w with
  | nil => simp
  | cons n ns ih =>
    rw [List.foldl_cons, ih, mem_found_visit, List.mem_cons]
    by_cases same : c = n
    · have kept : c ∈ (w.visit n).rest → c ∈ w.rest := fun left => by
        unfold visit at left
        split at left
        · exact List.mem_of_mem_erase left
        · exact left
      tauto
    · rw [mem_rest_visit same]
      tauto

end Growth

theorem mem_of_touching_reachable (reach : (touching cells).Reachable c n) (here : c ∈ cells) :
    n ∈ cells :=
  Grid.mem_of_reachable (fun a b _ (adj : (touching cells).Adj a b) => adj.1.2) reach here

/-- A component under way from its seed: it has met cells that can be reached, and all that touch the
cells it has left. -/
structure Growing (cells : List Cell) (seed : Cell) (w : Growth) (left : List Cell) : Prop where
  perm : (w.rest ++ (w.found ++ left)).Perm cells
  begun : seed ∈ w.found ++ left
  reached : ∀ c ∈ w.found ++ left, (touching cells).Reachable seed c
  closed : ∀ c ∈ left, ∀ n, (touching cells).Adj c n → n ∈ w.found ++ left

theorem Growing.step {found : List Cell} (growing : Growing cells seed ⟨others, c :: found⟩ left) :
    Growing cells seed (c.surrounding.foldl Growth.visit ⟨others, found⟩) (c :: left) := by
  -- The cells met before are met still; new are the neighbors of `c` that were left.
  have met (n : Cell) : n ∈ (c.surrounding.foldl Growth.visit ⟨others, found⟩).found ++ c :: left ↔
      n ∈ c :: found ++ left ∨ n ∈ others ∧ n ∈ c.surrounding := by
    simp only [List.mem_append, List.mem_cons, Growth.mem_found_foldl_visit]
    tauto
  have inside (n : Cell) : n ∈ cells ↔ n ∈ others ∨ n ∈ c :: found ++ left := by
    rw [← growing.perm.mem_iff, List.mem_append]
  refine ⟨?_, (met seed).2 (.inl growing.begun), fun n here => ?_, fun a here n adj => ?_⟩
  · have visited := (Growth.perm_foldl_visit ⟨others, found⟩ c.surrounding).append_right (c :: left)
    rw [List.append_assoc, List.append_assoc] at visited
    exact visited.trans ((List.perm_middle.append_left others).trans growing.perm)
  · rcases (met n).1 here with old | ⟨left', near⟩
    · exact growing.reached n old
    · have atC : c ∈ c :: found ++ left := List.mem_cons_self ..
      have adj : (touching cells).Adj c n := ⟨⟨(inside c).2 (.inr atC), (inside n).2 (.inl left')⟩, near⟩
      exact (growing.reached c atC).trans adj.reachable
  · rw [met]
    rcases List.mem_cons.1 here with rfl | here
    · rcases (inside n).1 adj.1.2 with left' | old
      · exact .inr ⟨left', adj.2⟩
      · exact .inl old
    · exact .inl (growing.closed a here n adj)

theorem Growing.start (seed : Cell) (others : List Cell) :
    Growing (seed :: others) seed ⟨others, [seed]⟩ [] :=
  ⟨List.perm_append_singleton seed others, by simp, by simp, by simp⟩

theorem Growing.run (growing : Growing cells seed w left) :
    ((w.run left).1 ++ (w.run left).2).Perm cells ∧
      ∀ c, c ∈ (w.run left).2 ↔ (touching cells).Reachable seed c := by
  fun_induction Growth.run w left with
  | case1 w left done =>
    obtain ⟨perm, begun, reached, closed⟩ := growing
    simp only [done, List.nil_append] at perm begun reached closed
    exact ⟨perm, fun c => ⟨reached c, fun reach =>
      Grid.mem_of_reachable (fun a b here adj => closed a here b adj) reach begun⟩⟩
  | case2 w left c found here ih =>
    refine ih (Growing.step ?_)
    rwa [← here]

def IsComponent (cells : List Cell) (seed : Cell) (t : CellSet) : Prop :=
  ∀ c, c ∈ t ↔ (touching cells).Reachable seed c

/-- Cells that cannot be reached from a seed are connected as they were. -/
theorem reachable_rest {rest : List Cell}
    (mem : ∀ c, c ∈ rest ↔ c ∈ cells ∧ ¬ (touching cells).Reachable seed c) (here : c ∈ rest) :
    (touching rest).Reachable c n ↔ (touching cells).Reachable c n := by
  constructor
  · refine fun reach => reach.mono fun a b adj => ?_
    obtain ⟨⟨memA, memB⟩, near⟩ : (touching rest).Adj a b := adj
    exact ⟨⟨((mem a).1 memA).1, ((mem b).1 memB).1⟩, near⟩
  · intro reach
    refine (Grid.mem_of_reachable (p := fun n => n ∈ rest ∧ (touching rest).Reachable c n) ?_ reach
      ⟨here, .refl c⟩).2
    rintro a b ⟨memA, reach⟩ adj
    have out : ¬ (touching cells).Reachable seed b := fun met =>
      ((mem a).1 memA).2 (met.trans adj.symm.reachable)
    have memB := (mem b).2 ⟨adj.1.2, out⟩
    have adj' : (touching rest).Adj a b := ⟨⟨memA, memB⟩, adj.2⟩
    exact ⟨memB, reach.trans adj'.reachable⟩

theorem run_start (nodup : (seed :: others).Nodup) :
    ((Growth.run ⟨others, [seed]⟩ []).1 ++ (Growth.run ⟨others, [seed]⟩ []).2).Perm
        (seed :: others) ∧
      (∀ c, c ∈ (Growth.run ⟨others, [seed]⟩ []).2 ↔ (touching (seed :: others)).Reachable seed c) ∧
      ∀ c, c ∈ (Growth.run ⟨others, [seed]⟩ []).1 ↔
        c ∈ seed :: others ∧ ¬ (touching (seed :: others)).Reachable seed c := by
  obtain ⟨perm, reach⟩ := (Growing.start seed others).run
  have apart := List.nodup_append.1 (perm.nodup_iff.2 nodup)
  refine ⟨perm, reach, fun c => ?_⟩
  rw [← reach, ← perm.mem_iff, List.mem_append]
  refine ⟨fun here => ⟨.inl here, fun there => apart.2.2 c here c there rfl⟩, ?_⟩
  exact fun either => either.1.resolve_right either.2

/-- The components of cells are all that can be reached from some of them; every cell is in one of
them, and no two have a cell in common. -/
theorem componentsAmong_spec (nodup : cells.Nodup) :
    (∀ t ∈ componentsAmong cells, ∃ seed ∈ cells, IsComponent cells seed t) ∧
      (∀ c ∈ cells, ∃ t ∈ componentsAmong cells, c ∈ t) ∧
      (componentsAmong cells).Pairwise fun s t => ∀ c ∈ s, c ∉ t := by
  fun_induction componentsAmong cells with
  | case1 => simp
  | case2 seed others grown ih =>
    obtain ⟨perm, reach, mem⟩ := run_start nodup
    have first : IsComponent (seed :: others) seed (ofList grown.2.reverse) := fun c => by
      rw [mem_ofList, List.mem_reverse, reach]
    obtain ⟨component, covered, pairwise⟩ := ih (perm.nodup_iff.2 nodup).of_append_left
    -- Nothing joins the rest to the first component, so those of the rest are components here.
    have later {t : CellSet} (there : t ∈ componentsAmong grown.1) :
        ∃ a ∈ grown.1, IsComponent (seed :: others) a t := by
      obtain ⟨a, left, is⟩ := component t there
      exact ⟨a, left, fun c => (is c).trans (reachable_rest mem left)⟩
    refine ⟨?_, fun c here => ?_, ?_⟩
    · refine List.forall_mem_cons.2 ⟨⟨seed, List.mem_cons_self .., first⟩, fun t there => ?_⟩
      obtain ⟨a, left, is⟩ := later there
      exact ⟨a, ((mem a).1 left).1, is⟩
    · by_cases met : (touching (seed :: others)).Reachable seed c
      · exact ⟨_, List.mem_cons_self .., (first c).2 met⟩
      · obtain ⟨t, there, inside⟩ := covered c ((mem c).2 ⟨here, met⟩)
        exact ⟨t, List.mem_cons_of_mem _ there, inside⟩
    · refine List.pairwise_cons.2 ⟨fun t there c here inside => ?_, pairwise⟩
      obtain ⟨a, left, is⟩ := later there
      exact ((mem a).1 left).2 (((first c).1 here).trans ((is c).1 inside).symm)

theorem exists_component (mem : c ∈ s) : ∃ t ∈ s.components, IsComponent s.toList c t := by
  obtain ⟨component, covered, -⟩ := componentsAmong_spec s.nodup
  obtain ⟨t, there, here⟩ := covered c mem
  obtain ⟨seed, -, is⟩ := component t there
  have met := (is c).1 here
  exact ⟨t, there, fun n => (is n).trans ⟨met.symm.trans, met.trans⟩⟩

/-- A set is a single component if all its cells can be reached from one of them. -/
theorem components_eq_singleton_iff (mem : c ∈ s) :
    (∃ t, s.components = [t] ∧ t.Same s) ↔ ∀ n ∈ s, (touching s.toList).Reachable c n := by
  obtain ⟨t, there, is⟩ := exists_component mem
  constructor
  · rintro ⟨u, only, same⟩ n here
    rw [only, List.mem_singleton] at there
    exact (is n).1 (there ▸ (same n).2 here)
  · intro reach
    obtain ⟨component, -, apart⟩ := componentsAmong_spec s.nodup
    -- Every component has a cell reached from `c` and so holds `c`; but components are disjoint.
    have all (u : CellSet) (inside : u ∈ s.components) : c ∈ u := by
      obtain ⟨seed, here, is'⟩ := component u inside
      exact (is' c).2 (reach seed here).symm
    have only : s.components = [t] := by
      have apart : s.components.Pairwise fun s t => ∀ c ∈ s, c ∉ t := apart
      match found : s.components, there with
      | first :: later, there =>
        rw [found] at all apart
        have none : later = [] := List.eq_nil_iff_forall_not_mem.2 fun u inside =>
          (List.pairwise_cons.1 apart).1 u inside c (all first (List.mem_cons_self ..))
            (all u (List.mem_cons_of_mem _ inside))
        rw [none, List.mem_singleton] at there
        rw [none, there]
    refine ⟨t, only, fun n => ⟨fun here => ?_, fun here => (is n).2 (reach n here)⟩⟩
    exact mem_of_touching_reachable ((is n).1 here) mem

end CellSet

namespace Outline

open Grid Circuit CellSet

variable {g : Grid} {s t : CellSet}

theorem touching_of_goes {c n : Cell} (goes : (g.isolate s).Goes c n) :
    (touching s.toList).Adj c n := by
  have both := goes.mem
  obtain ⟨d, rfl⟩ := goes.exists_step
  exact ⟨both, c.step_mem_surrounding d⟩

/-- The line around which the walk of a loop goes lies in one component. The loop is that component
alone if all else in it can be reached from there, as in a line without branches. -/
theorem components_of_loop (loop : form g s = .loop) :
    ∃ start first others path, start? (g.isolate s) s = some start ∧
      (g.isolate s).follow start none = .ok (first :: others) ∧
      Returns (g.isolate s) start start first path ∧
      (∃ t ∈ s.components, ∀ c ∈ start :: path, c ∈ t) ∧
      ((∃ t, s.components = [t] ∧ t.Same s) ↔ ∀ c ∈ s, (touching s.toList).Reachable start c) ∧
      (Single g s → ∃ t, s.components = [t] ∧ t.Same s) := by
  obtain ⟨start, first, others, path, found, followed, returns⟩ := exists_returns loop
  have mem := start?_mem found
  have goes := ((mem_of_follow followed).1 (List.mem_cons_self ..)).1
  have chain := (returns.isChain goes).imp fun _ _ goes => touching_of_goes goes
  obtain ⟨t, there, is⟩ := exists_component mem
  have whole := components_eq_singleton_iff mem
  refine ⟨start, first, others, path, found, followed, returns, ⟨t, there, fun c here => ?_⟩, whole,
    fun single => whole.2 fun c here => ?_⟩
  · exact (is c).2 (reachable_of_isChain chain (List.mem_append_left [start] here))
  · exact (single.connected start mem c here).mono fun a b (adj : (g.isolate s).stems.Adj a b) =>
      touching_of_goes adj.1.1

theorem components_of_loop_box :
    form Layout.box Layout.boxWalls = .loop ∧
      ∃ start first others path,
        start? (Layout.box.isolate Layout.boxWalls) Layout.boxWalls = some start ∧
        (Layout.box.isolate Layout.boxWalls).follow start none = .ok (first :: others) ∧
        Returns (Layout.box.isolate Layout.boxWalls) start start first path ∧
        (∃ t ∈ Layout.boxWalls.components, ∀ c ∈ start :: path, c ∈ t) ∧
        ((∃ t, Layout.boxWalls.components = [t] ∧ t.Same Layout.boxWalls) ↔
          ∀ c ∈ Layout.boxWalls, (touching Layout.boxWalls.toList).Reachable start c) ∧
        (Single Layout.box Layout.boxWalls →
          ∃ t, Layout.boxWalls.components = [t] ∧ t.Same Layout.boxWalls) :=
  have loop : form Layout.box Layout.boxWalls = .loop :=
    Layout.form_of_ring (by decide) Layout.boxWalls_ring
  ⟨loop, components_of_loop loop⟩

def besideDash : Grid :=
  ⟨5, 3, #['+', '-', '+', ' ', ' ', '|', ' ', '|', ' ', '-', '+', '-', '+', ' ', ' '], rfl⟩

/-- The walk around the box does not come to the dash, so the box and the dash together are a loop,
though the dash is a component of its own. -/
theorem besideDash_is_loop :
    form besideDash besideDash.written = .loop ∧
      ¬ ∃ t, besideDash.written.components = [t] ∧ t.Same besideDash.written := by
  refine ⟨form_eq_loop ⟨0, 0⟩
      [⟨0, 1⟩, ⟨0, 2⟩, ⟨1, 2⟩, ⟨2, 2⟩, ⟨2, 1⟩, ⟨2, 0⟩, ⟨1, 0⟩] ((blank 5 5).cells.map (·.translate 5 5)) (by decide)
      (by decide +kernel) (by decide +kernel) (by decide +kernel), ?_⟩
  rintro ⟨t, only, -⟩
  have two : besideDash.written.components.length = 2 := by decide +kernel
  rw [only] at two
  cases two

end Outline

end Linework
