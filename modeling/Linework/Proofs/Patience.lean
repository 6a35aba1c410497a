import Linework.Proofs.Polygon

/-! How long a walk may take before it is given up.

Where a walk goes on to is settled by the cell it is at and the cell it came from. A walk that comes
back to its start is therefore never twice at one cell from the same side, and there are four sides to
each cell. So a walk that is still on its way after that many steps goes around elsewhere, for ever.
-/

set_option autoImplicit false

namespace Linework

theorem Layout.loop?_of_few {g : Grid} {s : CellSet} (l : Layout) (few : ¬ 1 < s.size) :
    l.loop? g s = .ok none := by
  rw [loop?, loopVertices?]
  cases s.first? with
  | none => rfl
  | some start =>
    simp only [if_pos (Nat.lt_succ_of_le (Nat.not_lt.1 few))]
    rfl

namespace Circuit

open Grid Outline

variable {g : Grid} {s : CellSet} {start previous current first p c : Cell}
  {path path' cells others : List Cell} {limit : Nat}

def steps (previous : Cell) (path : List Cell) : List (Cell × Cell) := (previous :: path).zip path

theorem steps_cons : steps previous (current :: path) = (previous, current) :: steps current path :=
  rfl

theorem length_steps (previous : Cell) (path : List Cell) :
    (steps previous path).length = path.length := by
  simp [steps]

def sides (cells : List Cell) : List (Cell × Cell) :=
  cells.flatMap fun c => c.orthogonal.map fun p => (p, c)

theorem length_sides (cells : List Cell) : (sides cells).length = cells.length * 4 := by
  simp [sides, List.length_flatMap, Cell.orthogonal]

theorem mem_sides (here : c ∈ cells) (near : p ∈ c.orthogonal) : (p, c) ∈ sides cells :=
  List.mem_flatMap.2 ⟨c, here, List.mem_map_of_mem near⟩

def Closes (g : Grid) (start : Cell) (cells : List Cell) : Prop :=
  ∃ first others, g.follow start none = .ok (first :: others) ∧
    Returns g start start first cells

namespace Returns

/-- There is only one way back. -/
theorem unique (returns : Returns g start previous current path)
    (again : Returns g start previous current path') : path = path' := by
  induction returns generalizing path' with
  | home =>
    cases again with
    | home => rfl
    | on away => exact absurd rfl away
  | @on previous current next path away followed returns ih =>
    cases again with
    | home => exact absurd rfl away
    | on _ followed' again =>
      cases followed.symm.trans followed'
      rw [ih again]

theorem of_mem_steps (returns : Returns g start previous current path)
    (step : (p, c) ∈ steps previous path) :
    ∃ later, Returns g start p c later ∧ later.length ≤ path.length := by
  induction returns with
  | home => cases step
  | @on previous current next path away followed returns ih =>
    rw [steps_cons, List.mem_cons] at step
    rcases step with same | step
    · obtain ⟨rfl, rfl⟩ := Prod.mk.inj same
      exact ⟨c :: path, .on away followed returns, Nat.le_refl _⟩
    · obtain ⟨later, comes, short⟩ := ih step
      exact ⟨later, comes, Nat.le_succ_of_le short⟩

/-- No step is taken twice: the rest of the walk would be the same from both. -/
theorem nodup_steps (returns : Returns g start previous current path) :
    (steps previous path).Nodup := by
  induction returns with
  | home => exact List.nodup_nil
  | @on previous current next path away followed returns ih =>
    rw [steps_cons, List.nodup_cons]
    refine ⟨fun again => ?_, ih⟩
    obtain ⟨later, comes, short⟩ := returns.of_mem_steps again
    obtain rfl := comes.unique (.on away followed returns)
    exact absurd short (Nat.not_succ_le_self _)

theorem of_step (returns : Returns g start previous current path) (goes : g.Goes previous current)
    (step : (p, c) ∈ steps previous path) : g.Goes p c ∧ c ≠ start := by
  induction returns with
  | home => cases step
  | @on previous current next path away followed returns ih =>
    rw [steps_cons, List.mem_cons] at step
    rcases step with same | step
    · cases same
      exact ⟨goes, away⟩
    · exact ih ((mem_of_follow followed).1 (List.mem_singleton_self next)).1 step

/-- A walk through a set comes back before its patience runs out. -/
theorem length_lt_patience (returns : Returns (g.isolate s) start start first path)
    (goes : (g.isolate s).Goes start first) : path.length < patience s := by
  have within : steps start path ⊆ sides (s.toList.erase start) := by
    rintro ⟨p, c⟩ step
    obtain ⟨along, away⟩ := returns.of_step goes step
    obtain ⟨d, rfl⟩ := along.exists_step
    have back : p ∈ (p.step d).orthogonal :=
      Cell.mem_orthogonal.2 ⟨d.opposite, (p.step_step_opposite d).symm⟩
    exact mem_sides (s.nodup.mem_erase_iff.2 ⟨away, along.mem.2⟩) back
  calc path.length = (steps start path).length := (length_steps start path).symm
    _ ≤ (sides (s.toList.erase start)).length :=
      (List.subperm_of_subset returns.nodup_steps within).length_le
    _ = (s.toList.erase start).length * 4 := length_sides _
    _ < patience s := Nat.mul_lt_mul_of_pos_right (CellSet.length_erase_lt goes.mem.1) (by decide)

end Returns

theorem closes_of_walk (walked : walk g start limit = .ok (.closed cells)) : Closes g start cells := by
  obtain ⟨first, others, followed, returns, -⟩ := walk_eq_closed_iff.1 walked
  exact ⟨first, others, followed, returns⟩

theorem walk_patience_iff :
    walk (g.isolate s) start (patience s) = .ok (.closed cells) ↔ Closes (g.isolate s) start cells := by
  refine ⟨closes_of_walk, ?_⟩
  rintro ⟨first, others, followed, returns⟩
  have goes := ((mem_of_follow followed).1 (List.mem_cons_self ..)).1
  exact walk_eq_closed_iff.2 ⟨first, others, followed, returns, returns.length_lt_patience goes⟩

/-- That a walk is given up never changes what comes of it: within its patience it comes back just if
it ever does, so a set is a loop, and is drawn as one, just if a walk without a limit would close. A
walk that was given up closes with no limit. -/
theorem closes_within_patience (g : Grid) (s : CellSet) :
    (∀ start cells, walk (g.isolate s) start (patience s) = .ok (.closed cells) ↔
        Closes (g.isolate s) start cells) ∧
      (form g s = .loop ↔ 1 < s.size ∧ encloses g s = .ok true ∧
        ∃ start cells, start? (g.isolate s) s = some start ∧ Closes (g.isolate s) start cells) ∧
      (∀ l : Layout, (∃ shape, l.loop? g s = .ok (some shape)) ↔ 1 < s.size ∧
        ∃ start cells, s.first? = some start ∧ Closes (g.isolate s) start cells) ∧
      ∀ start, walk (g.isolate s) start (patience s) = .ok .unfinished →
        ∀ limit cells, walk (g.isolate s) start limit ≠ .ok (.closed cells) := by
  refine ⟨fun start cells => walk_patience_iff, ?form, fun l => ?drawn, ?given⟩
  case form => simp only [form_eq_loop_iff, walk_patience_iff]
  case drawn =>
    by_cases large : 1 < s.size
    · simp only [Layout.exists_loop?_iff l large, walk_patience_iff, large, true_and]
    · simp [Layout.loop?_of_few l large, large]
  case given =>
    intro start stopped limit cells walked
    cases stopped.symm.trans (walk_patience_iff.2 (closes_of_walk walked))

def whirl : Grid := ⟨4, 3, #['+', '-', '|', '-', '|', ' ', '|', ' ', '+', '-', '+', ' '], rfl⟩

theorem closes_within_patience_whirl :
    walk (whirl.isolate whirl.written) ⟨3, 0⟩ (patience whirl.written) = .ok .unfinished ∧
      ∀ limit cells, walk (whirl.isolate whirl.written) ⟨3, 0⟩ limit ≠ .ok (.closed cells) :=
  have stopped : walk (whirl.isolate whirl.written) ⟨3, 0⟩ (patience whirl.written)
      = .ok .unfinished := by decide +kernel
  ⟨stopped, (closes_within_patience whirl whirl.written).2.2.2 ⟨3, 0⟩ stopped⟩

end Circuit

end Linework
