import Linework.Proofs.Continuation
import Linework.Proofs.Reach

/-! Lines that lead back from wherever they go on to.

A line may go on to a cell from which it does not lead back: one drawn against the side of another,
for instance. Where that happens nowhere, a line end has one way out at most, and lines go on just to
the cells joined by their ink.
-/

set_option autoImplicit false

namespace Linework

namespace Window

variable {w : Window}

theorem role?_of_isLineEnd (finish : w.isLineEnd) :
    w.role? = some .stub ∨ ∃ a, w.role? = some (.line a) := by
  cases stub : w.isStub with
  | true =>
    have plus : w.center = '+' := by
      by_contra other
      simp [isStub, Pattern.anyAccepts, Pattern.stubs, Pattern.accepts, Square.accepts,
        Slot.accepts, other] at stub
    have bare := crossroads?_of_isStub stub
    have junction := junction?_plus plus
    have corner := corner?_plus plus
    rw [bare] at junction corner
    have drawn : Glyph.isBlank w.center = false := by rw [plus]; decide
    refine .inl ?_
    simp [role?, drawn, junction, corner junction, line?_plus plus, stub]
  | false =>
    rw [isLineEnd, stub, Bool.false_or] at finish
    have line : Glyph.isLine w.center := by
      by_contra other
      rw [Glyph.isLine, Bool.or_eq_true, not_or] at other
      simp [Pattern.anyAccepts, Pattern.lineEnds, Pattern.accepts, Square.accepts, Slot.accepts,
        other] at finish
    obtain ⟨a, found⟩ := exists_line? line
    exact .inr ⟨a, role?_of_line? found⟩

end Window

namespace Grid

variable {g : Grid} {s : CellSet} {a b c n : Cell} {d : Direction} {next : List Cell}

def Goes (g : Grid) (c n : Cell) : Prop := ∃ next, g.continuations? c = some next ∧ n ∈ next

instance (g : Grid) : DecidableRel g.Goes := fun c n =>
  decidable_of_iff (∃ next ∈ g.continuations? c, n ∈ next) Iff.rfl

/-- Whether a line leads back from wherever it goes on to. -/
def TwoWay (g : Grid) : Prop := ∀ c n, g.Goes c n → g.Goes n c

theorem goes_iff (found : g.continuations? c = some next) : g.Goes c n ↔ n ∈ next := by
  simp [Goes, found]

theorem Goes.exists_step (goes : g.Goes c n) : ∃ d, n = c.step d := by
  obtain ⟨next, found, mem⟩ := goes
  exact exists_step_of_continuations? found mem

theorem Goes.ne (goes : g.Goes c n) : n ≠ c := by
  obtain ⟨d, rfl⟩ := goes.exists_step
  exact c.step_ne d

theorem Goes.mem (goes : (g.isolate s).Goes c n) : c ∈ s ∧ n ∈ s := by
  obtain ⟨next, found, mem⟩ := goes
  refine ⟨?_, mem_of_continuations? found mem⟩
  by_contra out
  have bare := role?_of_empty (empty_isolate_of_not_mem (g := g) out)
  simp [continuations?, bare] at found

theorem Goes.isChain_cons {cells : List Cell} (goes : g.Goes c n) (latest : cells.head? = some c)
    (along : cells.IsChain (flip g.Goes)) : (n :: cells).IsChain (flip g.Goes) := by
  refine List.isChain_cons.2 ⟨fun p found => ?_, along⟩
  rw [latest] at found
  cases found
  exact goes

theorem nodup_continuations (found : g.continuations? c = some next) : next.Nodup := by
  obtain ⟨r, -, on⟩ := runsOn_of_continuations? found
  cases on with
  | junction j => exact nodup_openNeighbors g c
  | corner k => exact nodup_map_step (Role.corner k).nodup_arms
  | line a => exact (nodup_map_step (Role.line a).nodup_arms).filter _
  | stub => cases List.find? g.isInked [c.east, c.west, c.north, c.south] <;> simp
  | crossing a => exact nodup_map_step (Role.crossing a).nodup_arms

/-- Where a line goes on to a neighbor, the cell holds a character that carries it there. -/
theorem Goes.runs (goes : g.Goes c (c.step d)) : Glyph.runs d (g.get c) := by
  obtain ⟨next, found, mem⟩ := goes
  obtain ⟨r, role, on⟩ := runsOn_of_continuations? found
  have shows := Window.shows_of_role? role
  have turn (bent : ∀ a, r ≠ .line a) (hollow : r ≠ .star) : Glyph.runs d (g.get c) := by
    have corner := shows.isCorner bent hollow
    rw [center_window] at corner
    exact Glyph.runs_of_isCorner corner d
  cases on with
  | line a =>
    obtain ⟨e, arm, same⟩ := List.mem_map.1 (List.mem_filter.1 mem).1
    rw [Cell.step_injective c same] at arm
    rwa [runs_of_line? shows, List.contains_iff_mem]
  | junction | corner | stub | crossing => exact turn (by simp) (by simp)

theorem TwoWay.of_cells (back : ∀ c ∈ s.toList, ∀ next ∈ (g.isolate s).continuations? c,
    ∀ n ∈ next, (g.isolate s).Goes n c) : (g.isolate s).TwoWay := by
  intro c n goes
  obtain ⟨next, found, mem⟩ := id goes
  exact back c goes.mem.1 next found n mem

theorem continuations?_of_isLineEnd (finish : g.isLineEnd c) :
    ∃ next, g.continuations? c = some next := by
  rw [isLineEnd] at finish
  rcases Window.role?_of_isLineEnd finish with stub | ⟨a, line⟩
  · exact ⟨_, by rw [continuations?, role?, stub]⟩
  · exact ⟨_, by rw [continuations?, role?, line]⟩

theorem Goes.hasArm (back : g.Goes (c.step d) c) : (g.window c).hasArm d := by
  have inward : g.Goes (c.step d) ((c.step d).step d.opposite) := by rwa [Cell.step_step_opposite]
  rw [hasArm_window, ← Glyph.runs_opposite]
  exact inward.runs

/-- There is one way at most out of a line end that leads back in. -/
theorem eq_of_isLineEnd (finish : g.isLineEnd c) (toA : g.Goes c a) (toB : g.Goes c b)
    (backA : g.Goes a c) (backB : g.Goes b c) : a = b := by
  rw [isLineEnd] at finish
  rcases Window.role?_of_isLineEnd finish with stub | ⟨axis, line⟩
  · obtain ⟨next, found, memA⟩ := toA
    rw [goes_iff found] at toB
    rw [continuations?, role?, stub, Option.some.injEq] at found
    rw [← found, Option.mem_toList] at memA toB
    exact Option.some.inj (memA.symm.trans toB)
  · obtain ⟨d, rfl⟩ := toA.exists_step
    obtain ⟨e, rfl⟩ := toB.exists_step
    have runsD := toA.runs
    have runsE := toB.runs
    have armD := backA.hasArm
    have armE := backB.hasArm
    have shows := Window.shows_of_role? line
    rw [runs_of_line? shows, List.contains_iff_mem] at runsD runsE
    rw [Window.isLineEnd_of_line? shows] at finish
    cases axis with
    | horizontal =>
      simp only [Axis.arms, List.mem_cons, List.not_mem_nil, or_false] at runsD runsE
      rcases runsD with rfl | rfl <;> rcases runsE with rfl | rfl <;> simp_all
    | vertical =>
      simp only [Axis.arms, List.mem_cons, List.not_mem_nil, or_false] at runsD runsE
      rcases runsD with rfl | rfl <;> rcases runsE with rfl | rfl <;> simp_all

def EndsTwoWay (g : Grid) : Prop := ∀ c n, g.isLineEnd c → (g.Goes c n ↔ g.Goes n c)

namespace TwoWay

variable (twoWay : g.TwoWay)
include twoWay

theorem ends : g.EndsTwoWay := fun c n _ => ⟨twoWay c n, twoWay n c⟩

theorem eq_of_isLineEnd (finish : g.isLineEnd c) (toA : g.Goes c a) (toB : g.Goes c b) : a = b :=
  Grid.eq_of_isLineEnd finish toA toB (twoWay _ _ toA) (twoWay _ _ toB)

theorem length_of_isLineEnd (finish : g.isLineEnd c) (found : g.continuations? c = some next) :
    next.length ≤ 1 := by
  match next, found with
  | [], _ => exact Nat.zero_le 1
  | [_], _ => exact Nat.le_refl 1
  | a :: b :: rest, found =>
    have same := twoWay.eq_of_isLineEnd finish ((goes_iff found).2 (List.mem_cons_self ..))
      ((goes_iff found).2 (List.mem_cons_of_mem a (List.mem_cons_self ..)))
    have nodup := nodup_continuations found
    simp [same] at nodup

end TwoWay

end Grid

end Linework
