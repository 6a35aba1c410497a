import Linework.Proofs.Ruling
import Linework.Proofs.Survey
import Linework.Proofs.Tiling

/-! Drawings of tables.

A table is drawn with a plus sign wherever two lines cross. Each of its lines goes from the first
line across it to the last, so a line carries on from a cell just where it runs through both cells.
-/

set_option autoImplicit false

namespace Linework

structure Table where
  columns : Ruling
  rows : Ruling

namespace Table

variable {t : Table} {c : Cell} {d : Direction}

def char (t : Table) (c : Cell) : Char :=
  if t.rows.Rules c.y ∧ t.columns.Rules c.x then '+'
  else if t.rows.Rules c.y ∧ t.columns.Spans c.x then '-'
  else if t.columns.Rules c.x ∧ t.rows.Spans c.y then '|'
  else Glyph.blank

def grid (t : Table) : Grid := .tabulate t.columns.size t.rows.size t.char

def Runs (t : Table) (d : Direction) (c : Cell) : Prop :=
  if d.isHorizontal then t.rows.Rules c.y ∧ t.columns.Spans c.x
  else t.columns.Rules c.x ∧ t.rows.Spans c.y

instance (t : Table) (d : Direction) : DecidablePred (t.Runs d) := fun c => by
  unfold Runs
  infer_instance

def Lined (t : Table) (c : Cell) : Prop := ∃ d, t.Runs d c

theorem lined_iff : t.Lined c ↔
    t.rows.Rules c.y ∧ t.columns.Spans c.x ∨ t.columns.Rules c.x ∧ t.rows.Spans c.y := by
  constructor
  · rintro ⟨d, runs⟩
    cases d with
    | north | south => exact .inr runs
    | east | west => exact .inl runs
  · rintro (level | upright)
    · exact ⟨.east, level⟩
    · exact ⟨.south, upright⟩

theorem mem_grid (horizontal : t.columns.Spans c.x) (vertical : t.rows.Spans c.y) : c ∈ t.grid := by
  have column := horizontal.bounds
  have row := vertical.bounds
  simp only [Grid.mem_def, grid, Grid.tabulate]
  omega

theorem Runs.mem_grid (runs : t.Runs d c) : c ∈ t.grid := by
  unfold Runs at runs
  split at runs
  · exact Table.mem_grid runs.2 runs.1.spans
  · exact Table.mem_grid runs.1.spans runs.2

theorem char_eq (t : Table) (c : Cell) : t.char c =
    if t.Runs .east c then if t.Runs .south c then '+' else '-'
    else if t.Runs .south c then '|' else Glyph.blank := by
  have columns := @Ruling.Rules.spans t.columns c.x
  have rows := @Ruling.Rules.spans t.rows c.y
  simp only [char, Runs, Direction.isHorizontal, Bool.false_eq_true, reduceIte]
  split_ifs <;> tauto

theorem runs_char (d : Direction) (c : Cell) : Glyph.runs d (t.char c) ↔ t.Runs d c := by
  have along : t.Runs d c ↔ t.Runs (if d.isHorizontal then .east else .south) c := by
    cases d <;> rfl
  have same : Glyph.runs d (t.char c)
      = Glyph.runs (if d.isHorizontal then .east else .south) (t.char c) := by
    cases d <;> rfl
  rw [along, same, char_eq]
  split_ifs <;> simp_all <;> decide

theorem runs_get (t : Table) (d : Direction) (c : Cell) :
    Glyph.runs d (t.grid.get c) ↔ t.Runs d c := by
  by_cases inside : c ∈ t.grid
  · rw [grid, Grid.get_tabulate inside, runs_char]
  · rw [Grid.not_runs_of_empty (.inr (Grid.get_of_not_mem inside))]
    exact iff_of_false Bool.false_ne_true fun runs : t.Runs d c => inside runs.mem_grid

example : (grid ⟨⟨1, [1, 2], 1, by decide, by decide, by decide⟩,
      ⟨1, [1], 2, by decide, by decide, by decide⟩⟩).lines =
    ["        ",
     " +-+--+ ",
     " | |  | ",
     " +-+--+ ",
     "        ",
     "        "] := by decide +kernel

theorem get_of_runs (runs : t.Runs d c) : t.grid.get c = t.char c := Grid.get_tabulate runs.mem_grid

theorem empty_of_not_lined (clear : ¬ t.Lined c) : t.grid.Empty c := by
  rw [Lined, not_exists] at clear
  by_cases inside : c ∈ t.grid
  · left
    rw [grid, Grid.get_tabulate inside, char_eq, if_neg (clear _), if_neg (clear _)]
  · exact .inr (Grid.get_of_not_mem inside)

theorem isPlain_of_runs (runs : t.Runs d c) : Glyph.isPlain (t.grid.get c) := by
  have drawn : t.Runs .east c ∨ t.Runs .south c := lined_iff.1 ⟨d, runs⟩
  rw [get_of_runs runs, char_eq]
  split_ifs with level upright upright
  · decide
  · decide
  · decide
  · exact absurd drawn (by simp [level, upright])

theorem get_eq_plus (plus : t.grid.get c = '+') : t.Runs .east c ∧ t.Runs .south c := by
  have along (d : Direction) : t.Runs d c := by
    rw [← runs_get, plus]
    exact Grid.runs_plus d
  exact ⟨along _, along _⟩

theorem Runs.step (runs : t.Runs d c) :
    t.Runs d (c.step d) ∨ t.Runs d.opposite (c.step d.opposite) := by
  cases d <;> simp only [Runs, Direction.isHorizontal, Direction.opposite, Bool.false_eq_true,
    reduceIte, Cell.step_x, Cell.step_y, Direction.dx, Direction.dy, Int.add_zero] at runs ⊢
  · exact (runs.2.step.imp (⟨runs.1, ·⟩) (⟨runs.1, ·⟩)).symm
  · exact runs.2.step.imp (⟨runs.1, ·⟩) (⟨runs.1, ·⟩)
  · exact runs.2.step.imp (⟨runs.1, ·⟩) (⟨runs.1, ·⟩)
  · exact (runs.2.step.imp (⟨runs.1, ·⟩) (⟨runs.1, ·⟩)).symm

theorem hasArm (t : Table) (c : Cell) (d : Direction) :
    (t.grid.window c).hasArm d = decide (t.Runs d (c.step d)) := by
  rw [Grid.hasArm_window, Bool.eq_iff_iff, runs_get, decide_eq_true_eq]

theorem crossroads (plus : t.grid.get c = '+') : ∃ r, (t.grid.window c).crossroads? = some r ∧
    ((∃ j, r = .junction j) ∨ ∃ k, r = .corner k) := by
  obtain ⟨level, upright⟩ := get_eq_plus plus
  have sides := level.step
  have ends := upright.step
  simp only [Direction.opposite] at sides ends
  rw [Window.crossroads?, hasArm, hasArm, hasArm, hasArm]
  by_cases north : t.Runs .north (c.step .north) <;> by_cases east : t.Runs .east (c.step .east) <;>
    by_cases south : t.Runs .south (c.step .south) <;>
    by_cases west : t.Runs .west (c.step .west) <;>
    simp_all [Role.ofArms?]

theorem plain (t : Table) : t.grid.Plain where
  empty_or_plain c := by
    by_cases lined : t.Lined c
    · obtain ⟨d, runs⟩ := lined
      exact .inr (isPlain_of_runs runs)
    · exact .inl (empty_of_not_lined lined)
  plus_joins c plus := by
    obtain ⟨r, found, -⟩ := crossroads plus
    exact ⟨r, found⟩

theorem mem_joints_iff : d ∈ t.grid.joints c ↔ t.Runs d c ∧ t.Runs d (c.step d) := by
  rw [t.plain.mem_joints_iff, runs_get, runs_get]

/-- No ink comes to a side at which a line does not go on. -/
theorem inksSide_iff : t.grid.inksSide c d ↔ t.Runs d c ∧ t.Runs d (c.step d) := by
  refine ⟨fun inked => ?_, fun both => (Grid.mem_joints.1 (mem_joints_iff.2 both)).1⟩
  have runs : t.Runs d c := (runs_get t d c).1 (t.plain.runs_of_inksSide inked)
  refine ⟨runs, ?_⟩
  rcases Glyph.line_or_plus (isPlain_of_runs runs) with line | plus
  · -- A line character stands off the lines that cross its own.
    have across (both : t.Runs .east c ∧ t.Runs .south c) : False := by
      rw [get_of_runs runs, char_eq, if_pos both.1, if_pos both.2] at line
      exact absurd line (by decide)
    have level (runs : t.rows.Rules c.y ∧ t.columns.Spans c.x) : ¬ t.columns.Rules c.x :=
      fun rules => across ⟨runs, rules, runs.1.spans⟩
    have upright (runs : t.columns.Rules c.x ∧ t.rows.Spans c.y) : ¬ t.rows.Rules c.y :=
      fun rules => across ⟨⟨rules, runs.1.spans⟩, runs⟩
    cases d <;> simp only [Runs, Direction.isHorizontal, Bool.false_eq_true, reduceIte, Cell.step_x,
      Cell.step_y, Direction.dx, Direction.dy, Int.add_zero] at runs ⊢
    · exact ⟨runs.1, (runs.2.both (upright runs)).2⟩
    · exact ⟨runs.1, (runs.2.both (level runs)).1⟩
    · exact ⟨runs.1, (runs.2.both (upright runs)).1⟩
    · exact ⟨runs.1, (runs.2.both (level runs)).2⟩
  · obtain ⟨r, found, kind⟩ := crossroads plus
    have role := Window.role?_plus (by rw [Grid.center_window, plus]) found
    have arms := Window.mem_arms_crossroads found d
    rw [hasArm, decide_eq_true_eq] at arms
    rw [← arms]
    rw [Grid.inksSide, Grid.role?, role] at inked
    rcases kind with ⟨j, rfl⟩ | ⟨k, rfl⟩
    · simpa [Ink.ofRole?, Role.arms] using inked
    · simpa [Ink.ofRole?, Role.arms] using inked

/-! ### One piece -/

theorem Lined.exists_joint (lined : t.Lined c) : ∃ d, d ∈ t.grid.joints c := by
  obtain ⟨d, runs⟩ := lined
  have back : t.Runs d.opposite c := by cases d <;> exact runs
  rcases runs.step with next | next
  · exact ⟨d, mem_joints_iff.2 ⟨runs, next⟩⟩
  · exact ⟨d.opposite, mem_joints_iff.2 ⟨back, next⟩⟩

theorem drawn_iff : Ink.Drawn t.grid t.grid.inked c ↔ t.Lined c := by
  rw [Ink.drawn_inked_iff]
  constructor
  · rintro ⟨r, role, -⟩
    by_contra bare
    rw [Grid.role?_of_empty (empty_of_not_lined bare)] at role
    cases role
  · intro lined
    obtain ⟨d, joint⟩ := lined.exists_joint
    obtain ⟨r, ink, role, drawn, -⟩ := Grid.inksSide_iff.1 (Grid.mem_joints.1 joint).1
    exact ⟨r, role, Ink.exists_ofRole?.1 ⟨ink, drawn⟩⟩

theorem contacts_adj (here : t.Runs d c) (there : t.Runs d (c.step d)) :
    (Ink.contacts t.grid t.grid.inked).Adj c (c.step d) := by
  refine Ink.contacts_adj.2 ⟨⟨(drawn_iff.2 ⟨d, here⟩).1, (drawn_iff.2 ⟨d, there⟩).1⟩, ?_⟩
  exact Grid.adj_step.2 (mem_joints_iff.2 ⟨here, there⟩)

theorem reachable_row {x y : Int} (rules : t.rows.Rules y) (spans : t.columns.Spans x) :
    (Ink.contacts t.grid t.grid.inked).Reachable ⟨t.columns.line 0, y⟩ ⟨x, y⟩ := by
  refine Grid.reachable_row spans.1 fun u past before => ?_
  have runs (v : Int) (least : t.columns.line 0 ≤ v) (most : v ≤ x) : t.Runs .east ⟨v, y⟩ :=
    ⟨rules, least, Int.le_trans most spans.2⟩
  have next := contacts_adj (runs u past (Int.le_of_lt before))
  rw [Grid.step_east] at next
  exact next (runs (u + 1) (by omega) (by omega))

theorem reachable_column {x y : Int} (rules : t.columns.Rules x) (spans : t.rows.Spans y) :
    (Ink.contacts t.grid t.grid.inked).Reachable ⟨x, t.rows.line 0⟩ ⟨x, y⟩ := by
  refine Grid.reachable_column spans.1 fun u past before => ?_
  have runs (v : Int) (least : t.rows.line 0 ≤ v) (most : v ≤ y) : t.Runs .south ⟨x, v⟩ :=
    ⟨rules, least, Int.le_trans most spans.2⟩
  have next := contacts_adj (runs u past (Int.le_of_lt before))
  rw [Grid.step_south] at next
  exact next (runs (u + 1) (by omega) (by omega))

/-- From the first corner, lines lead to all others. -/
theorem reachable_of_lined (lined : t.Lined c) : (Ink.contacts t.grid t.grid.inked).Reachable
    ⟨t.columns.line 0, t.rows.line 0⟩ c := by
  have column : t.columns.Rules (t.columns.line 0) := Ruling.rules_line (Nat.zero_le _)
  have row : t.rows.Rules (t.rows.line 0) := Ruling.rules_line (Nat.zero_le _)
  rcases lined_iff.1 lined with level | upright
  · exact (reachable_column column level.1.spans).trans (reachable_row level.1 level.2)
  · exact (reachable_row row upright.1.spans).trans (reachable_column upright.1 upright.2)

/-- A table is drawn in one piece. -/
theorem pieces (t : Table) : ∃ s, Ink.pieces (Ink.render t.grid t.grid.inked) = .ok [s] ∧
    ∀ c, c ∈ s ↔ t.Lined c := by
  have corner : t.Lined ⟨t.columns.line 0, t.rows.line 0⟩ :=
    ⟨.east, Ruling.rules_line (Nat.zero_le _), (Ruling.rules_line (Nat.zero_le _)).spans⟩
  obtain ⟨s, taken, mem⟩ := Ink.pieces_of_connected ⟨_, drawn_iff.2 corner⟩ fun a b drawn drawn' =>
    (reachable_of_lined (drawn_iff.1 drawn)).symm.trans (reachable_of_lined (drawn_iff.1 drawn'))
  exact ⟨s, taken, fun c => (mem c).trans drawn_iff⟩

end Table

end Linework
