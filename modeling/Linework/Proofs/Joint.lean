import Linework.Grid.Lines
import Linework.Proofs.Arms
import Mathlib.Combinatorics.SimpleGraph.Acyclic

/-! Cells joined by their ink, and where a line goes on from a cell.

Two cells that share an edge are joined if the ink of both reaches it. Lines are followed by other
rules; in a drawing of plain lines, in which every plus sign joins two lines at least, both give the
same neighbors.
-/

set_option autoImplicit false

namespace Linework

def Glyph.isPlain (c : Char) : Bool := isLine c || c == '+'

theorem Glyph.line_or_plus {c : Char} (plain : isPlain c) : isLine c ∨ c = '+' := by
  simpa [isPlain] using plain

theorem Cell.step_ne (c : Cell) (d : Direction) : c.step d ≠ c := by
  intro same
  have x : c.x + d.dx = c.x := congrArg Cell.x same
  have y : c.y + d.dy = c.y := congrArg Cell.y same
  cases d <;> simp [Direction.dx, Direction.dy] at x y

theorem Glyph.runsHorizontally_of_isPlain {c : Char} (plain : isPlain c)
    (clear : ¬ isVertical c) : runsHorizontally c := by
  simp only [isPlain, isLine, Bool.or_eq_true, beq_iff_eq] at plain
  rcases plain with (level | upright) | rfl
  · exact runs_of_isHorizontal level
  · exact absurd upright clear
  · rfl

theorem Glyph.runsVertically_of_isPlain {c : Char} (plain : isPlain c)
    (clear : ¬ isHorizontal c) : runsVertically c := by
  simp only [isPlain, isLine, Bool.or_eq_true, beq_iff_eq] at plain
  rcases plain with (level | upright) | rfl
  · exact absurd level clear
  · exact runs_of_isVertical upright
  · rfl

namespace Grid

def inksSide (g : Grid) (c : Cell) (d : Direction) : Bool :=
  ((g.role? c).bind Ink.ofRole?).any (·.side d)

def joints (g : Grid) (c : Cell) : List Direction :=
  Direction.all.filter fun d => g.inksSide c d && g.inksSide (c.step d) d.opposite

/-- The cells of a grid with an edge between any two that are joined. -/
def web (g : Grid) : SimpleGraph Cell where
  Adj c n := ∃ d ∈ g.joints c, n = c.step d
  symm := ⟨fun c n => by
    rintro ⟨d, joint, rfl⟩
    refine ⟨d.opposite, ?_, (Cell.step_step_opposite c d).symm⟩
    simpa [joints, Direction.mem_all, and_comm] using joint⟩
  loopless := ⟨fun c => by
    rintro ⟨d, -, same⟩
    exact c.step_ne d same.symm⟩

instance (g : Grid) : DecidableRel g.web.Adj := fun c n =>
  inferInstanceAs (Decidable (∃ d ∈ g.joints c, n = c.step d))

variable {g : Grid} {c n : Cell} {d : Direction}

theorem mem_joints : d ∈ g.joints c ↔ g.inksSide c d ∧ g.inksSide (c.step d) d.opposite := by
  simp [joints, Direction.mem_all]

theorem inksSide_iff : g.inksSide c d ↔
    ∃ r ink, g.role? c = some r ∧ Ink.ofRole? r = some ink ∧ ink.side d := by
  simp only [inksSide, Option.any_eq_true, Option.bind_eq_some_iff]
  constructor
  · rintro ⟨ink, ⟨r, role, drawn⟩, side⟩
    exact ⟨r, ink, role, drawn, side⟩
  · rintro ⟨r, ink, role, drawn, side⟩
    exact ⟨ink, ⟨r, role, drawn⟩, side⟩

theorem nodup_joints (g : Grid) (c : Cell) : (g.joints c).Nodup := by
  refine List.Nodup.filter _ ?_
  decide

theorem adj_step : g.web.Adj c (c.step d) ↔ d ∈ g.joints c := by
  constructor
  · rintro ⟨e, joint, same⟩
    rwa [Cell.step_injective c same]
  · exact fun joint => ⟨d, joint, rfl⟩

@[simp] theorem side_window (g : Grid) (c : Cell) (d : Direction) :
    (g.window c).side d = g.get (c.step d) := by
  cases d <;> rfl

@[simp] theorem center_window (g : Grid) (c : Cell) : (g.window c).center = g.get c := by
  simp [window, Square.tabulate, Cell.translate]

theorem hasArm_window (g : Grid) (c : Cell) (d : Direction) :
    (g.window c).hasArm d = Glyph.runs d (g.get (c.step d)) := by
  rw [Window.hasArm, side_window]

def bends (g : Grid) (c : Cell) : Bool :=
  (g.joints c).any (·.isHorizontal) && (g.joints c).any fun d => !d.isHorizontal

theorem bends_of_joints (many : 3 ≤ (g.joints c).length) : g.bends c := by
  -- Of three directions, one is horizontal and one is not.
  revert many
  unfold bends joints Direction.all
  generalize (fun d => g.inksSide c d && g.inksSide (c.step d) d.opposite) = joined
  cases north : joined .north <;> cases east : joined .east <;> cases south : joined .south <;>
    cases west : joined .west <;> simp [List.filter, north, east, south, west, Direction.isHorizontal]

def Empty (g : Grid) (c : Cell) : Prop := g.get c = Glyph.blank ∨ g.get c = Glyph.outside

structure Plain (g : Grid) : Prop where
  empty_or_plain : ∀ c, g.Empty c ∨ Glyph.isPlain (g.get c)
  plus_joins : ∀ c, g.get c = '+' → ∃ r, (g.window c).crossroads? = some r

theorem role?_of_empty (empty : g.Empty c) :
    g.role? c = none := by
  rcases empty with blank | outside
  · simp [role?, Window.role?, blank, Glyph.isBlank]
  · have corner : Glyph.isCorner (g.window c).center = false := by
      rw [center_window, outside]; decide
    obtain ⟨noJunction, noCorner, noStub, noCrossing⟩ := Window.bare_of_not_isCorner corner
    have noLine : (g.window c).line? = none := by
      rw [Window.line?, center_window, outside]; decide
    have noStar : (g.window c).isStar = false := by
      simp [Window.isStar, Pattern.anyAccepts, Pattern.stars, Pattern.accepts, Square.accepts,
        Slot.accepts, outside, Glyph.outside]
    simp [role?, Window.role?, noJunction, noCorner, noStub, noCrossing, noLine, noStar]

theorem not_runs_of_empty (empty : g.Empty c) :
    Glyph.runs d (g.get c) = false := by
  rcases empty with same | same <;> rw [same] <;> cases d <;> decide

theorem not_inksSide_of_empty (empty : g.Empty c) :
    g.inksSide c d = false := by
  simp [inksSide, role?_of_empty empty]

theorem mem_inked : c ∈ g.inked ↔ c ∈ g ∧ g.isInked c := by
  rw [inked, select, CellSet.mem_filter]
  exact and_congr_left fun _ => mem_cells

theorem not_isInked_of_empty (empty : g.Empty c) :
    g.isInked c = false := by
  rw [isInked, Window.isInked, center_window]
  rcases empty with same | same <;> rw [same] <;> rfl

theorem line?_of_isLine (line : Glyph.isLine (g.get c)) :
    ∃ a, (g.window c).line? = some a :=
  Window.exists_line? (by rwa [center_window])

theorem runs_of_line? {a : Axis} (line : (g.window c).line? = some a) (d : Direction) :
    Glyph.runs d (g.get c) = a.arms.contains d := by
  cases a with
  | horizontal =>
    obtain ⟨level, upright⟩ := Window.line?_horizontal line
    rw [center_window] at level
    have across := Glyph.not_runsVertically_of_isHorizontal level
    have along := Glyph.runs_of_isHorizontal level
    cases d <;> simp [Glyph.runs, Direction.isHorizontal, Axis.arms, across, along]
  | vertical =>
    obtain ⟨level, upright⟩ := Window.line?_vertical line
    rw [center_window] at upright
    have across := Glyph.not_runsHorizontally_of_isVertical upright
    have along := Glyph.runs_of_isVertical upright
    cases d <;> simp [Glyph.runs, Direction.isHorizontal, Axis.arms, across, along]

theorem inksSide_of_line? {a : Axis} (line : (g.window c).line? = some a) (d : Direction) :
    g.inksSide c d = Glyph.runs d (g.get c) := by
  rw [runs_of_line? line, inksSide, role?, Window.role?_of_line? line]
  simp [Ink.ofRole?]

theorem runs_plus (d : Direction) : Glyph.runs d '+' = true := by cases d <;> decide

theorem inksSide_of_mem_arms {r : Role} (role : g.role? c = some r) (arm : d ∈ r.arms) :
    g.inksSide c d := by
  obtain ⟨ink, drawn⟩ : ∃ ink, Ink.ofRole? r = some ink := by
    cases r with
    | stub => cases arm
    | _ => exact ⟨_, rfl⟩
  exact inksSide_iff.2 ⟨r, ink, role, drawn, Ink.side_of_mem_arms drawn arm⟩

theorem inksSide_of_hasArm {r : Role} (plus : g.get c = '+')
    (found : (g.window c).crossroads? = some r) (arm : (g.window c).hasArm d) :
    g.inksSide c d :=
  inksSide_of_mem_arms (Window.role?_plus (by rw [center_window, plus]) found)
    ((Window.mem_arms_crossroads found d).2 arm)

/-- A cell whose ink reaches a side holds a character that carries on a line across it. -/
theorem runs_of_inksSide {r : Role} (role : g.role? c = some r) (hollow : r ≠ .star)
    (inked : g.inksSide c d) : Glyph.runs d (g.get c) := by
  have shows := Window.shows_of_role? role
  by_cases straight : ∃ a, r = .line a
  · obtain ⟨a, rfl⟩ := straight
    rwa [← inksSide_of_line? shows]
  · have corner := shows.isCorner (not_exists.1 straight) hollow
    rw [center_window] at corner
    exact Glyph.runs_of_isCorner corner d

/-- Where ink meets a neighbor that carries on a line, the line goes on. -/
theorem mem_arms_of_inksSide {r : Role} (role : g.role? c = some r) (hollow : r ≠ .star)
    (inked : g.inksSide c d) (runs : Glyph.runs d (g.get (c.step d))) : d ∈ r.arms := by
  rw [inksSide, role] at inked
  cases r with
  | junction | corner | line => simpa [Ink.ofRole?, Role.arms] using inked
  | stub => simp [Ink.ofRole?] at inked
  | crossing a =>
    have plus := Window.plus_of_crossing? (Window.shows_of_role? role)
    rw [Window.mem_arms_crossroads (Window.crossroads?_of_role? plus role (by simp)), hasArm_window]
    exact runs
  | star => exact absurd rfl hollow

namespace Plain

theorem role?_ne_star (plain : g.Plain) (c : Cell) : g.role? c ≠ some .star := by
  rcases plain.empty_or_plain c with empty | drawn
  · simp [role?_of_empty empty]
  · rcases Glyph.line_or_plus drawn with line | plus
    · obtain ⟨a, line⟩ := line?_of_isLine line
      simp [role?, Window.role?_of_line? line]
    · obtain ⟨r, found⟩ := plain.plus_joins c plus
      rw [role?, Window.role?_plus (by rw [center_window, plus]) found]
      rcases Window.crossroads?_cases found with ⟨j, rfl⟩ | ⟨turn, rfl⟩ | ⟨a, rfl⟩ <;> simp

theorem runs_of_inksSide (plain : g.Plain) (inked : g.inksSide c d) :
    Glyph.runs d (g.get c) := by
  obtain ⟨r, -, role, -⟩ := inksSide_iff.1 inked
  exact Grid.runs_of_inksSide role (fun star => plain.role?_ne_star c (star ▸ role)) inked

theorem inksSide_of_runs (plain : g.Plain) (here : Glyph.runs d (g.get c))
    (there : Glyph.runs d (g.get (c.step d))) : g.inksSide c d := by
  rcases plain.empty_or_plain c with empty | drawn
  · simp [not_runs_of_empty empty] at here
  · rcases Glyph.line_or_plus drawn with line | plus
    · obtain ⟨a, line⟩ := line?_of_isLine line
      rwa [inksSide_of_line? line]
    · obtain ⟨r, found⟩ := plain.plus_joins c plus
      exact inksSide_of_hasArm plus found (by rwa [hasArm_window])

/-- Plain cells are joined where the characters of both carry on a line across their edge. -/
theorem mem_joints_iff (plain : g.Plain) :
    d ∈ g.joints c ↔ Glyph.runs d (g.get c) ∧ Glyph.runs d (g.get (c.step d)) := by
  rw [mem_joints]
  constructor
  · rintro ⟨here, there⟩
    refine ⟨plain.runs_of_inksSide here, ?_⟩
    rw [← Glyph.runs_opposite]
    exact plain.runs_of_inksSide there
  · rintro ⟨here, there⟩
    refine ⟨plain.inksSide_of_runs here there, plain.inksSide_of_runs ?_ ?_⟩
    · rwa [Glyph.runs_opposite]
    · rwa [Cell.step_step_opposite, Glyph.runs_opposite]

theorem joints_eq (plain : g.Plain) (c : Cell) :
    g.joints c = Direction.all.filter fun d =>
      Glyph.runs d (g.get c) && Glyph.runs d (g.get (c.step d)) := by
  refine List.filter_congr fun d _ => ?_
  rw [Bool.eq_iff_iff, Bool.and_eq_true, Bool.and_eq_true, ← mem_joints, plain.mem_joints_iff]

theorem line_or_plus (plain : g.Plain) (runs : Glyph.runs d (g.get c)) :
    Glyph.isLine (g.get c) ∨ g.get c = '+' := by
  rcases plain.empty_or_plain c with empty | drawn
  · simp [not_runs_of_empty empty] at runs
  · exact Glyph.line_or_plus drawn

theorem isInked_of_runs (plain : g.Plain) (runs : Glyph.runs d (g.get c)) : g.isInked c := by
  rcases plain.line_or_plus runs with line | plus
  · obtain ⟨a, line⟩ := line?_of_isLine line
    exact Window.isInked_of_line? line
  · obtain ⟨r, found⟩ := plain.plus_joins c plus
    exact Window.isInked_plus (by rw [center_window, plus]) found

theorem joints_plus (plain : g.Plain) (plus : g.get c = '+') :
    g.joints c = Direction.all.filter (g.window c).hasArm := by
  rw [plain.joints_eq]
  refine List.filter_congr fun d _ => ?_
  rw [plus, runs_plus, Bool.true_and, hasArm_window]

theorem two_le_joints_plus (plain : g.Plain) (plus : g.get c = '+') :
    2 ≤ (g.joints c).length := by
  obtain ⟨r, found⟩ := plain.plus_joins c plus
  rw [plain.joints_plus plus]
  revert found
  unfold Window.crossroads? Direction.all
  cases north : (g.window c).hasArm .north <;> cases east : (g.window c).hasArm .east <;>
    cases south : (g.window c).hasArm .south <;> cases west : (g.window c).hasArm .west <;>
    simp [Role.ofArms?, List.filter, north, east, south, west]

theorem isLineEnd_iff (plain : g.Plain) (drawn : Glyph.isPlain (g.get c)) :
    g.isLineEnd c ↔ (g.joints c).length = 1 := by
  rcases Glyph.line_or_plus drawn with line | plus
  · obtain ⟨a, line⟩ := line?_of_isLine line
    have runs := runs_of_line? line
    rw [isLineEnd, Window.isLineEnd_of_line? line, plain.joints_eq, Direction.all]
    cases a with
    | horizontal =>
      simp only [hasArm_window, runs, Axis.arms, List.filter]
      cases Glyph.runs .east (g.get (c.step .east)) <;>
        cases Glyph.runs .west (g.get (c.step .west)) <;> simp
    | vertical =>
      simp only [hasArm_window, runs, Axis.arms, List.filter]
      cases Glyph.runs .north (g.get (c.step .north)) <;>
        cases Glyph.runs .south (g.get (c.step .south)) <;> simp
  · obtain ⟨r, found⟩ := plain.plus_joins c plus
    have many := plain.two_le_joints_plus plus
    rw [isLineEnd, Window.isLineEnd_plus (by rw [center_window, plus]) found]
    constructor
    · simp
    · omega

theorem isVertex_iff (plain : g.Plain) (drawn : Glyph.isPlain (g.get c)) :
    g.isVertex c ↔ g.bends c ∨ (g.joints c).length = 1 := by
  rw [← plain.isLineEnd_iff drawn]
  -- A line character runs along one axis, so it never bends; a plus is settled by its four arms.
  rcases Glyph.line_or_plus drawn with line | plus
  · obtain ⟨a, line⟩ := line?_of_isLine line
    have runs := runs_of_line? line
    have straight : g.bends c = false := by
      rw [bends, plain.joints_eq, Direction.all]
      cases a with
      | horizontal =>
        simp only [runs, Axis.arms, List.filter]
        cases Glyph.runs .east (g.get (c.step .east)) <;>
          cases Glyph.runs .west (g.get (c.step .west)) <;> simp [Direction.isHorizontal]
      | vertical =>
        simp only [runs, Axis.arms, List.filter]
        cases Glyph.runs .north (g.get (c.step .north)) <;>
          cases Glyph.runs .south (g.get (c.step .south)) <;> simp [Direction.isHorizontal]
    rw [isVertex, Window.isVertex_of_line? line, straight, isLineEnd]
    simp
  · obtain ⟨r, found⟩ := plain.plus_joins c plus
    have center : (g.window c).center = '+' := by rw [center_window, plus]
    rw [isVertex, isLineEnd, Window.isVertex_plus center found, Window.isLineEnd_plus center found,
      bends, plain.joints_plus plus, Direction.all]
    cases north : (g.window c).hasArm .north <;> cases east : (g.window c).hasArm .east <;>
      cases south : (g.window c).hasArm .south <;> cases west : (g.window c).hasArm .west <;>
      simp [List.filter, north, east, south, west, Direction.isHorizontal]

theorem isVertex_of_joints (plain : g.Plain) (drawn : Glyph.isPlain (g.get c))
    (joined : g.joints c ≠ []) (edge : (g.joints c).length ≠ 2) : g.isVertex c := by
  have joint := List.length_pos_iff.2 joined
  rw [plain.isVertex_iff drawn]
  by_cases one : (g.joints c).length = 1
  · exact .inr one
  · exact .inl (bends_of_joints (by omega))

end Plain

theorem opensAt_step (g : Grid) (c : Cell) (d : Direction) :
    g.opensAt (c.step d) (.ofDirection d.opposite) = Glyph.runs d (g.get (c.step d)) := by
  by_cases outside : g.get (c.step d) = Glyph.outside
  · rw [not_runs_of_empty (.inr outside), opensAt, outside]
    simp
  · rw [opensAt, bne_iff_ne.2 outside, Bool.true_and]
    cases d <;> rfl

theorem mem_openNeighbors :
    n ∈ g.openNeighbors c ↔ ∃ d, n = c.step d ∧ Glyph.runs d (g.get (c.step d)) := by
  simp only [openNeighbors, List.mem_filterMap, opensAt_step]
  constructor
  · rintro ⟨d, -, found⟩
    split at found
    · exact ⟨d, (Option.some.inj found).symm, ‹_›⟩
    · cases found
  · rintro ⟨d, rfl, runs⟩
    exact ⟨d, by cases d <;> simp, by rw [if_pos runs]⟩

theorem follow_none_iff {next : List Cell} :
    g.follow c none = .ok next ↔ g.continuations? c = some next := by
  have whole (all : List Cell) : all.filter (fun n => (none : Option Cell) != some n) = all :=
    List.filter_eq_self.2 fun _ _ => rfl
  unfold follow
  cases g.continuations? c <;> simp [whole]

/-- Where the line through a cell of a given role runs on to. -/
inductive RunsOn (g : Grid) (c : Cell) : Role → List Cell → Prop
  | junction (j : Junction) : RunsOn g c (.junction j) (g.openNeighbors c)
  | corner (k : Corner) : RunsOn g c (.corner k) (k.turn.arms.map c.step)
  | line (a : Axis) : RunsOn g c (.line a) ((a.arms.map c.step).filter g.isInked)
  | stub : RunsOn g c .stub ([c.east, c.west, c.north, c.south].find? g.isInked).toList
  | crossing (a : Axis) : RunsOn g c (.crossing a) (a.arms.map c.step)

theorem runsOn_of_continuations? {next : List Cell} (found : g.continuations? c = some next) :
    ∃ r, g.role? c = some r ∧ RunsOn g c r next := by
  unfold continuations? at found
  cases role : g.role? c with
  | none => simp [role] at found
  | some r =>
    simp only [role] at found
    cases r with
    | junction j => cases found; exact ⟨_, rfl, .junction j⟩
    | corner k => cases found; exact ⟨_, rfl, .corner k⟩
    | line a => cases found; exact ⟨_, rfl, .line a⟩
    | stub => cases found; exact ⟨_, rfl, .stub⟩
    | crossing a => cases found; exact ⟨_, rfl, .crossing a⟩
    | star => cases found

theorem nodup_map_step {ds : List Direction} (nodup : ds.Nodup) : (ds.map c.step).Nodup :=
  nodup.map fun _ _ same => Cell.step_injective c same

theorem nodup_openNeighbors (g : Grid) (c : Cell) : (g.openNeighbors c).Nodup := by
  refine List.Nodup.filterMap ?_ (by decide)
  intro d e n there here
  simp only [Option.mem_def, Option.ite_none_right_eq_some, Option.some.injEq] at there here
  exact Cell.step_injective c (there.2.trans here.2.symm)

namespace Plain

/-- A line goes on from a cell to the neighbors joined to it, if no line across stands in its
way. -/
theorem continuations? (plain : g.Plain) (drawn : Glyph.isPlain (g.get c))
    (clear : Glyph.isLine (g.get c) → ∀ d, Glyph.runs d (g.get c) → g.isInked (c.step d) →
      Glyph.runs d (g.get (c.step d))) :
    ∃ next, g.continuations? c = some next ∧ next.Nodup ∧ ∀ n, n ∈ next ↔ g.web.Adj c n := by
  have adj (n : Cell) : g.web.Adj c n ↔ ∃ d, n = c.step d ∧ Glyph.runs d (g.get c) ∧
      Glyph.runs d (g.get (c.step d)) := by
    constructor
    · rintro ⟨d, joint, rfl⟩
      exact ⟨d, rfl, plain.mem_joints_iff.1 joint⟩
    · rintro ⟨d, rfl, runs⟩
      exact ⟨d, plain.mem_joints_iff.2 runs, rfl⟩
  simp only [adj]
  rcases Glyph.line_or_plus drawn with line | plus
  · have clear := clear line
    obtain ⟨a, line⟩ := line?_of_isLine line
    refine ⟨_, by rw [Grid.continuations?, role?, Window.role?_of_line? line], ?_, fun n => ?_⟩
    · exact (nodup_map_step (by cases a <;> decide)).filter _
    · simp only [List.mem_filter, List.mem_map, runs_of_line? line, List.contains_iff_mem]
      constructor
      · rintro ⟨⟨d, arm, rfl⟩, inked⟩
        refine ⟨d, rfl, arm, clear d ?_ inked⟩
        rwa [runs_of_line? line, List.contains_iff_mem]
      · rintro ⟨d, rfl, arm, runs⟩
        exact ⟨⟨d, arm, rfl⟩, plain.isInked_of_runs runs⟩
  · obtain ⟨r, found⟩ := plain.plus_joins c plus
    have role := Window.role?_plus (by rw [center_window, plus]) found
    have arms := Window.mem_arms_crossroads found
    simp only [hasArm_window] at arms
    simp only [plus, runs_plus, true_and, Grid.continuations?, role?, role]
    rcases Window.crossroads?_cases found with ⟨j, rfl⟩ | ⟨turn, rfl⟩ | ⟨a, rfl⟩
    -- A junction looks at all four neighbors, a corner and a crossing at their arms only.
    · exact ⟨_, rfl, nodup_openNeighbors g c, fun n => mem_openNeighbors⟩
    · refine ⟨_, rfl, nodup_map_step (Role.corner ⟨turn, false⟩).nodup_arms, fun n => ?_⟩
      simp only [List.mem_map, ← arms, Role.arms, eq_comm, and_comm]
    · refine ⟨_, rfl, nodup_map_step (Role.crossing a).nodup_arms, fun n => ?_⟩
      simp only [List.mem_map, ← arms, Role.arms, eq_comm, and_comm]

end Plain

/-- From the cells of a set, lines go on to all the neighbors joined to them and to no others, and
only cells of the set are joined at all. -/
structure Leads (g : Grid) (s : CellSet) : Prop where
  stays : ∀ {c n}, g.web.Adj c n → n ∈ s
  goes : ∀ c ∈ s, ∃ next, g.continuations? c = some next ∧ next.Nodup ∧
    ∀ n, n ∈ next ↔ g.web.Adj c n

variable {s : CellSet}

/-! ### Cells alone -/

structure Draws (g : Grid) (s : CellSet) : Prop where
  inside : ∀ c ∈ s, c ∈ g
  plain : ∀ c ∈ s, Glyph.isPlain (g.get c)

instance (g : Grid) (s : CellSet) : Decidable (g.Draws s) :=
  decidable_of_iff ((∀ c ∈ s.toList, c ∈ g) ∧ ∀ c ∈ s.toList, Glyph.isPlain (g.get c))
    ⟨fun both => ⟨both.1, both.2⟩, fun drawn => ⟨drawn.inside, drawn.plain⟩⟩

theorem empty_isolate_of_not_mem (out : c ∉ s) : (g.isolate s).Empty c := by
  rw [Empty, get_isolate]
  split
  · exact .inl rfl
  · exact .inr rfl

theorem mem_of_mem_joints_isolate (joint : d ∈ (g.isolate s).joints c) : c ∈ s := by
  by_contra out
  have inked := (mem_joints.1 joint).1
  simp [not_inksSide_of_empty (empty_isolate_of_not_mem out)] at inked

theorem mem_of_adj_isolate (adj : (g.isolate s).web.Adj c n) : c ∈ s ∧ n ∈ s := by
  obtain ⟨e, back, -⟩ := adj.symm
  obtain ⟨d, joint, -⟩ := adj
  exact ⟨mem_of_mem_joints_isolate joint, mem_of_mem_joints_isolate back⟩

namespace Draws

theorem get_isolate (drawn : g.Draws s) (mem : c ∈ s) : (g.isolate s).get c = g.get c := by
  rw [Grid.get_isolate, if_pos (drawn.inside c mem), if_pos mem]

theorem isPlain_isolate (drawn : g.Draws s) (mem : c ∈ s) :
    Glyph.isPlain ((g.isolate s).get c) := by
  rw [drawn.get_isolate mem]
  exact drawn.plain c mem

-- A plus sign with no line to it, or with one, has no ink; so where every cell is joined to some
-- other no such sign is left.
theorem plain_isolate (drawn : g.Draws s) (joined : ∀ c ∈ s, (g.isolate s).joints c ≠ []) :
    (g.isolate s).Plain where
  empty_or_plain c := by
    by_cases mem : c ∈ s
    · exact .inr (drawn.isPlain_isolate mem)
    · exact .inl (empty_isolate_of_not_mem mem)
  plus_joins c plus := by
    have mem : c ∈ s := by
      by_contra out
      rcases empty_isolate_of_not_mem (g := g) out with same | same <;>
        exact absurd (plus.symm.trans same) (by decide)
    obtain ⟨d, joint⟩ := List.exists_mem_of_ne_nil _ (joined c mem)
    have inked := (mem_joints.1 joint).1
    cases found : ((g.isolate s).window c).crossroads? with
    | some r => exact ⟨r, rfl⟩
    | none =>
      rw [inksSide, role?] at inked
      rcases Window.role?_plus_of_none (by rw [center_window, plus]) found with unmarked | stub
      · simp [unmarked] at inked
      · simp [stub, Ink.ofRole?] at inked

end Draws

theorem length_of_mem_iff_adj {next : List Cell} (nodup : next.Nodup)
    (mem : ∀ n, n ∈ next ↔ g.web.Adj c n) : next.length = (g.joints c).length := by
  have perm : next.Perm ((g.joints c).map c.step) := by
    refine (List.perm_ext_iff_of_nodup nodup (nodup_map_step (nodup_joints g c))).2 fun n => ?_
    rw [mem, List.mem_map]
    exact exists_congr fun d => and_congr_right fun _ => eq_comm
  rw [perm.length_eq, List.length_map]

namespace Leads

/-- From a cell, a line goes on to all its neighbors. -/
theorem follow_none (leads : g.Leads s) (mem : c ∈ s) :
    ∃ next, g.follow c none = .ok next ∧ next.length = (g.joints c).length ∧ next.Nodup ∧
      ∀ n, n ∈ next ↔ g.web.Adj c n := by
  obtain ⟨next, found, nodup, adj⟩ := leads.goes c mem
  exact ⟨next, follow_none_iff.2 found, length_of_mem_iff_adj nodup adj, nodup, adj⟩

theorem follow_some {previous : Cell} (leads : g.Leads s) (mem : c ∈ s)
    (came : g.web.Adj c previous) :
    ∃ next, g.follow c (some previous) = .ok next ∧ next.length + 1 = (g.joints c).length ∧
      next.Nodup ∧ ∀ n, n ∈ next ↔ g.web.Adj c n ∧ n ≠ previous := by
  obtain ⟨all, found, nodup, adj⟩ := leads.goes c mem
  have followed : g.follow c (some previous) = .ok (all.erase previous) := by
    rw [Grid.follow, found, nodup.erase_eq_filter]
    exact congrArg Except.ok (List.filter_congr fun n _ => by simp [bne, BEq.comm])
  refine ⟨all.erase previous, followed, ?_, nodup.erase _, fun n => ?_⟩
  · have member := (adj previous).2 came
    rw [List.length_erase_of_mem member, ← length_of_mem_iff_adj nodup adj]
    exact Nat.sub_add_cancel (List.length_pos_of_mem member)
  · rw [nodup.mem_erase_iff, adj, and_comm]

end Leads

namespace Draws

/-- Lines lead to joined neighbors where no line crosses close by the end of another. -/
theorem leads (drawn : g.Draws s) (joined : ∀ c ∈ s, (g.isolate s).joints c ≠ [])
    (clear : ∀ c ∈ s, Glyph.isLine (g.get c) → ∀ d, Glyph.runs d (g.get c) → c.step d ∈ s →
      Glyph.runs d (g.get (c.step d))) : (g.isolate s).Leads s where
  stays adj := (mem_of_adj_isolate adj).2
  goes c mem := by
    refine (drawn.plain_isolate joined).continuations? (drawn.isPlain_isolate mem) ?_
    intro line d runs inked
    have there : c.step d ∈ s := by
      by_contra out
      rw [not_isInked_of_empty (empty_isolate_of_not_mem out)] at inked
      cases inked
    rw [drawn.get_isolate mem] at line runs
    rw [drawn.get_isolate there]
    exact clear c mem line d runs there

end Draws

end Grid

end Linework
