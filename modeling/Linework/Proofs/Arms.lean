import Linework.Ink
import Mathlib.Data.Option.Basic

/-! The role of a cell, told from the lines that come to it.

A plus sign gets its role from its arms alone, the sides at which a line comes in; a line character
has its role from itself. For both, the ink of the role reaches the sides at which the line goes on,
and only the ink of a crossing reaches further.
-/

set_option autoImplicit false

namespace Linework

theorem Direction.eq_opposite {d e : Direction} (differ : d ≠ e)
    (axis : d.isHorizontal = e.isHorizontal) : d = e.opposite := by
  revert differ axis
  cases d <;> cases e <;> decide

def Square.side {α : Type} (s : Square α) : Direction → α
  | .north => s.north
  | .east => s.east
  | .south => s.south
  | .west => s.west

def Glyph.runs (d : Direction) (c : Char) : Bool :=
  if d.isHorizontal then runsHorizontally c else runsVertically c

theorem Glyph.runs_opposite (d : Direction) (c : Char) : runs d.opposite c = runs d c := by
  cases d <;> rfl

theorem Glyph.runs_of_isVertical {c : Char} (vertical : isVertical c) : runsVertically c := by
  simp [runsVertically, vertical]

theorem Glyph.runs_of_isHorizontal {c : Char} (horizontal : isHorizontal c) :
    runsHorizontally c := by
  simp [runsHorizontally, horizontal]

theorem Glyph.not_runsHorizontally_of_isVertical {c : Char} (vertical : isVertical c) :
    runsHorizontally c = false := by
  simp only [isVertical, Bool.or_eq_true, beq_iff_eq] at vertical
  rcases vertical with rfl | rfl <;> decide

theorem Glyph.not_runsVertically_of_isHorizontal {c : Char} (horizontal : isHorizontal c) :
    runsVertically c = false := by
  simp only [isHorizontal, Bool.or_eq_true, beq_iff_eq] at horizontal
  rcases horizontal with rfl | rfl <;> decide

theorem Glyph.runs_of_isCorner {c : Char} (corner : isCorner c) (d : Direction) : runs d c := by
  cases d <;> simp [runs, Direction.isHorizontal, runsHorizontally, runsVertically, corner]

theorem Glyph.isLineArt_eq (c : Char) :
    isLineArt c = (runsVertically c || runsHorizontally c) := by
  simp only [isLineArt, isLine, runsVertically, runsHorizontally]
  cases isHorizontal c <;> cases isVertical c <;> cases isCorner c <;> rfl

theorem Glyph.not_runs_of_not_isLineArt {c : Char} (bare : isLineArt c = false) (d : Direction) :
    runs d c = false := by
  rw [isLineArt_eq, Bool.or_eq_false_iff] at bare
  rw [runs]
  split
  · exact bare.2
  · exact bare.1

theorem Glyph.eq_star_of_isStroke {c : Char} (stroke : isStroke c) (bent : ¬ isCorner c)
    (straight : ¬ isLine c) : c = '*' := by
  simp only [isCorner, isArc, Bool.or_eq_true, beq_iff_eq, not_or] at bent
  simp only [isLine, isHorizontal, isVertical, Bool.or_eq_true, beq_iff_eq, not_or] at straight
  unfold isStroke at stroke
  split at stroke <;> simp_all

namespace Role

/-- The directions in which a line goes on from a cell. A stub is followed by other means, and a
star not at all. -/
def arms : Role → List Direction
  | .junction j => j.arms
  | .corner c => c.turn.arms
  | .line a => a.arms
  | .crossing a => a.arms
  | .stub | .star => []

def ofArms? : Bool → Bool → Bool → Bool → Option Role
  | true, true, true, true => some (.junction .cross)
  | false, true, true, true => some (.junction (.tee .north))
  | true, false, true, true => some (.junction (.tee .east))
  | true, true, false, true => some (.junction (.tee .south))
  | true, true, true, false => some (.junction (.tee .west))
  | false, true, true, false => some (.corner ⟨.topLeft, false⟩)
  | false, false, true, true => some (.corner ⟨.topRight, false⟩)
  | true, false, false, true => some (.corner ⟨.bottomRight, false⟩)
  | true, true, false, false => some (.corner ⟨.bottomLeft, false⟩)
  | false, true, false, true => some (.crossing .horizontal)
  | true, false, true, false => some (.crossing .vertical)
  | _, _, _, _ => none

def Joins (r : Role) : Prop :=
  (∃ j, r = .junction j) ∨ (∃ turn, r = .corner ⟨turn, false⟩) ∨ ∃ a, r = .crossing a

theorem exists_arm {r : Role} (through : r ≠ .stub) (hollow : r ≠ .star) : ∃ d, d ∈ r.arms := by
  cases r with
  | junction j =>
    cases j with
    | cross => exact ⟨.north, by decide⟩
    | tee missing => exact ⟨missing.opposite, by cases missing <;> decide⟩
  | corner k => obtain ⟨turn, _⟩ := k; cases turn <;> exact ⟨_, List.mem_cons_self ..⟩
  | line a => cases a <;> exact ⟨_, List.mem_cons_self ..⟩
  | stub => exact absurd rfl through
  | crossing a => cases a <;> exact ⟨_, List.mem_cons_self ..⟩
  | star => exact absurd rfl hollow

theorem nodup_arms (r : Role) : r.arms.Nodup := by
  cases r with
  | junction j =>
    cases j with
    | cross => decide
    | tee missing => cases missing <;> decide
  | corner c => obtain ⟨turn, _⟩ := c; cases turn <;> simp [arms, Turn.arms]
  | line a => cases a <;> decide
  | stub => exact List.nodup_nil
  | crossing a => cases a <;> decide
  | star => exact List.nodup_nil

end Role

namespace Window

def hasArm (w : Window) (d : Direction) : Bool := Glyph.runs d (w.side d)

def crossroads? (w : Window) : Option Role :=
  Role.ofArms? (w.hasArm .north) (w.hasArm .east) (w.hasArm .south) (w.hasArm .west)

variable {w : Window}

theorem crossroads?_eq : w.crossroads? = Role.ofArms? (Glyph.runsVertically w.north)
    (Glyph.runsHorizontally w.east) (Glyph.runsVertically w.south)
    (Glyph.runsHorizontally w.west) := rfl

theorem mem_arms_crossroads {r : Role} (found : w.crossroads? = some r) (d : Direction) :
    d ∈ r.arms ↔ w.hasArm d := by
  revert found
  unfold crossroads?
  cases d <;> cases w.hasArm .north <;> cases w.hasArm .east <;> cases w.hasArm .south <;>
    cases w.hasArm .west <;> simp only [Role.ofArms?, Option.some.injEq, reduceCtorEq,
      false_implies] <;> rintro rfl <;> decide

theorem junction?_plus (plus : w.center = '+') :
    w.junction? = match w.crossroads? with
      | some (.junction j) => some j
      | _ => none := by
  simp only [junction?, Junction.all, List.find?, Pattern.junction, Pattern.accepts,
    Square.accepts, Slot.accepts, plus, crossroads?_eq, Gate.admits]
  generalize Glyph.runsVertically w.north = north
  generalize Glyph.runsHorizontally w.east = east
  generalize Glyph.runsVertically w.south = south
  generalize Glyph.runsHorizontally w.west = west
  -- Only the four arms are left, so there are sixteen windows to compare.
  revert north east south west
  decide

-- A corner needs no line across it, so it may also fit where three lines meet: what keeps it from
-- being found there is that junctions are looked for first.
theorem corner?_plus (plus : w.center = '+') (single : w.junction? = none) :
    w.corner? = match w.crossroads? with
      | some (.corner c) => some c
      | _ => none := by
  have upward := Glyph.runs_of_isVertical (c := w.north)
  have downward := Glyph.runs_of_isVertical (c := w.south)
  rw [junction?_plus plus] at single
  revert single upward downward
  simp only [corner?, Turn.all, List.findSome?, Pattern.sharpCorner, Pattern.roundCorner,
    Pattern.accepts, Square.accepts, Slot.accepts, plus, crossroads?_eq, Gate.admits]
  generalize Glyph.runsVertically w.north = north
  generalize Glyph.isVertical w.north = above
  generalize Glyph.runsHorizontally w.east = east
  generalize Glyph.runsVertically w.south = south
  generalize Glyph.isVertical w.south = below
  generalize Glyph.runsHorizontally w.west = west
  cases north <;> cases east <;> cases south <;> cases west <;>
    simp +contextual [Role.ofArms?]

theorem crossing?_plus (plus : w.center = '+') :
    w.crossing? = if w.hasArm .east && w.hasArm .west then some .horizontal
      else if w.hasArm .north && w.hasArm .south then some .vertical else none := by
  simp [crossing?, Pattern.crossing, Pattern.accepts, Square.accepts, Slot.accepts, plus, hasArm,
    Glyph.runs, Direction.isHorizontal, Square.side, Bool.and_comm]

/-- A single line comes in, at the arm. Nothing draws a line beside it, and what lies opposite to it
does not carry the line on. -/
structure EndsAt (w : Window) (arm : Direction) : Prop where
  runs : w.hasArm arm
  beside : ∀ d, d.isHorizontal ≠ arm.isHorizontal → Glyph.isLineArt (w.side d) = false
  opposite : w.hasArm arm.opposite = false

namespace EndsAt

variable {arm d : Direction}

theorem vertical (upright : arm.isHorizontal = false) (runs : w.hasArm arm)
    (west : Glyph.isLineArt w.west = false) (east : Glyph.isLineArt w.east = false)
    (opposite : w.hasArm arm.opposite = false) : w.EndsAt arm := by
  refine ⟨runs, fun d turned => ?_, opposite⟩
  cases d with
  | west => exact west
  | east => exact east
  | north | south => exact absurd upright.symm turned

theorem horizontal (level : arm.isHorizontal = true) (runs : w.hasArm arm)
    (north : Glyph.isLineArt w.north = false) (south : Glyph.isLineArt w.south = false)
    (opposite : w.hasArm arm.opposite = false) : w.EndsAt arm := by
  refine ⟨runs, fun d turned => ?_, opposite⟩
  cases d with
  | north => exact north
  | south => exact south
  | west | east => exact absurd level.symm turned

theorem hasArm_eq (ends : w.EndsAt arm) (d : Direction) : w.hasArm d = decide (d = arm) := by
  by_cases same : d = arm
  · rw [same, ends.runs, decide_eq_true rfl]
  · rw [decide_eq_false same]
    by_cases turned : d.isHorizontal = arm.isHorizontal
    · rw [Direction.eq_opposite same turned]
      exact ends.opposite
    · exact Glyph.not_runs_of_not_isLineArt (ends.beside d turned) d

end EndsAt

theorem exists_endsAt (stub : w.isStub) : ∃ arm, w.EndsAt arm := by
  simp only [isStub, Pattern.anyAccepts, Pattern.stubs, List.any_cons, List.any_nil,
    Bool.or_eq_true, Bool.or_false, Pattern.accepts, Square.accepts, Slot.accepts,
    Bool.and_eq_true, Bool.not_eq_true'] at stub
  have clear := fun (c : Char) (bare : Glyph.isLineArt c = false) =>
    Glyph.not_runs_of_not_isLineArt bare
  -- The templates come in pairs, one pair for each arm, of which the second has a line across.
  rcases stub with fits | fits | fits | fits | fits | fits | fits | fits
  all_goals
    obtain ⟨⟨⟨⟨⟨⟨⟨⟨-, north⟩, -⟩, west⟩, -⟩, east⟩, -⟩, south⟩, -⟩ := fits
  · exact ⟨.north, .vertical rfl north west east (clear _ south .south)⟩
  · exact ⟨.north, .vertical rfl north west east (Glyph.not_runsVertically_of_isHorizontal south)⟩
  · exact ⟨.west, .horizontal rfl west north south (clear _ east .east)⟩
  · exact ⟨.west, .horizontal rfl west north south (Glyph.not_runsHorizontally_of_isVertical east)⟩
  · exact ⟨.south, .vertical rfl south west east (clear _ north .north)⟩
  · exact ⟨.south, .vertical rfl south west east (Glyph.not_runsVertically_of_isHorizontal north)⟩
  · exact ⟨.east, .horizontal rfl east north south (clear _ west .west)⟩
  · exact ⟨.east, .horizontal rfl east north south (Glyph.not_runsHorizontally_of_isVertical west)⟩

theorem crossroads?_of_isStub (stub : w.isStub) : w.crossroads? = none := by
  obtain ⟨arm, ends⟩ := exists_endsAt stub
  unfold crossroads?
  simp only [ends.hasArm_eq]
  cases arm <;> rfl

theorem isStub_of_crossroads {r : Role} (found : w.crossroads? = some r) : w.isStub = false := by
  apply eq_false_of_ne_true
  intro fits
  simp [crossroads?_of_isStub fits] at found

theorem crossing?_of_crossroads {a : Axis} (plus : w.center = '+')
    (found : w.crossroads? = some (.crossing a)) : w.crossing? = some a := by
  have arms := mem_arms_crossroads found
  rw [crossing?_plus plus]
  cases a <;> simp [← arms, Role.arms, Axis.arms]

theorem line?_plus (plus : w.center = '+') : w.line? = none := by
  rw [line?, plus]
  decide

theorem isStar_plus (plus : w.center = '+') : w.isStar = false := by
  simp [isStar, Pattern.anyAccepts, Pattern.stars, Pattern.accepts, Square.accepts, Slot.accepts,
    plus]

theorem crossroads?_cases {r : Role} (found : w.crossroads? = some r) : r.Joins := by
  revert found
  unfold crossroads?
  cases w.hasArm .north <;> cases w.hasArm .east <;> cases w.hasArm .south <;>
    cases w.hasArm .west <;> simp only [Role.ofArms?, Option.some.injEq, reduceCtorEq,
      false_implies] <;> rintro rfl <;> simp [Role.Joins]

/-- With two arms at least, the arms of a plus sign alone decide its role. -/
theorem role?_plus {r : Role} (plus : w.center = '+') (found : w.crossroads? = some r) :
    w.role? = some r := by
  have junction := junction?_plus plus
  have corner := corner?_plus plus
  have stub := isStub_of_crossroads found
  have blank : Glyph.isBlank w.center = false := by rw [plus]; decide
  rw [found] at junction corner
  simp only [role?, blank, stub, line?_plus plus]
  rcases crossroads?_cases found with ⟨j, rfl⟩ | ⟨turn, rfl⟩ | ⟨a, rfl⟩
  · simp [junction]
  · simp [junction, corner junction]
  · simp [junction, corner junction, crossing?_of_crossroads plus found]

/-- With fewer arms, a plus sign ends a line or stands alone. -/
theorem role?_plus_of_none (plus : w.center = '+') (found : w.crossroads? = none) :
    w.role? = none ∨ w.role? = some .stub := by
  have junction := junction?_plus plus
  have corner := corner?_plus plus
  rw [found] at junction corner
  have crossing : w.crossing? = none := by
    rw [crossing?_plus plus]
    revert found
    unfold crossroads?
    cases w.hasArm .north <;> cases w.hasArm .east <;> cases w.hasArm .south <;>
      cases w.hasArm .west <;> simp [Role.ofArms?]
  simp only [role?, junction, corner junction, line?_plus plus, crossing, isStar_plus plus]
  cases w.isStub <;> simp

-- Templates of junctions, corners, stubs and crossings have a corner character in the middle.
theorem bare_of_not_isCorner (bare : Glyph.isCorner w.center = false) :
    w.junction? = none ∧ w.corner? = none ∧ w.isStub = false ∧ w.crossing? = none := by
  simp only [Glyph.isCorner, Glyph.isArc, Bool.or_eq_false_iff, beq_eq_false_iff_ne] at bare
  obtain ⟨plus, slash, backslash⟩ := bare
  refine ⟨?_, ?_, ?_, ?_⟩
  · simp [junction?, Junction.all, Pattern.junction, Pattern.accepts, Square.accepts,
      Slot.accepts, plus]
  · simp [corner?, Turn.all, Pattern.sharpCorner, Pattern.roundCorner, Pattern.accepts,
      Square.accepts, Slot.accepts, plus, slash, backslash]
  · simp [isStub, Pattern.anyAccepts, Pattern.stubs, Pattern.accepts, Square.accepts,
      Slot.accepts, plus]
  · simp [crossing?, Pattern.crossing, Pattern.accepts, Square.accepts, Slot.accepts, plus]

theorem center_of_line? {a : Axis} (line : w.line? = some a) :
    Glyph.isCorner w.center = false ∧ Glyph.isBlank w.center = false
      ∧ Glyph.isStroke w.center = true ∧ w.center ≠ Glyph.outside := by
  have cases : w.center = '-' ∨ w.center = '=' ∨ w.center = '|' ∨ w.center = ':' := by
    revert line
    simp only [line?, Glyph.isHorizontal, Glyph.isVertical, Bool.or_eq_true, beq_iff_eq]
    split
    · rename_i horizontal
      rcases horizontal with same | same <;> simp [same]
    · split
      · rename_i vertical
        rcases vertical with same | same <;> simp [same]
      · simp
  rcases cases with same | same | same | same <;> rw [same] <;> decide

theorem exists_line? (line : Glyph.isLine w.center) : ∃ a, w.line? = some a := by
  simp only [Glyph.isLine, Bool.or_eq_true] at line
  unfold line?
  split
  · exact ⟨_, rfl⟩
  · rename_i level
    exact ⟨.vertical, if_pos (line.resolve_left level)⟩

theorem line?_horizontal (line : w.line? = some .horizontal) :
    Glyph.isHorizontal w.center = true ∧ Glyph.isVertical w.center = false := by
  unfold line? at line
  split at line
  · rename_i level
    refine ⟨level, eq_false_of_ne_true fun upright => ?_⟩
    simp only [Glyph.isHorizontal, Glyph.isVertical, Bool.or_eq_true, beq_iff_eq] at level upright
    rcases level with same | same <;> rw [same] at upright <;> revert upright <;> decide
  · split at line <;> simp at line

theorem line?_vertical (line : w.line? = some .vertical) :
    Glyph.isHorizontal w.center = false ∧ Glyph.isVertical w.center = true := by
  unfold line? at line
  split at line
  · simp at line
  · rename_i level
    split at line
    · exact ⟨eq_false_of_ne_true level, ‹_›⟩
    · simp at line

theorem role?_of_line? {a : Axis} (line : w.line? = some a) : w.role? = some (.line a) := by
  obtain ⟨corner, blank, -, -⟩ := center_of_line? line
  obtain ⟨noJunction, noCorner, -, -⟩ := bare_of_not_isCorner corner
  simp [role?, blank, noJunction, noCorner, line]

theorem isInked_of_line? {a : Axis} (line : w.line? = some a) : w.isInked := by
  obtain ⟨corner, -, stroke, inside⟩ := center_of_line? line
  simp [isInked, corner, stroke, inside]

/-- A neighbor that does not carry on a line is no line at all or runs across. -/
theorem across_horizontally (c : Char) :
    (!Glyph.isLineArt c || Glyph.isVertical c) = !Glyph.runsHorizontally c := by
  rw [Glyph.isLineArt_eq]
  by_cases vertical : Glyph.isVertical c
  · simp [vertical, Glyph.not_runsHorizontally_of_isVertical]
  · cases across : Glyph.runsHorizontally c <;>
      simp_all [Glyph.runsVertically, Glyph.runsHorizontally]

theorem across_vertically (c : Char) :
    (!Glyph.isLineArt c || Glyph.isHorizontal c) = !Glyph.runsVertically c := by
  rw [Glyph.isLineArt_eq]
  by_cases horizontal : Glyph.isHorizontal c
  · simp [horizontal, Glyph.not_runsVertically_of_isHorizontal]
  · cases across : Glyph.runsVertically c <;>
      simp_all [Glyph.runsVertically, Glyph.runsHorizontally]

theorem isLineEnd_of_line? {a : Axis} (line : w.line? = some a) :
    w.isLineEnd = match a with
      | .horizontal => w.hasArm .east != w.hasArm .west
      | .vertical => w.hasArm .north != w.hasArm .south := by
  obtain ⟨corner, -, -, -⟩ := center_of_line? line
  obtain ⟨-, -, stub, -⟩ := bare_of_not_isCorner corner
  rw [isLineEnd, stub, Bool.false_or]
  -- Only the patterns of the line's own axis can match its character.
  cases a with
  | horizontal =>
    obtain ⟨level, upright⟩ := line?_horizontal line
    have east := across_horizontally w.east
    have west := across_horizontally w.west
    simp only [Pattern.anyAccepts, Pattern.lineEnds, List.any_cons, List.any_nil,
      Pattern.accepts, Square.accepts, Slot.accepts, level, upright, hasArm, Glyph.runs,
      Direction.isHorizontal, Square.side]
    grind
  | vertical =>
    obtain ⟨level, upright⟩ := line?_vertical line
    have north := across_vertically w.north
    have south := across_vertically w.south
    simp only [Pattern.anyAccepts, Pattern.lineEnds, List.any_cons, List.any_nil,
      Pattern.accepts, Square.accepts, Slot.accepts, level, upright, hasArm, Glyph.runs,
      Direction.isHorizontal, Square.side]
    grind

theorem isLineEnd_plus {r : Role} (plus : w.center = '+') (found : w.crossroads? = some r) :
    w.isLineEnd = false := by
  simp [isLineEnd, isStub_of_crossroads found, Pattern.anyAccepts, Pattern.lineEnds,
    Pattern.accepts, Square.accepts, Slot.accepts, plus, Glyph.isHorizontal, Glyph.isVertical]

theorem isInked_of_isCorner (corner : Glyph.isCorner w.center) :
    w.isInked = (w.junction?.isSome || w.corner?.isSome || w.isStub || w.crossing?.isSome) := by
  have inside : (w.center == Glyph.outside) = false := by
    refine beq_eq_false_iff_ne.2 fun outside => ?_
    rw [outside] at corner
    cases corner
  simp [isInked, inside, corner]

theorem isInked_plus {r : Role} (plus : w.center = '+') (found : w.crossroads? = some r) :
    w.isInked := by
  have junction := junction?_plus plus
  have corner := corner?_plus plus
  rw [found] at junction corner
  rw [isInked_of_isCorner (by rw [plus]; decide)]
  rcases crossroads?_cases found with ⟨j, rfl⟩ | ⟨turn, rfl⟩ | ⟨a, rfl⟩
  · simp [junction]
  · simp [corner junction]
  · simp [crossing?_of_crossroads plus found]

theorem isVertex_plus {r : Role} (plus : w.center = '+') (found : w.crossroads? = some r) :
    w.isVertex = ((w.hasArm .east || w.hasArm .west) && (w.hasArm .north || w.hasArm .south)) := by
  have junction := junction?_plus plus
  have corner := corner?_plus plus
  have arms := mem_arms_crossroads found
  rw [found] at junction corner
  rw [isVertex, isLineEnd_plus plus found]
  rcases crossroads?_cases found with ⟨j, rfl⟩ | ⟨turn, rfl⟩ | ⟨a, rfl⟩
  · rw [junction]
    cases j with
    | cross => simp [← arms, Role.arms, Junction.arms, Direction.all]
    | tee missing => cases missing <;> simp [← arms, Role.arms, Junction.arms, Direction.all]
  · rw [corner junction]
    cases turn <;> simp [← arms, Role.arms, Turn.arms]
  · rw [junction, corner junction]
    cases a <;> simp [← Bool.not_eq_true, ← arms, Role.arms, Axis.arms]

theorem isVertex_of_line? {a : Axis} (line : w.line? = some a) : w.isVertex = w.isLineEnd := by
  obtain ⟨corner, -, -, -⟩ := center_of_line? line
  obtain ⟨noJunction, noCorner, -, -⟩ := bare_of_not_isCorner corner
  simp [isVertex, noJunction, noCorner]

def Shows (w : Window) : Role → Prop
  | .junction j => w.junction? = some j
  | .corner k => w.corner? = some k
  | .line a => w.line? = some a
  | .stub => w.isStub
  | .crossing a => w.crossing? = some a
  | .star => w.isStar

theorem shows_of_role? {r : Role} (found : w.role? = some r) : w.Shows r := by
  unfold role? at found
  split at found
  · cases found
  · simp only [Option.orElse_eq_some, Option.map_eq_some_iff, Option.ite_none_right_eq_some,
      Option.some.injEq] at found
    -- One case for each kind of role, in the order in which they are tried.
    rcases found with ⟨j, found, rfl⟩ | ⟨-, ⟨k, found, rfl⟩ | ⟨-, ⟨a, found, rfl⟩ | ⟨-, ⟨found, rfl⟩ |
      ⟨-, ⟨a, found, rfl⟩ | ⟨-, found, rfl⟩⟩⟩⟩⟩
    all_goals exact found

theorem plus_of_junction? {j : Junction} (found : w.junction? = some j) : w.center = '+' := by
  by_contra other
  simp [junction?, Junction.all, Pattern.junction, Pattern.accepts, Square.accepts, Slot.accepts,
    other] at found

theorem plus_of_crossing? {a : Axis} (found : w.crossing? = some a) : w.center = '+' := by
  by_contra other
  simp [crossing?, Pattern.crossing, Pattern.accepts, Square.accepts, Slot.accepts, other] at found

theorem center_of_isStar (star : w.isStar) : w.center = '*' := by
  by_contra other
  simp [isStar, Pattern.anyAccepts, Pattern.stars, Pattern.accepts, Square.accepts, Slot.accepts,
    other] at star

theorem exists_arm_of_isStar (star : w.isStar) : ∃ d, w.hasArm d := by
  simp only [isStar, Pattern.anyAccepts, Pattern.stars, List.any_cons, List.any_nil,
    Bool.or_eq_true, Bool.or_false, Pattern.accepts, Square.accepts, Slot.accepts,
    Bool.and_eq_true] at star
  rcases star with fits | fits | fits | fits | fits | fits
  all_goals
    obtain ⟨⟨⟨⟨⟨⟨⟨⟨-, north⟩, -⟩, west⟩, -⟩, east⟩, -⟩, south⟩, -⟩ := fits
  · exact ⟨.east, east⟩
  · exact ⟨.east, east⟩
  · exact ⟨.west, west⟩
  · exact ⟨.south, south⟩
  · exact ⟨.south, south⟩
  · exact ⟨.north, north⟩

theorem crossroads?_of_role? {r : Role} (plus : w.center = '+') (found : w.role? = some r)
    (through : r ≠ .stub) : w.crossroads? = some r := by
  cases arms : w.crossroads? with
  | none => rcases role?_plus_of_none plus arms with none | stub <;> simp_all
  | some t =>
    rw [role?_plus plus arms] at found
    exact found

/-- Of the characters that draw an outline wherever they stand, only stars may have no role. -/
theorem center_of_isInked (inked : w.isInked) (bare : w.role? = none) : w.center = '*' := by
  have drawn : Glyph.isBlank w.center = false := by
    refine eq_false_of_ne_true fun blank => ?_
    rw [Glyph.isBlank, beq_iff_eq] at blank
    rw [isInked, blank] at inked
    cases inked
  simp only [role?, drawn, Option.orElse_eq_none, Option.map_eq_none_iff, Bool.false_eq_true,
    if_false, ite_eq_right_iff, reduceCtorEq, imp_false, Bool.not_eq_true] at bare
  obtain ⟨junction, corner, line, stub, crossing, -⟩ := bare
  by_cases bent : Glyph.isCorner w.center
  · simp [isInked_of_isCorner bent, junction, corner, stub, crossing] at inked
  · refine Glyph.eq_star_of_isStroke ?_ bent fun straight => ?_
    · rw [isInked] at inked
      simp_all
    · obtain ⟨a, found⟩ := exists_line? straight
      rw [line] at found
      cases found

namespace Shows

variable {r : Role}

/-- A role other than that of a line or a star is that of a corner character. -/
theorem isCorner (shows : w.Shows r) (bent : ∀ a, r ≠ .line a) (hollow : r ≠ .star) :
    Glyph.isCorner w.center := by
  by_contra bare
  obtain ⟨noJunction, noCorner, noStub, noCrossing⟩ :=
    bare_of_not_isCorner (eq_false_of_ne_true bare)
  cases r <;> simp_all [Shows]

theorem isInked (shows : w.Shows r) : w.isInked := by
  cases r with
  | line a => exact isInked_of_line? shows
  | star =>
    rw [Window.isInked, center_of_isStar shows]
    rfl
  | _ =>
    rw [isInked_of_isCorner (shows.isCorner (by simp) (by simp))]
    simp_all [Shows]

end Shows

end Window

namespace Ink

@[simp] theorem side_arms (sides : List Direction) (d : Direction) :
    (arms sides).side d = sides.contains d := by
  cases d <;> rfl

/-- The ink of a role reaches every side at which the line goes on. -/
theorem side_of_mem_arms {r : Role} {ink : Square Bool} {d : Direction}
    (drawn : ofRole? r = some ink) (arm : d ∈ r.arms) : ink.side d := by
  cases r with
  | crossing a =>
    cases drawn
    rw [side_arms, List.contains_iff_mem]
    exact d.mem_all
  | stub | star => cases arm
  | _ => cases drawn; simpa [Role.arms] using arm

end Ink

end Linework
