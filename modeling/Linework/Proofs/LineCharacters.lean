import Linework.Proofs.Margin

/-! Characters that take part in no line.

Letters, blanks and what lies beyond the edge are the same to a line: no template, no gate and no
rule of continuation tells one from another. A drawing may be read as if each of them were a blank.
-/

set_option autoImplicit false

namespace Linework

namespace Glyph

variable {c : Char}

def isMute (c : Char) : Bool := !(isLineArt c || isStar c)

theorem not_isMute_iff : ¬ isMute c ↔ c ∈ ['-', '=', '|', ':', '+', '/', '\\', '*'] := by
  simp only [isMute, isLineArt, isLine, isHorizontal, isVertical, isCorner, isArc, isStar,
    Bool.not_eq_true', Bool.not_eq_false, Bool.or_eq_true, beq_iff_eq, List.mem_cons,
    List.not_mem_nil, or_false, or_assoc]

/-- A character as a line sees it. -/
def hush (c : Char) : Char := if isMute c then blank else c

theorem classes_of_isMute (mute : isMute c) :
    isHorizontal c = false ∧ isVertical c = false ∧ isCorner c = false ∧ isStar c = false := by
  simpa [isMute, isLineArt, isLine, and_assoc] using mute

theorem isMute_blank : isMute blank := by decide

theorem isMute_of_isVoid (void : isVoid c) : isMute c := by
  rw [isVoid, Bool.or_eq_true, beq_iff_eq, beq_iff_eq] at void
  rcases void with rfl | rfl <;> decide

theorem hush_of_isMute (mute : isMute c) : hush c = blank := if_pos mute

theorem hush_of_not_isMute (heard : ¬ isMute c) : hush c = c := if_neg heard

theorem Alike.hush_eq {d : Char} (alike : Alike c d) : hush c = hush d := by
  rcases alike with rfl | ⟨here, there⟩
  · rfl
  · rw [hush_of_isMute (isMute_of_isVoid here), hush_of_isMute (isMute_of_isVoid there)]

end Glyph

theorem Gate.admits_of_isMute {c : Char} (g : Gate) (mute : Glyph.isMute c) :
    g.admits c = false := by
  obtain ⟨level, upright, corner, -⟩ := Glyph.classes_of_isMute mute
  have bent := corner
  simp only [Glyph.isCorner, Glyph.isArc, Bool.or_eq_false_iff] at bent
  cases g <;>
    simp [admits, Glyph.runsVertically, Glyph.runsHorizontally, level, upright, corner, bent]

/-- Whether a condition asks for no mute character in particular. -/
def Slot.Heeds : Slot → Prop
  | .literal c => ¬ Glyph.isMute c
  | _ => True

instance : DecidablePred Slot.Heeds := fun s =>
  match s with
  | .literal c => inferInstanceAs (Decidable (¬ Glyph.isMute c))
  | .any | .horizontal | .vertical | .notVertical | .nonLine | .verticalRun | .horizontalRun
  | .gate _ | .noGate _ => inferInstanceAs (Decidable True)

theorem Slot.accepts_hush {s : Slot} (heeds : s.Heeds) (c : Char) :
    s.accepts (Glyph.hush c) = s.accepts c := by
  -- Only mute characters are changed, and a slot that heeds lines takes them for blanks.
  by_cases mute : Glyph.isMute c
  · rw [Glyph.hush_of_isMute mute]
    obtain ⟨level, upright, corner, -⟩ := Glyph.classes_of_isMute mute
    cases s with
    | any => rfl
    | literal expected =>
      have blank : Glyph.blank ≠ expected := by
        rintro rfl
        exact heeds (by decide)
      have here : c ≠ expected := by
        rintro rfl
        exact heeds mute
      simp [accepts, blank, here]
    | horizontal => exact level.symm
    | vertical => exact upright.symm
    | notVertical => exact congrArg not upright.symm
    | nonLine =>
      simp only [accepts, Glyph.isLineArt, Glyph.isLine, level, upright, corner]
      rfl
    | verticalRun =>
      simp only [accepts, Glyph.runsVertically, upright, corner]
      rfl
    | horizontalRun =>
      simp only [accepts, Glyph.runsHorizontally, level, corner]
      rfl
    | gate g => simp only [accepts, g.admits_of_isMute mute, g.admits_of_isMute Glyph.isMute_blank]
    | noGate g => simp only [accepts, g.admits_of_isMute mute, g.admits_of_isMute Glyph.isMute_blank]
  · rw [Glyph.hush_of_not_isMute mute]

namespace Pattern

def Heeds (p : Pattern) : Prop := ∀ row ∈ p.rows, ∀ s ∈ row, s.Heeds

instance : DecidablePred Heeds := fun p =>
  inferInstanceAs (Decidable (∀ row ∈ p.rows, ∀ s ∈ row, s.Heeds))

theorem heeds_junction (j : Junction) : (junction j).Heeds := by
  cases j with
  | cross => decide
  | tee missing => cases missing <;> decide

theorem heeds_sharpCorner (t : Turn) : (sharpCorner t).Heeds := by cases t <;> decide

theorem heeds_roundCorner (t : Turn) : (roundCorner t).Heeds := by cases t <;> decide

theorem heeds_crossing (a : Axis) : (crossing a).Heeds := by cases a <;> decide

theorem heeds_stubs : ∀ p ∈ stubs, p.Heeds := by decide

theorem heeds_lineEnds : ∀ p ∈ lineEnds, p.Heeds := by decide

theorem heeds_stars : ∀ p ∈ stars, p.Heeds := by decide

end Pattern

namespace Window

def hush (w : Window) : Window where
  northWest := Glyph.hush w.northWest
  north := Glyph.hush w.north
  northEast := Glyph.hush w.northEast
  west := Glyph.hush w.west
  center := Glyph.hush w.center
  east := Glyph.hush w.east
  southWest := Glyph.hush w.southWest
  south := Glyph.hush w.south
  southEast := Glyph.hush w.southEast

variable {p : Pattern} {ps : List Pattern}

theorem accepts_hush (heeds : p.Heeds) (w : Window) : p.accepts w.hush = p.accepts w := by
  simp only [Pattern.Heeds, Square.rows, List.forall_mem_cons, List.not_mem_nil, false_implies,
    implies_true, and_true] at heeds
  obtain ⟨⟨northWest, north, northEast⟩, ⟨west, center, east⟩, southWest, south, southEast⟩ := heeds
  simp only [Pattern.accepts, Square.accepts, hush, Slot.accepts_hush northWest,
    Slot.accepts_hush north, Slot.accepts_hush northEast, Slot.accepts_hush west,
    Slot.accepts_hush center, Slot.accepts_hush east, Slot.accepts_hush southWest,
    Slot.accepts_hush south, Slot.accepts_hush southEast]

theorem anyAccepts_hush (heeds : ∀ p ∈ ps, p.Heeds) (w : Window) :
    Pattern.anyAccepts ps w.hush = Pattern.anyAccepts ps w := by
  rw [Pattern.anyAccepts, Pattern.anyAccepts, Bool.eq_iff_iff, List.any_eq_true, List.any_eq_true]
  exact exists_congr fun p => and_congr_right fun mem => by rw [accepts_hush (heeds p mem)]

theorem junction?_hush (w : Window) : w.hush.junction? = w.junction? := by
  simp only [junction?, accepts_hush (Pattern.heeds_junction _)]

theorem corner?_hush (w : Window) : w.hush.corner? = w.corner? := by
  simp only [corner?, accepts_hush (Pattern.heeds_sharpCorner _),
    accepts_hush (Pattern.heeds_roundCorner _)]

theorem isStub_hush (w : Window) : w.hush.isStub = w.isStub := anyAccepts_hush Pattern.heeds_stubs w

theorem crossing?_hush (w : Window) : w.hush.crossing? = w.crossing? := by
  simp only [crossing?, accepts_hush (Pattern.heeds_crossing _)]

theorem isStar_hush (w : Window) : w.hush.isStar = w.isStar := anyAccepts_hush Pattern.heeds_stars w

theorem isLineEnd_hush (w : Window) : w.hush.isLineEnd = w.isLineEnd := by
  rw [isLineEnd, isLineEnd, isStub_hush, anyAccepts_hush Pattern.heeds_lineEnds]

theorem isVertex_hush (w : Window) : w.hush.isVertex = w.isVertex := by
  rw [isVertex, isVertex, corner?_hush, junction?_hush, isLineEnd_hush]

theorem line?_hush (w : Window) : w.hush.line? = w.line? := by
  by_cases mute : Glyph.isMute w.center
  · obtain ⟨level, upright, -⟩ := Glyph.classes_of_isMute mute
    rw [line?, line?, hush, Glyph.hush_of_isMute mute, level, upright]
    rfl
  · rw [line?, line?, hush, Glyph.hush_of_not_isMute mute]

theorem role?_of_isMute {w : Window} (mute : Glyph.isMute w.center) : w.role? = none := by
  obtain ⟨level, upright, corner, star⟩ := Glyph.classes_of_isMute mute
  obtain ⟨noJunction, noCorner, noStub, noCrossing⟩ := bare_of_not_isCorner corner
  have noStar : w.isStar = false := by
    rw [Glyph.isStar, beq_eq_false_iff_ne] at star
    simp [isStar, Pattern.anyAccepts, Pattern.stars, Pattern.accepts, Square.accepts, Slot.accepts,
      star]
  simp [role?, line?, level, upright, noJunction, noCorner, noStub, noCrossing, noStar]

theorem role?_hush (w : Window) : w.hush.role? = w.role? := by
  by_cases mute : Glyph.isMute w.center
  · rw [role?_of_isMute mute, role?_of_isMute]
    rw [hush, Glyph.hush_of_isMute mute]
    exact Glyph.isMute_blank
  · have same : w.hush.center = w.center := Glyph.hush_of_not_isMute mute
    simp only [role?, same, junction?_hush, corner?_hush, line?_hush, isStub_hush, crossing?_hush,
      isStar_hush]

theorem isInked_of_isMute {w : Window} (mute : Glyph.isMute w.center) : w.isInked = false := by
  obtain ⟨level, upright, corner, star⟩ := Glyph.classes_of_isMute mute
  have stroke : Glyph.isStroke w.center = false := by
    by_contra stroke
    rw [Bool.not_eq_false] at stroke
    have found := Glyph.eq_star_of_isStroke stroke (by simp [corner]) (by
      simp [Glyph.isLine, level, upright])
    rw [found] at star
    cases star
  simp [isInked, corner, stroke]

theorem isInked_hush (w : Window) : w.hush.isInked = w.isInked := by
  by_cases mute : Glyph.isMute w.center
  · rw [isInked_of_isMute mute, isInked_of_isMute]
    rw [hush, Glyph.hush_of_isMute mute]
    exact Glyph.isMute_blank
  · have same : w.hush.center = w.center := Glyph.hush_of_not_isMute mute
    simp only [isInked, same, junction?_hush, corner?_hush, isStub_hush, crossing?_hush]

end Window

theorem Gate.admits_hush (g : Gate) (c : Char) : g.admits (Glyph.hush c) = g.admits c := by
  by_cases mute : Glyph.isMute c
  · rw [Glyph.hush_of_isMute mute, g.admits_of_isMute mute, g.admits_of_isMute Glyph.isMute_blank]
  · rw [Glyph.hush_of_not_isMute mute]

@[simp] theorem Cell.translate_zero (c : Cell) : c.translate 0 0 = c := by
  simp [Cell.translate]

namespace Grid

variable {g h : Grid} {c : Cell} {dx dy : Int} {blocked : Option Cell} {next : List Cell}

theorem opensAt_eq (g : Grid) (c : Cell) (gate : Gate) :
    g.opensAt c gate = gate.admits (Glyph.hush (g.get c)) := by
  rw [gate.admits_hush, opensAt]
  by_cases outside : g.get c = Glyph.outside
  · rw [outside, gate.admits_of_isMute (c := Glyph.outside) (by decide), Bool.and_false]
  · rw [bne_iff_ne.2 outside, Bool.true_and]

/-- A grid in which lines see what they see in another, in other places. -/
def Echoes (h g : Grid) (dx dy : Int) : Prop :=
  ∀ c, Glyph.hush (h.get (c.translate dx dy)) = Glyph.hush (g.get c)

theorem Moves.echoes (moves : h.Moves g dx dy) : h.Echoes g dx dy := fun c =>
  (moves.alike c).hush_eq

namespace Echoes

variable (echoes : h.Echoes g dx dy)
include echoes

theorem symm : g.Echoes h (-dx) (-dy) := fun c => by
  obtain ⟨n, rfl⟩ := c.exists_translate dx dy
  rw [echoes n]
  simp [Cell.translate]

theorem window (c : Cell) : (h.window (c.translate dx dy)).hush = (g.window c).hush := by
  have heard (ex ey : Int) : Glyph.hush (h.get ((c.translate dx dy).translate ex ey))
      = Glyph.hush (g.get (c.translate ex ey)) := by
    rw [Cell.translate_translate_comm]
    exact echoes _
  exact Square.ext (heard ..) (heard ..) (heard ..) (heard ..) (heard ..) (heard ..) (heard ..)
    (heard ..) (heard ..)

theorem role? (c : Cell) : h.role? (c.translate dx dy) = g.role? c := by
  rw [Grid.role?, Grid.role?, ← Window.role?_hush, echoes.window, Window.role?_hush]

theorem isInked (c : Cell) : h.isInked (c.translate dx dy) = g.isInked c := by
  rw [Grid.isInked, Grid.isInked, ← Window.isInked_hush, echoes.window, Window.isInked_hush]

theorem isLineEnd (c : Cell) : h.isLineEnd (c.translate dx dy) = g.isLineEnd c := by
  rw [Grid.isLineEnd, Grid.isLineEnd, ← Window.isLineEnd_hush, echoes.window,
    Window.isLineEnd_hush]

theorem isVertex (c : Cell) : h.isVertex (c.translate dx dy) = g.isVertex c := by
  rw [Grid.isVertex, Grid.isVertex, ← Window.isVertex_hush, echoes.window, Window.isVertex_hush]

theorem openNeighbors (c : Cell) :
    h.openNeighbors (c.translate dx dy) = (g.openNeighbors c).map (·.translate dx dy) := by
  unfold Grid.openNeighbors
  rw [List.map_filterMap]
  refine List.filterMap_congr fun d _ => ?_
  rw [Cell.step_translate, opensAt_eq, opensAt_eq, echoes]
  split <;> rfl

/-- Lines go on as they do in the other grid. -/
theorem continuations? (c : Cell) :
    h.continuations? (c.translate dx dy)
      = (g.continuations? c).map (List.map (·.translate dx dy)) := by
  -- Continuations are steps from the cell, and a step is carried over as it is.
  have steps (ds : List Direction) :
      ds.map (c.translate dx dy).step = (ds.map c.step).map (·.translate dx dy) := by
    rw [List.map_map]
    exact List.map_congr_left fun d _ => c.step_translate d dx dy
  unfold Grid.continuations?
  rw [echoes.role?]
  cases g.role? c with
  | none => rfl
  | some r =>
    cases r with
    | junction j => exact congrArg some (echoes.openNeighbors c)
    | corner k => exact congrArg some (steps _)
    | line a =>
      simp only [Option.map_some]
      rw [steps, List.filter_map]
      exact congrArg some (congrArg _ (List.filter_congr fun n _ => echoes.isInked n))
    | stub =>
      have sides : [(c.translate dx dy).east, (c.translate dx dy).west, (c.translate dx dy).north,
          (c.translate dx dy).south] = [c.east, c.west, c.north, c.south].map (·.translate dx dy) :=
        steps [.east, .west, .north, .south]
      have inked : h.isInked ∘ (·.translate dx dy) = g.isInked := funext echoes.isInked
      simp only [Option.map_some]
      rw [sides, List.find?_map, inked, Option.toList_map]
    | crossing a => exact congrArg some (steps _)
    | star => rfl

theorem follow (followed : g.follow c blocked = .ok next) :
    h.follow (c.translate dx dy) (blocked.map (·.translate dx dy))
      = .ok (next.map (·.translate dx dy)) := by
  unfold Grid.follow at followed ⊢
  rw [echoes.continuations?]
  cases found : g.continuations? c with
  | none => simp [found] at followed
  | some all =>
    simp only [found, Except.ok.injEq, Option.map_some] at followed ⊢
    rw [← followed, List.filter_map]
    refine congrArg _ (List.filter_congr fun n _ => ?_)
    cases blocked with
    | none => rfl
    | some b =>
      have same : b.translate dx dy = n.translate dx dy ↔ b = n :=
        ⟨Cell.translate_injective, fun same => by rw [same]⟩
      simp [bne, same]

/-- A line breaks off where it does in the other grid. -/
theorem follow_error {fault : Fault} (failed : g.follow c blocked = .error fault) :
    h.follow (c.translate dx dy) (blocked.map (·.translate dx dy))
      = .error (h.unclassifiable (c.translate dx dy)) := by
  unfold Grid.follow at failed ⊢
  rw [echoes.continuations?]
  cases found : g.continuations? c with
  | none => rfl
  | some all => simp [found] at failed

end Echoes

end Grid

end Linework
