import Linework.Proofs.Arrowheads
import Linework.Proofs.Joint
import Linework.Proofs.Region

/-! What letters and stars give way to.

A pass looks for what lies under a character before it writes anything, so the order in which cells
are written is of no account. What comes up is a straight line or a plus sign, and neither gives way
to anything: a line that a cell was decided by is still beside it when roles are told.
-/

set_option autoImplicit false

namespace Linework

namespace Glyph

variable {char : Char}

theorem isPlain_of_isHorizontal (level : isHorizontal char) : isPlain char := by
  simp [isPlain, isLine, level]

theorem isPlain_of_isVertical (upright : isVertical char) : isPlain char := by
  simp [isPlain, isLine, upright]

theorem hides_of_isPlain (plain : isPlain char) :
    Text.isAlphanumeric char = false ∧ isStar char = false := by
  simp only [isPlain, isLine, isHorizontal, isVertical, Bool.or_eq_true, beq_iff_eq] at plain
  rcases plain with ((rfl | rfl) | rfl | rfl) | rfl <;> decide

theorem not_isStar_of_isAlphanumeric (letter : Text.isAlphanumeric char) : isStar char = false := by
  refine eq_false_of_ne_true fun star => ?_
  rw [isStar, beq_iff_eq] at star
  rw [star] at letter
  revert letter
  decide

end Glyph

namespace Overprint

variable {g old new last : Grid} {under? : Grid → Cell → Option Char} {c : Cell} {char : Char}
variable {d : Direction} {across along : Bool}

def decided (g : Grid) (under? : Grid → Cell → Option Char) : Grid :=
  .tabulate g.width g.height fun c => (under? g c).getD (g.get c)

theorem get_decided : (decided g under?).get c
    = if c ∈ g then (under? g c).getD (g.get c) else g.get c := by
  split
  next inside => exact Grid.get_tabulate (f := fun c => (under? g c).getD (g.get c)) inside
  next outside =>
    rw [Grid.get_of_not_mem outside]
    exact Grid.get_of_not_mem (g := decided g under?) outside

theorem size_uncover (g : Grid) (under? : Grid → Cell → Option Char) :
    (uncover g under?).width = g.width ∧ (uncover g under?).height = g.height := by
  rw [uncover]
  refine List.foldlRecOn (motive := fun (h : Grid) => h.width = g.width ∧ h.height = g.height) _ _
    ⟨rfl, rfl⟩ fun h size found _ => ?_
  rwa [Grid.width_set, Grid.height_set]

/-- Writing one cell after another comes to the same as deciding them all at once. -/
theorem uncover_eq_decided (g : Grid) (under? : Grid → Cell → Option Char) :
    uncover g under? = decided g under? := by
  obtain ⟨width, height⟩ := size_uncover g under?
  refine Grid.ext_get width height fun c => ?_
  rw [get_uncover, get_decided]

theorem get_uncover_of_none (bare : under? g c = none) : (uncover g under?).get c = g.get c := by
  rw [get_uncover, bare, Option.getD_none, ite_self]

theorem get_uncover_of_some (inside : c ∈ g) (found : under? g c = some char) :
    (uncover g under?).get c = char := by
  rw [get_uncover, if_pos inside, found, Option.getD_some]

theorem under?_of_get_ne (changed : (uncover g under?).get c ≠ g.get c) :
    under? g c = some ((uncover g under?).get c) := by
  cases hidden : under? g c with
  | none => exact absurd (get_uncover_of_none hidden) changed
  | some char =>
    rw [get_uncover] at changed ⊢
    split at changed
    next inside => rw [if_pos inside, hidden, Option.getD_some]
    next outside => exact absurd rfl changed

/-! ### What comes up -/

theorem isLine_or_plus (line : lineAlong? across along = some char) :
    Glyph.isLine char ∨ char = '+' ∧ across ∧ along := by
  revert line
  cases across <;> cases along <;> rintro ⟨⟩ <;> decide

theorem isPlain_of_lineAlong? (line : lineAlong? across along = some char) :
    Glyph.isPlain char := by
  rcases isLine_or_plus line with line | ⟨rfl, -⟩
  · simp [Glyph.isPlain, line]
  · rfl

theorem of_underLetter? (found : underLetter? g c = some char) :
    Text.isAlphanumeric (g.get c) ∧ lineAlong?
      (Glyph.isHorizontal (g.get c.west) && Glyph.isHorizontal (g.get c.east))
      (Glyph.isVertical (g.get c.north) && Glyph.isVertical (g.get c.south)) = some char :=
  Option.ite_none_right_eq_some.1 found

theorem of_underStar? (found : underStar? g c = some char) :
    Glyph.isStar (g.get c) ∧ lineAlong?
      (Glyph.isHorizontal (g.get c.west) || Glyph.isHorizontal (g.get c.east))
      (Glyph.isVertical (g.get c.north) || Glyph.isVertical (g.get c.south)) = some char := by
  obtain ⟨both, line⟩ := Option.ite_none_right_eq_some.1 found
  exact ⟨(Bool.and_eq_true_iff.1 both).1, line⟩

def Keeps (old new : Grid) : Prop := ∀ c, Glyph.isPlain (old.get c) → new.get c = old.get c

namespace Keeps

theorem trans (first : Keeps old new) (second : Keeps new last) : Keeps old last := by
  intro c plain
  have kept := first c plain
  rw [second c (kept ▸ plain), kept]

theorem of_letters (g : Grid) : Keeps g (uncover g underLetter?) := by
  intro c plain
  refine get_uncover_of_none ?_
  rw [underLetter?, (Glyph.hides_of_isPlain plain).1, if_neg Bool.false_ne_true]

theorem of_stars (g : Grid) : Keeps g (uncover g underStar?) := by
  intro c plain
  refine get_uncover_of_none ?_
  rw [underStar?, (Glyph.hides_of_isPlain plain).2, Bool.false_and, if_neg Bool.false_ne_true]

theorem of_clear (g : Grid) : Keeps g (clear g).1 := (of_letters g).trans (of_stars _)

theorem hasArm_of_isHorizontal (keeps : Keeps old new) (side : d.isHorizontal)
    (level : Glyph.isHorizontal (old.get (c.step d))) : (new.window c).hasArm d := by
  rw [Grid.hasArm_window, keeps _ (Glyph.isPlain_of_isHorizontal level), Glyph.runs, if_pos side]
  exact Glyph.runs_of_isHorizontal level

theorem hasArm_of_isVertical (keeps : Keeps old new) (side : ¬ d.isHorizontal)
    (upright : Glyph.isVertical (old.get (c.step d))) : (new.window c).hasArm d := by
  rw [Grid.hasArm_window, keeps _ (Glyph.isPlain_of_isVertical upright), Glyph.runs, if_neg side]
  exact Glyph.runs_of_isVertical upright

end Keeps

end Overprint

namespace Role

theorem ofArms?_of_bend {north east south west : Bool} (level : east ∨ west)
    (upright : north ∨ south) : (∃ k, ofArms? north east south west = some (.corner k)) ∨
      ∃ j, ofArms? north east south west = some (.junction j) := by
  cases north <;> cases east <;> cases south <;> cases west <;>
    simp [ofArms?] at level upright ⊢

end Role

namespace Window

variable {w : Window} {across along : Bool}

theorem role?_of_isLine (line : Glyph.isLine w.center) : ∃ a, w.role? = some (.line a) := by
  obtain ⟨a, line⟩ := exists_line? line
  exact ⟨a, role?_of_line? line⟩

/-- A cell with a line beside it for each axis that it runs along is part of a line, or lines meet
there. -/
theorem role?_of_lineAlong? (line : Overprint.lineAlong? across along = some w.center)
    (level : across → w.hasArm .east ∨ w.hasArm .west)
    (upright : along → w.hasArm .north ∨ w.hasArm .south) :
    (∃ a, w.role? = some (.line a)) ∨ (∃ k, w.role? = some (.corner k)) ∨
      ∃ j, w.role? = some (.junction j) := by
  rcases Overprint.isLine_or_plus line with line | ⟨plus, isAcross, isAlong⟩
  · exact .inl (role?_of_isLine line)
  · rcases Role.ofArms?_of_bend (level isAcross) (upright isAlong) with ⟨k, corner⟩ | ⟨j, junction⟩
    · exact .inr (.inl ⟨k, role?_plus plus corner⟩)
    · exact .inr (.inr ⟨j, role?_plus plus junction⟩)

/-- With lines at both sides for each of its axes, it is part of a line or of a crossing. -/
theorem role?_of_lineAlong?_of_through
    (line : Overprint.lineAlong? across along = some w.center)
    (level : across → w.hasArm .east ∧ w.hasArm .west)
    (upright : along → w.hasArm .north ∧ w.hasArm .south) :
    (∃ a, w.role? = some (.line a)) ∨ w.role? = some (.junction .cross) := by
  rcases Overprint.isLine_or_plus line with line | ⟨plus, isAcross, isAlong⟩
  · exact .inl (role?_of_isLine line)
  · obtain ⟨east, west⟩ := level isAcross
    obtain ⟨north, south⟩ := upright isAlong
    refine .inr (role?_plus plus ?_)
    rw [crossroads?, north, east, south, west, Role.ofArms?]

end Window

namespace Overprint

variable {g : Grid} {c : Cell} {char : Char}

theorem get_lettered_of_isStar
    (star : Glyph.isStar (g.get c) ∨ Glyph.isStar ((uncover g underLetter?).get c)) :
    (uncover g underLetter?).get c = g.get c := by
  by_contra changed
  obtain ⟨letter, line⟩ := of_underLetter? (under?_of_get_ne changed)
  rcases star with before | after
  · rw [Glyph.not_isStar_of_isAlphanumeric letter] at before
    cases before
  · rw [(Glyph.hides_of_isPlain (isPlain_of_lineAlong? line)).2] at after
    cases after

theorem mem_marked_iff : c ∈ (clear g).2 ↔
    Glyph.isStar (g.get c) ∧ (clear g).1.get c ≠ g.get c := by
  rw [mem_marked]
  constructor
  · rintro ⟨inside, found⟩
    obtain ⟨char, found⟩ := Option.isSome_iff_exists.1 found
    obtain ⟨star, line⟩ := of_underStar? found
    rw [get_lettered_of_isStar (.inr star)] at star
    -- A star that is still there would be part of the line that came up in its place.
    refine ⟨star, fun same => ?_⟩
    have plain := isPlain_of_lineAlong? line
    rw [← get_uncover_of_some inside found, show (uncover _ _).get c = g.get c from same] at plain
    rw [(Glyph.hides_of_isPlain plain).2] at star
    cases star
  · rintro ⟨star, changed⟩
    have found : underStar? (uncover g underLetter?) c = some ((clear g).1.get c) := by
      refine under?_of_get_ne ?_
      rwa [get_lettered_of_isStar (.inl star)]
    refine ⟨Grid.mem_of_get_ne_outside fun outside => ?_, Option.isSome_of_eq_some found⟩
    rw [get_lettered_of_isStar (.inl star)] at outside
    rw [outside] at star
    cases star

/-- A letter that is gone has given way in the first pass, and what came up is still there. -/
theorem underLetter?_of_changed (letter : Text.isAlphanumeric (g.get c))
    (changed : (clear g).1.get c ≠ g.get c) : underLetter? g c = some ((clear g).1.get c) := by
  have first : (uncover g underLetter?).get c ≠ g.get c := by
    intro same
    -- The second pass takes stars only, so it would have left the letter alone.
    refine changed ((get_uncover_of_none ?_).trans same)
    rw [underStar?, same, Glyph.not_isStar_of_isAlphanumeric letter, Bool.false_and,
      if_neg Bool.false_ne_true]
  have found := under?_of_get_ne first
  rw [found, Option.some.injEq]
  exact (Keeps.of_stars _ c (isPlain_of_lineAlong? (of_underLetter? found).2)).symm

theorem role?_of_marked (mark : c ∈ (clear g).2) :
    (∃ a, (clear g).1.role? c = some (.line a)) ∨ (∃ k, (clear g).1.role? c = some (.corner k)) ∨
      ∃ j, (clear g).1.role? c = some (.junction j) := by
  have keeps := Keeps.of_stars (uncover g underLetter?)
  obtain ⟨inside, found⟩ := mem_marked.1 mark
  obtain ⟨char, found⟩ := Option.isSome_iff_exists.1 found
  have shown : ((clear g).1.window c).center = char :=
    (Grid.center_window ..).trans (get_uncover_of_some inside found)
  refine Window.role?_of_lineAlong? (shown ▸ (of_underStar? found).2)
    (fun level => ?_) fun upright => ?_
  · rcases Bool.or_eq_true_iff.1 level with west | east
    · exact .inr (keeps.hasArm_of_isHorizontal (d := .west) rfl west)
    · exact .inl (keeps.hasArm_of_isHorizontal (d := .east) rfl east)
  · rcases Bool.or_eq_true_iff.1 upright with north | south
    · exact .inl (keeps.hasArm_of_isVertical (d := .north) Bool.false_ne_true north)
    · exact .inr (keeps.hasArm_of_isVertical (d := .south) Bool.false_ne_true south)

theorem role?_of_letter (letter : Text.isAlphanumeric (g.get c))
    (changed : (clear g).1.get c ≠ g.get c) :
    (∃ a, (clear g).1.role? c = some (.line a)) ∨
      (clear g).1.role? c = some (.junction .cross) := by
  have keeps := Keeps.of_clear g
  have line := (of_underLetter? (underLetter?_of_changed letter changed)).2
  refine Window.role?_of_lineAlong?_of_through
    (line.trans (congrArg some (Grid.center_window ..).symm)) (fun level => ?_) fun upright => ?_
  · obtain ⟨west, east⟩ := Bool.and_eq_true_iff.1 level
    exact ⟨keeps.hasArm_of_isHorizontal (d := .east) rfl east,
      keeps.hasArm_of_isHorizontal (d := .west) rfl west⟩
  · obtain ⟨north, south⟩ := Bool.and_eq_true_iff.1 upright
    exact ⟨keeps.hasArm_of_isVertical (d := .north) Bool.false_ne_true north,
      keeps.hasArm_of_isVertical (d := .south) Bool.false_ne_true south⟩

/-- Each pass decides all cells by the grid that it is given. Only letters, digits and stars give way,
the marked cells are those of the stars that did, and in what is left every cell that gave way is
part of a line or of a place where lines meet. -/
theorem clear_opens_lines (g : Grid) :
    (uncover g underLetter? = decided g underLetter? ∧
        (clear g).1 = decided (uncover g underLetter?) underStar?) ∧
      (∀ c, (clear g).1.get c ≠ g.get c →
        Text.isAlphanumeric (g.get c) ∨ Glyph.isStar (g.get c)) ∧
      (∀ c, c ∈ (clear g).2 ↔ Glyph.isStar (g.get c) ∧ (clear g).1.get c ≠ g.get c) ∧
      (∀ c ∈ (clear g).2, (∃ a, (clear g).1.role? c = some (.line a)) ∨
        (∃ k, (clear g).1.role? c = some (.corner k)) ∨
          ∃ j, (clear g).1.role? c = some (.junction j)) ∧
      ∀ c, Text.isAlphanumeric (g.get c) → (clear g).1.get c ≠ g.get c →
        (∃ a, (clear g).1.role? c = some (.line a)) ∨
          (clear g).1.role? c = some (.junction .cross) := by
  refine ⟨⟨uncover_eq_decided .., uncover_eq_decided ..⟩, fun c changed => ?held,
    fun c => mem_marked_iff, fun c => role?_of_marked, fun c => role?_of_letter⟩
  case held =>
    by_cases first : (uncover g underLetter?).get c = g.get c
    · rw [← first] at changed ⊢
      exact .inr (of_underStar? (under?_of_get_ne changed)).1
    · exact .inl (of_underLetter? (under?_of_get_ne first)).1

def dotted : Grid :=
  ⟨4, 3, #[' ', '|', ' ', ' ', '-', '7', '-', '*', ' ', '|', ' ', '|'], rfl⟩

example : (clear dotted).1.lines = [" |  ", "-+-+", " | |"] ∧
    (clear dotted).1.role? ⟨1, 1⟩ = some (.junction .cross) ∧
    (clear dotted).1.role? ⟨3, 1⟩ = some (.corner ⟨.topRight, false⟩) := by
  decide +kernel

end Overprint

end Linework
