import Linework.Proofs.Joint

/-! Where a plus sign leads.

A plus sign has an arm on every side where a neighbor carries on a line towards it. With two arms or
more its role, its ink and the ways a line takes through it are those of its arms. With a single arm
it may be a stub. A stub is followed to the first of its neighbors that draws anything, which need
not be the one at its arm.
-/

set_option autoImplicit false

namespace Linework

namespace Window

variable {w : Window} {d : Direction} {r : Role}

def arms (w : Window) : List Direction := [.north, .south, .east, .west].filter w.hasArm

theorem mem_arms : d ∈ w.arms ↔ w.hasArm d := by
  rw [arms, List.mem_filter, and_iff_right]
  cases d <;> simp

theorem crossroads?_isSome : w.crossroads?.isSome ↔ 2 ≤ w.arms.length := by
  unfold crossroads? arms
  cases north : w.hasArm .north <;> cases east : w.hasArm .east <;>
    cases south : w.hasArm .south <;> cases west : w.hasArm .west <;>
    simp [north, east, south, west, Role.ofArms?]

/-- No two roles that plus signs have by their arms have the same arms. -/
theorem crossroads?_of_arms (joins : r.Joins) (arms : ∀ d, d ∈ w.arms ↔ d ∈ r.arms) :
    w.crossroads? = some r := by
  have arm (d : Direction) : w.hasArm d = decide (d ∈ r.arms) := by
    rw [Bool.eq_iff_iff, decide_eq_true_iff, ← mem_arms, arms]
  unfold crossroads?
  simp only [arm]
  rcases joins with ⟨j, rfl⟩ | ⟨turn, rfl⟩ | ⟨a, rfl⟩
  · cases j with
    | cross => rfl
    | tee missing => cases missing <;> rfl
  · cases turn <;> rfl
  · cases a <;> rfl

theorem arms_eq (found : w.crossroads? = some r) (few : ∀ j, r ≠ .junction j) :
    w.arms = r.arms := by
  have arm : w.hasArm = fun d => decide (d ∈ r.arms) := by
    funext d
    rw [Bool.eq_iff_iff, decide_eq_true_iff, mem_arms_crossroads found]
  rw [arms, arm]
  rcases crossroads?_cases found with ⟨j, rfl⟩ | ⟨turn, rfl⟩ | ⟨a, rfl⟩
  · exact absurd rfl (few j)
  · cases turn <;> rfl
  · cases a <;> rfl

theorem EndsAt.arms_eq {arm : Direction} (ends : w.EndsAt arm) : w.arms = [arm] := by
  have only : w.hasArm = fun d => decide (d = arm) := funext ends.hasArm_eq
  rw [arms, only]
  cases arm <;> rfl

theorem isInked_iff_of_not_isLineArt (bare : Glyph.isLineArt w.center = false) :
    w.isInked ↔ w.center = '*' := by
  rw [Glyph.isLineArt, Bool.or_eq_false_iff] at bare
  constructor
  · intro inked
    refine Glyph.eq_star_of_isStroke ?_ (ne_true_of_eq_false bare.2) (ne_true_of_eq_false bare.1)
    rw [isInked] at inked
    simp_all
  · intro star
    rw [isInked, star]
    rfl

end Window

namespace Grid

variable {g : Grid} {c : Cell} {d arm : Direction} {r : Role}

def armsAt (g : Grid) (c : Cell) : List Direction :=
  [.north, .south, .east, .west].filter fun d =>
    decide (c.step d ∈ g) && Glyph.runs d (g.get (c.step d))

theorem armsAt_eq (g : Grid) (c : Cell) : g.armsAt c = (g.window c).arms := by
  apply List.filter_congr
  intro d _
  rw [hasArm_window]
  by_cases inside : c.step d ∈ g
  · rw [decide_eq_true inside, Bool.true_and]
  · rw [not_runs_of_empty (.inr (get_of_not_mem inside)), Bool.and_false]

theorem openNeighbors_eq (g : Grid) (c : Cell) :
    g.openNeighbors c = (g.armsAt c).map c.step := by
  rw [armsAt_eq, Window.arms, openNeighbors]
  simp only [opensAt_step, ← hasArm_window]
  generalize ([.north, .south, .east, .west] : List Direction) = sides
  induction sides with
  | nil => rfl
  | cons d sides ih =>
    rw [List.filterMap_cons, List.filter_cons, ih]
    cases (g.window c).hasArm d <;> rfl

/-! ### Plus signs with several arms -/

theorem role?_of_arms (plus : g.get c = '+') (joins : r.Joins)
    (arms : ∀ d, d ∈ g.armsAt c ↔ d ∈ r.arms) : g.role? c = some r := by
  rw [armsAt_eq] at arms
  exact Window.role?_plus (by rw [center_window, plus]) (Window.crossroads?_of_arms joins arms)

/-- From a plus sign with two arms or more, a line goes on to the neighbors at its arms. -/
theorem follow_plus (plus : g.get c = '+') (many : 2 ≤ (g.armsAt c).length) :
    g.follow c none = .ok ((g.armsAt c).map c.step) := by
  rw [armsAt_eq, ← Window.crossroads?_isSome, Option.isSome_iff_exists] at many
  obtain ⟨r, found⟩ := many
  have role := Window.role?_plus (by rw [center_window, plus]) found
  rw [follow_none_iff, continuations?, role?, role]
  rcases Window.crossroads?_cases found with ⟨j, rfl⟩ | ⟨turn, rfl⟩ | ⟨a, rfl⟩
  · exact congrArg some (openNeighbors_eq g c)
  · rw [armsAt_eq, Window.arms_eq found (by simp)]
    rfl
  · rw [armsAt_eq, Window.arms_eq found (by simp)]
    rfl

/-- The ink of a plus sign that is a junction or a corner is that of its arms. -/
theorem ink_plus (plus : g.get c = '+') (role : g.role? c = some r)
    (kind : (∃ j, r = .junction j) ∨ ∃ k, r = .corner k) :
    ∃ ink, Ink.ofRole? r = some ink ∧ ∀ d, ink.side d ↔ d ∈ g.armsAt c := by
  have through : r ≠ .stub := by rcases kind with ⟨j, rfl⟩ | ⟨k, rfl⟩ <;> simp
  have found := Window.crossroads?_of_role? (by rw [center_window, plus]) role through
  have arms := Window.mem_arms_crossroads found
  have drawn : Ink.ofRole? r = some (Ink.arms r.arms) := by
    rcases kind with ⟨j, rfl⟩ | ⟨k, rfl⟩ <;> rfl
  refine ⟨_, drawn, fun d => ?_⟩
  rw [Ink.side_arms, List.contains_iff_mem, armsAt_eq, Window.mem_arms, arms]

/-- A plus sign with four arms is a cross, with three a junction without the fourth, with two at
right angles a corner, with two in line a crossing, and with fewer a stub at most. With two arms or
more a line goes on along the arms and nowhere else, and the ink of a junction or a corner reaches
the sides with arms and no others. -/
theorem plus_has_role_by_arms (plus : g.get c = '+') :
    ((g.armsAt c).length = 4 → g.role? c = some (.junction .cross)) ∧
      (∀ missing, (∀ d, d ∈ g.armsAt c ↔ d ≠ missing) →
        g.role? c = some (.junction (.tee missing))) ∧
      (∀ turn : Turn, (∀ d, d ∈ g.armsAt c ↔ d ∈ turn.arms) →
        g.role? c = some (.corner ⟨turn, false⟩)) ∧
      (∀ axis : Axis, (∀ d, d ∈ g.armsAt c ↔ d ∈ axis.arms) →
        g.role? c = some (.crossing axis)) ∧
      ((g.armsAt c).length ≤ 1 → g.role? c = some .stub ∨ g.role? c = none) ∧
      (2 ≤ (g.armsAt c).length → g.follow c none = .ok ((g.armsAt c).map c.step)) ∧
      ∀ r, g.role? c = some r → ((∃ j, r = .junction j) ∨ ∃ k, r = .corner k) →
        ∃ ink, Ink.ofRole? r = some ink ∧ ∀ d, ink.side d ↔ d ∈ g.armsAt c := by
  refine ⟨fun all => ?_, fun missing arms => ?_, fun turn arms => ?_, fun axis arms => ?_,
    fun few => ?_, follow_plus plus, fun r role kind => ink_plus plus role kind⟩
  · apply role?_of_arms plus (.inl ⟨_, rfl⟩)
    intro d
    have whole : g.armsAt c = [.north, .south, .east, .west] :=
      List.filter_sublist.eq_of_length all
    rw [whole]
    cases d <;> simp [Role.arms, Junction.arms, Direction.all]
  · apply role?_of_arms plus (.inl ⟨_, rfl⟩)
    intro d
    rw [arms]
    simp [Role.arms, Junction.arms, Direction.mem_all]
  · exact role?_of_arms plus (.inr (.inl ⟨turn, rfl⟩)) arms
  · exact role?_of_arms plus (.inr (.inr ⟨axis, rfl⟩)) arms
  · -- Without two arms nothing but a stub is left.
    have none : (g.window c).crossroads? = none := by
      rw [← Option.not_isSome_iff_eq_none, Window.crossroads?_isSome, ← armsAt_eq]
      omega
    exact (Window.role?_plus_of_none (by rw [center_window, plus]) none).symm

def hanger : Grid := ⟨3, 2, #['-', '+', '=', ' ', ':', ' '], rfl⟩

theorem plus_has_role_by_arms_hanger : hanger.get ⟨1, 0⟩ = '+' ∧
    hanger.role? ⟨1, 0⟩ = some (.junction (.tee .north)) ∧
    hanger.follow ⟨1, 0⟩ none = .ok [⟨1, 1⟩, ⟨2, 0⟩, ⟨0, 0⟩] ∧
    ∃ ink, Ink.ofRole? (.junction (.tee .north)) = some ink ∧
      ∀ d, ink.side d ↔ d ∈ hanger.armsAt ⟨1, 0⟩ := by
  have plus : hanger.get ⟨1, 0⟩ = '+' := by decide
  obtain ⟨-, three, -, -, -, follow, ink⟩ := plus_has_role_by_arms plus
  have role := three .north fun d => by cases d <;> decide
  exact ⟨plus, role, follow (by decide), ink _ role (.inl ⟨_, rfl⟩)⟩

/-! ### Stubs -/

def lookout : List Direction := [.east, .west, .north, .south]

theorem mem_lookout (d : Direction) : d ∈ lookout := by
  cases d <;> decide

theorem find?_lookout {p : Direction → Bool} : lookout.find? p = some d ↔
    p d ∧ ∀ e, p e → lookout.idxOf d ≤ lookout.idxOf e := by
  -- Whatever comes before the first that is found does not hold.
  have first {d : Direction} (found : lookout.find? p = some d) (e : Direction) (holds : p e) :
      lookout.idxOf d ≤ lookout.idxOf e := by
    obtain ⟨here, before, after, split, clear⟩ := List.find?_eq_some_iff_append.1 found
    have out (a : Direction) (holds : p a) : a ∉ before := fun there => by
      simpa [holds] using clear a there
    rw [split, List.idxOf_append_of_notMem (out d here), List.idxOf_append_of_notMem (out e holds),
      List.idxOf_cons_self]
    omega
  refine ⟨fun found => ⟨List.find?_some found, first found⟩, fun ⟨here, least⟩ => ?_⟩
  obtain ⟨e, found⟩ : ∃ e, lookout.find? p = some e :=
    Option.isSome_iff_exists.1 (List.find?_isSome.2 ⟨d, mem_lookout d, here⟩)
  have same := Nat.le_antisymm (least e (List.find?_some found)) (first found d here)
  rw [found, (List.idxOf_inj (mem_lookout d)).1 same]

theorem exists_endsAt (stub : g.role? c = some .stub) : ∃ arm, (g.window c).EndsAt arm :=
  Window.exists_endsAt (Window.shows_of_role? stub)

theorem follow_stub (stub : g.role? c = some .stub) : g.follow c none =
    .ok ((lookout.find? fun d => g.isInked (c.step d)).map c.step).toList := by
  have looks : [c.east, c.west, c.north, c.south] = lookout.map c.step := rfl
  rw [follow_none_iff, continuations?, stub]
  simp only [looks, List.find?_map]
  rfl

/-- What is drawn beside a stub and not at its arm is a star, or a line across opposite to it. -/
theorem isInked_beside (ends : (g.window c).EndsAt arm) (away : d ≠ arm) :
    g.isInked (c.step d) ↔
      g.get (c.step d) = '*' ∨ d = arm.opposite ∧ Glyph.isLine (g.get (c.step d)) := by
  have clear : Glyph.runs d (g.get (c.step d)) = false := by
    rw [← hasArm_window, ends.hasArm_eq, decide_eq_false away]
  by_cases drawn : Glyph.isLineArt (g.get (c.step d))
  -- Line art next to a stub that does not come in is opposite to its arm and lies across.
  · have far : d = arm.opposite := by
      apply Direction.eq_opposite away
      by_contra turned
      have bare := ends.beside d turned
      rw [side_window, drawn] at bare
      cases bare
    have line : Glyph.isLine (g.get (c.step d)) := by
      rw [Glyph.isLineArt, Bool.or_eq_true] at drawn
      refine drawn.resolve_right fun corner => ?_
      rw [Glyph.runs_of_isCorner corner d] at clear
      cases clear
    obtain ⟨a, found⟩ := line?_of_isLine line
    exact ⟨fun _ => .inr ⟨far, line⟩, fun _ => Window.isInked_of_line? found⟩
  · have bare := eq_false_of_ne_true drawn
    have star := Window.isInked_iff_of_not_isLineArt (w := g.window (c.step d))
    rw [center_window] at star
    rw [isInked, star bare, or_iff_left]
    rintro ⟨-, line⟩
    simp [Glyph.isLineArt, line] at bare

/-- A stub has a single arm and is followed to one neighbor at most, the first that is inked. Off
its arm that can only be a star, or a line across opposite to it. So it is not followed off its arm
exactly if the arm is inked and comes before whatever else is. -/
theorem stub_followed_along_arm (stub : g.role? c = some .stub) :
    ∃ arm next, g.armsAt c = [arm] ∧ g.follow c none = .ok next ∧ next.length ≤ 1 ∧
      (∀ d, d ≠ arm → (g.isInked (c.step d) ↔
        g.get (c.step d) = '*' ∨ d = arm.opposite ∧ Glyph.isLine (g.get (c.step d)))) ∧
      ((∀ n ∈ next, n = c.step arm) ↔ ∀ d, d ≠ arm → g.isInked (c.step d) →
        g.isInked (c.step arm) ∧ lookout.idxOf arm < lookout.idxOf d) := by
  obtain ⟨arm, ends⟩ := exists_endsAt stub
  refine ⟨arm, _, (armsAt_eq g c).trans ends.arms_eq, follow_stub stub, ?_,
    fun d away => isInked_beside ends away, ?_⟩
  · cases lookout.find? fun d => g.isInked (c.step d) <;> simp
  · cases found : lookout.find? fun d => g.isInked (c.step d) with
    | none =>
      have bare := List.find?_eq_none.1 found
      exact ⟨fun _ d _ inked => absurd inked (bare d (mem_lookout d)), fun _ n mem => by cases mem⟩
    | some e =>
      obtain ⟨inked, first⟩ := find?_lookout.1 found
      -- At most one cell is followed, so all of them lie along the arm just when that one does.
      have only : (∀ n ∈ ((some e).map c.step).toList, n = c.step arm) ↔ e = arm := by
        simpa using ⟨c.step_injective, congrArg c.step⟩
      rw [only]
      constructor
      · rintro rfl d away there
        have differ : lookout.idxOf e ≠ lookout.idxOf d := fun same =>
          away ((List.idxOf_inj (mem_lookout e)).1 same).symm
        exact ⟨inked, Nat.lt_of_le_of_ne (first d there) differ⟩
      · intro leads
        by_contra away
        obtain ⟨there, before⟩ := leads e away inked
        exact absurd (first arm there) (Nat.not_le.2 before)

def peg : Grid := ⟨3, 1, #['|', '+', '-'], rfl⟩

theorem stub_followed_along_arm_peg : peg.role? ⟨1, 0⟩ = some .stub ∧
    ∃ arm next, peg.armsAt ⟨1, 0⟩ = [arm] ∧ peg.follow ⟨1, 0⟩ none = .ok next ∧
      next.length ≤ 1 ∧ ∀ n ∈ next, n = Cell.step ⟨1, 0⟩ arm := by
  have stub : peg.role? ⟨1, 0⟩ = some .stub := by decide
  obtain ⟨arm, next, single, followed, short, -, along⟩ := stub_followed_along_arm stub
  obtain rfl : arm = .east := by
    have east : peg.armsAt ⟨1, 0⟩ = [.east] := by decide
    rw [east] at single
    cases single
    rfl
  refine ⟨stub, .east, next, single, followed, short, along.2 fun d away _ => ⟨by decide, ?_⟩⟩
  cases d with
  | east => exact absurd rfl away
  | _ => decide

def turnedPeg : Grid := ⟨3, 1, #['-', '+', '|'], rfl⟩

/-- A stub may be followed to a line across, which does not carry its line on. -/
theorem stub_followed_across : ¬ ∀ (g : Grid) (c : Cell) (next : List Cell),
    g.role? c = some .stub → g.follow c none = .ok next →
      ∀ n ∈ next, ∃ d ∈ g.armsAt c, n = c.step d := by
  intro along
  have followed : turnedPeg.follow ⟨1, 0⟩ none = .ok [⟨2, 0⟩] := by decide
  obtain ⟨d, arm, there⟩ := along turnedPeg ⟨1, 0⟩ _ (by decide) followed ⟨2, 0⟩ (by simp)
  have west : turnedPeg.armsAt ⟨1, 0⟩ = [.west] := by decide
  rw [west, List.mem_singleton] at arm
  rw [arm] at there
  cases there

end Grid

end Linework
