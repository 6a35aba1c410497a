import Linework.Proofs.Joint

/-! Ink and continuation agree on which cells are connected.

The ink of a crossing reaches all four sides, yet its line goes on in two directions only. That makes
no difference: on the other two sides no neighbor carries a line towards it, so the ink there meets
none.
-/

set_option autoImplicit false

namespace Linework.Grid

variable {g : Grid} {c : Cell} {d : Direction} {r : Role}

theorem exists_continuations (role : g.role? c = some r) (through : r ≠ .stub)
    (hollow : r ≠ .star) : ∃ next, g.continuations? c = some next ∧
      ∀ d, (g.role? (c.step d)).isSome → (c.step d ∈ next ↔ d ∈ r.arms) := by
  have mem_step (ds : List Direction) (d : Direction) : c.step d ∈ ds.map c.step ↔ d ∈ ds :=
    List.mem_map_of_injective fun _ _ same => Cell.step_injective c same
  rw [continuations?, role]
  cases r with
  | junction j =>
    have plus := Window.plus_of_junction? (Window.shows_of_role? role)
    have arms := Window.mem_arms_crossroads (Window.crossroads?_of_role? plus role (by simp))
    refine ⟨_, rfl, fun d _ => ?_⟩
    rw [arms, hasArm_window, mem_openNeighbors]
    constructor
    · rintro ⟨e, same, runs⟩
      rwa [Cell.step_injective c same]
    · exact fun runs => ⟨d, rfl, runs⟩
  | corner k => exact ⟨_, rfl, fun d _ => mem_step ..⟩
  | line a =>
    refine ⟨_, rfl, fun d there => ?_⟩
    obtain ⟨t, there⟩ := Option.isSome_iff_exists.1 there
    rw [List.mem_filter, mem_step]
    exact and_iff_left (Window.shows_of_role? there).isInked
  | stub => exact absurd rfl through
  | crossing a => exact ⟨_, rfl, fun d _ => mem_step ..⟩
  | star => exact absurd rfl hollow

/-- Of two neighbors that are neither stubs nor stars, the ink meets on the side they share just
where the line goes on from each of them to the other. -/
theorem inked_iff_followed {t : Role} (role : g.role? c = some r)
    (role' : g.role? (c.step d) = some t) (drawn : r ≠ .stub ∧ r ≠ .star)
    (drawn' : t ≠ .stub ∧ t ≠ .star) :
    ∃ next back, g.follow c none = .ok next ∧ g.follow (c.step d) none = .ok back ∧
      (g.inksSide c d ∧ g.inksSide (c.step d) d.opposite ↔ c.step d ∈ next ∧ c ∈ back) := by
  obtain ⟨next, found, onward⟩ := exists_continuations role drawn.1 drawn.2
  obtain ⟨back, found', homeward⟩ := exists_continuations role' drawn'.1 drawn'.2
  have home : c ∈ back ↔ d.opposite ∈ t.arms := by
    simpa [role] using homeward d.opposite
  refine ⟨next, back, follow_none_iff.2 found, follow_none_iff.2 found', ?_⟩
  rw [onward d (by simp [role']), home]
  constructor
  · rintro ⟨here, there⟩
    have runs := runs_of_inksSide role drawn.2 here
    have runs' := runs_of_inksSide role' drawn'.2 there
    refine ⟨mem_arms_of_inksSide role drawn.2 here ?_, mem_arms_of_inksSide role' drawn'.2 there ?_⟩
    · rwa [← Glyph.runs_opposite]
    · rwa [Cell.step_step_opposite, Glyph.runs_opposite]
  · rintro ⟨here, there⟩
    exact ⟨inksSide_of_mem_arms role here, inksSide_of_mem_arms role' there⟩

def rails : Grid := ⟨3, 2, #['-', '-', '-', '-', '+', '-'], rfl⟩

theorem inked_iff_followed_rails :
    rails.role? ⟨1, 1⟩ = some (.crossing .horizontal) ∧
      rails.role? ⟨1, 0⟩ = some (.line .horizontal) ∧
      ∃ next back, rails.follow ⟨1, 1⟩ none = .ok next ∧ rails.follow ⟨1, 0⟩ none = .ok back ∧
        (rails.inksSide ⟨1, 1⟩ .north ∧ rails.inksSide ⟨1, 0⟩ .south ↔
          ⟨1, 0⟩ ∈ next ∧ ⟨1, 1⟩ ∈ back) := by
  have crossing : rails.role? ⟨1, 1⟩ = some (.crossing .horizontal) := by decide
  have line : rails.role? ((⟨1, 1⟩ : Cell).step .north) = some (.line .horizontal) := by decide
  exact ⟨crossing, line, inked_iff_followed crossing line (by decide) (by decide)⟩

end Linework.Grid
