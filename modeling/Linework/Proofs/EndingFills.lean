import Linework.Outline
import Linework.Proofs.Flood
import Linework.Proofs.Rearranged
import Linework.Proofs.Survey

/-! Fills that end.

The fills of a recognition start inside their canvas, and a canvas has no characters but ink and
blanks. So none of them looks for its own mark or for what lies beyond the edge, and each of them
comes to an end.
-/

set_option autoImplicit false

namespace Linework

namespace Outline

open Grid (Front)

variable {g canvas : Grid} {s : CellSet} {e : CellSet.Extent} {done rest places : List Cell}
  {seed wall c : Cell} {char mark : Char}

theorem Clean.overwrite (clean : Clean canvas) (shade : char = Ink.mark ∨ char = Glyph.blank) :
    Clean (canvas.overwrite places char) := by
  intro p inside
  rw [Grid.get_overwrite]
  split
  · exact shade
  · exact clean p (Grid.mem_overwrite.1 inside)

theorem clean_blank (width height : Nat) : Clean (Grid.blank width height) := by
  intro p inside
  rw [Grid.get_blank, if_pos inside]
  exact .inr rfl

theorem clean_solid (s : CellSet) (e : CellSet.Extent) : Clean (solid s e) :=
  (clean_blank _ _).overwrite (.inl rfl)

theorem Clean.takePiece {state : Grid × List CellSet} (clean : Clean state.1) (c : Cell) :
    ∃ next, Ink.takePiece state c = .ok next ∧ Clean next.1 := by
  unfold Ink.takePiece
  by_cases marked : state.1.get c = Ink.mark
  · obtain ⟨area, filled, -⟩ := Grid.fill_eq Glyph.blank (Ink.mem_of_mark marked)
      (by rw [marked]; decide)
    rw [if_pos (beq_iff_eq.2 marked), filled]
    exact ⟨_, rfl, clean.overwrite (.inr rfl)⟩
  · rw [if_neg (mt beq_iff_eq.1 marked)]
    exact ⟨state, rfl, clean⟩

theorem clean_of_foldlM {state : Grid × List CellSet} (clean : Clean canvas)
    (taken : done.foldlM Ink.takePiece (canvas, []) = .ok state) : Clean state.1 := by
  obtain ⟨last, found, clean⟩ := foldlM_ok Ink.takePiece done (canvas, [])
    (fun _ state => Clean state.1) clean fun _ c _ _ _ clean => clean.takePiece c
  obtain rfl := Except.ok.inj (found.symm.trans taken)
  exact clean

theorem surveyed_of_foldlM {survey : Survey} (clean : Clean canvas) (inside : ∀ c ∈ done, c ∈ canvas)
    (looked : done.foldlM Survey.look ⟨canvas, Grid.blank canvas.width canvas.height, []⟩
      = .ok survey) : Surveyed canvas done survey := by
  obtain ⟨last, found, surveyed⟩ := foldlM_ok Survey.look done
    ⟨canvas, Grid.blank canvas.width canvas.height, []⟩ (Surveyed canvas) (Surveyed.init canvas)
    fun _ c _ _ cut surveyed => surveyed.step clean (inside c (by simp [cut]))
  obtain rfl := Except.ok.inj (found.symm.trans looked)
  exact surveyed

theorem corner_of_localize? {alone : Grid} {there : CellSet}
    (localized : localize? g s = some (alone, there)) :
    (⟨0, 0⟩ : Cell) ∈ alone ∧ (⟨0, 0⟩ : Cell) ∉ there := by
  obtain ⟨e, found, same⟩ := Option.map_eq_some_iff.1 localized
  cases same
  constructor
  · rw [Grid.mem_foldl_set, Grid.mem_def]
    simp only [Grid.blank]
    omega
  · intro member
    obtain ⟨c, shifted⟩ := Cell.exists_translate (⟨0, 0⟩ : Cell) (1 - e.least.x) (1 - e.least.y)
    rw [shifted, CellSet.mem_translate] at member
    have spans := CellSet.spans_of_extent? found member
    simp only [CellSet.Extent.Spans] at spans
    simp only [Cell.translate, Cell.mk.injEq] at shifted
    omega

theorem blank_of_localize? {alone : Grid} {there : CellSet}
    (localized : localize? g s = some (alone, there)) :
    (Ink.render alone there).get ⟨0, 0⟩ = Glyph.blank := by
  obtain ⟨corner, free⟩ := corner_of_localize? localized
  have inside : (⟨0, 0⟩ : Cell) ∈ Ink.render alone there := by
    rw [Grid.mem_def] at corner ⊢
    rw [(Ink.size_render ..).1, (Ink.size_render ..).2]
    simp only [Ink.scale]
    omega
  refine (Ink.get_render_eq_mark_or_blank inside).resolve_left fun marked => free ?_
  have member := (Ink.inks_of_mark marked).1
  rwa [show (⟨0, 0⟩ : Cell).shrink Ink.scale = ⟨0, 0⟩ from by decide] at member

/-- The fills of a recognition: the canvas, the fine cell at which a fill starts, and the character
it marks with. -/
inductive Fills (g : Grid) : Grid → Cell → Char → Prop
  /-- A piece of ink is taken off. -/
  | piece {done rest : List Cell} {state : Grid × List CellSet} {c : Cell} :
      (Ink.render g g.inked).cells = done ++ c :: rest →
      done.foldlM Ink.takePiece (Ink.render g g.inked, []) = .ok state →
      state.1.get c = Ink.mark → Fills g state.1 c Glyph.blank
  /-- An area between the lines of a piece is looked at. -/
  | area {s : CellSet} {done rest : List Cell} {survey : Survey} {c : Cell} :
      (Ink.render g s).cells = done ++ c :: rest →
      done.foldlM Survey.look
          ⟨Ink.render g s, Grid.blank (Ink.render g s).width (Ink.render g s).height, []⟩
        = .ok survey →
      survey.seen.isBlank c → Fills g survey.canvas c Grid.taken
  /-- The ground around a set is flooded. -/
  | ground {s there : CellSet} {alone : Grid} : localize? g s = some (alone, there) →
      Fills g (Ink.render alone there) ⟨0, 0⟩ Ink.mark
  /-- The inside of a loop is filled. -/
  | inside {s : CellSet} {e : CellSet.Extent} {wall : Cell} : s.extent? = some e →
      wall? (solid s e) = some wall → Fills g (solid s e) wall.east Ink.mark

namespace Fills

theorem clean (fills : Fills g canvas seed mark) : Clean canvas := by
  cases fills with
  | piece cut taken marked => exact clean_of_foldlM (clean_render g _) taken
  | @area s done rest survey c cut looked unseen =>
    have inside (n : Cell) (mem : n ∈ done) : n ∈ Ink.render g s :=
      Grid.mem_cells.1 (by simp [cut, mem])
    rw [(surveyed_of_foldlM (clean_render g s) inside looked).same]
    exact clean_render g s
  | ground localized => exact clean_render _ _
  | inside extent found => exact clean_solid _ _

/-- A fill starts inside its canvas, and not at its own mark. -/
theorem starts (fills : Fills g canvas seed mark) : seed ∈ canvas ∧ canvas.get seed ≠ mark := by
  have clean := fills.clean
  cases fills with
  | piece cut taken marked => exact ⟨Ink.mem_of_mark marked, by rw [marked]; decide⟩
  | @area s done rest survey _ cut looked unseen =>
    have within (n : Cell) (mem : n ∈ done ++ seed :: rest) : n ∈ Ink.render g s :=
      Grid.mem_cells.1 (cut ▸ mem)
    have surveyed := surveyed_of_foldlM (clean_render g s)
      (fun n mem => within n (List.mem_append_left _ mem)) looked
    have inside : seed ∈ survey.canvas := surveyed.same ▸ within seed (by simp)
    refine ⟨inside, ?_⟩
    rcases clean seed inside with same | same <;> rw [same] <;> decide
  | ground localized =>
    have blank := blank_of_localize? localized
    exact ⟨Grid.mem_of_get_ne_outside (by rw [blank]; decide), by rw [blank]; decide⟩
  | inside extent found =>
    have beside := List.find?_some found
    rw [Bool.and_eq_true, Bool.and_eq_true] at beside
    have blank := beq_iff_eq.1 beside.1.2
    exact ⟨Grid.mem_of_get_ne_outside (by rw [blank]; decide), by rw [blank]; decide⟩

/-- A fill of a recognition ends, though it looks at characters alone. -/
theorem drains (fills : Fills g canvas seed mark) (edge : Char → Bool) :
    Front.Drains (canvas.get seed) mark edge ⟨canvas.set seed mark, [seed], []⟩ []
      (Front.run (canvas.get seed) mark edge ⟨canvas.set seed mark, [seed], []⟩ []) := by
  obtain ⟨inside, fresh⟩ := fills.starts
  refine Front.drains_run ?_ fresh _ _
  rcases fills.clean seed inside with same | same <;> rw [same] <;> decide

end Fills

end Outline

end Linework
