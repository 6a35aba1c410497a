import Linework.Fault
import Linework.Proofs.EndingFills
import Linework.Proofs.Loop
import Linework.Proofs.Pages

/-! Every text is a drawing.

A text becomes a grid whatever stands in it, for its lines are made equally long. All that can fail
after that is to follow a line, and a line that cannot be followed is left out. So only settings can
keep a drawing from being read.
-/

set_option autoImplicit false

namespace Linework

theorem recognize_ok (reading : Reading) (source : String) :
    ∃ d, recognize reading source = .ok d := by
  obtain ⟨page, loaded⟩ := Page.load_ok source.toList reading.tabSize
  obtain ⟨-, families, -, found, -⟩ :=
    Outline.exists_families (Overprint.clear (Markup.strip page reading.customTags).1).1
  unfold recognize
  rw [loaded]
  simp only [bind, Except.bind, found]
  exact ⟨_, rfl⟩

namespace GridSettings

theorem isLength_iff {x : Float32} : isLength x ↔ x.isFinite ∧ 0 < x := by
  rw [isLength, Bool.and_eq_true, decide_eq_true_iff]

def Drawable (s : GridSettings) : Prop :=
  (s.cellWidth.isFinite ∧ 0 < s.cellWidth) ∧ s.cellHeight.isFinite ∧ 0 < s.cellHeight

theorem reading_of_drawable {s : GridSettings} (drawable : s.Drawable) :
    s.reading = .ok ⟨⟨s.cellWidth, s.cellHeight⟩, s.tabSize, s.roundCorners, s.customTags⟩ := by
  have both : (isLength s.cellWidth && isLength s.cellHeight) = true := by
    rwa [Bool.and_eq_true, isLength_iff, isLength_iff]
  rw [reading, cellSize, if_pos both]

theorem reading_of_not_drawable {s : GridSettings} (unfit : ¬ s.Drawable) :
    s.reading = .error (.cellSize s.cellWidth s.cellHeight) := by
  have some : ¬ (isLength s.cellWidth && isLength s.cellHeight) = true := by
    rwa [Bool.and_eq_true, isLength_iff, isLength_iff]
  rw [reading, cellSize, if_neg some]

end GridSettings

namespace Settings

open Outline (Fills solid wall?)
open Grid (Front)

/-- Recognition gives a diagram for every text: it starts no fill outside its canvas and none that
does not end. So a drawing is not read only if cells have no proper size, and that is what is
reported. -/
theorem parse_eq_error_iff (s : Settings) (source : String) :
    (∀ reading text, ∃ d, recognize reading text = .ok d) ∧
      (∀ g canvas seed mark edge, Fills g canvas seed mark → seed ∈ canvas ∧
        Front.Drains (canvas.get seed) mark edge ⟨canvas.set seed mark, [seed], []⟩ []
          (Front.run (canvas.get seed) mark edge ⟨canvas.set seed mark, [seed], []⟩ [])) ∧
      ∀ fault, s.parse source = .error fault ↔ ¬ s.grid.Drawable ∧
        fault = .settings (Fault.cellSize s.grid.cellWidth s.grid.cellHeight).message := by
  refine ⟨recognize_ok, fun g canvas seed mark edge fills => ⟨fills.starts.1, fills.drains edge⟩,
    fun fault => ?_⟩
  rw [parse]
  by_cases drawable : s.grid.Drawable
  · obtain ⟨d, found⟩ := recognize_ok
      ⟨⟨s.grid.cellWidth, s.grid.cellHeight⟩, s.grid.tabSize, s.grid.roundCorners,
        s.grid.customTags⟩ source
    rw [GridSettings.reading_of_drawable drawable]
    simp only [Except.mapError, bind, Except.bind, found]
    exact iff_of_false (fun failed => by cases failed) fun both => both.1 drawable
  · rw [GridSettings.reading_of_not_drawable drawable]
    simp only [Except.mapError, bind, Except.bind, Except.error.injEq]
    exact ⟨fun same => ⟨drawable, same.symm⟩, fun both => both.2.symm⟩

def boxBlock : Grid := solid Layout.boxWalls ⟨⟨0, 0⟩, ⟨2, 2⟩⟩

theorem parse_eq_error_iff_box :
    Fills Layout.box boxBlock ⟨2, 2⟩ Ink.mark ∧ (⟨2, 2⟩ : Cell) ∈ boxBlock ∧
      Front.Drains (boxBlock.get ⟨2, 2⟩) Ink.mark (fun _ => false)
        ⟨boxBlock.set ⟨2, 2⟩ Ink.mark, [⟨2, 2⟩], []⟩ []
        (Front.run (boxBlock.get ⟨2, 2⟩) Ink.mark (fun _ => false)
          ⟨boxBlock.set ⟨2, 2⟩ Ink.mark, [⟨2, 2⟩], []⟩ []) :=
  have found : wall? boxBlock = some ⟨1, 2⟩ := by decide +kernel
  have fills : Fills Layout.box boxBlock ⟨2, 2⟩ Ink.mark :=
    .inside (s := Layout.boxWalls) (by decide) found
  ⟨fills, (parse_eq_error_iff standard "").2.1 Layout.box boxBlock ⟨2, 2⟩ Ink.mark _ fills⟩

end Settings

end Linework
