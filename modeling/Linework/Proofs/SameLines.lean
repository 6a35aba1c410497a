import Linework.Proofs.LineCharacters
import Linework.Proofs.OutlineCover
import Linework.Proofs.Outcome
import Linework.Trace

/-! What is written between the lines of a drawing does not change them.

Two drawings with the same lines have the same roles at all cells, so the same ink and the same
outlines. An outline has none but characters of lines, so alone it shows the same in both drawings,
and all that is done with it from then on is done with it alone. The one look back at the drawing is
for what lies beyond the end of a line: there the words may differ by an arrowhead.
-/

set_option autoImplicit false

namespace Linework

def Glyph.drawing : List Char := ['-', '=', '|', ':', '+', '/', '\\', '*']

structure Grid.SameLines (g h : Grid) : Prop where
  width : g.width = h.width
  height : g.height = h.height
  drawn : ∀ c ∈ g, g.get c ∈ Glyph.drawing ∨ h.get c ∈ Glyph.drawing → g.get c = h.get c

def Grid.Heard (g : Grid) (s : CellSet) : Prop := ∀ c ∈ s, ¬ Glyph.isMute (g.get c)

namespace Grid.SameLines

variable {g h : Grid} {c : Cell} {s : CellSet}

theorem mem_iff (same : g.SameLines h) : c ∈ g ↔ c ∈ h := by
  rw [Grid.mem_def, Grid.mem_def, same.width, same.height]

theorem symm (same : g.SameLines h) : h.SameLines g where
  width := same.width.symm
  height := same.height.symm
  drawn c inside either := (same.drawn c (same.mem_iff.2 inside) either.symm).symm

theorem get_eq (same : g.SameLines h) (heard : ¬ Glyph.isMute (g.get c)) : g.get c = h.get c := by
  refine same.drawn c (mem_of_get_ne_outside ?_) (.inl (Glyph.not_isMute_iff.1 heard))
  intro outside
  exact heard (outside ▸ by decide)

theorem echoes (same : g.SameLines h) : g.Echoes h 0 0 := by
  intro c
  rw [Cell.translate_zero]
  by_cases here : Glyph.isMute (g.get c)
  · by_cases there : Glyph.isMute (h.get c)
    · rw [Glyph.hush_of_isMute here, Glyph.hush_of_isMute there]
    · rw [same.symm.get_eq there]
  · rw [same.get_eq here]

theorem role?_eq (same : g.SameLines h) (c : Cell) : g.role? c = h.role? c := by
  rw [← same.echoes.role?, Cell.translate_zero]

theorem isInked_eq (same : g.SameLines h) (c : Cell) : g.isInked c = h.isInked c := by
  rw [← same.echoes.isInked, Cell.translate_zero]

theorem inked_eq (same : g.SameLines h) : g.inked = h.inked := by
  apply CellSet.ext
  have cells : g.cells = h.cells := by rw [Grid.cells, Grid.cells, same.width, same.height]
  simp only [Grid.inked, Grid.select, CellSet.filter, cells, funext same.isInked_eq]

theorem render_eq (same : g.SameLines h) (s : CellSet) : Ink.render g s = Ink.render h s := by
  simp only [Ink.render, same.role?_eq, same.width, same.height]

theorem all_eq (same : g.SameLines h) : Outline.all g = Outline.all h := by
  have pieces : Outline.ofPiece g = Outline.ofPiece h := funext fun s => by
    rw [Outline.ofPiece, Outline.ofPiece, same.render_eq]
  rw [Outline.all, Outline.all, same.inked_eq, same.render_eq, pieces]

/-- Alone, cells of lines show the same in both drawings. -/
theorem isolate_eq (same : g.SameLines h) (heard : g.Heard s) : g.isolate s = h.isolate s := by
  rw [isolate, isolate, same.width, same.height]
  exact List.foldl_ext _ _ _ fun acc c mem => by rw [same.get_eq (heard c mem)]

end Grid.SameLines

namespace Outline

variable {g h : Grid} {s t : CellSet} {outlines : List CellSet}

theorem heard_of_all (found : all g = .ok outlines) (mem : s ∈ outlines) : g.Heard s := by
  intro c member mute
  obtain ⟨r, role, -⟩ := (mem_all_iff found).1 ⟨s, mem, member⟩
  rw [Grid.role?, Window.role?_of_isMute (by rwa [Grid.center_window])] at role
  cases role

theorem localize?_eq (same : g.SameLines h) (heard : g.Heard s) :
    localize? g s = localize? h s := by
  rw [localize?, localize?]
  refine congrArg (Option.map · s.extent?) (funext fun e => ?_)
  refine congrArg (·, _) (List.foldl_ext _ _ _ fun acc c mem => ?_)
  rw [same.get_eq (heard c mem)]

theorem form_eq (same : g.SameLines h) (heard : g.Heard s) : form g s = form h s := by
  simp only [form, encloses, localize?_eq same heard, same.isolate_eq heard]

theorem parts_eq (same : g.SameLines h) (heard : g.Heard s) : parts g s = parts h s := by
  simp only [parts, same.isolate_eq heard]

end Outline

namespace Reduction

open Outline (Form form)

variable {g h : Grid} {loops sets outlines : List CellSet} {s : CellSet}

theorem ofForm_eq (same : g.SameLines h) (heard : ∀ s ∈ sets, g.Heard s) (kind : Form) :
    ofForm g kind sets = ofForm h kind sets :=
  List.filter_congr fun s mem => by rw [Outline.form_eq same (heard s mem)]

theorem replacement_eq (same : g.SameLines h) (heard : g.Heard s) (loops : List CellSet) :
    replacement g loops s = replacement h loops s := by
  have remainder : g.Heard (loops.foldl CellSet.diff s) := fun c mem =>
    heard c (CellSet.foldl_diff_subset mem)
  simp only [replacement, takeApart, subtract, Outline.form_eq same heard,
    Outline.form_eq same remainder, Outline.parts_eq same heard]

theorem resolved_eq (same : g.SameLines h) (heard : ∀ s ∈ outlines, g.Heard s) :
    resolved g outlines = resolved h outlines := by
  have heard' : ∀ s ∈ CellSet.distinct outlines, g.Heard s := fun s mem =>
    heard s ((CellSet.distinct_sublist outlines).subset mem)
  rw [resolved, resolved, resolve_eq, resolve_eq, ofForm_eq same heard', resolveAmong, resolveAmong,
    List.flatMap_congr fun s mem => congrArg Prod.fst (replacement_eq same (heard' s mem) _),
    List.flatMap_congr fun s mem => congrArg Prod.snd (replacement_eq same (heard' s mem) _)]

theorem heard_resolved (heard : ∀ s ∈ outlines, g.Heard s) (mem : s ∈ resolved g outlines) :
    g.Heard s := by
  obtain ⟨-, t, source, within⟩ := mem_resolved mem
  exact fun c member => heard t source c (within member)

theorem heard_ofOutlines (heard : ∀ s ∈ outlines, g.Heard s)
    (mem : s ∈ (ofOutlines g outlines).strands ++ (ofOutlines g outlines).loops) : g.Heard s := by
  rw [ofOutlines_eq] at mem
  refine heard_resolved heard ?_
  rcases List.mem_append.1 mem with mem | mem
  · exact (mem_ofForm.1 mem).1
  · exact (mem_ofForm.1 ((dropObsolete_sublist _).subset mem)).1

theorem ofOutlines_congr (same : g.SameLines h) (heard : ∀ s ∈ outlines, g.Heard s) :
    ofOutlines g outlines = ofOutlines h outlines := by
  have left (s : CellSet) : s ∈ resolved h outlines → g.Heard s := by
    rw [← resolved_eq same heard]
    exact heard_resolved heard
  rw [ofOutlines_eq, ofOutlines_eq, resolved_eq same heard, ofForm_eq same left,
    ofForm_eq same left]

end Reduction

/-! ### What lies beyond the end of a line -/

theorem Arrow.isMute_of_at? {g : Grid} {c : Cell} {heading : Direction}
    (head : Arrow.at? g c = some heading) : Glyph.isMute (g.get c) := by
  obtain ⟨found, -⟩ := Option.filter_eq_some_iff.1 head
  unfold Arrow.heading? at found
  split at found
  · rename_i same; rw [same]; decide
  · rename_i same; rw [same]; decide
  · rename_i same; rw [same]; decide
  · rename_i same; rw [same]; decide
  · rename_i same; rw [same]; decide
  · cases found

namespace Beyond

def joint? : Beyond → Option Cell
  | .arrowhead _ => none
  | .joint c => some c

/-- Whether a line end is taken over by a joint does not depend on arrowheads, which have no role. -/
theorem joint?_of? (g : Grid) (finish : Cell) (heading : Direction) :
    (Beyond.of? g finish heading).bind joint? =
      if (g.role? (finish.step heading)).any Role.isJoint then some (finish.step heading)
      else none := by
  rw [Beyond.of?]
  by_cases head : Arrow.at? g (finish.step heading) = some heading
  · have bare : g.role? (finish.step heading) = none :=
      Window.role?_of_isMute (by rw [Grid.center_window]; exact Arrow.isMute_of_at? head)
    simp only [if_pos head, bare]
    rfl
  · simp only [if_neg head]
    split <;> rfl

end Beyond

namespace Vertex

def Matches (v w : Vertex) : Prop := v.cell = w.cell ∧ v.round = w.round

theorem connect_eq (v : Vertex) (b : Option Beyond) :
    (v.connect b).cell = (b.bind Beyond.joint?).getD v.cell ∧ (v.connect b).round = v.round := by
  rcases b with _ | _ | _ <;> exact ⟨rfl, rfl⟩

theorem Matches.connect {v w : Vertex} (alike : v.Matches w) {g h : Grid} (same : g.SameLines h)
    (finish : Cell) (heading : Direction) :
    (v.connect (Beyond.of? g finish heading)).Matches (w.connect (Beyond.of? h finish heading)) := by
  obtain ⟨cell, round⟩ := alike
  rw [Matches, (connect_eq ..).1, (connect_eq ..).1, (connect_eq ..).2, (connect_eq ..).2,
    Beyond.joint?_of?, Beyond.joint?_of?, same.role?_eq, cell, round]
  exact ⟨rfl, rfl⟩

end Vertex

theorem forall₂_modify {α : Type} {related : α → α → Prop} {f k : α → α} {as bs : List α}
    (kept : ∀ a b, related a b → related (f a) (k b)) (all : List.Forall₂ related as bs) (i : Nat) :
    List.Forall₂ related (as.modify i f) (bs.modify i k) := by
  induction all generalizing i with
  | nil => simp
  | cons first rest ih =>
    cases i with
    | zero => exact .cons (kept _ _ first) rest
    | succ i => exact .cons first (ih i)

theorem inner_modify {α : Type} (as : List α) (f : α → α) {i : Nat}
    (atEnd : i = 0 ∨ i = as.length - 1) : (as.modify i f).tail.dropLast = as.tail.dropLast := by
  refine List.ext_getElem? fun n => ?_
  rw [List.getElem?_dropLast, List.getElem?_dropLast, List.length_tail, List.length_tail,
    List.length_modify]
  split
  · have apart : i ≠ n + 1 := by omega
    simp [List.getElem?_tail, apart]
  · rfl

namespace Segment

structure Matches (a b : Segment) : Prop where
  cells : a.cells = b.cells
  dashed : a.dashed = b.dashed
  vertices : List.Forall₂ Vertex.Matches a.vertices b.vertices
  inner : a.vertices.tail.dropLast = b.vertices.tail.dropLast

theorem Matches.refl (seg : Segment) : seg.Matches seg :=
  ⟨rfl, rfl, List.forall₂_same.2 fun _ _ => ⟨rfl, rfl⟩, rfl⟩

theorem connectEnds_matches {g h : Grid} (same : g.SameLines h) (alone : Grid) (seg : Segment) :
    (connectEnds g alone seg).Matches (connectEnds h alone seg) := by
  unfold connectEnds
  dsimp only
  split
  · simp only [List.modifyHead_eq_modify_zero, List.length_modify]
    refine ⟨rfl, rfl, ?_, ?_⟩
    · -- The same is done at both ends.
      refine forall₂_modify (fun v w alike => ?_) (forall₂_modify (fun v w alike => ?_)
        (List.forall₂_same.2 fun _ _ => ⟨rfl, rfl⟩) _) _
      all_goals
        split
        · split
          · exact alike.connect same ..
          · exact alike
        · exact alike
    · dsimp only
      rw [inner_modify _ _ (.inr (by rw [List.length_modify])), inner_modify _ _ (.inl rfl),
        inner_modify _ _ (.inr (by rw [List.length_modify])), inner_modify _ _ (.inl rfl)]
  · exact Matches.refl seg

end Segment

structure Shape.SameButHeads (a b : Shape) : Prop where
  kind : a.kind = b.kind
  closed : a.closed = b.closed
  dashed : a.dashed = b.dashed
  fill : a.fill = b.fill
  nodes : List.Forall₂ (fun n m => n.position = m.position ∧ n.round = m.round) a.nodes b.nodes
  inner : a.nodes.tail.dropLast = b.nodes.tail.dropLast

namespace Layout

variable {g h : Grid} {s : CellSet}

theorem segment_sameButHeads (l : Layout) {a b : Segment} (alike : a.Matches b) :
    (l.segment a).SameButHeads (l.segment b) where
  kind := rfl
  closed := rfl
  dashed := alike.dashed
  fill := rfl
  nodes := by
    refine List.forall₂_map_left_iff.2 (List.forall₂_map_right_iff.2 (alike.vertices.imp ?_))
    rintro v w ⟨cell, round⟩
    exact ⟨congrArg l.cellSize.center cell, round⟩
  inner := by
    simp only [segment, Shape.polyline, ← List.map_tail, ← List.map_dropLast, alike.inner]

theorem loop?_eq (same : g.SameLines h) (heard : g.Heard s) (l : Layout) :
    l.loop? g s = l.loop? h s := by
  rw [loop?, loop?, loopVertices?, loopVertices?, same.isolate_eq heard]

/-- Strands of the same lines are walked in the same way; whether a walk fails does not depend on
the words either. -/
theorem strand_eq (same : g.SameLines h) (heard : g.Heard s) (l : Layout) :
    (∃ fault, l.strand g s = .error fault ∧ l.strand h s = .error fault) ∨
      ∃ lines lines', l.strand g s = .ok lines ∧ l.strand h s = .ok lines' ∧
        List.Forall₂ Shape.SameButHeads lines lines' := by
  simp only [strand, Strand.trace, same.isolate_eq heard]
  cases found : Strand.segments (h.isolate s) l.roundAll s with
  | error fault => exact .inl ⟨fault, rfl, rfl⟩
  | ok segments =>
    refine .inr ⟨_, _, rfl, rfl, ?_⟩
    simp only [List.map_map]
    refine List.forall₂_map_left_iff.2 (List.forall₂_map_right_iff.2 (List.forall₂_same.2 ?_))
    exact fun seg _ => l.segment_sameButHeads (Segment.connectEnds_matches same _ _)

/-- Drawings with the same lines have the same outlines, which come to the same strands and loops.
The loops are drawn the same, and so are the strands up to the arrowheads at their ends. -/
theorem drawn_of_sameLines (same : g.SameLines h) (l : Layout) :
    ∃ outlines, Outline.all g = .ok outlines ∧ Outline.all h = .ok outlines ∧
      Reduction.ofOutlines g outlines = Reduction.ofOutlines h outlines ∧
      (∀ s ∈ (Reduction.ofOutlines g outlines).loops, l.loop? g s = l.loop? h s) ∧
      ∀ s ∈ (Reduction.ofOutlines g outlines).strands,
        (∃ fault, l.strand g s = .error fault ∧ l.strand h s = .error fault) ∨
          ∃ lines lines', l.strand g s = .ok lines ∧ l.strand h s = .ok lines' ∧
            List.Forall₂ Shape.SameButHeads lines lines' := by
  obtain ⟨-, families, -, found, -⟩ := Outline.exists_families g
  have heard : ∀ s ∈ families.flatten, g.Heard s := fun s mem => Outline.heard_of_all found mem
  refine ⟨_, found, same.all_eq ▸ found, Reduction.ofOutlines_congr same heard, ?_, ?_⟩
  · exact fun s mem =>
      loop?_eq same (Reduction.heard_ofOutlines heard (List.mem_append_right _ mem)) l
  · exact fun s mem =>
      strand_eq same (Reduction.heard_ofOutlines heard (List.mem_append_left _ mem)) l

def worded : Grid :=
  ⟨8, 3, #['+', '-', '+', ' ', ' ', ' ', ' ', ' ',
    '|', 'a', '|', ' ', '-', '-', 'v', ' ',
    '+', '-', '+', ' ', ' ', ' ', ' ', ' '], rfl⟩

def reworded : Grid :=
  ⟨8, 3, #['+', '-', '+', 'b', ' ', ' ', ' ', 'o',
    '|', ' ', '|', '>', '-', '-', '>', ' ',
    '+', '-', '+', ' ', '.', ' ', ' ', ' '], rfl⟩

theorem drawn_of_sameLines_reworded :
    worded.SameLines reworded ∧
      ∃ outlines, Outline.all worded = .ok outlines ∧ Outline.all reworded = .ok outlines ∧
        Reduction.ofOutlines worded outlines = Reduction.ofOutlines reworded outlines ∧
        (∀ s ∈ (Reduction.ofOutlines worded outlines).loops,
          (Layout.mk CellSize.standard true).loop? worded s
            = (Layout.mk CellSize.standard true).loop? reworded s) ∧
        ∀ s ∈ (Reduction.ofOutlines worded outlines).strands,
          (∃ fault, (Layout.mk CellSize.standard true).strand worded s = .error fault ∧
            (Layout.mk CellSize.standard true).strand reworded s = .error fault) ∨
            ∃ lines lines', (Layout.mk CellSize.standard true).strand worded s = .ok lines ∧
              (Layout.mk CellSize.standard true).strand reworded s = .ok lines' ∧
              List.Forall₂ Shape.SameButHeads lines lines' :=
  have drawn : ∀ c ∈ worded.cells, worded.get c ∈ Glyph.drawing ∨ reworded.get c ∈ Glyph.drawing →
      worded.get c = reworded.get c := by decide +kernel
  have same : worded.SameLines reworded :=
    ⟨rfl, rfl, fun c inside => drawn c (Grid.mem_cells.2 inside)⟩
  ⟨same, drawn_of_sameLines same _⟩

end Layout

end Linework
