import Linework.Proofs.ArrowheadCaptions
import Linework.Proofs.MaximalPhrases

/-! What captions are written over.

A character that draws no line and is no arrowhead is part of exactly one caption and stands there at
its own place. Only white space with nothing else after it in its phrase is left out, so a phrase of
white space alone gives a caption without text.
-/

set_option autoImplicit false

namespace Linework

instance (t : Caption) (c : Cell) : Decidable (t.Covers c) :=
  inferInstanceAs (Decidable (c.y = t.cell.y ∧ t.cell.x ≤ c.x ∧ c.x < t.cell.x + t.text.length))

theorem filter_eq_singleton {α : Type} {p : α → Prop} [DecidablePred p] {members : List α} {a : α}
    (apart : members.Pairwise fun a b => ¬ (p a ∧ p b)) (mem : a ∈ members) (passes : p a) :
    members.filter p = [a] := by
  induction members with
  | nil => cases mem
  | cons first rest ih =>
    obtain ⟨alone, apart⟩ := List.pairwise_cons.1 apart
    rcases List.mem_cons.1 mem with rfl | mem
    · rw [List.filter_cons_of_pos (by simpa using passes), List.filter_eq_nil_iff.2]
      exact fun b other both => alone b other ⟨passes, of_decide_eq_true both⟩
    · rw [List.filter_cons_of_neg, ih apart mem]
      exact fun both => alone a mem ⟨of_decide_eq_true both, passes⟩

namespace Lettering

/-- Whether a row has nothing but white space from a place to the end of its phrase. -/
def Trailing (row : List Char) (x : Nat) : Prop :=
  ∀ e, Phrase row x e → ∃ c ∈ row[e]?, Text.isSpace c

variable {g : Grid} {row cs : List Char} {c : Char} {x y i e first last start : Nat} {text : String}
  {n : Cell} {size : CellSize}

theorem exists_of_not_trailing (kept : ¬ Trailing row x) :
    ∃ e, Phrase row x e ∧ ∃ c ∈ row[e]?, ¬ Text.isSpace c := by
  simp only [Trailing, not_forall] at kept
  obtain ⟨e, phrase, shown⟩ := kept
  obtain ⟨c, here, -⟩ := phrase.ends
  exact ⟨e, phrase, c, here, fun space => shown ⟨c, here, space⟩⟩

theorem not_trailing_of_not_isSpace (here : row[x]? = some c) (shown : ¬ Text.isSpace c) :
    ¬ Trailing row x := by
  intro trailing
  have written : ¬ Glyph.isBlank c := by
    intro blank
    obtain rfl : c = Glyph.blank := eq_of_beq blank
    exact shown (by decide)
  obtain ⟨d, there, space⟩ := trailing x (.single ((writtenAt_iff here).2 written))
  rw [here] at there
  cases there
  exact shown space

theorem getElem?_trimEnd (upTo : i ≤ e) (here : cs[e]? = some c) (shown : ¬ Text.isSpace c) :
    (Text.trimEnd cs)[i]? = cs[i]? := by
  have cut : cs.rdropWhile Text.isSpace ++ cs.rtakeWhile Text.isSpace = cs :=
    List.rdropWhile_append_rtakeWhile
  rw [← trimEnd_eq] at cut
  have room : e < (Text.trimEnd cs).length := by
    by_contra beyond
    rw [← cut, List.getElem?_append_right (Nat.not_lt.1 beyond)] at here
    exact shown (List.mem_rtakeWhile_imp (List.mem_of_getElem? here))
  rw [← List.getElem?_append_left (Nat.lt_of_le_of_lt upTo room), cut]

theorem getElem?_extract (from_ : first ≤ x) (upTo : x < last) :
    (row.extract first last)[x - first]? = row[x]? := by
  rw [List.extract_eq_take_drop, List.getElem?_take_of_lt (by omega), List.getElem?_drop,
    Nat.add_sub_cancel' from_]

theorem mem_runs : (start, text) ∈ runs row ↔ ∃ last, WholePhrase row start last ∧
    text = String.ofList (Text.trimEnd (row.extract start (last + 1))) := by
  obtain ⟨phrases, lists, same⟩ := runs_eq row
  simp only [same, List.mem_map, Prod.mk.injEq, Prod.exists, lists.mem_iff, Nat.zero_le, true_and]
  constructor
  · rintro ⟨_, last, whole, rfl, rfl⟩
    exact ⟨last, whole, rfl⟩
  · rintro ⟨last, whole, rfl⟩
    exact ⟨start, last, whole, rfl, rfl⟩

theorem runs_apart (row : List Char) :
    (runs row).Pairwise fun a b => a.1 + a.2.length ≤ b.1 := by
  obtain ⟨phrases, lists, same⟩ := runs_eq row
  rw [same, List.pairwise_map]
  refine List.Pairwise.imp_of_mem (fun {a b} mem _ later => ?_) lists.ordered
  have ordered := ((lists.mem_iff ..).1 mem).2.ordered
  have length : (Text.trimEnd (row.extract a.1 (a.2 + 1))).length ≤ a.2 + 1 - a.1 := by
    refine Nat.le_trans (List.rdropWhile_prefix Text.isSpace _).length_le ?_
    rw [List.extract_eq_take_drop]
    exact List.length_take_le ..
  rw [← String.length_toList, String.toList_ofList]
  omega

theorem WholePhrase.getElem?_trimEnd (whole : WholePhrase row first last) (from_ : first ≤ x)
    (upTo : x ≤ last) (kept : ¬ Trailing row x) :
    (Text.trimEnd (row.extract first (last + 1)))[x - first]? = row[x]? := by
  obtain ⟨e, further, c, here, shown⟩ := exists_of_not_trailing kept
  have room := whole.break_last x e further (Nat.lt_succ_of_le upTo)
  have ordered := further.ordered
  have there : (row.extract first (last + 1))[e - first]? = some c := by
    rwa [getElem?_extract (Nat.le_trans from_ ordered) room]
  rw [Lettering.getElem?_trimEnd (by omega) there shown, getElem?_extract from_ (by omega)]

/-- A written place that does not trail is in a string. -/
theorem exists_run (written : WrittenAt row x) (kept : ¬ Trailing row x) :
    ∃ start text, (start, text) ∈ runs row ∧ start ≤ x ∧ text.toList[x - start]? = row[x]? := by
  obtain ⟨first, last, whole, from_, upTo⟩ := (Phrase.single written).exists_whole
  refine ⟨first, _, mem_runs.2 ⟨last, whole, rfl⟩, from_, ?_⟩
  rw [String.toList_ofList, whole.getElem?_trimEnd from_ upTo kept]

theorem ne_empty_of_run (run : (start, text) ∈ runs row) (kept : ¬ Trailing row start) :
    text ≠ "" := by
  rintro rfl
  obtain ⟨last, whole, same⟩ := mem_runs.1 run
  obtain ⟨c, here, -⟩ := whole.begins
  have shown := whole.getElem?_trimEnd (Nat.le_refl _) whole.ordered kept
  rw [← String.toList_ofList (l := Text.trimEnd _), ← same, here] at shown
  cases shown

theorem strings_apart (g : Grid) :
    (strings g).Pairwise fun a b => a.1.y = b.1.y → a.1.x + (a.2.length : Int) ≤ b.1.x := by
  refine Grid.pairwise_rows Prod.fst (fun a : Cell × String => a.2.length) ?_ ?_
  · rintro y _ mem
    obtain ⟨_, -, rfl⟩ := List.mem_map.1 mem
    rfl
  · intro y
    rw [List.pairwise_map]
    refine (runs_apart (g.row y)).imp fun {a b} apart => ?_
    dsimp only
    omega

/-- No two captions are written over one cell. -/
theorem captions_apart (g : Grid) (size : CellSize) (c : Cell) :
    (captions g size).Pairwise fun t u => ¬ (t.Covers c ∧ u.Covers c) := by
  rw [captions, List.pairwise_map]
  refine (strings_apart (withoutLines g)).imp fun {a b} apart both => ?_
  obtain ⟨⟨row, -, upTo⟩, row', from_, -⟩ := both
  exact Int.not_lt.2 (Int.le_trans (apart (row.symm.trans row')) from_) upTo

/-! ### Apart from lines and arrowheads -/

def headless (g : Grid) : Grid := g.overwrite ((Arrow.all g).map Prod.fst) Glyph.blank

theorem withoutLines_eq (g : Grid) :
    withoutLines g = (headless g).overwrite (headless g).inked.toList Glyph.blank := rfl

theorem mem_withoutLines : n ∈ withoutLines g ↔ n ∈ g := by
  rw [withoutLines_eq, Grid.mem_overwrite, headless, Grid.mem_overwrite]

theorem get_withoutLines (pointless : n ∉ (Arrow.all g).map Prod.fst)
    (bare : ¬ (headless g).isInked n) : (withoutLines g).get n = g.get n := by
  have unlisted : n ∉ (headless g).inked.toList := fun listed =>
    bare (Grid.mem_inked.1 (CellSet.mem_def.2 listed)).2
  rw [withoutLines_eq, Grid.get_overwrite, if_neg fun both => unlisted both.1, headless,
    Grid.get_overwrite, if_neg fun both => pointless both.1]

/-- Every character that draws no line and is no arrowhead is written in exactly one caption, at its
own place, except for white space that trails. A caption is not empty unless all of its phrase
trails. -/
theorem captions_cover_words (g : Grid) (size : CellSize) :
    (∀ t ∈ captions g size, ∃ x y : Nat, t.cell = ⟨x, y⟩ ∧
        (¬ Trailing ((withoutLines g).row y) x → t.text ≠ "")) ∧
      ∀ x y : Nat, (⟨x, y⟩ : Cell) ∈ g → ¬ g.isBlank ⟨x, y⟩ →
        ⟨x, y⟩ ∉ (Arrow.all g).map Prod.fst → ¬ (headless g).isInked ⟨x, y⟩ →
        ¬ Trailing ((withoutLines g).row y) x →
        ∃ t, (captions g size).filter (fun t => t.Covers ⟨x, y⟩) = [t] ∧
          t.text.toList[x - t.cell.x.toNat]? = some (g.get ⟨x, y⟩) := by
  refine ⟨fun t mem => ?filled, fun x y inside plain pointless bare kept => ?covered⟩
  case filled =>
    obtain ⟨⟨cell, text⟩, listed, rfl⟩ := List.mem_map.1 mem
    obtain ⟨x, y, -, run, rfl⟩ := mem_strings.1 listed
    exact ⟨x, y, rfl, ne_empty_of_run run⟩
  case covered =>
    obtain ⟨⟨-, room⟩, -, below⟩ := Grid.mem_def.1 (mem_withoutLines.2 inside)
    have here : ((withoutLines g).row y)[x]? = some (g.get ⟨x, y⟩) := by
      rw [getElem?_row (Int.ofNat_lt.1 room), get_withoutLines pointless bare]
    obtain ⟨start, text, run, from_, shown⟩ := exists_run ((writtenAt_iff here).2 plain) kept
    rw [here] at shown
    have written : caption (withoutLines g) size ⟨start, y⟩ text ∈ captions g size :=
      List.mem_map.2 ⟨(⟨start, y⟩, text), mem_strings.2 ⟨start, y, Int.ofNat_lt.1 below, run, rfl⟩, rfl⟩
    have covers : (caption (withoutLines g) size ⟨start, y⟩ text).Covers ⟨x, y⟩ := by
      have reaches := (List.getElem?_eq_some_iff.1 shown).1
      rw [String.length_toList] at reaches
      refine ⟨rfl, ?_, ?_⟩ <;> simp only [caption] <;> omega
    exact ⟨_, filter_eq_singleton (captions_apart g size _) written covers, shown⟩

def labelled : Grid := ⟨5, 1, #['a', '\u3000', 'b', '-', '>'], rfl⟩

theorem captions_cover_words_labelled :
    ∃ t, (captions labelled CellSize.standard).filter (fun t => t.Covers ⟨2, 0⟩) = [t] ∧
      t.text.toList[2 - t.cell.x.toNat]? = some 'b' :=
  have here : ((withoutLines labelled).row 0)[2]? = some 'b' := by decide +kernel
  (captions_cover_words labelled CellSize.standard).2 2 0 (by decide) (by decide) (by decide)
    (by decide +kernel) (not_trailing_of_not_isSpace here (by decide))

def spaced : Grid := ⟨5, 1, #['a', '\u3000', ' ', ' ', '\u3000'], rfl⟩

theorem strings_spaced : strings (withoutLines spaced) = [(⟨0, 0⟩, "a"), (⟨4, 0⟩, "")] := by
  decide +kernel

/-- White space other than a blank, at the end of a phrase, is in no caption, and a caption may be
left without text. -/
theorem captions_leave_white_space :
    ((⟨1, 0⟩ : Cell) ∈ spaced ∧ ¬ spaced.isBlank ⟨1, 0⟩ ∧
        ⟨1, 0⟩ ∉ (Arrow.all spaced).map Prod.fst ∧ ¬ (headless spaced).isInked ⟨1, 0⟩) ∧
      (∀ t ∈ captions spaced CellSize.standard, ¬ t.Covers ⟨1, 0⟩) ∧
      ∃ t ∈ captions spaced CellSize.standard, t.text = "" := by
  refine ⟨⟨by decide, by decide, by decide, by decide +kernel⟩, ?_, ?_⟩
  · rw [captions, strings_spaced]
    intro t mem
    simp only [List.map_cons, List.map_nil, List.mem_cons, List.not_mem_nil, or_false] at mem
    rcases mem with rfl | rfl
    · simp only [Caption.Covers, caption]
      decide
    · simp only [Caption.Covers, caption]
      decide
  · rw [captions, strings_spaced]
    exact ⟨_, List.mem_cons_of_mem _ (List.mem_singleton_self _), rfl⟩

end Lettering

end Linework
