import Linework.Page
import Linework.Proofs.Canvas
import Linework.Proofs.Strings
import Mathlib.Data.List.TakeWhile
import Mathlib.Data.Option.Basic

/-! The tokens of a drawing, and the drawing without them.

A token is told by its own characters, whatever comes after it. None of these is a blank, so taking
tokens out uncovers no other: what is left to find has been there before, and was passed over only
for a token that it begins inside of.
-/

set_option autoImplicit false

namespace Linework

namespace Markup

def IsCode (code : List Char) : Prop :=
  (Color.preset? (String.ofList code)).isSome ∨ code.length = 3 ∧ ∀ c ∈ code, isCodeDigit c

/-- How a token is written. The word of a tag is one of those that count, and is made of letters,
digits, underscores and hyphens. -/
inductive Spells (custom : List String) : Token → List Char → Prop where
  | color {code : List Char} {color : Color} (isCode : IsCode code)
      (stands : Color.ofCode? (String.ofList code) = some color) :
      Spells custom (.color color) ('c' :: code)
  | tag {name : String} (counts : isTag custom name) (word : name ≠ "")
      (signs : ∀ c ∈ name.toList, isNameSign c) :
      Spells custom (.tag name) ('{' :: (name.toList ++ ['}']))

variable {custom : List String} {token : Token} {cs code text : List Char} {color : Color}
  {name : String} {n : Nat}

namespace IsCode

theorem length_eq (isCode : IsCode code) : code.length = 3 := by
  rcases isCode with preset | ⟨length, -⟩
  · obtain ⟨color, found⟩ := Option.isSome_iff_exists.1 preset
    obtain ⟨before, after, cut, -⟩ := List.lookup_eq_some_iff.1 found
    have mem : (String.ofList code, color) ∈ Color.presets := by simp [cut]
    have three : ∀ preset ∈ Color.presets, preset.1.toList.length = 3 := by decide
    simpa using three _ mem
  · exact length

theorem plain (isCode : IsCode code) : ∀ c ∈ code, c ≠ Glyph.blank ∧ c ≠ Glyph.outside := by
  rcases isCode with preset | ⟨-, digits⟩
  · obtain ⟨color, found⟩ := Option.isSome_iff_exists.1 preset
    obtain ⟨before, after, cut, -⟩ := List.lookup_eq_some_iff.1 found
    have mem : (String.ofList code, color) ∈ Color.presets := by simp [cut]
    have plain : ∀ preset ∈ Color.presets,
        preset.1.toList.all fun c => c != Glyph.blank && c != Glyph.outside := by decide
    simpa using plain _ mem
  · intro c mem
    have digit := digits c mem
    constructor <;> rintro rfl <;> revert digit <;> decide

theorem exists_digit {c : Char} (digit : isCodeDigit c) : ∃ value, Numeral.digit? c = some value := by
  simp only [isCodeDigit, Bool.or_eq_true, Bool.and_eq_true, decide_eq_true_iff] at digit
  rw [Numeral.digit?]
  split
  · exact ⟨_, rfl⟩
  · rename_i other
    split
    · exact ⟨_, rfl⟩
    · exact ⟨_, if_pos (digit.resolve_left other)⟩

theorem exists_color (isCode : IsCode code) :
    ∃ color, Color.ofCode? (String.ofList code) = some color := by
  rw [Color.ofCode?]
  cases preset : Color.preset? (String.ofList code) with
  | some color => exact ⟨color, rfl⟩
  | none =>
    obtain ⟨length, digits⟩ := isCode.resolve_left (by simp [preset])
    obtain ⟨a, b, c, rfl⟩ := List.length_eq_three.1 length
    obtain ⟨r, red⟩ := exists_digit (digits a (by simp))
    obtain ⟨g, green⟩ := exists_digit (digits b (by simp))
    obtain ⟨u, blue⟩ := exists_digit (digits c (by simp))
    rw [String.toList_ofList, Color.ofDigits?]
    simp [red, green, blue]

end IsCode

theorem code?_eq_some_iff : code? cs = some code ↔ IsCode code ∧ code <+: cs := by
  have fits : ((Color.preset? (String.ofList (cs.take 3))).isSome
      || ((cs.take 3).length == 3 && (cs.take 3).all isCodeDigit)) = true ↔ IsCode (cs.take 3) := by
    rw [Bool.or_eq_true, Bool.and_eq_true, beq_iff_eq, List.all_eq_true, IsCode]
  have head (isCode : IsCode code) (front : code <+: cs) : cs.take 3 = code := by
    rw [List.prefix_iff_eq_take.1 front, isCode.length_eq]
  simp only [code?]
  split
  next found =>
    rw [Option.some.injEq]
    refine ⟨?_, fun both => head both.1 both.2⟩
    rintro rfl
    exact ⟨fits.1 found, List.take_prefix 3 cs⟩
  next other =>
    refine iff_of_false (by simp) ?_
    rintro ⟨isCode, front⟩
    exact other (fits.2 (head isCode front ▸ isCode))

theorem color?_eq_some_iff : color? cs = some (color, n) ↔
    ∃ code, IsCode code ∧ Color.ofCode? (String.ofList code) = some color ∧
      'c' :: code <+: cs ∧ n = code.length + 1 := by
  unfold color?
  split
  next rest =>
    simp only [Option.bind_eq_some_iff, code?_eq_some_iff, Option.map_eq_some_iff, Prod.mk.injEq,
      List.cons_prefix_cons, true_and]
    constructor
    · rintro ⟨code, ⟨isCode, front⟩, _, stands, rfl, rfl⟩
      exact ⟨code, isCode, stands, front, rfl⟩
    · rintro ⟨code, isCode, stands, front, rfl⟩
      exact ⟨code, ⟨isCode, front⟩, color, stands, rfl, rfl⟩
  next other =>
    refine iff_of_false (by simp) ?_
    rintro ⟨code, -, -, ⟨rest, cut⟩, -⟩
    exact other _ cut.symm

theorem tag?_eq_some_iff : tag? custom cs = some (name, n) ↔
    (isTag custom name ∧ name ≠ "" ∧ ∀ c ∈ name.toList, isNameSign c) ∧
      '{' :: (name.toList ++ ['}']) <+: cs ∧ n = name.toList.length + 2 := by
  unfold tag?
  split
  next rest =>
    constructor
    · intro found
      split at found
      next tail closed =>
        dsimp only at found
        split at found
        next fits =>
          have cut := List.takeWhile_append_dropWhile (p := isNameSign) (l := rest)
          simp only [Option.some.injEq, Prod.mk.injEq] at found
          obtain ⟨rfl, rfl⟩ := found
          simp only [Bool.and_eq_true, Bool.not_eq_true', List.isEmpty_eq_false_iff] at fits
          rw [String.toList_ofList]
          refine ⟨⟨fits.2, ?_, fun c => List.mem_takeWhile_imp⟩, ?_, rfl⟩
          · simpa using fits.1
          · rw [closed] at cut
            exact List.cons_prefix_cons.2 ⟨rfl, tail, (List.append_assoc ..).trans cut⟩
        · cases found
      · cases found
    · rintro ⟨⟨counts, word, signs⟩, ⟨tail, cut⟩, rfl⟩
      -- A name ends where its signs end, so reading it stops at the brace.
      have whole : rest = name.toList ++ '}' :: tail := by simpa using cut.symm
      have stop : isNameSign '}' = false := by decide
      have taken : rest.takeWhile isNameSign = name.toList := by
        rw [whole, List.takeWhile_append_of_pos signs, List.takeWhile_cons_of_neg (by simp [stop]),
          List.append_nil]
      have left : rest.dropWhile isNameSign = '}' :: tail := by
        rw [whole, List.dropWhile_append_of_pos signs, List.dropWhile_cons_of_neg (by simp [stop])]
      simp [taken, left, counts, word]
  next other =>
    refine iff_of_false (by simp) ?_
    rintro ⟨-, ⟨rest, cut⟩, -⟩
    exact other _ cut.symm

theorem token?_eq_some_iff : token? custom cs = some (token, n) ↔
    ∃ text, Spells custom token text ∧ text <+: cs ∧ n = text.length := by
  rw [token?, Option.orElse_eq_some]
  simp only [Option.map_eq_some_iff, Prod.mk.injEq, Prod.exists, Option.map_eq_none_iff]
  constructor
  · rintro (⟨color, _, found, rfl, rfl⟩ | ⟨-, name, _, found, rfl, rfl⟩)
    · obtain ⟨code, isCode, stands, front, rfl⟩ := color?_eq_some_iff.1 found
      exact ⟨_, .color isCode stands, front, rfl⟩
    · obtain ⟨⟨counts, word, signs⟩, front, rfl⟩ := tag?_eq_some_iff.1 found
      exact ⟨_, .tag counts word signs, front, by simp⟩
  · rintro ⟨text, spells, front, rfl⟩
    cases spells with
    | color isCode stands =>
      exact .inl ⟨_, _, color?_eq_some_iff.2 ⟨_, isCode, stands, front, rfl⟩, rfl, rfl⟩
    | @tag name counts word signs =>
      obtain ⟨rest, cut⟩ := front
      have bare : color? cs = none := by
        rw [← cut]
        rfl
      refine .inr ⟨bare, name, _, tag?_eq_some_iff.2 ⟨⟨counts, word, signs⟩, ⟨rest, cut⟩, rfl⟩, rfl, ?_⟩
      simp

/-! ### Along a row -/

variable {f : Found} {c : Cell} {skip k : Nat}

theorem Found.mem_span : c ∈ f.span ↔
    c.y = f.cell.y ∧ f.cell.x ≤ c.x ∧ c.x < f.cell.x + f.length := by
  simp only [span, List.mem_map, List.mem_range]
  constructor
  · rintro ⟨i, below, rfl⟩
    simp only [Cell.translate_x, Cell.translate_y]
    omega
  · rintro ⟨row, from_, upTo⟩
    refine ⟨(c.x - f.cell.x).toNat, by omega, ?_⟩
    ext <;> simp only [Cell.translate_x, Cell.translate_y] <;> omega

theorem translate_east (c : Cell) (k : Nat) :
    c.east.translate k 0 = c.translate (k + 1 : Nat) 0 := by
  ext <;> simp only [Cell.east, Cell.translate_x, Cell.translate_y, Cell.step_x, Cell.step_y,
    Direction.dx, Direction.dy] <;> omega

theorem exists_of_mem_scan (mem : f ∈ scan custom c skip cs) : ∃ k : Nat, skip ≤ k ∧
    f.cell = c.translate k 0 ∧ token? custom (cs.drop k) = some (f.token, f.length) := by
  fun_induction scan custom c skip cs with
  | case1 => cases mem
  | case2 c char rest skip ih =>
    obtain ⟨k, from_, place, read⟩ := ih mem
    exact ⟨k + 1, Nat.succ_le_succ from_, place.trans (translate_east c k), read⟩
  | case3 c char rest token n found ih =>
    rcases List.mem_cons.1 mem with rfl | mem
    · exact ⟨0, Nat.le_refl 0, by simp [Cell.translate], found⟩
    · obtain ⟨k, from_, place, read⟩ := ih mem
      exact ⟨k + 1, Nat.zero_le _, place.trans (translate_east c k), read⟩
  | case4 c char rest none ih =>
    obtain ⟨k, from_, place, read⟩ := ih mem
    exact ⟨k + 1, Nat.zero_le _, place.trans (translate_east c k), read⟩

/-- A token along a row is taken unless it begins inside of another that is. -/
theorem mem_scan_or (from_ : skip ≤ k) (read : token? custom (cs.drop k) = some (token, n)) :
    ⟨c.translate k 0, token, n⟩ ∈ scan custom c skip cs ∨
      ∃ f ∈ scan custom c skip cs, c.translate k 0 ∈ f.span := by
  fun_induction scan custom c skip cs generalizing k with
  | case1 => rw [List.drop_nil] at read; cases read
  | case2 c char rest skip ih =>
    obtain ⟨k, rfl⟩ := Nat.exists_eq_add_of_le' (Nat.le_trans (Nat.succ_pos skip) from_)
    rw [← translate_east]
    exact ih (Nat.le_of_succ_le_succ from_) read
  | case3 c char rest token' n' found ih =>
    cases k with
    | zero =>
      rw [List.drop_zero, found] at read
      cases read
      exact .inl (List.mem_cons.2 (.inl (by simp [Cell.translate])))
    | succ k =>
      rw [← translate_east]
      by_cases past : n' - 1 ≤ k
      · rcases ih past read with mem | ⟨f, mem, inside⟩
        · exact .inl (List.mem_cons_of_mem _ mem)
        · exact .inr ⟨f, List.mem_cons_of_mem _ mem, inside⟩
      · refine .inr ⟨_, List.mem_cons_self .., Found.mem_span.2 ?_⟩
        rw [translate_east]
        simp only [Cell.translate_x, Cell.translate_y]
        omega
  | case4 c char rest none ih =>
    cases k with
    | zero =>
      rw [List.drop_zero, none] at read
      cases read
    | succ k =>
      rw [← translate_east]
      exact ih (Nat.zero_le k) read

theorem scan_apart :
    (scan custom c skip cs).Pairwise fun a b => a.cell.x + (a.length : Int) ≤ b.cell.x := by
  fun_induction scan custom c skip cs with
  | case1 => exact List.Pairwise.nil
  | case2 c char rest skip ih => exact ih
  | case3 c char rest token n found ih =>
    refine List.pairwise_cons.2 ⟨fun f mem => ?_, ih⟩
    obtain ⟨k, from_, place, -⟩ := exists_of_mem_scan mem
    rw [place, translate_east, Cell.translate_x]
    dsimp only
    omega
  | case4 c char rest none ih => exact ih

namespace Spells

theorem plain (spells : Spells custom token text) :
    ∀ c ∈ text, c ≠ Glyph.blank ∧ c ≠ Glyph.outside := by
  cases spells with
  | color isCode stands => exact List.forall_mem_cons.2 ⟨by decide, isCode.plain⟩
  | tag counts word signs =>
    refine List.forall_mem_cons.2 ⟨by decide, List.forall_mem_append.2 ⟨?_,
      List.forall_mem_singleton.2 (by decide)⟩⟩
    intro c mem
    have sign := signs c mem
    constructor <;> rintro rfl <;> revert sign <;> decide

theorem exists_cons (spells : Spells custom token text) : ∃ first rest, text = first :: rest := by
  cases spells <;> exact ⟨_, _, rfl⟩

end Spells

/-! ### In a drawing -/

end Markup

namespace Grid

variable {g : Grid} {c : Cell} {text : List Char} {x y : Nat}

def Shows (g : Grid) (c : Cell) (text : List Char) : Prop :=
  ∀ (i : Nat) (char : Char), text[i]? = some char → g.get (c.translate i 0) = char

theorem shows_iff (inside : ∀ c ∈ text, c ≠ Glyph.outside) :
    g.Shows ⟨x, y⟩ text ↔ text <+: (g.row y).drop x := by
  have place (i : Nat) : (⟨x, y⟩ : Cell).translate i 0 = ⟨(x + i : Nat), y⟩ := by
    simp [Cell.translate]
  rw [List.prefix_iff_getElem?]
  constructor
  · intro shows i below
    have shown := shows i text[i] (List.getElem?_eq_getElem below)
    rw [place] at shown
    have mem : (⟨(x + i : Nat), y⟩ : Cell) ∈ g :=
      mem_of_get_ne_outside (shown ▸ inside _ (List.getElem_mem below))
    rw [List.getElem?_drop, Lettering.getElem?_row (Int.ofNat_lt.1 mem.1.2), shown]
  · intro front i char here
    obtain ⟨below, rfl⟩ := List.getElem?_eq_some_iff.1 here
    have shown := front i below
    rw [List.getElem?_drop] at shown
    have room := (List.getElem?_eq_some_iff.1 shown).1
    rw [row, List.length_map, List.length_range] at room
    rw [Lettering.getElem?_row room, Option.some.injEq] at shown
    rw [place, shown]

theorem exists_place (mem : c ∈ g) : ∃ x y : Nat, y < g.height ∧ c = ⟨x, y⟩ := by
  obtain ⟨⟨left, -⟩, top, bottom⟩ := mem_def.1 mem
  exact ⟨c.x.toNat, c.y.toNat, by omega, by ext <;> simp only <;> omega⟩

end Grid

namespace Markup

variable {g : Grid} {custom : List String} {token : Token} {f : Found} {c : Cell} {n x y : Nat}

def Found.StandsIn (g : Grid) (custom : List String) (f : Found) : Prop :=
  ∃ text, Spells custom f.token text ∧ f.length = text.length ∧ g.Shows f.cell text

theorem standsIn_iff : Found.StandsIn g custom ⟨⟨x, y⟩, token, n⟩ ↔
    token? custom ((g.row y).drop x) = some (token, n) := by
  rw [token?_eq_some_iff]
  refine exists_congr fun text => and_congr_right fun spells => ?_
  rw [Grid.shows_iff fun c mem => (spells.plain c mem).2]
  exact and_comm

namespace Found.StandsIn

theorem get_span (stands : f.StandsIn g custom) (mem : c ∈ f.span) :
    g.get c ≠ Glyph.blank ∧ g.get c ≠ Glyph.outside := by
  obtain ⟨text, spells, length, shows⟩ := stands
  obtain ⟨i, below, rfl⟩ := List.mem_map.1 mem
  rw [List.mem_range, length] at below
  rw [shows i _ (List.getElem?_eq_getElem below)]
  exact spells.plain _ (List.getElem_mem below)

theorem cell_mem_span (stands : f.StandsIn g custom) : f.cell ∈ f.span := by
  obtain ⟨text, spells, length, -⟩ := stands
  obtain ⟨first, rest, rfl⟩ := spells.exists_cons
  rw [mem_span, length, List.length_cons]
  omega

end Found.StandsIn

theorem mem_findAll : f ∈ findAll g custom ↔
    ∃ y : Nat, y < g.height ∧ f ∈ scan custom ⟨0, y⟩ 0 (g.row y) := by
  simp only [findAll, List.mem_flatMap, List.mem_range]

theorem place_of_origin (x y : Nat) : (⟨0, y⟩ : Cell).translate x 0 = ⟨x, y⟩ := by
  simp [Cell.translate]

theorem standsIn_of_mem (mem : f ∈ findAll g custom) : f.StandsIn g custom := by
  obtain ⟨y, -, mem⟩ := mem_findAll.1 mem
  obtain ⟨x, -, place, read⟩ := exists_of_mem_scan mem
  obtain ⟨cell, token, n⟩ := f
  obtain rfl : cell = ⟨x, y⟩ := place.trans (place_of_origin x y)
  exact standsIn_iff.2 read

theorem mem_findAll_or (stands : f.StandsIn g custom) :
    f ∈ findAll g custom ∨ ∃ other ∈ findAll g custom, f.cell ∈ other.span := by
  obtain ⟨x, y, below, place⟩ := Grid.exists_place
    (Grid.mem_of_get_ne_outside (stands.get_span stands.cell_mem_span).2)
  obtain ⟨cell, token, n⟩ := f
  obtain rfl : cell = ⟨x, y⟩ := place
  rcases mem_scan_or (c := ⟨0, y⟩) (Nat.zero_le x) (standsIn_iff.1 stands) with mem | ⟨f, mem, inside⟩
  · rw [place_of_origin] at mem
    exact .inl (mem_findAll.2 ⟨y, below, mem⟩)
  · rw [place_of_origin] at inside
    exact .inr ⟨f, mem_findAll.2 ⟨y, below, mem⟩, inside⟩

theorem findAll_apart (g : Grid) (custom : List String) :
    (findAll g custom).Pairwise fun a b => List.Disjoint a.span b.span := by
  have apart : (findAll g custom).Pairwise fun a b =>
      a.cell.y = b.cell.y → a.cell.x + (a.length : Int) ≤ b.cell.x := by
    unfold findAll
    refine Grid.pairwise_rows Found.cell Found.length ?_ fun y => scan_apart
    intro y f mem
    obtain ⟨x, -, place, -⟩ := exists_of_mem_scan mem
    rw [place, Cell.translate_y, Int.add_zero]
  refine apart.imp fun {a b} beside c mem other => ?_
  rw [Found.mem_span] at mem other
  have := beside (mem.1.symm.trans other.1)
  omega

theorem get_strip (g : Grid) (custom : List String) (c : Cell) : (strip g custom).1.get c
    = if (∃ f ∈ findAll g custom, c ∈ f.span) ∧ c ∈ g then Glyph.blank else g.get c := by
  simp only [strip, Grid.get_overwrite, List.mem_flatMap]

/-- What a token covers becomes blank, and nothing else changes. -/
theorem get_strip_of_mem (mem : f ∈ findAll g custom) (covers : c ∈ f.span) :
    (strip g custom).1.get c = Glyph.blank := by
  have inside := Grid.mem_of_get_ne_outside ((standsIn_of_mem mem).get_span covers).2
  rw [get_strip, if_pos ⟨⟨f, mem, covers⟩, inside⟩]

theorem get_strip_ne_iff :
    (strip g custom).1.get c ≠ g.get c ↔ ∃ f ∈ findAll g custom, c ∈ f.span := by
  constructor
  · intro changed
    by_contra uncovered
    exact changed (by rw [get_strip, if_neg fun both => uncovered both.1])
  · rintro ⟨f, mem, covers⟩
    rw [get_strip_of_mem mem covers]
    exact ((standsIn_of_mem mem).get_span covers).1.symm

/-- Without its tokens a drawing has none. -/
theorem findAll_strip (g : Grid) (custom : List String) :
    findAll (strip g custom).1 custom = [] := by
  refine List.eq_nil_iff_forall_not_mem.2 fun f mem => ?_
  have stands := standsIn_of_mem mem
  have kept (c : Cell) (covers : c ∈ f.span) : (strip g custom).1.get c = g.get c := by
    by_contra changed
    obtain ⟨other, found, inside⟩ := get_strip_ne_iff.1 changed
    exact (stands.get_span covers).1 (get_strip_of_mem found inside)
  have before : f.StandsIn g custom := by
    obtain ⟨text, spells, length, shows⟩ := stands
    refine ⟨text, spells, length, fun i char here => ?_⟩
    have below := (List.getElem?_eq_some_iff.1 here).1
    rw [← kept _ (List.mem_map.2 ⟨i, by rwa [List.mem_range, length], rfl⟩)]
    exact shows i char here
  -- It stood there all along, so its first cell belongs to a token that was taken out.
  have start := stands.cell_mem_span
  rcases mem_findAll_or before with found | ⟨other, found, inside⟩
  · exact get_strip_ne_iff.2 ⟨f, found, start⟩ (kept _ start)
  · exact get_strip_ne_iff.2 ⟨other, found, inside⟩ (kept _ start)

/-- Tokens are recorded each at its first cell, and only those are left out that begin inside of one
that is recorded. Their cells, of which no two tokens share one, turn blank and no others change;
after that there is nothing more to take out. -/
theorem strip_takes_tokens (g : Grid) (custom : List String) :
    (∀ code, IsCode code → ∃ color, Spells custom (.color color) ('c' :: code)) ∧
      ∃ found : List Found, (strip g custom).2 = ofFound found ∧
        (∀ f, f ∈ found ↔ f.StandsIn g custom ∧
          ∀ other ∈ found, other ≠ f → f.cell ∉ other.span) ∧
        found.Pairwise (fun a b => List.Disjoint a.span b.span) ∧
        (∀ c, (strip g custom).1.get c ≠ g.get c ↔ ∃ f ∈ found, c ∈ f.span) ∧
        (∀ f ∈ found, ∀ c ∈ f.span, (strip g custom).1.get c = Glyph.blank) ∧
        strip (strip g custom).1 custom = ((strip g custom).1, ⟨[], []⟩) := by
  refine ⟨fun code isCode => ?codes, findAll g custom, rfl, fun f => ⟨fun mem => ?recorded, ?left⟩,
    findAll_apart g custom, fun c => get_strip_ne_iff, fun f mem c => get_strip_of_mem mem, ?again⟩
  case codes =>
    obtain ⟨color, stands⟩ := isCode.exists_color
    exact ⟨color, .color isCode stands⟩
  case recorded =>
    have stands := standsIn_of_mem mem
    refine ⟨stands, fun other found different inside => ?_⟩
    have symm : Std.Symm fun a b : Found => List.Disjoint a.span b.span :=
      ⟨fun _ _ => List.Disjoint.symm⟩
    exact (findAll_apart g custom).forall found mem different inside stands.cell_mem_span
  case left =>
    rintro ⟨stands, alone⟩
    rcases mem_findAll_or stands with mem | ⟨other, found, inside⟩
    · exact mem
    · by_contra missing
      exact alone other found (fun same => missing (same ▸ found)) inside
  case again =>
    conv_lhs => rw [strip, findAll_strip]
    rfl

def worded : Grid :=
  ⟨11, 1, #['{', 'a', ' ', 'b', '}', '{', 'c', 'R', 'E', 'D', '}'], rfl⟩

/-- A word with a blank in it may count as a tag without being read as one, and the code of a color
may be a word that is. -/
theorem strip_leaves_tokens :
    (isTag ["a b", "cRED"] "a b" ∧ worded.Shows ⟨0, 0⟩ ['{', 'a', ' ', 'b', '}']) ∧
      (IsCode ['R', 'E', 'D'] ∧ worded.Shows ⟨6, 0⟩ ['c', 'R', 'E', 'D']) ∧
      (strip worded ["a b", "cRED"]).2 = ⟨[], [(⟨5, 0⟩, "cRED")]⟩ := by
  refine ⟨⟨by decide, ?_⟩, ⟨.inl (by decide), ?_⟩, by rfl⟩
  · exact (Grid.shows_iff (x := 0) (y := 0) (by simp [Glyph.outside])).2 (by decide)
  · exact (Grid.shows_iff (x := 6) (y := 0) (by simp [Glyph.outside])).2 (by decide)

end Markup

end Linework
