import Linework.Lettering
import Mathlib.Data.List.Basic

/-! The strings of a drawing and where they stand.

A string is read off its row as it stands, beginning with no blank and ending with no white space.
So a blank in a string is a blank of the drawing with some of the string on either side.
-/

set_option autoImplicit false

namespace Linework

theorem Grid.pairwise_rows {α : Type} {height : Nat} {entries : Nat → List α} (place : α → Cell)
    (width : α → Nat) (within : ∀ y, ∀ a ∈ entries y, (place a).y = y)
    (apart : ∀ y, (entries y).Pairwise fun a b => (place a).x + width a ≤ (place b).x) :
    ((List.range height).flatMap entries).Pairwise fun a b =>
      (place a).y = (place b).y → (place a).x + width a ≤ (place b).x := by
  rw [List.pairwise_flatMap]
  constructor
  · intro y _
    refine (apart y).imp fun {a b} beside _ => ?_
    exact beside
  · refine List.pairwise_lt_range.imp fun {y z} below a mem b other row => ?_
    rw [within y a mem, within z b other] at row
    exact absurd (Int.ofNat.inj row) (Nat.ne_of_lt below)

namespace Lettering

variable {g : Grid} {seen rest row : List Char} {c : Char} {x : Nat} {start n : Cell} {text : String}

/-- A run, latest character first, that takes the end of what has been read of a row and begins with
no blank. -/
structure AtHand (seen : List Char) (run : Nat × List Char) : Prop where
  placed : ∃ before, seen = before ++ run.2.reverse ∧ before.length = run.1
  begins : ∃ first ∈ run.2.getLast?, ¬ Glyph.isBlank first

namespace AtHand

variable {run : Nat × List Char}

theorem single (written : ¬ Glyph.isBlank c) : AtHand (seen ++ [c]) (seen.length, [c]) where
  placed := ⟨seen, rfl, rfl⟩
  begins := ⟨c, rfl, written⟩

theorem read (atHand : AtHand seen run) (c : Char) : AtHand (seen ++ [c]) (run.1, c :: run.2) where
  placed := by
    obtain ⟨before, rfl, place⟩ := atHand.placed
    exact ⟨before, by rw [List.reverse_cons, List.append_assoc], place⟩
  begins := by
    obtain ⟨first, last, written⟩ := atHand.begins
    refine ⟨first, ?_, written⟩
    rw [List.getLast?_cons, last]
    rfl

end AtHand

theorem exists_atHand {run : Option (Nat × List Char)} {afterBlank : Bool}
    (atHand : ∀ r ∈ run, AtHand seen r) {r : Nat × List Char}
    (mem : r ∈ runsFrom seen.length run afterBlank rest) :
    ∃ before after, seen ++ rest = before ++ after ∧ AtHand before r := by
  induction rest generalizing seen run afterBlank with
  | nil =>
    rw [runsFrom, Option.mem_toList] at mem
    exact ⟨seen, [], rfl, atHand r mem⟩
  | cons c rest ih =>
    -- Each character read joins `seen`, and the row stays the same.
    have next {run : Option (Nat × List Char)} {afterBlank : Bool}
        (atHand : ∀ r ∈ run, AtHand (seen ++ [c]) r)
        (mem : r ∈ runsFrom (seen.length + 1) run afterBlank rest) :
        ∃ before after, seen ++ c :: rest = before ++ after ∧ AtHand before r := by
      rw [List.append_cons]
      have member : r ∈ runsFrom (seen ++ [c]).length run afterBlank rest := by
        rwa [List.length_append, List.length_singleton]
      exact ih atHand member
    rw [runsFrom] at mem
    split at mem
    next blank =>
      split at mem
      · rcases List.mem_append.1 mem with last | later
        · exact ⟨seen, c :: rest, rfl, atHand r (Option.mem_toList.1 last)⟩
        · exact next (fun r none => by cases none) later
      · refine next ?_ mem
        intro r mapped
        obtain ⟨run, here, rfl⟩ := Option.map_eq_some_iff.1 mapped
        exact (atHand run here).read c
    next written =>
      refine next ?_ mem
      rintro _ ⟨⟩
      cases run with
      | none => exact .single written
      | some run => exact (atHand run rfl).read c

/-- A string is a piece of its row that begins with no blank and ends with no white space. -/
theorem exists_piece (mem : (x, text) ∈ runs row) :
    (∃ before after, row = before ++ (text.toList ++ after) ∧ before.length = x) ∧
      (∀ first ∈ text.toList.head?, ¬ Glyph.isBlank first) ∧
      ∀ last ∈ text.toList.getLast?, ¬ Text.isSpace last := by
  rw [runs, List.mem_map] at mem
  obtain ⟨⟨start, chars⟩, member, same⟩ := mem
  simp only [Prod.mk.injEq] at same
  obtain ⟨rfl, rfl⟩ := same
  have fromStart : (start, chars) ∈ runsFrom ([] : List Char).length none false row := member
  obtain ⟨upTo, after, cut, ⟨⟨before, rfl, place⟩, first, begins, written⟩⟩ :=
    exists_atHand (fun r none => by cases none) fromStart
  have split := List.takeWhile_append_dropWhile (p := Text.isSpace) (l := chars)
  rw [String.toList_ofList]
  refine ⟨⟨before, (chars.takeWhile Text.isSpace).reverse ++ after, ?_, place⟩, ?_, ?_⟩
  · calc row = before ++ chars.reverse ++ after := cut
      _ = before ++ (chars.takeWhile Text.isSpace ++ chars.dropWhile Text.isSpace).reverse
          ++ after := by rw [split]
      _ = _ := by simp only [List.reverse_append, List.append_assoc]
  · intro c head
    rw [List.head?_reverse] at head
    have some : chars.dropWhile Text.isSpace ≠ [] := by
      rintro none
      rw [none] at head
      cases head
    rw [← List.getLast?_append_of_ne_nil _ some, split, Option.mem_def.1 begins] at head
    cases head
    exact written
  · intro c last
    rw [List.getLast?_reverse] at last
    have ends := List.head?_dropWhile_not Text.isSpace chars
    rw [Option.mem_def.1 last] at ends
    simpa using ends

theorem getElem?_row {i : Nat} (inside : i < g.width) (y : Nat) :
    (g.row y)[i]? = some (g.get ⟨i, y⟩) := by
  rw [Grid.row, List.getElem?_map, List.getElem?_range inside]
  rfl

theorem mem_strings : (start, text) ∈ strings g ↔
    ∃ (x y : Nat), y < g.height ∧ (x, text) ∈ runs (g.row y) ∧ start = ⟨x, y⟩ := by
  simp only [strings, List.mem_flatMap, List.mem_range, List.mem_map, Prod.mk.injEq]
  constructor
  · rintro ⟨y, inside, ⟨x, other⟩, mem, rfl, rfl⟩
    exact ⟨x, y, inside, mem, rfl⟩
  · rintro ⟨x, y, inside, mem, rfl⟩
    exact ⟨y, inside, (x, text), mem, rfl, rfl⟩

theorem get_of_mem_strings (mem : (start, text) ∈ strings g) {i : Nat}
    (read : text.toList[i]? = some c) : g.get (start.translate i 0) = c := by
  obtain ⟨x, y, -, member, rfl⟩ := mem_strings.1 mem
  obtain ⟨⟨before, after, cut, rfl⟩, -, -⟩ := exists_piece member
  have place : (g.row y)[before.length + i]? = some c := by
    have room : i < text.toList.length := (List.getElem?_eq_some_iff.1 read).1
    rw [cut, List.getElem?_append_right (Nat.le_add_right ..), Nat.add_sub_cancel_left,
      List.getElem?_append_left room, read]
  have inside : before.length + i < g.width := by
    have room := (List.getElem?_eq_some_iff.1 place).1
    rwa [Grid.row, List.length_map, List.length_range] at room
  rw [getElem?_row inside] at place
  simpa [Cell.translate] using place

/-- A blank cell under a string has some of the string on either side. -/
theorem exists_split_of_blank (mem : (start, text) ∈ strings g) (blank : g.isBlank n)
    (row : n.y = start.y) (covered : start.x ≤ n.x ∧ n.x < start.x + text.length) :
    ∃ before after, text.toList = before ++ Glyph.blank :: after ∧
      (before ≠ [] ∧ after ≠ []) ∧ n.x = start.x + before.length := by
  obtain ⟨i, place⟩ : ∃ i : Nat, n = start.translate i 0 := by
    refine ⟨(n.x - start.x).toNat, ?_⟩
    ext
    · rw [Cell.translate_x]
      omega
    · rw [Cell.translate_y, row, Int.add_zero]
  have room : i < text.toList.length := by
    rw [String.length_toList]
    rw [place, Cell.translate_x] at covered
    omega
  have here : text.toList[i] = Glyph.blank := by
    have shown := get_of_mem_strings mem (List.getElem?_eq_getElem room)
    rw [← place] at shown
    rw [← shown]
    exact eq_of_beq blank
  obtain ⟨x, y, -, member, -⟩ := mem_strings.1 mem
  -- A text neither begins nor ends with white space, so there is text on both sides.
  obtain ⟨-, begins, ends⟩ := exists_piece member
  have cut : text.toList = text.toList.take i ++ Glyph.blank :: text.toList.drop (i + 1) := by
    rw [← here, List.getElem_cons_drop, List.take_append_drop]
  refine ⟨text.toList.take i, text.toList.drop (i + 1), cut, ⟨fun none => ?_, fun none => ?_⟩, ?_⟩
  · rw [none, List.nil_append] at cut
    rw [cut] at begins
    exact begins Glyph.blank rfl rfl
  · rw [none] at cut
    rw [cut, List.getLast?_concat] at ends
    exact ends Glyph.blank rfl (by decide)
  · rw [place, Cell.translate_x, List.length_take, Nat.min_eq_left (Nat.le_of_lt room)]

end Lettering

end Linework
