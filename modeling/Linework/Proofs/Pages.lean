import Linework.Page
import Mathlib.Data.List.DropRight
import Mathlib.Data.List.Forall2
import Mathlib.Data.List.GetD
import Mathlib.Data.Nat.Init

/-! How a text lies on its page.

Each line that is kept has a row between the margins and stands in it with its tabs expanded, from
the first column on. Only the marks of items look different: they make room for bullets. White
space below the last line does not count.
-/

set_option autoImplicit false

namespace Linework

namespace Text

variable {line text more : List Char}

theorem mem_of_mem_dropReturn {c : Char} (mem : c ∈ dropReturn line) : c ∈ line := by
  unfold dropReturn at mem
  split at mem
  · exact List.dropLast_subset line mem
  · exact mem

theorem linesFrom_append (line text more : List Char) :
    linesFrom line (text ++ '\n' :: more) = linesFrom line (text ++ ['\n']) ++ lines more := by
  induction text generalizing line with
  | nil => rfl
  | cons c text ih =>
    by_cases feed : c = '\n'
    · subst feed
      simp only [List.cons_append, linesFrom, ih]
    · simp only [List.cons_append, linesFrom, ih]

theorem mem_or_mem_of_linesFrom {other : List Char} {c : Char}
    (there : other ∈ linesFrom line text) (mem : c ∈ other) : c ∈ line ∨ c ∈ text := by
  induction text generalizing line with
  | nil =>
    rw [linesFrom] at there
    split at there
    · cases there
    · rw [List.mem_singleton.1 there, List.mem_reverse] at mem
      exact .inl mem
  | cons d text ih =>
    by_cases feed : d = '\n'
    · subst feed
      rw [linesFrom, List.mem_cons] at there
      rcases there with rfl | there
      · exact .inl (List.mem_reverse.1 (mem_of_mem_dropReturn mem))
      · rcases ih there with none | later
        · cases none
        · exact .inr (List.mem_cons_of_mem _ later)
    · simp only [linesFrom] at there
      rcases ih there with early | later
      · rcases List.mem_cons.1 early with rfl | early
        · exact .inr (List.mem_cons_self ..)
        · exact .inl early
      · exact .inr (List.mem_cons_of_mem _ later)

end Text

namespace Page

/-! ### Tabs -/

inductive Expands (tab : Nat) : List Char → List Char → Prop where
  | nil : Expands tab [] []
  | char {line expanded : List Char} {c : Char} : Expands tab line expanded → c ≠ '\t' →
      Expands tab (line ++ [c]) (expanded ++ [c])
  | tab {line expanded : List Char} {blanks : Nat} : Expands tab line expanded →
      0 < blanks → blanks ≤ tab → tab ∣ expanded.length + blanks →
      Expands tab (line ++ ['\t']) (expanded ++ List.replicate blanks Glyph.blank)

theorem expandTabs_append (tab column : Nat) (line more : List Char) :
    expandTabs tab column (line ++ more) = expandTabs tab column line
      ++ expandTabs tab (column + (expandTabs tab column line).length) more := by
  induction line generalizing column with
  | nil => rfl
  | cons c line ih =>
    rw [List.cons_append, expandTabs, expandTabs]
    split
    · simp only [ih, List.append_assoc, List.length_append, List.length_replicate, Nat.add_assoc]
    · simp only [ih, List.cons_append, List.length_cons, Nat.add_assoc, Nat.add_comm 1]

theorem expandTabs_tab (tab column : Nat) :
    expandTabs tab column ['\t'] = List.replicate (tab - column % tab) Glyph.blank := by
  simp [expandTabs]

theorem expandTabs_char (tab column : Nat) {c : Char} (plain : c ≠ '\t') :
    expandTabs tab column [c] = [c] := by
  simp [expandTabs, plain]

theorem expands_expandTabs {tab : Nat} (wide : 0 < tab) (line : List Char) :
    Expands tab line (expandTabs tab 0 line) := by
  induction line using List.reverseRecOn with
  | nil => exact .nil
  | append_singleton line c ih =>
    rw [expandTabs_append, Nat.zero_add]
    by_cases stop : c = '\t'
    · subst stop
      rw [expandTabs_tab]
      generalize expandTabs tab 0 line = expanded at ih
      -- The blanks fill up the stop that the line has reached so far.
      have short := Nat.mod_lt expanded.length wide
      have whole := Nat.div_add_mod expanded.length tab
      refine ih.tab (by omega) (by omega) ⟨expanded.length / tab + 1, ?_⟩
      rw [Nat.mul_succ]
      omega
    · rw [expandTabs_char _ _ stop]
      exact ih.char stop

theorem all_isSpace_expandTabs (tab column : Nat) (line : List Char) :
    (expandTabs tab column line).all Text.isSpace = line.all Text.isSpace := by
  induction line generalizing column with
  | nil => rfl
  | cons c line ih =>
    rw [expandTabs]
    split
    · rename_i stop
      have blanks : (List.replicate (tab - column % tab) Glyph.blank).all Text.isSpace := by
        rw [List.all_eq_true]
        intro b mem
        rw [List.eq_of_mem_replicate mem]
        rfl
      have space : Text.isSpace c := by rw [stop]; rfl
      rw [List.all_append, blanks, ih, List.all_cons, space]
    · rw [List.all_cons, List.all_cons, ih]

/-! ### Bullets -/

/-- Whether a line has the mark of an item at a column, then a blank and then the text of the
item. -/
def itemAt (chars : List Char) (i : Nat) : Bool :=
  chars[i]?.any isItemMark && chars[i + 1]? == some Glyph.blank && chars[i + 2]?.any startsItem

/-- Whether a bullet takes the place of the mark at a column and the blank after it. A blank has to
come before the mark, if anything does, and no bullet may have taken it. -/
def hasBullet (atStart : Bool) (chars : List Char) : Nat → Bool
  | 0 => atStart && itemAt chars 0
  | 1 => itemAt chars 1 && chars[0]? == some Glyph.blank
  | i + 2 => itemAt chars (i + 2) && chars[i + 1]? == some Glyph.blank && !hasBullet atStart chars i

def shownAt (atStart : Bool) (chars : List Char) (i : Nat) : Char :=
  if hasBullet atStart chars i then Glyph.blank
  else if 0 < i && hasBullet atStart chars (i - 1) then bullet
  else chars.getD i Glyph.blank

variable {atStart : Bool} {chars rest : List Char} {c mark : Char}

theorem itemAt_succ (c : Char) (rest : List Char) (i : Nat) :
    itemAt (c :: rest) (i + 1) = itemAt rest i := rfl

theorem hasBullet_nil (atStart : Bool) (i : Nat) : hasBullet atStart [] i = false := by
  match i with
  | 0 | 1 | _ + 2 => simp [hasBullet, itemAt]

theorem hasBullet_add_two (atStart : Bool) (chars : List Char) (i : Nat) :
    hasBullet atStart chars (i + 2)
      = (itemAt chars (i + 2) && chars[i + 1]? == some Glyph.blank && !hasBullet atStart chars i) :=
  rfl

theorem hasBullet_cons (bare : hasBullet atStart (c :: rest) 0 = false) (i : Nat) :
    hasBullet atStart (c :: rest) (i + 1) = hasBullet (c == Glyph.blank) rest i := by
  -- By two columns, as far as a bullet looks back.
  induction i using Nat.twoStepInduction with
  | zero => simp [hasBullet, itemAt_succ, Bool.and_comm]
  | one =>
    rw [hasBullet_add_two _ _ 0, bare, hasBullet, itemAt_succ, Bool.not_false, Bool.and_true]
    rfl
  | more i ih _ =>
    rw [hasBullet_add_two _ _ (i + 1), ih, hasBullet_add_two, itemAt_succ, List.getElem?_cons_succ]

theorem hasBullet_one (marks : isItemMark mark) : hasBullet atStart (mark :: rest) 1 = false := by
  have written : mark ≠ Glyph.blank := by
    rintro rfl
    cases marks
  simp [hasBullet, written]

theorem hasBullet_cons_cons (found : hasBullet atStart (mark :: c :: rest) 0)
    (marks : isItemMark mark) (i : Nat) :
    hasBullet atStart (mark :: c :: rest) (i + 2) = hasBullet false rest i := by
  induction i using Nat.twoStepInduction with
  | zero => rw [hasBullet_add_two, found, Bool.not_true, Bool.and_false, hasBullet, Bool.false_and]
  | one =>
    rw [hasBullet_add_two, hasBullet_one marks, Bool.not_false, Bool.and_true]
    rfl
  | more i ih _ =>
    rw [hasBullet_add_two, ih, hasBullet_add_two]
    rfl

theorem shownAt_cons (bare : hasBullet atStart (c :: rest) 0 = false) (i : Nat) :
    shownAt atStart (c :: rest) (i + 1) = shownAt (c == Glyph.blank) rest i := by
  rw [shownAt, shownAt, hasBullet_cons bare, List.getD_cons_succ, Nat.add_sub_cancel]
  cases i with
  | zero => simp [bare]
  | succ i => simp [hasBullet_cons bare]

theorem shownAt_cons_cons (found : hasBullet atStart (mark :: c :: rest) 0)
    (marks : isItemMark mark) (i : Nat) :
    shownAt atStart (mark :: c :: rest) (i + 2) = shownAt false rest i := by
  rw [shownAt, shownAt, hasBullet_cons_cons found marks, List.getD_cons_succ, List.getD_cons_succ]
  cases i with
  | zero => simp [hasBullet_one marks]
  | succ i => simp [hasBullet_cons_cons found marks]

theorem getD_setBullets (atStart : Bool) (chars : List Char) (i : Nat) :
    (setBullets atStart chars).getD i Glyph.blank = shownAt atStart chars i := by
  fun_induction setBullets atStart chars generalizing i with
  | case1 atStart mark c rest item ih =>
    simp only [Bool.and_eq_true] at item
    obtain ⟨⟨start, marks⟩, text⟩ := item
    have found : hasBullet atStart (mark :: ' ' :: c :: rest) 0 := by
      simp [hasBullet, itemAt, start, marks, text, Glyph.blank]
    match i with
    | 0 => simp [shownAt, found]
    | 1 => simp [shownAt, found, hasBullet_one marks]
    | i + 2 =>
      rw [shownAt_cons_cons found marks, ← ih, List.getD_cons_succ, List.getD_cons_succ]
  | case2 atStart mark c rest plain ih =>
    have bare : hasBullet atStart (mark :: ' ' :: c :: rest) 0 = false := by
      simpa [hasBullet, itemAt, Glyph.blank] using plain
    cases i with
    | zero => simp [shownAt, bare]
    | succ i => rw [shownAt_cons bare, ← ih, List.getD_cons_succ]
  | case3 atStart c rest other ih =>
    have bare : hasBullet atStart (c :: rest) 0 = false := by
      -- The line is too short for an item or goes on without a blank.
      match rest with
      | [] => simp [hasBullet, itemAt]
      | [_] => simp [hasBullet, itemAt]
      | d :: e :: more =>
        have apart : d ≠ ' ' := fun same => other e more (same ▸ rfl)
        simp [hasBullet, itemAt, Glyph.blank, apart]
    cases i with
    | zero => simp [shownAt, bare]
    | succ i => rw [shownAt_cons bare, ← ih, List.getD_cons_succ]
  | case4 => simp [shownAt, hasBullet_nil]

example : setBullets true ['o', ' ', 'o', ' ', 'a'] = [' ', bullet, 'o', ' ', 'a'] := by decide

/-- An item begins where its mark, a blank and a text stand, if a blank comes before that is not
taken by a bullet. -/
theorem hasBullet_iff (chars : List Char) (i : Nat) :
    hasBullet true chars i ↔ itemAt chars i ∧ (i = 0 ∨ chars[i - 1]? = some Glyph.blank ∧
      ∀ j, i = j + 2 → ¬ hasBullet true chars j) := by
  match i with
  | 0 => simp [hasBullet]
  | 1 => simp [hasBullet]
  | i + 2 => simp [hasBullet, and_assoc]

theorem length_setBullets (atStart : Bool) (chars : List Char) :
    (setBullets atStart chars).length = chars.length := by
  fun_induction setBullets atStart chars with
  | case1 atStart mark c rest item ih => simpa using ih
  | case2 atStart mark c rest plain ih => simpa using ih
  | case3 atStart c rest other ih => simpa using ih
  | case4 => rfl

theorem shownAt_of_le {i : Nat} (beyond : chars.length ≤ i) :
    shownAt atStart chars i = Glyph.blank := by
  rw [← getD_setBullets, List.getD_eq_default]
  rwa [length_setBullets]

/-! ### Lines -/

theorem content_eq (text : List Char) (tab : Nat) :
    content text tab = ((Text.lines text).rdropWhile fun line => line.all Text.isSpace).map
      (expandTabs (max tab 1) 0) := by
  have same : (fun line => line.all Text.isSpace) ∘ expandTabs (max tab 1) 0 =
      fun line => line.all Text.isSpace :=
    funext fun line => all_isSpace_expandTabs (max tab 1) 0 line
  rw [content, ← List.map_reverse, List.dropWhile_map, same, List.rdropWhile, List.map_reverse]

/-- Lines of white space below the last line feed are no content. -/
theorem content_append {text tail : List Char} (ended : text.getLast? = some '\n')
    (white : tail.all Text.isSpace) (tab : Nat) : content (text ++ tail) tab = content text tab := by
  obtain ⟨front, rfl⟩ := List.getLast?_eq_some_iff.1 ended
  have blank : ∀ line ∈ (Text.lines tail).reverse, line.all Text.isSpace := by
    intro line there
    rw [List.all_eq_true]
    intro c mem
    rcases Text.mem_or_mem_of_linesFrom (List.mem_reverse.1 there) mem with none | mem
    · cases none
    · exact List.all_eq_true.1 white c mem
  have more : Text.lines (front ++ ['\n'] ++ tail) =
      Text.lines (front ++ ['\n']) ++ Text.lines tail := by
    rw [List.append_assoc]
    exact Text.linesFrom_append [] front tail
  rw [content_eq, content_eq, more, List.rdropWhile, List.rdropWhile, List.reverse_append,
    List.dropWhile_append_of_pos blank]

def widest (lines : List (List Char)) : Nat := (lines.map List.length).max?.getD 0

theorem foldl_max_length (lines : List (List Char)) :
    lines.foldl (fun widest line => max widest line.length) 0 = widest lines := by
  cases lines with
  | nil => rfl
  | cons first rest =>
    rw [widest, List.map_cons, List.max?_cons', List.foldl_map, List.foldl_cons, Nat.zero_max]
    rfl

theorem length_le_widest {lines : List (List Char)} {line : List Char} (mem : line ∈ lines) :
    line.length ≤ widest lines :=
  List.le_max?_getD_of_mem (List.mem_map_of_mem mem)

theorem length_getD_le_widest (lines : List (List Char)) (y : Nat) :
    (lines.getD y []).length ≤ widest lines := by
  rcases Nat.lt_or_ge y lines.length with listed | below
  · rw [List.getD_eq_getElem _ _ listed]
    exact length_le_widest (List.getElem_mem listed)
  · rw [List.getD_eq_default _ _ below]
    exact Nat.zero_le _

/-! ### Rows -/

theorem getD_append_replicate {α : Type} (line : List α) (k : Nat) (c : α) (i : Nat) :
    (line ++ List.replicate k c).getD i c = line.getD i c := by
  rcases Nat.lt_or_ge i line.length with within | beyond
  · exact List.getD_append _ _ _ _ within
  · rw [List.getD_append_right _ _ _ _ beyond, List.getD_eq_default _ _ beyond]
    exact List.getElem?_getD_replicate_default_eq _ _ _

theorem getD_framed {α : Type} (inner : List α) (k : Nat) (c : α) (i : Nat) :
    (List.replicate k c ++ inner ++ List.replicate k c).getD i c =
      if i < k then c else inner.getD (i - k) c := by
  rw [getD_append_replicate]
  split
  · rename_i within
    rw [List.getD_append _ _ _ _ (by rwa [List.length_replicate])]
    exact List.getElem?_getD_replicate_default_eq _ _ _
  · rename_i beyond
    rw [List.getD_append_right _ _ _ _ (by rw [List.length_replicate]; omega),
      List.length_replicate]

end Page

namespace Grid

variable {rows : List (List Char)} {width : Nat}

theorem mem_of_lt {g : Grid} {x y : Nat} (across : x < g.width) (down : y < g.height) :
    (⟨x, y⟩ : Cell) ∈ g :=
  ⟨⟨Int.natCast_nonneg x, Int.ofNat_lt.2 across⟩, Int.natCast_nonneg y, Int.ofNat_lt.2 down⟩

/-- Rows of one length lie one after the other. -/
theorem getD_flatten (even : ∀ row ∈ rows, row.length = width) (row : List Char) (c : Char)
    {x y : Nat} (across : x < width) (down : y < rows.length) :
    rows.flatten.getD (y * width + x) c = (rows.getD y row).getD x c := by
  induction rows generalizing y with
  | nil => cases down
  | cons first rest ih =>
    obtain ⟨length, even⟩ := List.forall_mem_cons.1 even
    rw [List.flatten_cons]
    cases y with
    | zero =>
      rw [Nat.zero_mul, Nat.zero_add, List.getD_append _ _ _ _ (by omega), List.getD_cons_zero]
    | succ y =>
      rw [Nat.succ_mul, List.getD_append_right _ _ _ _ (by omega), List.getD_cons_succ,
        ← ih even (Nat.lt_of_succ_lt_succ down)]
      congr 1
      omega

theorem ofRows_ok (first : rows ≠ []) (even : ∀ row ∈ rows, row.length = width) :
    ∃ g, ofRows rows = .ok g ∧ g.width = width ∧ g.height = rows.length ∧
      ∀ (row : List Char) (c : Char) (x y : Nat), x < g.width → y < g.height →
        g.get ⟨x, y⟩ = (rows.getD y row).getD x c := by
  have head : (rows.head?.map List.length).getD 0 = width := by
    cases rows with
    | nil => exact absurd rfl first
    | cons row rest => exact even row (List.mem_cons_self ..)
  have fits : ∀ row ∈ rows, row.length = (rows.head?.map List.length).getD 0 := by
    rwa [head]
  rw [ofRows]
  refine ⟨_, dif_pos fits, head, rfl, fun row c x y across down => ?_⟩
  have mem := mem_of_lt across down
  have bound := offset_lt mem
  simp only [offset, Int.toNat_natCast, List.size_toArray] at bound
  rw [← getD_flatten even row c (head ▸ across) down, get_of_mem mem]
  simp only [offset, Int.toNat_natCast, head] at bound ⊢
  rw [Array.getD_eq_getD_getElem?, List.getElem?_toArray, List.getD_eq_getElem?_getD,
    List.getElem?_eq_getElem bound]
  rfl

end Grid

namespace Page

def rowOf (width : Nat) (line : List Char) : List Char :=
  List.replicate margin Glyph.blank ++ padTo width (setBullets true line)
    ++ List.replicate margin Glyph.blank

theorem length_rowOf {width : Nat} {line : List Char} (fits : line.length ≤ width) :
    (rowOf width line).length = width + 2 * margin := by
  rw [← length_setBullets true] at fits
  simp only [rowOf, padTo, List.length_append, List.length_replicate]
  omega

theorem getD_rowOf (width : Nat) (line : List Char) (x : Nat) :
    (rowOf width line).getD x Glyph.blank =
      if x < margin then Glyph.blank else shownAt true line (x - margin) := by
  rw [rowOf, getD_framed, padTo, getD_append_replicate, getD_setBullets]

def pageRows (lines : List (List Char)) : List (List Char) :=
  List.replicate margin (rowOf (widest lines) []) ++ lines.map (rowOf (widest lines))
    ++ List.replicate margin (rowOf (widest lines) [])

theorem load_eq (text : List Char) (tab : Nat) :
    load text tab = Grid.ofRows (pageRows (content text tab)) := by
  have empty : ∀ width, List.replicate (width + margin * 2) Glyph.blank = rowOf width [] := by
    intro width
    rw [rowOf, setBullets, padTo, List.nil_append, List.replicate_append_replicate,
      List.replicate_append_replicate, List.length_nil]
    congr 1
    omega
  simp only [load, foldl_max_length, empty]
  rfl

theorem length_pageRows (lines : List (List Char)) :
    (pageRows lines).length = lines.length + 2 * margin := by
  simp only [pageRows, List.length_append, List.length_replicate, List.length_map]
  omega

theorem length_of_mem_pageRows {lines : List (List Char)} {row : List Char}
    (mem : row ∈ pageRows lines) : row.length = widest lines + 2 * margin := by
  rw [pageRows, List.mem_append, List.mem_append, or_right_comm, or_self] at mem
  rcases mem with mem | mem
  · rw [List.eq_of_mem_replicate mem, length_rowOf (Nat.zero_le _)]
  · obtain ⟨line, written, rfl⟩ := List.mem_map.1 mem
    exact length_rowOf (length_le_widest written)

theorem getD_pageRows (lines : List (List Char)) (x y : Nat) :
    ((pageRows lines).getD y (rowOf (widest lines) [])).getD x Glyph.blank =
      if x < margin ∨ y < margin then Glyph.blank
      else shownAt true (lines.getD (y - margin) []) (x - margin) := by
  rw [pageRows, getD_framed, List.getD_map]
  split
  · rename_i above
    rw [getD_rowOf, shownAt_of_le (Nat.zero_le _), ite_self, if_pos (.inr above)]
  · rename_i beside
    rw [getD_rowOf]
    simp only [beside, or_false]

/-- How lines stand on a page: each has a row between the margins and begins where they end. -/
structure LaidOut (g : Grid) (lines : List (List Char)) : Prop where
  width : g.width = widest lines + 2 * margin
  height : g.height = lines.length + 2 * margin
  edges {c : Cell} : c ∈ g →
    c.x < margin ∨ g.width ≤ c.x + margin ∨ c.y < margin ∨ g.height ≤ c.y + margin →
    g.get c = Glyph.blank
  inner {line : List Char} {x y : Nat} : lines[y]? = some line → x < widest lines →
    g.get ⟨x + margin, y + margin⟩ = shownAt true line x

theorem exists_laidOut (text : List Char) (tab : Nat) :
    ∃ g, load text tab = .ok g ∧ LaidOut g (content text tab) := by
  rw [load_eq]
  generalize content text tab = lines
  have some : pageRows lines ≠ [] := by
    rw [← List.length_pos_iff, length_pageRows]
    exact Nat.add_pos_right _ (by decide)
  obtain ⟨g, made, width, height, get⟩ := Grid.ofRows_ok some fun _ => length_of_mem_pageRows
  rw [length_pageRows] at height
  have shown : ∀ x y : Nat, x < g.width → y < g.height → g.get ⟨x, y⟩ =
      if x < margin ∨ y < margin then Glyph.blank
      else shownAt true (lines.getD (y - margin) []) (x - margin) := fun x y across down =>
    (get _ _ x y across down).trans (getD_pageRows lines x y)
  refine ⟨g, made, width, height, ?_, ?_⟩
  · rintro ⟨x, y⟩ ⟨⟨right, across⟩, low, down⟩ edge
    lift x to Nat using right
    lift y to Nat using low
    dsimp only at across down edge
    rw [shown x y (Int.ofNat_lt.1 across) (Int.ofNat_lt.1 down)]
    split
    · rfl
    · rename_i within
      -- The cell lies past the longest line or below the last.
      have outer : widest lines ≤ x - margin ∨ lines.length ≤ y - margin := by omega
      refine shownAt_of_le ?_
      rcases outer with right | below
      · exact (length_getD_le_widest lines _).trans right
      · rw [List.getD_eq_default _ _ below]
        exact Nat.zero_le _
  · intro line x y listed within
    obtain ⟨down, rfl⟩ := List.getElem?_eq_some_iff.1 listed
    have same := shown (x + margin) (y + margin) (by omega) (by omega)
    rw [if_neg (by omega), Nat.add_sub_cancel, Nat.add_sub_cancel, List.getD_eq_getElem _ _ down]
      at same
    exact same

theorem load_ok (text : List Char) (tab : Nat) : ∃ g, load text tab = .ok g :=
  (exists_laidOut text tab).imp fun _ => And.left

/-- The lines of a text stand on its page with their tabs expanded and their bullets set, up to the
last that is not all white space. More white space below them leaves the page as it is. -/
theorem load_lays_out (text : List Char) (tab : Nat) :
    ∃ g kept dropped expanded, load text tab = .ok g ∧
      Text.lines text = kept ++ dropped ∧
      (∀ line ∈ dropped, line.all Text.isSpace) ∧
      (∀ line, kept.getLast? = some line → ¬ line.all Text.isSpace) ∧
      List.Forall₂ (Expands (max tab 1)) kept expanded ∧
      LaidOut g expanded ∧
      (∀ chars i, hasBullet true chars i ↔ itemAt chars i ∧ (i = 0 ∨
        chars[i - 1]? = some Glyph.blank ∧ ∀ j, i = j + 2 → ¬ hasBullet true chars j)) ∧
      (text.getLast? = some '\n' → ∀ tail : List Char, tail.all Text.isSpace →
        load (text ++ tail) tab = .ok g) := by
  obtain ⟨g, loaded, out⟩ := exists_laidOut text tab
  refine ⟨g, (Text.lines text).rdropWhile fun line => line.all Text.isSpace,
    (Text.lines text).rtakeWhile fun line => line.all Text.isSpace, content text tab, loaded,
    List.rdropWhile_append_rtakeWhile.symm, fun line => List.mem_rtakeWhile_imp, ?_, ?_, out,
    hasBullet_iff, ?_⟩
  · intro line last
    obtain ⟨some, rfl⟩ := List.mem_getLast?_eq_getLast last
    exact List.rdropWhile_last_not _ _ some
  · rw [content_eq, List.forall₂_map_right_iff]
    exact List.forall₂_same.2 fun line _ => expands_expandTabs (Nat.le_max_right tab 1) line
  · -- After a line feed white space only adds lines that are dropped.
    intro ended tail white
    rw [load, content_append ended white, ← load, loaded]

end Page

end Linework
