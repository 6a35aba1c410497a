import Linework.Grid.Fill
import Mathlib.Combinatorics.SimpleGraph.Connectivity.Connected

/-! Areas of one character, and the fills that find them.

A fill marks a cell when it finds it, so all along the marked cells are those found and those left,
and every cell left has its neighbors of the old character among them. When none is left to leave,
the cells left are all that the seed can reach.
-/

set_option autoImplicit false

namespace Linework

theorem Cell.mem_orthogonal_comm {c n : Cell} : n ∈ c.orthogonal ↔ c ∈ n.orthogonal := by
  simp only [Cell.mem_orthogonal]
  constructor
  · rintro ⟨d, rfl⟩
    exact ⟨d.opposite, (Cell.step_step_opposite c d).symm⟩
  · rintro ⟨d, rfl⟩
    exact ⟨d.opposite, (Cell.step_step_opposite n d).symm⟩

theorem Cell.not_mem_orthogonal_self (c : Cell) : c ∉ c.orthogonal := by
  intro mem
  obtain ⟨d, same⟩ := Cell.mem_orthogonal.1 mem
  have x := congrArg Cell.x same
  have y := congrArg Cell.y same
  cases d <;> simp [Direction.dx, Direction.dy] at x y

namespace Grid

theorem mem_of_reachable {web : SimpleGraph Cell} {p : Cell → Prop} {c n : Cell}
    (closed : ∀ c n, p c → web.Adj c n → p n) (reachable : web.Reachable c n) (here : p c) :
    p n := by
  obtain ⟨walk⟩ := reachable
  induction walk with
  | nil => exact here
  | cons adj rest ih => exact ih (closed _ _ here adj)

variable {g h : Grid} {seed c n : Cell} {old mark char : Char} {edge : Char → Bool}

theorem mem_of_get_ne_outside (inside : g.get c ≠ Glyph.outside) : c ∈ g :=
  Classical.byContradiction fun out => inside (get_of_not_mem out)

/-- The cells of a grid with an edge between neighbors that hold the same character. -/
def areas (g : Grid) : SimpleGraph Cell where
  Adj c n := (c ∈ g ∧ n ∈ g) ∧ n ∈ c.orthogonal ∧ g.get c = g.get n
  symm := ⟨fun _ _ ⟨inside, near, same⟩ =>
    ⟨inside.symm, Cell.mem_orthogonal_comm.1 near, same.symm⟩⟩
  loopless := ⟨fun c ⟨_, near, _⟩ => c.not_mem_orthogonal_self near⟩

theorem areas_adj : g.areas.Adj c n ↔ (c ∈ g ∧ n ∈ g) ∧ n ∈ c.orthogonal ∧ g.get c = g.get n :=
  Iff.rfl

theorem mem_of_areas_reachable (inside : c ∈ g) (reach : g.areas.Reachable c n) : n ∈ g :=
  mem_of_reachable (fun _ _ _ adj => (areas_adj.1 adj).1.2) reach inside

theorem get_of_areas_reachable (reach : g.areas.Reachable c n) : g.get n = g.get c :=
  mem_of_reachable (p := fun n => g.get n = g.get c)
    (fun _ _ same adj => (areas_adj.1 adj).2.2.symm.trans same) reach rfl

/-- An area stays as it is when none of its cells changes and no other cell comes to hold its
character. -/
theorem areas_reachable_congr (size : ∀ p, p ∈ h ↔ p ∈ g)
    (kept : ∀ p, g.areas.Reachable c p → h.get p = g.get p)
    (old : ∀ p, h.get p = g.get c → g.get p = g.get c) :
    h.areas.Reachable c n ↔ g.areas.Reachable c n := by
  -- A way in one grid stays where both agree, so each of its steps is one in the other.
  constructor
  · intro reach
    refine (mem_of_reachable (p := fun n => g.areas.Reachable c n ∧ h.get n = g.get c) ?_ reach
      ⟨by rfl, kept c (by rfl)⟩).1
    rintro a b ⟨reached, here⟩ adj
    obtain ⟨inside, near, same⟩ := areas_adj.1 adj
    have there := same.symm.trans here
    have step : g.areas.Adj a b := by
      refine ⟨⟨(size a).1 inside.1, (size b).1 inside.2⟩, near, ?_⟩
      rw [old a here, old b there]
    exact ⟨reached.trans step.reachable, there⟩
  · intro reach
    refine (mem_of_reachable (p := fun n => h.areas.Reachable c n ∧ g.areas.Reachable c n) ?_ reach
      ⟨by rfl, by rfl⟩).1
    rintro a b ⟨reached, reachA⟩ adj
    obtain ⟨inside, near, same⟩ := areas_adj.1 adj
    have reachB := reachA.trans adj.reachable
    have step : h.areas.Adj a b := by
      refine ⟨⟨(size a).2 inside.1, (size b).2 inside.2⟩, near, ?_⟩
      rw [kept a reachA, kept b reachB, same]
    exact ⟨reached.trans step.reachable, reachB⟩

def cellAt (g : Grid) (i : Nat) : Cell := ⟨(i % g.width : Nat), (i / g.width : Nat)⟩

theorem get_cellAt {i : Nat} (bound : i < g.chars.size) :
    g.get (g.cellAt i) = g.chars[i] := by
  have room : i < g.width * g.height := g.size_chars ▸ bound
  have wide : 0 < g.width := Nat.pos_of_ne_zero fun none => by simp [none] at room
  have column : i % g.width < g.width := Nat.mod_lt i wide
  have row : i / g.width < g.height := Nat.div_lt_of_lt_mul room
  have place : i / g.width * g.width + i % g.width = i := by
    rw [Nat.mul_comm]
    exact Nat.div_add_mod i g.width
  have mem : g.cellAt i ∈ g := by
    simp only [cellAt, mem_def, Int.ofNat_lt, Int.natCast_nonneg, true_and]
    exact ⟨column, row⟩
  rw [get_of_mem mem, offset, cellAt, Int.toNat_natCast, Int.toNat_natCast, place,
    Array.getD_eq_getD_getElem?, Array.getElem?_eq_getElem bound, Option.getD_some]

theorem get_tabulate {width height : Nat} {f : Cell → Char}
    (inside : c ∈ tabulate width height f) : (tabulate width height f).get c = f c := by
  have bound := offset_lt inside
  rw [get_of_mem inside, Array.getD_eq_getD_getElem?, Array.getElem?_eq_getElem bound,
    Option.getD_some]
  obtain ⟨⟨left, right⟩, top, bottom⟩ := mem_def.1 inside
  have column : c.x.toNat < width := by
    simp only [tabulate] at right
    omega
  simp only [tabulate, Array.getElem_ofFn, offset]
  congr 1
  rw [← Int.natCast_mod, ← Int.natCast_div, Nat.mul_add_mod_of_lt column, Nat.mul_comm,
    Nat.mul_add_div (by omega), Nat.div_eq_of_lt column, Nat.add_zero, Int.toNat_of_nonneg left,
    Int.toNat_of_nonneg top]

theorem ext_get (width : g.width = h.width) (height : g.height = h.height)
    (same : ∀ c, g.get c = h.get c) : g = h := by
  obtain ⟨columns, rows, chars, size⟩ := g
  obtain ⟨_, _, chars', size'⟩ := h
  obtain rfl : columns = _ := width
  obtain rfl : rows = _ := height
  congr 1
  apply Array.ext (size.trans size'.symm)
  intro i bound bound'
  have found := same ((Grid.mk columns rows chars size).cellAt i)
  rw [get_cellAt (g := ⟨columns, rows, chars, size⟩) bound] at found
  exact found.trans (get_cellAt (g := ⟨columns, rows, chars', size'⟩) bound')

@[simp] theorem width_overwrite (g : Grid) (places : List Cell) (char : Char) :
    (g.overwrite places char).width = g.width := by
  unfold overwrite
  induction places generalizing g with
  | nil => rfl
  | cons c rest ih => rw [List.foldl_cons, ih, width_set]

@[simp] theorem height_overwrite (g : Grid) (places : List Cell) (char : Char) :
    (g.overwrite places char).height = g.height := by
  unfold overwrite
  induction places generalizing g with
  | nil => rfl
  | cons c rest ih => rw [List.foldl_cons, ih, height_set]

@[simp] theorem mem_overwrite {places : List Cell} : c ∈ g.overwrite places char ↔ c ∈ g := by
  simp [mem_def]

/-- Writing the old character back undoes a fill. -/
theorem overwrite_overwrite {places : List Cell} (held : ∀ c ∈ places, g.get c = old) :
    (g.overwrite places mark).overwrite places old = g := by
  refine ext_get (by simp) (by simp) fun c => ?_
  simp only [get_overwrite, mem_overwrite]
  by_cases mem : c ∈ places ∧ c ∈ g
  · rw [if_pos mem, held c mem.1]
  · rw [if_neg mem, if_neg mem]

theorem overwrite_congr {a b : List Cell} (same : ∀ c, c ∈ a ↔ c ∈ b) :
    g.overwrite a char = g.overwrite b char := by
  refine ext_get (by simp) (by simp) fun c => ?_
  simp only [get_overwrite, same]

namespace Front

/-- The cells found and those left are marked, and no others; all of them belong to the area of the
seed. -/
structure Marked (g : Grid) (seed : Cell) (mark : Char) (f : Front) (left : List Cell) : Prop where
  width : f.grid.width = g.width
  height : f.grid.height = g.height
  nodup : (f.found ++ left).Nodup
  reached : ∀ c ∈ f.found ++ left, g.areas.Reachable seed c
  get : ∀ c, f.grid.get c = if c ∈ f.found ++ left then mark else g.get c

variable {f : Front} {left ns : List Cell}

namespace Marked

theorem mem_grid (marked : Marked g seed mark f left) : c ∈ f.grid ↔ c ∈ g := by
  rw [mem_def, mem_def, marked.width, marked.height]

theorem taken_iff (marked : Marked g seed mark f left) (fresh : g.get seed ≠ mark) :
    (n ∈ f.grid ∧ f.grid.get n = g.get seed ∧ g.get seed ≠ mark) ↔
      (n ∈ g ∧ g.get n = g.get seed) ∧ n ∉ f.found ++ left := by
  rw [marked.mem_grid, marked.get]
  by_cases met : n ∈ f.found ++ left
  · rw [if_pos met]
    exact ⟨fun taken => absurd taken.2.1.symm fresh, fun taken => absurd met taken.2⟩
  · rw [if_neg met]
    exact ⟨fun taken => ⟨⟨taken.1, taken.2.1⟩, met⟩, fun taken => ⟨taken.1.1, taken.1.2, fresh⟩⟩

theorem visit (marked : Marked g seed mark f left) (fresh : g.get seed ≠ mark)
    (spread : n ∈ g → g.get n = g.get seed → g.areas.Reachable seed n) :
    Marked g seed mark (f.visit (g.get seed) mark edge n) left := by
  unfold Front.visit
  split
  · rename_i taken
    obtain ⟨⟨inside, held⟩, new⟩ := (marked.taken_iff fresh).1 taken
    refine ⟨by simpa using marked.width, by simpa using marked.height, ?_, ?_, fun c => ?_⟩
    · exact List.nodup_cons.2 ⟨new, marked.nodup⟩
    · exact List.forall_mem_cons.2 ⟨spread inside held, marked.reached⟩
    · rw [get_set, marked.get, List.cons_append]
      by_cases here : c = n
      · rw [if_pos ⟨here, taken.1⟩, if_pos (here ▸ List.mem_cons_self ..)]
      · rw [if_neg fun both => here both.1]
        simp only [List.mem_cons, here, false_or]
  · split <;> exact ⟨marked.width, marked.height, marked.nodup, marked.reached, marked.get⟩

theorem mem_found_visit (marked : Marked g seed mark f left) (fresh : g.get seed ≠ mark) :
    c ∈ (f.visit (g.get seed) mark edge n).found ++ left ↔
      c ∈ f.found ++ left ∨ c = n ∧ n ∈ g ∧ g.get n = g.get seed := by
  unfold Front.visit
  rw [if_congr (marked.taken_iff fresh) rfl rfl]
  by_cases held : n ∈ g ∧ g.get n = g.get seed
  · by_cases met : n ∈ f.found ++ left
    · rw [if_neg fun taken => taken.2 met]
      have same : c = n → c ∈ f.found ++ left := fun here => here ▸ met
      split <;> exact ⟨.inl, fun mem => mem.elim id fun both => same both.1⟩
    · rw [if_pos ⟨held, met⟩, List.cons_append, List.mem_cons, or_comm, and_iff_left held]
  · rw [if_neg fun taken => held taken.1, or_iff_left fun both => held both.2]
    split <;> exact Iff.rfl

theorem mem_rim_visit (marked : Marked g seed mark f left) (fresh : g.get seed ≠ mark)
    (dull : edge mark = false) (beyond : edge Glyph.outside = false) :
    c ∈ (f.visit (g.get seed) mark edge n).rim ↔
      c ∈ f.rim ∨ c = n ∧ g.get n ≠ g.get seed ∧ edge (g.get n) := by
  unfold Front.visit
  rw [if_congr (marked.taken_iff fresh) rfl rfl]
  -- A cell of the seed's character is never rim, taken or not; any other one is never taken.
  by_cases held : g.get n = g.get seed
  · rw [or_iff_left fun both => both.2.1 held]
    split
    · exact Iff.rfl
    · rename_i passed
      have hidden : edge (f.grid.get n) = false := by
        rw [marked.get]
        split
        · exact dull
        · rename_i new
          rw [get_of_not_mem fun inside => passed ⟨⟨inside, held⟩, new⟩, beyond]
      rw [hidden]
      exact Iff.rfl
  · have new : n ∉ f.found ++ left := fun met =>
      held (get_of_areas_reachable (marked.reached n met))
    rw [if_neg fun taken => held taken.1.2, marked.get, if_neg new]
    split
    · rename_i sharp
      rw [List.mem_cons, or_comm, and_iff_left ⟨held, sharp⟩]
    · rename_i flat
      rw [or_iff_left fun both => flat both.2.2]

theorem foldl (marked : Marked g seed mark f left) (edge : Char → Bool) (fresh : g.get seed ≠ mark)
    (spread : ∀ n ∈ ns, n ∈ g → g.get n = g.get seed → g.areas.Reachable seed n) :
    Marked g seed mark (ns.foldl (Front.visit (g.get seed) mark edge) f) left ∧
      ∀ c, c ∈ (ns.foldl (Front.visit (g.get seed) mark edge) f).found ++ left ↔
        c ∈ f.found ++ left ∨ c ∈ ns ∧ c ∈ g ∧ g.get c = g.get seed := by
  induction ns generalizing f with
  | nil => exact ⟨marked, by simp⟩
  | cons n rest ih =>
    obtain ⟨first, others⟩ := List.forall_mem_cons.1 spread
    obtain ⟨last, mem⟩ := ih (marked.visit fresh first) others
    refine ⟨last, fun c => (mem c).trans ?_⟩
    rw [marked.mem_found_visit fresh, List.mem_cons, or_assoc]
    refine or_congr_right ?_
    constructor
    · rintro (⟨rfl, held⟩ | ⟨mem, held⟩)
      · exact ⟨.inl rfl, held⟩
      · exact ⟨.inr mem, held⟩
    · rintro ⟨rfl | mem, held⟩
      · exact .inl ⟨rfl, held⟩
      · exact .inr ⟨mem, held⟩

theorem mem_rim_foldl (marked : Marked g seed mark f left) (fresh : g.get seed ≠ mark)
    (spread : ∀ n ∈ ns, n ∈ g → g.get n = g.get seed → g.areas.Reachable seed n)
    (dull : edge mark = false) (beyond : edge Glyph.outside = false) :
    c ∈ (ns.foldl (Front.visit (g.get seed) mark edge) f).rim ↔
      c ∈ f.rim ∨ c ∈ ns ∧ g.get c ≠ g.get seed ∧ edge (g.get c) := by
  induction ns generalizing f with
  | nil => simp
  | cons n rest ih =>
    obtain ⟨first, others⟩ := List.forall_mem_cons.1 spread
    rw [List.foldl_cons, ih (marked.visit fresh first) others,
      marked.mem_rim_visit fresh dull beyond, List.mem_cons, or_assoc]
    refine or_congr_right ?_
    constructor
    · rintro (⟨rfl, sharp⟩ | ⟨mem, sharp⟩)
      · exact ⟨.inl rfl, sharp⟩
      · exact ⟨.inr mem, sharp⟩
    · rintro ⟨rfl | mem, sharp⟩
      · exact .inl ⟨rfl, sharp⟩
      · exact .inr ⟨mem, sharp⟩

end Marked

/-- A search under way: cells left have found their neighbors in the area and noted those at its
edge. -/
structure Search (g : Grid) (seed : Cell) (mark : Char) (edge : Char → Bool) (f : Front)
    (left : List Cell) : Prop extends Marked g seed mark f left where
  start : seed ∈ f.found ++ left
  closed : ∀ c ∈ left, ∀ n, g.areas.Adj c n → n ∈ f.found ++ left
  rim : ∀ n, n ∈ f.rim ↔ ∃ c ∈ left, n ∈ c.orthogonal ∧ g.get n ≠ g.get seed ∧ edge (g.get n)

namespace Search

theorem leave {rest : List Cell} (search : Search g seed mark edge f left)
    (inside : seed ∈ g) (fresh : g.get seed ≠ mark) (dull : edge mark = false)
    (beyond : edge Glyph.outside = false) (found : f.found = c :: rest) :
    Search g seed mark edge
      (c.orthogonal.foldl (Front.visit (g.get seed) mark edge) { f with found := rest })
      (c :: left) := by
  have reach : g.areas.Reachable seed c := search.reached c (by simp [found])
  have same : ∀ n, n ∈ rest ++ c :: left ↔ n ∈ f.found ++ left := by
    intro n
    rw [found, List.mem_append, List.mem_append, List.mem_cons, List.mem_cons, or_left_comm,
      or_assoc]
  -- Moving `c` from the front to what has left keeps the cells found.
  have marked : Marked g seed mark { f with found := rest } (c :: left) := by
    refine ⟨search.width, search.height, ?_, ?_, ?_⟩
    · have nodup := search.nodup
      rw [found] at nodup
      exact (List.perm_middle.nodup_iff).2 nodup
    · exact fun n mem => search.reached n ((same n).1 mem)
    · intro n
      rw [search.get, if_congr (same n) rfl rfl]
  have spread : ∀ n ∈ c.orthogonal, n ∈ g → g.get n = g.get seed → g.areas.Reachable seed n := by
    intro n near mem held
    have adj : g.areas.Adj c n := ⟨⟨mem_of_areas_reachable inside reach, mem⟩, near,
      (get_of_areas_reachable reach).trans held.symm⟩
    exact reach.trans adj.reachable
  obtain ⟨after, mem⟩ := marked.foldl edge fresh spread
  refine ⟨after, (mem seed).2 (.inl ((same seed).2 search.start)), ?_, fun n => ?_⟩
  · rintro n member m adj
    rcases List.mem_cons.1 member with rfl | member
    · obtain ⟨⟨-, memM⟩, near, held⟩ := areas_adj.1 adj
      exact (mem m).2 (.inr ⟨near, memM, held.symm.trans (get_of_areas_reachable reach)⟩)
    · exact (mem m).2 (.inl ((same m).2 (search.closed n member m adj)))
  · rw [marked.mem_rim_foldl fresh spread dull beyond, search.rim]
    constructor
    · rintro (⟨m, member, note⟩ | note)
      · exact ⟨m, List.mem_cons_of_mem _ member, note⟩
      · exact ⟨c, List.mem_cons_self .., note⟩
    · rintro ⟨m, member, note⟩
      rcases List.mem_cons.1 member with rfl | member
      · exact .inr note
      · exact .inl ⟨m, member, note⟩

theorem run (search : Search g seed mark edge f left) (inside : seed ∈ g)
    (fresh : g.get seed ≠ mark) (dull : edge mark = false) (beyond : edge Glyph.outside = false) :
    Search g seed mark edge (Front.run (g.get seed) mark edge f left).1
        (Front.run (g.get seed) mark edge f left).2 ∧
      (Front.run (g.get seed) mark edge f left).1.found = [] := by
  fun_induction Front.run (g.get seed) mark edge f left with
  | case1 f left done => exact ⟨search, done⟩
  | case2 f left c rest found ih => exact ih (search.leave inside fresh dull beyond found)

theorem init (mark : Char) (edge : Char → Bool) (inside : seed ∈ g) :
    Search g seed mark edge ⟨g.set seed mark, [seed], []⟩ [] := by
  refine ⟨⟨by simp, by simp, by simp, by simp, fun c => ?_⟩, by simp, by simp, by simp⟩
  rw [get_set]
  simp [inside]

/-- When no cell is left to leave, those left are the whole area. -/
theorem mem_iff (search : Search g seed mark edge f left) (done : f.found = []) :
    c ∈ left ↔ g.areas.Reachable seed c := by
  have start := search.start
  have closed := search.closed
  have reached := search.reached
  rw [done, List.nil_append] at start closed reached
  exact ⟨reached c, fun reach =>
    mem_of_reachable (p := (· ∈ left)) (fun c n mem adj => closed c mem n adj) reach
      start⟩

theorem grid_eq (search : Search g seed mark edge f left) (inside : seed ∈ g)
    (done : f.found = []) : f.grid = g.overwrite left mark := by
  refine ext_get (by simpa using search.width) (by simpa using search.height) fun c => ?_
  rw [search.get, done, List.nil_append, get_overwrite]
  by_cases mem : c ∈ left
  · have here := mem_of_areas_reachable inside ((search.mem_iff done).1 mem)
    rw [if_pos mem, if_pos ⟨mem, here⟩]
  · rw [if_neg mem, if_neg fun both => mem both.1]

end Search

/-- A search that has left all cells it found has left the area of its seed, and noted the cells at
the edge of that area. -/
theorem run_eq (edge : Char → Bool) (inside : seed ∈ g) (fresh : g.get seed ≠ mark)
    (dull : edge mark = false) (beyond : edge Glyph.outside = false) :
    ∃ rim area, Front.run (g.get seed) mark edge ⟨g.set seed mark, [seed], []⟩ []
        = (⟨g.overwrite area.reverse mark, [], rim⟩, area) ∧ area.Nodup ∧
      (∀ c, c ∈ area ↔ g.areas.Reachable seed c) ∧
      ∀ n, n ∈ rim ↔ ∃ c, g.areas.Reachable seed c ∧ n ∈ c.orthogonal ∧
        g.get n ≠ g.get seed ∧ edge (g.get n) := by
  obtain ⟨search, done⟩ := (Search.init mark edge inside).run inside fresh dull beyond
  generalize Front.run (g.get seed) mark edge ⟨g.set seed mark, [seed], []⟩ [] = swept
    at search done ⊢
  obtain ⟨⟨grid, found, rim⟩, area⟩ := swept
  obtain rfl : found = [] := done
  obtain rfl : grid = g.overwrite area mark := search.grid_eq inside rfl
  have mem (c : Cell) : c ∈ area ↔ g.areas.Reachable seed c := search.mem_iff rfl
  refine ⟨rim, area, ?_, search.nodup, mem, fun n => ?_⟩
  · rw [overwrite_congr (a := area.reverse) fun c => List.mem_reverse]
  · simp only [search.rim, mem]

end Front

theorem fill_eq (char : Char) (inside : seed ∈ g) (fresh : g.get seed ≠ char) :
    ∃ area, g.fill seed char = .ok (g.overwrite area char, area) ∧ area.Nodup ∧
      ∀ c, c ∈ area ↔ g.areas.Reachable seed c := by
  obtain ⟨rim, area, swept, nodup, mem, -⟩ :=
    Front.run_eq (fun _ => false) inside fresh rfl rfl
  refine ⟨area.reverse, ?_, List.nodup_reverse.2 nodup, fun c => ?_⟩
  · rw [fill, if_pos inside]
    simp only [if_neg fresh, swept]
  · rw [List.mem_reverse, mem]

/-- An enclosed area is that of the seed, with the cells beside it that hold the edge character as
its rim. Only the area is marked. -/
theorem enclose_eq (mark : Char) (inside : seed ∈ g) (fresh : g.get seed ≠ taken)
    (apart : mark ≠ taken) (visible : mark ≠ Glyph.outside) :
    ∃ area, g.enclose seed mark = .ok (g.overwrite area.interior taken, area) ∧
      area.interior.Nodup ∧ (∀ c, c ∈ area.interior ↔ g.areas.Reachable seed c) ∧
      ∀ n, n ∈ area.rim ↔ ∃ c, g.areas.Reachable seed c ∧ n ∈ c.orthogonal ∧
        g.get n ≠ g.get seed ∧ g.get n = mark := by
  obtain ⟨rim, area, swept, nodup, mem, edge⟩ :=
    Front.run_eq (· == mark) inside fresh (beq_eq_false_iff_ne.2 apart.symm)
      (beq_eq_false_iff_ne.2 visible.symm)
  refine ⟨⟨area.reverse, CellSet.ofList rim.reverse⟩, ?_, List.nodup_reverse.2 nodup,
    fun c => ?_, fun n => ?_⟩
  · rw [enclose, if_pos inside]
    simp only [swept]
  · rw [List.mem_reverse, mem]
  · rw [CellSet.mem_ofList, List.mem_reverse, edge]
    simp only [beq_iff_eq]

end Grid

end Linework
