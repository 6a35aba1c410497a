import Linework.Proofs.Region

/-! What a fill answers and what it leaves behind.

A fill writes into the grid that it is called on, and its search looks at characters alone. It would
take a cell up again where the mark is the character that it looks for, and go on beyond the edge
where that is what a read beyond the edge gives. Of a seed that holds neither it has one end. Then it
has found the whole area of the seed, each cell once, and has changed the grid there and nowhere else.
-/

set_option autoImplicit false

namespace Linework.Grid

namespace Front

variable {old mark : Char} {edge : Char → Bool}

def take (old mark : Char) (edge : Char → Bool) (f : Front) (n : Cell) : Front :=
  if f.grid.get n = old then { f with grid := f.grid.set n mark, found := n :: f.found }
  else if edge (f.grid.get n) then { f with rim := n :: f.rim }
  else f

/-- A search that looks at characters alone comes to an end, with this front and these cells left. -/
inductive Drains (old mark : Char) (edge : Char → Bool) :
    Front → List Cell → Front × List Cell → Prop
  | done {f : Front} {left : List Cell} : f.found = [] → Drains old mark edge f left (f, left)
  | leave {f : Front} {left rest : List Cell} {c : Cell} {swept : Front × List Cell} :
      f.found = c :: rest →
      Drains old mark edge (c.orthogonal.foldl (take old mark edge) { f with found := rest })
        (c :: left) swept →
      Drains old mark edge f left swept

/-- What shows the character looked for lies in the grid, and it is no mark. -/
theorem take_eq (visible : old ≠ Glyph.outside) (fresh : old ≠ mark) :
    take old mark edge = visit old mark edge := by
  funext f n
  rw [take, visit]
  refine if_congr ⟨fun held => ⟨mem_of_get_ne_outside ?_, held, fresh⟩, fun held => held.2.1⟩ rfl rfl
  rwa [held]

theorem drains_run (visible : old ≠ Glyph.outside) (fresh : old ≠ mark) (f : Front)
    (left : List Cell) : Drains old mark edge f left (run old mark edge f left) := by
  fun_induction run old mark edge f left with
  | case1 f left done => exact .done done
  | case2 f left c rest found ih =>
    refine .leave found ?_
    rwa [take_eq visible fresh]

variable {f : Front} {left : List Cell} {swept other : Front × List Cell}

theorem Drains.unique (drains : Drains old mark edge f left swept)
    (again : Drains old mark edge f left other) : swept = other := by
  induction drains with
  | done none =>
    cases again with
    | done => rfl
    | leave found => rw [none] at found; cases found
  | leave found _ ih =>
    cases again with
    | done none => rw [none] at found; cases found
    | leave same rest =>
      rw [found] at same
      cases same
      exact ih rest

theorem drains_iff (visible : old ≠ Glyph.outside) (fresh : old ≠ mark) :
    Drains old mark edge f left swept ↔ run old mark edge f left = swept :=
  ⟨fun drains => (drains_run visible fresh f left).unique drains,
    fun same => same ▸ drains_run visible fresh f left⟩

end Front

/-! ### Calls and their ends -/

/-- A call of `fill` comes to an end with this answer and leaves this grid. -/
inductive FillEnds (g : Grid) (seed : Cell) (char : Char) :
    Except Fault (List Cell) → Grid → Prop
  | astray : seed ∉ g → FillEnds g seed char (.error (.seedOutside seed)) g
  | idle : seed ∈ g → g.get seed = char → FillEnds g seed char (.ok []) g
  | swept {f : Front} {left : List Cell} : seed ∈ g → g.get seed ≠ char →
      Front.Drains (g.get seed) char (fun _ => false) ⟨g.set seed char, [seed], []⟩ [] (f, left) →
      FillEnds g seed char (.ok left.reverse) f.grid

inductive EncloseEnds (g : Grid) (seed : Cell) (edge : Char) : Except Fault Area → Grid → Prop
  | astray : seed ∉ g → EncloseEnds g seed edge (.error (.seedOutside seed)) g
  | swept {f : Front} {left : List Cell} : seed ∈ g →
      Front.Drains (g.get seed) taken (· == edge) ⟨g.set seed taken, [seed], []⟩ [] (f, left) →
      EncloseEnds g seed edge (.ok ⟨left.reverse, CellSet.ofList f.rim.reverse⟩) f.grid

variable {g h filled : Grid} {seed c n : Cell} {char edge : Char} {places : List Cell} {area : Area}

theorem fillEnds_of_not_mem (outside : seed ∉ g) {answer : Except Fault (List Cell)} :
    FillEnds g seed char answer h ↔ answer = .error (.seedOutside seed) ∧ h = g := by
  constructor
  · rintro (- | inside | inside)
    · exact ⟨rfl, rfl⟩
    all_goals exact absurd inside outside
  · rintro ⟨rfl, rfl⟩
    exact .astray outside

/-- What `fill` gives is how a call of it ends, and the only end. -/
theorem fillEnds_of_eq_ok (visible : g.get seed ≠ Glyph.outside) (fresh : g.get seed ≠ char)
    (done : g.fill seed char = .ok (filled, places)) {answer : Except Fault (List Cell)} :
    FillEnds g seed char answer h ↔ answer = .ok places ∧ h = filled := by
  have inside : seed ∈ g := mem_of_get_ne_outside visible
  rw [fill, if_pos inside] at done
  simp only [if_neg fresh, Except.ok.injEq, Prod.mk.injEq] at done
  obtain ⟨rfl, rfl⟩ := done
  constructor
  · rintro (astray | ⟨-, idle⟩ | ⟨-, -, drains⟩)
    · exact absurd inside astray
    · exact absurd idle fresh
    · rw [(Front.drains_iff visible fresh).1 drains]
      exact ⟨rfl, rfl⟩
  · rintro ⟨rfl, rfl⟩
    exact .swept inside fresh (Front.drains_run visible fresh _ _)

theorem encloseEnds_of_eq_ok (visible : g.get seed ≠ Glyph.outside) (fresh : g.get seed ≠ taken)
    (done : g.enclose seed edge = .ok (filled, area)) {answer : Except Fault Area} :
    EncloseEnds g seed edge answer h ↔ answer = .ok area ∧ h = filled := by
  have inside : seed ∈ g := mem_of_get_ne_outside visible
  rw [enclose, if_pos inside] at done
  simp only [Except.ok.injEq, Prod.mk.injEq] at done
  obtain ⟨rfl, rfl⟩ := done
  constructor
  · rintro (astray | ⟨-, drains⟩)
    · exact absurd inside astray
    · rw [(Front.drains_iff visible fresh).1 drains]
      exact ⟨rfl, rfl⟩
  · rintro ⟨rfl, rfl⟩
    exact .swept inside (Front.drains_run visible fresh _ _)

/-! ### What a call leaves -/

/-- A fill with a new character writes it over the area of its seed, that is all cells that hold the
seed's character and can be reached from the seed through such cells, and over nothing else. Where
there is no such seed nothing is written. -/
theorem fill_floods_area (g : Grid) (seed : Cell) (char : Char) :
    (seed ∉ g → g.fill seed char = .error (.seedOutside seed) ∧ ∀ answer left,
      FillEnds g seed char answer left ↔ answer = .error (.seedOutside seed) ∧ left = g) ∧
    (seed ∈ g → g.get seed ≠ Glyph.outside → g.get seed ≠ char →
      ∃ filled area, g.fill seed char = .ok (filled, area) ∧
        (∀ answer left, FillEnds g seed char answer left ↔ answer = .ok area ∧ left = filled) ∧
        (area.Nodup ∧ ∀ c, c ∈ area ↔ g.areas.Reachable seed c) ∧
        (filled.width = g.width ∧ filled.height = g.height) ∧
        ∀ c, filled.get c = if c ∈ area then char else g.get c) := by
  refine ⟨fun outside => ⟨if_neg outside, fun _ _ => fillEnds_of_not_mem outside⟩,
    fun inside visible fresh => ?_⟩
  obtain ⟨area, done, nodup, mem⟩ := fill_eq char inside fresh
  refine ⟨_, area, done, fun _ _ => fillEnds_of_eq_ok visible fresh done, ⟨nodup, mem⟩,
    ⟨g.width_overwrite area char, g.height_overwrite area char⟩, fun c => ?_⟩
  rw [get_overwrite]
  refine if_congr ⟨And.left, fun found => ⟨found, ?_⟩⟩ rfl rfl
  exact mem_of_areas_reachable inside ((mem c).1 found)

def cove : Grid :=
  ⟨4, 3, #[' ', ' ', '*', ' ', '*', ' ', '*', taken, '*', ' ', ' ', '*'], rfl⟩

def coveArea : Area where
  interior := [⟨0, 0⟩, ⟨1, 0⟩, ⟨1, 1⟩, ⟨1, 2⟩, ⟨2, 2⟩]
  rim := ⟨[⟨0, 1⟩, ⟨2, 0⟩, ⟨2, 1⟩, ⟨0, 2⟩, ⟨3, 2⟩], by decide⟩

theorem fill_floods_area_cove :
    ((⟨4, 0⟩ : Cell) ∉ cove ∧ cove.fill ⟨4, 0⟩ '*' = .error (.seedOutside ⟨4, 0⟩)) ∧
      (⟨0, 0⟩ : Cell) ∈ cove ∧ cove.get ⟨0, 0⟩ ≠ Glyph.outside ∧ cove.get ⟨0, 0⟩ ≠ '*' ∧
      cove.fill ⟨0, 0⟩ '*'
        = .ok (cove.overwrite coveArea.interior '*', coveArea.interior) ∧
      (∀ answer left, FillEnds cove ⟨0, 0⟩ '*' answer left ↔
        answer = .ok coveArea.interior ∧ left = cove.overwrite coveArea.interior '*') ∧
      ∀ c, c ∈ coveArea.interior ↔ cove.areas.Reachable ⟨0, 0⟩ c := by
  have outside : (⟨4, 0⟩ : Cell) ∉ cove := by decide
  have inside : (⟨0, 0⟩ : Cell) ∈ cove := by decide
  have visible : cove.get ⟨0, 0⟩ ≠ Glyph.outside := by decide
  have fresh : cove.get ⟨0, 0⟩ ≠ '*' := by decide
  have here : cove.fill ⟨0, 0⟩ '*'
      = .ok (cove.overwrite coveArea.interior '*', coveArea.interior) := by decide +kernel
  obtain ⟨filled, area, done, ends, ⟨-, mem⟩, -⟩ :=
    (fill_floods_area cove ⟨0, 0⟩ '*').2 inside visible fresh
  cases here.symm.trans done
  exact ⟨⟨outside, ((fill_floods_area cove ⟨4, 0⟩ '*').1 outside).1⟩, inside, visible, fresh, here,
    ends, mem⟩

/-- Beside a cell of an area, those that hold its character belong to it, and no others. -/
theorem areas_reachable_beside_iff (reach : g.areas.Reachable seed c) (near : n ∈ c.orthogonal)
    (inside : c ∈ g) (there : n ∈ g) : g.areas.Reachable seed n ↔ g.get n = g.get seed := by
  refine ⟨get_of_areas_reachable, fun same => reach.trans (SimpleGraph.Adj.reachable ?_)⟩
  exact areas_adj.2 ⟨⟨inside, there⟩, near, (get_of_areas_reachable reach).trans same.symm⟩

/-- An enclosed area is marked cell by cell, and its rim is what holds the edge character beside it.
Only the marks change the grid, and the seed's own character takes them off again. -/
theorem enclose_marks_area {g : Grid} {seed : Cell} {edge : Char} (inside : seed ∈ g)
    (fresh : g.get seed ≠ taken) (visible : g.get seed ≠ Glyph.outside) (apart : edge ≠ taken)
    (shown : edge ≠ Glyph.outside) :
    ∃ marked area, g.enclose seed edge = .ok (marked, area) ∧
      (∀ answer left, EncloseEnds g seed edge answer left ↔ answer = .ok area ∧ left = marked) ∧
      (area.interior.Nodup ∧ ∀ c, c ∈ area.interior ↔ g.areas.Reachable seed c) ∧
      (∀ n, n ∈ area.rim ↔ (n ∈ g ∧ g.get n = edge) ∧ n ∉ area.interior ∧
        ∃ c ∈ area.interior, n ∈ c.orthogonal) ∧
      (g.get seed = edge → area.rim = CellSet.empty) ∧
      ((marked.width = g.width ∧ marked.height = g.height) ∧
        (∀ c, marked.get c ≠ g.get c ↔ c ∈ area.interior) ∧
        ∀ c ∈ area.interior, marked.get c = taken) ∧
      marked.overwrite area.interior (g.get seed) = g := by
  obtain ⟨area, done, nodup, mem, rim⟩ := enclose_eq edge inside fresh apart shown
  -- The interior is the area of the seed, and all of it held the seed's character.
  have held (c : Cell) (found : c ∈ area.interior) : c ∈ g ∧ g.get c = g.get seed :=
    ⟨mem_of_areas_reachable inside ((mem c).1 found), get_of_areas_reachable ((mem c).1 found)⟩
  have marks (c : Cell) (found : c ∈ area.interior) :
      (g.overwrite area.interior taken).get c = taken := by
    rw [get_overwrite, if_pos ⟨found, (held c found).1⟩]
  refine ⟨_, area, done, fun _ _ => encloseEnds_of_eq_ok visible fresh done, ⟨nodup, mem⟩,
    fun n => ?_, fun own => ?_, ⟨⟨by simp, by simp⟩, fun c => ⟨fun changed => ?_, fun found => ?_⟩,
    marks⟩, overwrite_overwrite fun c found => (held c found).2⟩
  · rw [rim]
    constructor
    · rintro ⟨c, reach, near, other, same⟩
      have there : n ∈ g := mem_of_get_ne_outside (same ▸ shown)
      exact ⟨⟨there, same⟩, fun found => other (held n found).2, c, (mem c).2 reach, near⟩
    · rintro ⟨⟨there, same⟩, apart, c, found, near⟩
      have reach := (mem c).1 found
      refine ⟨c, reach, near, fun own => apart ((mem n).2 ?_), same⟩
      exact (areas_reachable_beside_iff reach near (held c found).1 there).2 own
  · refine CellSet.ext (List.eq_nil_iff_forall_not_mem.2 fun n beside => ?_)
    obtain ⟨c, -, -, other, same⟩ := (rim n).1 beside
    exact other (same.trans own.symm)
  · by_contra new
    exact changed (by rw [get_overwrite, if_neg fun both => new both.1])
  · rw [marks c found, (held c found).2]
    exact fresh.symm

def coveMarked : Grid :=
  ⟨4, 3, #[taken, taken, '*', ' ', '*', taken, '*', taken, '*', taken, taken, '*'], rfl⟩

theorem enclose_marks_area_cove :
    ((⟨0, 0⟩ : Cell) ∈ cove ∧ cove.get ⟨0, 0⟩ ≠ taken ∧ cove.get ⟨0, 0⟩ ≠ Glyph.outside ∧
        '*' ≠ taken ∧ '*' ≠ Glyph.outside) ∧
      cove.enclose ⟨0, 0⟩ '*' = .ok (coveMarked, coveArea) ∧
      (∀ answer left, EncloseEnds cove ⟨0, 0⟩ '*' answer left ↔
        answer = .ok coveArea ∧ left = coveMarked) ∧
      (∀ c, c ∈ coveArea.interior ↔ cove.areas.Reachable ⟨0, 0⟩ c) ∧
      (∀ n, n ∈ coveArea.rim ↔ (n ∈ cove ∧ cove.get n = '*') ∧ n ∉ coveArea.interior ∧
        ∃ c ∈ coveArea.interior, n ∈ c.orthogonal) ∧
      coveMarked.overwrite coveArea.interior ' ' = cove := by
  have inside : (⟨0, 0⟩ : Cell) ∈ cove := by decide
  have fresh : cove.get ⟨0, 0⟩ ≠ taken := by decide
  have visible : cove.get ⟨0, 0⟩ ≠ Glyph.outside := by decide
  have apart : '*' ≠ taken := by decide
  have shown : '*' ≠ Glyph.outside := by decide
  have here : cove.enclose ⟨0, 0⟩ '*' = .ok (coveMarked, coveArea) := by
    with_unfolding_all rfl
  obtain ⟨marked, area, done, ends, ⟨-, mem⟩, rim, -, -, back⟩ :=
    enclose_marks_area inside fresh visible apart shown
  cases here.symm.trans done
  exact ⟨⟨inside, fresh, visible, apart, shown⟩, here, ends, mem, rim, back⟩

end Linework.Grid
