import Linework.Proofs.Runs

/-! The runs into which an outline is taken apart, as chains of cells.

A run does not know the set it is walked through. It stays inside because lines among the cells of a
set alone go on to cells of the set, and it ends because it takes no cell twice. So it needs no more
steps than there are cells.
-/

set_option autoImplicit false

namespace Linework.Outline

open Grid

variable {g alone : Grid} {s piece : CellSet} {start current next c : Cell} {fresh passed : List Cell}
  {previous : Option Cell} {limit : Nat} {run : Run}

/-- A run that knows only the cells it has passed. It is given up after `limit` steps. -/
def runWithin (alone : Grid) (limit : Nat) (passed : List Cell) (previous : Option Cell)
    (current : Cell) : Except Grid.Fault (Option Run) :=
  match limit with
  | 0 => .ok none
  | limit + 1 =>
    match alone.follow current previous with
    | .error fault => .error fault
    | .ok [next] =>
      if next ∈ passed then .ok (some ⟨passed, none⟩)
      else
        match alone.follow next (some current) with
        | .error fault => .error fault
        | .ok onward =>
          if onward.length > 1 then .ok (some ⟨passed, none⟩)
          else if alone.isLineEnd next then .ok (some ⟨next :: passed, some next⟩)
          else runWithin alone limit (next :: passed) (some current) next
    | .ok _ => .ok (some ⟨passed, none⟩)

/-- A run may take as many steps as there are cells left, and one more: then it makes no difference that
it does not know which these are. -/
theorem runWithin_eq (split : s.toList.Perm (passed ++ fresh)) (enough : fresh.length ≤ limit) :
    runWithin (g.isolate s) (limit + 1) passed previous current
      = (extendRun (g.isolate s) s fresh passed previous current).map some := by
  have new {n : Cell} {fresh passed : List Cell} (split : s.toList.Perm (passed ++ fresh))
      (left : n ∈ fresh) : n ∉ passed := fun old =>
    (List.nodup_append.1 (split.nodup_iff.1 s.nodup)).2.2 n old n left rfl
  -- The limit stays ahead of the cells not passed; each case is one step of both walks.
  fun_induction extendRun (g.isolate s) s fresh passed previous current generalizing limit with
  | case1 fresh passed previous current fault failed => simp [runWithin, failed, Except.map]
  | case2 fresh passed previous current next followed left fault failed =>
    simp [runWithin, followed, new split left, failed, Except.map]
  | case3 fresh passed previous current next followed left onward followed' many =>
    simp [runWithin, followed, new split left, followed', many, Except.map]
  | case4 fresh passed previous current next followed left onward followed' few finish =>
    simp [runWithin, followed, new split left, followed', few, finish, Except.map]
  | case5 fresh passed previous current next followed left onward followed' few goesOn ih =>
    have fewer := CellSet.length_erase_lt left
    obtain ⟨limit, rfl⟩ := Nat.exists_eq_add_one_of_ne_zero (n := limit) (by omega)
    have split' : s.toList.Perm ((next :: passed) ++ fresh.erase next) :=
      split.trans (((List.perm_cons_erase left).append_left passed).trans List.perm_middle)
    rw [runWithin]
    simp only [followed, if_neg (new split left), followed', if_neg few, if_neg goesOn]
    exact ih split' (by omega)
  | case6 fresh passed previous current next followed met inside =>
    have old : next ∈ passed := (List.mem_append.1 (split.mem_iff.1 inside)).resolve_right met
    simp [runWithin, followed, old, Except.map]
  | case7 fresh passed previous current next followed met outside =>
    have goes := ((mem_of_follow followed).1 (List.mem_singleton_self next)).1
    exact absurd goes.mem.2 outside
  | case8 fresh passed previous current onward several followed =>
    simp [runWithin, followed, Except.map]

theorem runWithin_size (mem : start ∈ s) :
    runWithin (g.isolate s) s.size [start] none start
      = (extendRun (g.isolate s) s (s.toList.erase start) [start] none start).map some := by
  have size : s.size = (s.toList.erase start).length + 1 :=
    (List.perm_cons_erase (CellSet.mem_def.1 mem)).length_eq
  rw [size]
  exact runWithin_eq (List.perm_cons_erase (CellSet.mem_def.1 mem)) (Nat.le_refl _)

/-- A run goes along lines, and takes no cell twice, from where it began. -/
theorem chain_of_runWithin (walked : runWithin alone limit passed previous current = .ok (some run))
    (latest : passed.head? = some current) (along : passed.IsChain (flip alone.Goes))
    (clear : passed.Nodup) :
    run.cells.IsChain (flip alone.Goes) ∧ run.cells.Nodup ∧ passed <:+ run.cells := by
  have ahead {n c : Cell} {previous : Option Cell} (followed : alone.follow c previous = .ok [n]) :
      alone.Goes c n := ((mem_of_follow followed).1 (List.mem_singleton_self n)).1
  fun_induction runWithin alone limit passed previous current with
  | case1 => cases walked
  | case2 => cases walked
  | case3 => cases walked; exact ⟨along, clear, List.suffix_rfl⟩
  | case4 => cases walked
  | case5 => cases walked; exact ⟨along, clear, List.suffix_rfl⟩
  | case6 limit passed previous current next followed new onward followed' few finish =>
    cases walked
    exact ⟨(ahead followed).isChain_cons latest along, List.nodup_cons.2 ⟨new, clear⟩,
      List.suffix_cons ..⟩
  | case7 limit passed previous current next followed new onward followed' few goesOn ih =>
    obtain ⟨along', clear', begun⟩ := ih walked rfl ((ahead followed).isChain_cons latest along)
      (List.nodup_cons.2 ⟨new, clear⟩)
    exact ⟨along', clear', (List.suffix_cons ..).trans begun⟩
  | case8 => cases walked; exact ⟨along, clear, List.suffix_rfl⟩

/-- A piece that is all that one run has passed, which began at a line end of the set, came from each
cell to a neighbor of it, and was not given up. -/
structure IsRun (alone : Grid) (s piece : CellSet) : Prop where
  begun : ∃ start run, start ∈ s ∧ alone.isLineEnd start ∧ piece.first? = some start ∧
    runWithin alone s.size [start] none start = .ok (some run) ∧ piece.toList = run.cells.reverse
  chain : piece.toList.IsChain fun a b => b ∈ a.orthogonal

theorem isRun_of_extendRun (mem : start ∈ s) (finish : (g.isolate s).isLineEnd start)
    (extended : extendRun (g.isolate s) s (s.toList.erase start) [start] none start = .ok run) :
    IsRun (g.isolate s) s (.ofList run.cells.reverse) := by
  have walked : runWithin (g.isolate s) s.size [start] none start = .ok (some run) := by
    rw [runWithin_size mem, extended]
    rfl
  obtain ⟨along, clear, begun⟩ := chain_of_runWithin walked rfl (List.isChain_singleton start)
    (List.nodup_singleton start)
  have cells : (CellSet.ofList run.cells.reverse).toList = run.cells.reverse :=
    CellSet.toList_ofList (List.nodup_reverse.2 clear)
  refine ⟨⟨start, run, mem, finish, ?_, walked, cells⟩, ?_⟩
  · obtain ⟨later, split⟩ := begun
    rw [CellSet.first?, cells, ← split]
    simp
  · rw [cells, List.isChain_reverse]
    exact along.imp fun _ _ goes => Cell.mem_orthogonal.2 goes.exists_step

theorem IsRun.isEmpty_eq (isRun : IsRun alone s piece) : piece.isEmpty = false := by
  obtain ⟨start, -, -, -, first, -⟩ := isRun.begun
  exact List.isEmpty_eq_false_iff_exists_mem.2 ⟨start, List.mem_of_mem_head? first⟩

/-- What the runs leave over is a part of its own, if it is anything. -/
theorem exists_rest (whole : CellSet) : ∃ rest : Option CellSet,
    (if whole.isEmpty then [] else [whole]) = rest.toList ∧
      ∀ left, left ∈ rest ↔ left = whole ∧ left.isEmpty = false := by
  cases empty : whole.isEmpty with
  | true =>
    refine ⟨none, rfl, fun left => iff_of_false (by simp) ?_⟩
    rintro ⟨rfl, filled⟩
    cases empty.symm.trans filled
  | false =>
    refine ⟨some whole, rfl, fun left => ?_⟩
    rw [Option.mem_some_iff, eq_comm]
    exact ⟨fun same => ⟨same, same ▸ empty⟩, And.left⟩

theorem runWithin_ne_none (mem : start ∈ s) :
    runWithin (g.isolate s) s.size [start] none start ≠ .ok none := by
  rw [runWithin_size mem]
  intro stopped
  cases extended : extendRun (g.isolate s) s (s.toList.erase start) [start] none start <;>
    rw [extended] at stopped <;> cases stopped

/-- Taking an outline apart loses no cell of it and invents none. Each part is a run from a line end,
along a chain of neighbors; the cells that no run took may be one more part. No run from a line end
takes more steps than there are cells in the set. -/
theorem parts_are_chains {pieces : List CellSet} (taken : parts g s = .ok pieces) :
    (∀ p ∈ pieces, p.isEmpty = false ∧ ∀ c ∈ p, c ∈ s) ∧ (∀ c ∈ s, ∃ p ∈ pieces, c ∈ p) ∧
      (∃ (runs : List CellSet) (rest : Option CellSet), pieces = runs ++ rest.toList ∧
        (∀ r ∈ runs, IsRun (g.isolate s) s r) ∧ ∀ left ∈ rest, ∀ r ∈ runs, ∀ c ∈ left, c ∉ r) ∧
      ∀ start ∈ s, (g.isolate s).isLineEnd start →
        runWithin (g.isolate s) s.size [start] none start ≠ .ok none := by
  obtain ⟨⟨runs, known⟩, walked, split⟩ := exists_runs taken
  obtain ⟨rest, left, mem_rest⟩ := exists_rest (runs.foldl CellSet.diff s)
  have isRun : ∀ r ∈ runs, IsRun (g.isolate s) s r :=
    forall_foldlM_takeRun (fun start mem finish run => isRun_of_extendRun mem finish) (by simp) walked
  rw [left] at split
  have mem_pieces (p : CellSet) : p ∈ pieces ↔ p ∈ runs ∨ p ∈ rest := by
    rw [split, List.mem_append, List.mem_reverse, Option.mem_toList]
    rfl
  refine ⟨fun p mem => ⟨?filled, parts_subset taken mem⟩, fun c mem => ?covered,
    ⟨runs.reverse, rest, split, fun r old => isRun r (List.mem_reverse.1 old), ?apart⟩,
    fun start mem _ => runWithin_ne_none mem⟩
  case filled =>
    rcases (mem_pieces p).1 mem with old | new
    · exact (isRun p old).isEmpty_eq
    · exact ((mem_rest p).1 new).2
  case covered =>
    by_cases passed : ∃ r ∈ runs, c ∈ r
    · obtain ⟨r, old, here⟩ := passed
      exact ⟨r, (mem_pieces r).2 (.inl old), here⟩
    · have spare : c ∈ runs.foldl CellSet.diff s :=
        CellSet.mem_foldl_diff.2 ⟨mem, fun r old here => passed ⟨r, old, here⟩⟩
      have filled := List.isEmpty_eq_false_iff_exists_mem.2 ⟨c, spare⟩
      exact ⟨_, (mem_pieces _).2 (.inr ((mem_rest _).2 ⟨rfl, filled⟩)), spare⟩
  case apart =>
    intro left new r old c here
    rw [((mem_rest left).1 new).1, CellSet.mem_foldl_diff] at here
    exact here.2 r (List.mem_reverse.1 old)

theorem parts_are_chains_handled :
    ∃ pieces, parts handled handled.written = .ok pieces ∧
      (∀ p ∈ pieces, p.isEmpty = false ∧ ∀ c ∈ p, c ∈ handled.written) ∧
      (∀ c ∈ handled.written, ∃ p ∈ pieces, c ∈ p) ∧
      (∃ (runs : List CellSet) (rest : Option CellSet), pieces = runs ++ rest.toList ∧
        (∀ r ∈ runs, IsRun (handled.isolate handled.written) handled.written r) ∧
        ∀ left ∈ rest, ∀ r ∈ runs, ∀ c ∈ left, c ∉ r) ∧
      ∀ start ∈ handled.written, (handled.isolate handled.written).isLineEnd start →
        runWithin (handled.isolate handled.written) handled.written.size [start] none start
          ≠ .ok none := by
  have taken : (parts handled handled.written).isOk := by decide +kernel
  cases found : parts handled handled.written with
  | error fault => rw [found] at taken; cases taken
  | ok pieces => exact ⟨pieces, rfl, parts_are_chains found⟩

end Linework.Outline
