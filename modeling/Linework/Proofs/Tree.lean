import Linework.Proofs.Joint
import Mathlib.Combinatorics.SimpleGraph.Metric

/-! Networks of lines that connect all their cells and have no loop.

No cell of such a tree can be reached from a root by two ways, and a cell as far from the root as
there is one is joined to a single other.
-/

set_option autoImplicit false

namespace Linework

theorem CellSet.exists_ne {s : CellSet} (large : 2 ≤ s.size) (c : Cell) : ∃ n ∈ s, n ≠ c := by
  by_contra only
  have inside : s.toList ⊆ [c] := fun n mem => by
    rw [List.mem_singleton]
    by_contra apart
    exact only ⟨n, mem, apart⟩
  have length := (List.subperm_of_subset s.nodup inside).length_le
  rw [CellSet.size] at large
  rw [List.length_singleton] at length
  omega

namespace Grid

structure Tree (g : Grid) (s : CellSet) : Prop where
  connected : ∀ a ∈ s, ∀ b ∈ s, g.web.Reachable a b
  acyclic : g.web.IsAcyclic

variable {g : Grid} {s : CellSet} {root c a b : Cell}

/-- Without a loop, no two neighbors of a cell are linked past it. -/
theorem eq_of_linked (acyclic : g.web.IsAcyclic) (first : g.web.Walk root a)
    (second : g.web.Walk root b) (past : c ∉ first.support) (past' : c ∉ second.support)
    (toA : g.web.Adj c a) (toB : g.web.Adj c b) : a = b := by
  let walk := first.reverse.append second
  have clear : c ∉ walk.support := by
    rw [SimpleGraph.Walk.mem_support_append_iff, SimpleGraph.Walk.support_reverse,
      List.mem_reverse]
    exact fun met => met.elim past past'
  -- From `c` to `b` there are the single step and the path by way of `a`.
  have around : (SimpleGraph.Walk.cons toA walk.bypass).IsPath :=
    (SimpleGraph.Walk.cons_isPath_iff _ _).2
      ⟨walk.bypass_isPath, fun met => clear (walk.support_bypass_subset_support met)⟩
  have same := (acyclic.subsingleton_path c b).elim ⟨_, around⟩ (SimpleGraph.Path.singleton toB)
  have length := congrArg (fun path => path.val.length) same
  simp only [SimpleGraph.Walk.length_cons, SimpleGraph.Path.singleton_coe,
    SimpleGraph.Walk.length_nil] at length
  exact SimpleGraph.Walk.eq_of_length_eq_zero (Nat.succ.inj length)

theorem acyclic_of_rank (rank : Cell → Nat)
    (single : ∀ c a b, g.web.Adj c a → g.web.Adj c b → rank a ≤ rank c → rank b ≤ rank c → a = b) :
    g.web.IsAcyclic := by
  intro v cycle isCycle
  obtain ⟨c, mem, top⟩ := cycle.support.toFinset.exists_max_image rank
    ⟨v, List.mem_toFinset.2 cycle.start_mem_support⟩
  rw [List.mem_toFinset] at mem
  have turned := isCycle.rotate mem
  have below (n : Cell) (met : n ∈ (cycle.rotate c mem).support) : rank n ≤ rank c :=
    top n (List.mem_toFinset.2 ((cycle.mem_support_rotate_iff c mem).1 met))
  have onward := SimpleGraph.Walk.adj_snd turned.not_nil
  have back := SimpleGraph.Walk.adj_penultimate turned.not_nil
  exact turned.snd_ne_penultimate (single c _ _ onward back.symm
    (below _ (SimpleGraph.Walk.getVert_mem_support _ _))
    (below _ (SimpleGraph.Walk.getVert_mem_support _ _)))

namespace Tree

/-- Where every cell but one has a way to lower rank, and no cell has two, lines form a tree. -/
theorem of_rank (rank : Cell → Nat) (root : Cell) (stays : ∀ {c n}, g.web.Adj c n → n ∈ s)
    (back : ∀ c ∈ s.toList, c = root ∨ ∃ d ∈ g.joints c, rank (c.step d) < rank c)
    (single : ∀ c ∈ s.toList, ∀ d ∈ g.joints c, ∀ e ∈ g.joints c,
      rank (c.step d) ≤ rank c → rank (c.step e) ≤ rank c → d = e) : g.Tree s := by
  have toRoot (c : Cell) (mem : c ∈ s) : g.web.Reachable c root := by
    induction level : rank c using Nat.strong_induction_on generalizing c with
    | _ level ih =>
      rcases back c mem with rfl | ⟨d, joint, less⟩
      · rfl
      · have adj : g.web.Adj c (c.step d) := adj_step.2 joint
        exact adj.reachable.trans (ih _ (level ▸ less) _ (stays adj) rfl)
  refine ⟨fun a memA b memB => (toRoot a memA).trans (toRoot b memB).symm,
    acyclic_of_rank rank fun c a b toA toB belowA belowB => ?_⟩
  have mem : c ∈ s := stays toA.symm
  obtain ⟨d, jointD, rfl⟩ := toA
  obtain ⟨e, jointE, rfl⟩ := toB
  rw [single c mem d jointD e jointE belowA belowB]

theorem joints_ne_nil (tree : g.Tree s) (large : 2 ≤ s.size) (mem : c ∈ s) : g.joints c ≠ [] := by
  obtain ⟨n, member, apart⟩ := CellSet.exists_ne large c
  obtain ⟨walk⟩ := tree.connected c mem n member
  cases walk with
  | nil => exact absurd rfl apart
  | cons adj rest =>
    obtain ⟨d, joint, -⟩ := adj
    exact List.ne_nil_of_mem joint

/-- A cell as far as possible from another is an end of the tree: a way on would lead back. -/
theorem exists_end (tree : g.Tree s) (leads : g.Leads s) (large : 2 ≤ s.size) :
    ∃ c ∈ s, (g.joints c).length = 1 := by
  obtain ⟨root, start, -⟩ := CellSet.exists_ne large ⟨0, 0⟩
  obtain ⟨c, mem, far⟩ := s.toList.toFinset.exists_max_image (g.web.dist root)
    ⟨root, List.mem_toFinset.2 start⟩
  rw [List.mem_toFinset] at mem
  -- A shortest walk to a neighbor that passed `c` would put the neighbor farther than `c`.
  have past (n : Cell) (adj : g.web.Adj c n) : ∃ walk : g.web.Walk root n, c ∉ walk.support := by
    have reached := leads.stays adj
    obtain ⟨walk, short⟩ := (tree.connected root start n reached).exists_walk_length_eq_dist
    refine ⟨walk, fun met => ?_⟩
    have before := walk.length_takeUntil_lt_length met adj.ne
    have most := far n (List.mem_toFinset.2 reached)
    have least := SimpleGraph.dist_le (walk.takeUntil c met)
    omega
  refine ⟨c, mem, ?_⟩
  have joined := List.length_pos_iff.2 (tree.joints_ne_nil large mem)
  obtain ⟨d, others, joints⟩ := List.exists_cons_of_length_pos joined
  cases others with
  | nil => rw [joints]; rfl
  | cons e others =>
    have toD : g.web.Adj c (c.step d) := adj_step.2 (by simp [joints])
    have toE : g.web.Adj c (c.step e) := adj_step.2 (by simp [joints])
    obtain ⟨first, clear⟩ := past _ toD
    obtain ⟨second, clear'⟩ := past _ toE
    -- With a second neighbor there were two ways back to the root.
    have same := eq_of_linked tree.acyclic first second clear clear' toD toE
    have nodup := nodup_joints g c
    rw [joints, Cell.step_injective c same] at nodup
    simp at nodup

end Tree

structure Clear (g : Grid) (s : CellSet) : Prop where
  level : ∀ c ∈ s, Glyph.isHorizontal (g.get c) → ∀ d ∈ Axis.horizontal.arms, c.step d ∈ s →
    ¬ Glyph.isVertical (g.get (c.step d))
  upright : ∀ c ∈ s, Glyph.isVertical (g.get c) → ∀ d ∈ Axis.vertical.arms, c.step d ∈ s →
    ¬ Glyph.isHorizontal (g.get (c.step d))

instance (g : Grid) (s : CellSet) : Decidable (g.Clear s) :=
  decidable_of_iff
    ((∀ c ∈ s.toList, Glyph.isHorizontal (g.get c) → ∀ d ∈ Axis.horizontal.arms, c.step d ∈ s →
        ¬ Glyph.isVertical (g.get (c.step d)))
      ∧ ∀ c ∈ s.toList, Glyph.isVertical (g.get c) → ∀ d ∈ Axis.vertical.arms, c.step d ∈ s →
        ¬ Glyph.isHorizontal (g.get (c.step d)))
    ⟨fun both => ⟨both.1, both.2⟩, fun clear => ⟨clear.level, clear.upright⟩⟩

theorem Tree.leads (tree : (g.isolate s).Tree s) (drawn : g.Draws s) (clear : g.Clear s)
    (large : 2 ≤ s.size) : (g.isolate s).Leads s := by
  refine drawn.leads (fun c mem => tree.joints_ne_nil large mem) fun c mem line d runs there => ?_
  have plain := drawn.plain _ there
  obtain ⟨a, line⟩ := line?_of_isLine line
  have arm : d ∈ a.arms := by
    rwa [runs_of_line? line, List.contains_iff_mem] at runs
  cases a with
  | horizontal =>
    have level := (Window.line?_horizontal line).1
    rw [center_window] at level
    have across := Glyph.runsHorizontally_of_isPlain plain (clear.level c mem level d arm there)
    simp only [Axis.arms, List.mem_cons, List.not_mem_nil, or_false] at arm
    rcases arm with rfl | rfl <;> exact across
  | vertical =>
    have upright := (Window.line?_vertical line).2
    rw [center_window] at upright
    have across := Glyph.runsVertically_of_isPlain plain (clear.upright c mem upright d arm there)
    simp only [Axis.arms, List.mem_cons, List.not_mem_nil, or_false] at arm
    rcases arm with rfl | rfl <;> exact across

end Grid

end Linework
