import Linework.Outline
import Linework.Proofs.Joint
import Linework.Proofs.Region
import Mathlib.Data.List.Cycle

/-! The walk around a ring.

In a ring every cell is joined to two others, so a walk that does not turn back cannot meet a cell
for the second time before it is at its start again, and then there is no cell it has not met.
-/

set_option autoImplicit false

namespace Linework

namespace Grid

structure Ring (g : Grid) (s : CellSet) : Prop where
  nonempty : ∃ c, c ∈ s
  connected : ∀ a ∈ s, ∀ b ∈ s, g.web.Reachable a b
  joined : ∀ c ∈ s, (g.joints c).length = 2

structure Tour (g : Grid) (s : CellSet) (tour : List Cell) : Prop where
  nodup : tour.Nodup
  mem : ∀ c, c ∈ tour ↔ c ∈ s
  chain : Cycle.Chain g.web.Adj tour

variable {g : Grid} {s : CellSet} {c n start previous current : Cell}

theorem reachable_of_isChain {lines : SimpleGraph Cell} {cells : List Cell}
    (chain : (c :: cells).IsChain lines.Adj) (mem : n ∈ c :: cells) : lines.Reachable c n := by
  induction cells generalizing c with
  | nil =>
    obtain rfl := List.mem_singleton.1 mem
    rfl
  | cons next rest ih =>
    obtain ⟨adj, chain⟩ := List.isChain_cons_cons.1 chain
    rcases List.mem_cons.1 mem with rfl | mem
    · rfl
    · exact adj.reachable.trans (ih chain mem)

theorem eq_or_eq_of_adj {a b : Cell} (two : (g.joints c).length = 2) (toA : g.web.Adj c a)
    (toB : g.web.Adj c b) (differ : a ≠ b) (toN : g.web.Adj c n) : n = a ∨ n = b := by
  obtain ⟨d, atD, rfl⟩ := toA
  obtain ⟨e, atE, rfl⟩ := toB
  obtain ⟨f, atF, rfl⟩ := toN
  obtain ⟨x, y, joints⟩ := List.length_eq_two.1 two
  have apart : d ≠ e := fun same => differ (by rw [same])
  rw [joints] at atD atE atF
  simp only [List.mem_cons, List.not_mem_nil, or_false] at atD atE atF
  rcases atF with rfl | rfl
  · rcases atD with rfl | rfl
    · exact .inl rfl
    · exact .inr (by rw [atE.resolve_right (Ne.symm apart)])
  · rcases atD with rfl | rfl
    · exact .inr (by rw [atE.resolve_left (Ne.symm apart)])
    · exact .inl rfl

theorem eq_or_eq_of_isChain {before after : List Cell} {a b : Cell}
    (nodup : (before ++ a :: c :: b :: after).Nodup)
    (chain : (before ++ a :: c :: b :: after).IsChain g.web.Adj)
    (two : (g.joints c).length = 2) (adj : g.web.Adj c n) : n = a ∨ n = b := by
  have upper := (List.isChain_append_cons_cons.1 chain).2
  have toB : g.web.Adj c b := (List.isChain_cons_cons.1 upper.2).1
  have differ : a ≠ b := by
    rintro rfl
    simp [List.nodup_append] at nodup
  exact eq_or_eq_of_adj two upper.1.symm toB differ adj

/-- A walk under way in a set: it has passed `walked`, latest first, after its start, and goes on
to `current`. -/
structure Passing (g : Grid) (s : CellSet) (start : Cell) (walked : List Cell)
    (previous current : Cell) : Prop where
  latest : (walked ++ [start]).head? = some previous
  inside : ∀ c ∈ walked ++ [start], c ∈ s
  nodup : (walked ++ [start]).Nodup
  chain : (walked ++ [start]).IsChain g.web.Adj
  adj : g.web.Adj previous current
  forward : ∀ back ∈ (walked ++ [start]).tail.head?, current ≠ back

namespace Passing

variable {walked : List Cell}

/-- Before the walk is back, it comes to cells it has not met: the cells it has passed have their
two neighbors on its path, and it has not just left `current`. -/
theorem not_mem_walked (p : g.Passing s start walked previous current)
    (joined : ∀ c ∈ s, (g.joints c).length = 2) : current ∉ walked := by
  intro met
  obtain ⟨before, after, split⟩ := List.append_of_mem met
  have two := joined current (p.inside current (List.mem_append_left _ met))
  obtain ⟨latest, -, nodup, chain, adj, forward⟩ := p
  rcases List.eq_nil_or_concat' before with rfl | ⟨before, a, rfl⟩
  · have same : current = previous := by simpa [split] using latest
    exact g.web.loopless.irrefl _ (same ▸ adj)
  · obtain ⟨b, rest, onward⟩ : ∃ b rest, after ++ [start] = b :: rest := by
      cases after with
      | nil => exact ⟨start, [], rfl⟩
      | cons b rest => exact ⟨b, rest ++ [start], rfl⟩
    have path : walked ++ [start] = before ++ a :: current :: b :: rest := by
      rw [split, ← onward]
      simp
    rw [path] at latest nodup chain forward
    -- So `previous` is one of the neighbors on the path, which holds it at its front alone.
    rcases eq_or_eq_of_isChain nodup chain two adj.symm with rfl | rfl
    · cases before with
      | nil => exact forward current (by simp) rfl
      | cons x before =>
        have same : x = previous := by simpa using latest
        simp [same] at nodup
    · cases before with
      | nil =>
        have same : a = previous := by simpa using latest
        simp [same] at nodup
      | cons x before =>
        have same : x = previous := by simpa using latest
        simp [same] at nodup

/-- A walk that is back has gone around: every cell it has met has two neighbors on its path, so
no neighbor is left over. -/
theorem closed_of_return (p : g.Passing s start walked previous start)
    (joined : ∀ c ∈ s, (g.joints c).length = 2) (met : c ∈ walked ++ [start])
    (adj : g.web.Adj c n) : n ∈ walked ++ [start] := by
  obtain ⟨a, b, metA, metB, toA, toB, differ⟩ : ∃ a b, a ∈ walked ++ [start] ∧
      b ∈ walked ++ [start] ∧ g.web.Adj c a ∧ g.web.Adj c b ∧ a ≠ b := by
    obtain ⟨before, after, split⟩ := List.append_of_mem met
    have last : start ∈ walked ++ [start] := by simp
    obtain ⟨latest, -, nodup, chain, back, forward⟩ := p
    rw [split] at nodup chain latest last forward ⊢
    -- The latest cell has the start ahead, the start the latest cell behind it.
    rcases List.eq_nil_or_concat' before with rfl | ⟨before, a, rfl⟩
    · obtain rfl : c = previous := by simpa using latest
      cases after with
      | nil =>
        obtain rfl : start = c := by simpa using last
        exact absurd back (g.web.loopless.irrefl _)
      | cons second rest =>
        have next := (List.isChain_cons_cons.1 chain).1
        exact ⟨second, start, by simp, last, next, back, (forward second (by simp)).symm⟩
    · cases after with
      | nil =>
        obtain rfl : c = start := by
          simpa using (congrArg List.getLast? split).symm
        have next : g.web.Adj a c := by
          rw [List.append_assoc] at chain
          exact (List.isChain_append_cons_cons.1 chain).2.1
        refine ⟨a, previous, by simp, List.mem_of_mem_head? latest, next.symm, back.symm, ?_⟩
        rintro rfl
        cases before with
        | nil => exact forward c (by simp) rfl
        | cons x before =>
          obtain rfl : x = a := by simpa using latest
          simp at nodup
      | cons b rest =>
        rw [List.append_assoc] at chain
        have upper := (List.isChain_append_cons_cons.1 chain).2
        have differ : a ≠ b := by
          rintro rfl
          simp [List.nodup_append] at nodup
        exact ⟨a, b, by simp, by simp, upper.1.symm, (List.isChain_cons_cons.1 upper.2).1, differ⟩
  rcases eq_or_eq_of_adj (joined c (p.inside c met)) toA toB differ adj with rfl | rfl
  · exact metA
  · exact metB

theorem step {next : Cell} (p : g.Passing s start walked previous current)
    (joined : ∀ c ∈ s, (g.joints c).length = 2) (inside : current ∈ s) (away : current ≠ start)
    (adj : g.web.Adj current next) (onward : next ≠ previous) :
    g.Passing s start (current :: walked) current next where
  latest := rfl
  inside := by
    rw [List.cons_append]
    exact List.forall_mem_cons.2 ⟨inside, p.inside⟩
  -- A cell passed has both its joints used up, so the walk comes upon no such cell again.
  nodup := by
    rw [List.cons_append, List.nodup_cons]
    refine ⟨fun met => ?_, p.nodup⟩
    rcases List.mem_append.1 met with met | met
    · exact p.not_mem_walked joined met
    · exact away (List.mem_singleton.1 met)
  chain := by
    rw [List.cons_append, List.isChain_cons]
    refine ⟨fun c latest => ?_, p.chain⟩
    obtain rfl : previous = c := Option.some.inj (p.latest.symm.trans latest)
    exact p.adj.symm
  adj := adj
  forward := by
    intro back latest
    obtain rfl : previous = back := Option.some.inj (p.latest.symm.trans latest)
    exact onward

/-- A walk that is back has met all of a ring. -/
theorem tour (p : g.Passing s start walked previous start) (ring : g.Ring s) :
    g.Tour s (start :: walked.reverse) where
  nodup := by
    have nodup := List.nodup_reverse.2 p.nodup
    simpa using nodup
  mem c := by
    have same : c ∈ start :: walked.reverse ↔ c ∈ walked ++ [start] := by simp [or_comm]
    rw [same]
    refine ⟨p.inside c, fun mem => ?_⟩
    have atStart : start ∈ walked ++ [start] := by simp
    exact mem_of_reachable (fun _ _ met adj => p.closed_of_return ring.joined met adj)
      (ring.connected start (p.inside _ atStart) c mem) atStart
  chain := by
    have around : (start :: (walked ++ [start])).IsChain g.web.Adj := by
      rw [List.isChain_cons]
      refine ⟨fun c latest => ?_, p.chain⟩
      obtain rfl : previous = c := Option.some.inj (p.latest.symm.trans latest)
      exact p.adj.symm
    have back : (start :: (walked.reverse ++ [start])).IsChain fun a b => g.web.Adj b a := by
      have reversed := around
      rw [← List.reverse_reverse (start :: (walked ++ [start])), List.isChain_reverse] at reversed
      simpa using reversed
    exact (Cycle.chain_coe_cons _ _ _).2 (back.imp fun _ _ adj => adj.symm)

end Passing

namespace Ring

theorem of_isChain {rest : List Cell} (mem : ∀ c, c ∈ s ↔ c ∈ start :: rest)
    (chain : (start :: rest).IsChain g.web.Adj)
    (joined : ∀ c ∈ start :: rest, (g.joints c).length = 2) : g.Ring s where
  nonempty := ⟨start, (mem start).2 (List.mem_cons_self ..)⟩
  connected a memA b memB :=
    (reachable_of_isChain chain ((mem a).1 memA)).symm.trans
      (reachable_of_isChain chain ((mem b).1 memB))
  joined c member := joined c ((mem c).1 member)

/-- A walk around a ring closes before it may be given up, and has then met every cell once. -/
theorem walkFrom_eq (ring : g.Ring s) (leads : g.Leads s) {limit : Nat} {walked : List Cell}
    (p : g.Passing s start walked previous current) (patient : s.size ≤ limit + walked.length) :
    ∃ rest, Circuit.walkFrom g start limit previous current walked = .ok (.closed rest) ∧
      g.Tour s (start :: rest) := by
  induction limit generalizing walked previous current with
  | zero =>
    -- The cells passed are distinct cells of the set, so there are not more of them.
    have fits : (walked ++ [start]).length ≤ s.toList.length :=
      (List.subperm_of_subset p.nodup p.inside).length_le
    simp only [CellSet.size, List.length_append, List.length_singleton] at patient fits
    omega
  | succ limit ih =>
    have currentMem := leads.stays p.adj
    by_cases back : current = start
    · subst back
      exact ⟨walked.reverse, by rw [Circuit.walkFrom, if_pos rfl], p.tour ring⟩
    · obtain ⟨next, followed, count, -, mem⟩ := leads.follow_some currentMem p.adj.symm
      rw [ring.joined current currentMem] at count
      obtain ⟨onward, rfl⟩ := List.length_eq_one_iff.1 (Nat.succ.inj count)
      have ahead := (mem onward).1 (List.mem_singleton_self _)
      rw [Circuit.walkFrom, if_neg back, followed]
      refine ih (p.step ring.joined currentMem back ahead.1 ahead.2) ?_
      rw [List.length_cons]
      omega

theorem walk_eq (ring : g.Ring s) (leads : g.Leads s) (inside : start ∈ s) :
    ∃ rest, Circuit.walk g start (Outline.patience s) = .ok (.closed rest) ∧
      g.Tour s (start :: rest) := by
  obtain ⟨next, followed, count, -, mem⟩ := leads.follow_none inside
  rw [ring.joined start inside] at count
  obtain ⟨first, others, rfl⟩ := List.exists_cons_of_length_eq_add_one count
  rw [Circuit.walk, followed]
  refine walkFrom_eq ring leads ⟨rfl, ?_, ?_, ?_, ?_, ?_⟩ ?_
  · simpa using inside
  · exact List.nodup_singleton _
  · exact List.isChain_singleton _
  · exact (mem first).1 (List.mem_cons_self ..)
  · simp
  · rw [Outline.patience, List.length_nil]
    omega

theorem leads (ring : (g.isolate s).Ring s) (drawn : g.Draws s) : (g.isolate s).Leads s := by
  have joined : ∀ c ∈ s, (g.isolate s).joints c ≠ [] := by
    intro c mem bare
    have two := ring.joined c mem
    simp [bare] at two
  have plain := drawn.plain_isolate joined
  refine drawn.leads joined fun c mem line d runs there => ?_
  rw [← drawn.get_isolate mem] at line runs
  obtain ⟨a, line⟩ := line?_of_isLine line
  have all : ((g.isolate s).joints c).Perm a.arms := by
    refine (List.subperm_of_subset (nodup_joints _ c) fun e joint => ?_).perm_of_length_le ?_
    · have runs := (plain.mem_joints_iff.1 joint).1
      rwa [runs_of_line? line, List.contains_iff_mem] at runs
    · rw [ring.joined c mem]
      cases a <;> decide
  rw [runs_of_line? line, List.contains_iff_mem, ← all.mem_iff] at runs
  rw [← drawn.get_isolate there]
  exact (plain.mem_joints_iff.1 runs).2

end Ring

end Grid

end Linework
