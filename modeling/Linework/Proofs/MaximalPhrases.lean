import Linework.Proofs.Strings
import Mathlib.Data.List.DropRight

/-! What a row says between its gaps.

A phrase begins and ends with a character that is no blank and has no two blanks side by side. The
strings of a drawing are the phrases that are part of no longer one, row by row and from west to
east, without the white space at their ends.
-/

set_option autoImplicit false

namespace Linework

namespace Lettering

def BlankAt (row : List Char) (i : Nat) : Prop := ∃ c ∈ row[i]?, Glyph.isBlank c

def WrittenAt (row : List Char) (i : Nat) : Prop := ∃ c ∈ row[i]?, ¬ Glyph.isBlank c

structure Phrase (row : List Char) (first last : Nat) : Prop where
  begins : WrittenAt row first
  ends : WrittenAt row last
  ordered : first ≤ last
  joined : ∀ i, first ≤ i → i < last → ¬ (BlankAt row i ∧ BlankAt row (i + 1))

structure WholePhrase (row : List Char) (first last : Nat) : Prop extends Phrase row first last where
  whole : ∀ first' last', Phrase row first' last' → first' ≤ first → last ≤ last' →
    first' = first ∧ last' = last

/-- Whether no phrase reaches a place from before it. -/
def Break (row : List Char) (x : Nat) : Prop :=
  ∀ first last, Phrase row first last → first < x → last < x

structure Lists (row : List Char) (low : Nat) (phrases : List (Nat × Nat)) : Prop where
  ordered : phrases.Pairwise fun a b => a.2 < b.1
  mem_iff : ∀ first last, (first, last) ∈ phrases ↔ low ≤ first ∧ WholePhrase row first last

variable {row rest : List Char} {c : Char} {x first last first' last' : Nat}
  {phrases : List (Nat × Nat)}

theorem blankAt_iff (here : row[x]? = some c) : BlankAt row x ↔ Glyph.isBlank c := by
  simp [BlankAt, here]

theorem writtenAt_iff (here : row[x]? = some c) : WrittenAt row x ↔ ¬ Glyph.isBlank c := by
  simp [WrittenAt, here]

theorem WrittenAt.not_blankAt (written : WrittenAt row x) : ¬ BlankAt row x := by
  obtain ⟨c, here, plain⟩ := written
  rwa [blankAt_iff here]

theorem WrittenAt.lt_length (written : WrittenAt row x) : x < row.length := by
  obtain ⟨c, here, -⟩ := written
  exact (List.getElem?_eq_some_iff.1 here).1

namespace Phrase

theorem single (written : WrittenAt row x) : Phrase row x x where
  begins := written
  ends := written
  ordered := Nat.le_refl x
  joined := fun _ from_ below => absurd below (Nat.not_lt.2 from_)

/-- Two phrases that meet make one. -/
theorem glue (one : Phrase row first last) (other : Phrase row first' last')
    (meets : first' ≤ last) : Phrase row first (max last last') where
  begins := one.begins
  ends := by
    rcases Nat.le_total last last' with further | nearer
    · rw [Nat.max_eq_right further]
      exact other.ends
    · rw [Nat.max_eq_left nearer]
      exact one.ends
  ordered := Nat.le_trans one.ordered (Nat.le_max_left ..)
  joined := by
    intro i from_ below
    by_cases inOne : i < last
    · exact one.joined i from_ inOne
    · exact other.joined i (by omega) (by omega)

theorem concat (phrase : Phrase row first last) (written : WrittenAt row x) (later : last < x)
    (near : x ≤ last + 2) : Phrase row first x where
  begins := phrase.begins
  ends := written
  ordered := Nat.le_trans phrase.ordered (Nat.le_of_lt later)
  joined := by
    rintro i from_ below ⟨here, next⟩
    rcases Nat.lt_trichotomy i last with inside | rfl | beyond
    · exact phrase.joined i from_ inside ⟨here, next⟩
    · exact phrase.ends.not_blankAt here
    · obtain rfl : i + 1 = x := by omega
      exact written.not_blankAt next

end Phrase

namespace WholePhrase

theorem of_breaks (phrase : Phrase row first last) (before : Break row first)
    (after : Break row (last + 1)) : WholePhrase row first last where
  toPhrase := phrase
  whole := by
    intro first' last' other upTo from_
    have start : first' = first := by
      by_contra different
      have ended := before first' last' other (by omega)
      have ordered := phrase.ordered
      omega
    have stop := after first' last' other (by have := phrase.ordered; omega)
    omega

theorem break_first (whole : WholePhrase row first last) : Break row first := by
  intro first' last' other before
  by_contra reaches
  have glued := other.glue whole.toPhrase (Nat.not_lt.1 reaches)
  have same := whole.whole first' _ glued (Nat.le_of_lt before) (Nat.le_max_right ..)
  omega

theorem break_last (whole : WholePhrase row first last) : Break row (last + 1) := by
  intro first' last' other upTo
  by_contra beyond
  rcases Nat.lt_or_ge first' first with before | from_
  · have ended := whole.break_first first' last' other before
    have ordered := whole.ordered
    omega
  · have glued := whole.toPhrase.glue other (Nat.le_of_lt_succ upTo)
    have same := whole.whole first _ glued (Nat.le_refl _) (Nat.le_max_left ..)
    omega

theorem eq_or_lt (one : WholePhrase row first last) (other : WholePhrase row first' last')
    (after : first ≤ first') : (first' = first ∧ last' = last) ∨ last < first' := by
  rcases Nat.lt_or_ge last first' with apart | meets
  · exact .inr apart
  · have within := one.break_last first' last' other.toPhrase (Nat.lt_succ_of_le meets)
    have start : first' = first := by
      by_contra different
      have ended := other.break_first first last one.toPhrase (by omega)
      omega
    have ordered := other.ordered
    have stop := other.break_last first last one.toPhrase (by omega)
    exact .inl ⟨start, by omega⟩

end WholePhrase

/-- Every phrase is part of a whole one. -/
theorem Phrase.exists_whole {first last : Nat} (phrase : Phrase row first last) :
    ∃ first' last', WholePhrase row first' last' ∧ first' ≤ first ∧ last ≤ last' := by
  by_cases whole : ∀ first' last', Phrase row first' last' → first' ≤ first → last ≤ last' →
      first' = first ∧ last' = last
  · exact ⟨first, last, ⟨phrase, whole⟩, Nat.le_refl _, Nat.le_refl _⟩
  · push Not at whole
    obtain ⟨first', last', longer, start, stop, different⟩ := whole
    have room := longer.ends.lt_length
    obtain ⟨first'', last'', whole, start', stop'⟩ := longer.exists_whole
    exact ⟨first'', last'', whole, Nat.le_trans start' start, Nat.le_trans stop stop'⟩
termination_by first + (row.length - last)
decreasing_by omega

namespace Break

theorem read (apart : Break row x) (blank : BlankAt row x) : Break row (x + 1) := by
  intro first last phrase upTo
  have before : first ≠ x := by
    rintro rfl
    exact phrase.begins.not_blankAt blank
  have ended := apart first last phrase (by omega)
  omega

theorem of_blanks (blank : BlankAt row x) (next : BlankAt row (x + 1)) : Break row (x + 2) := by
  intro first last phrase upTo
  have before : first ≠ x ∧ first ≠ x + 1 :=
    ⟨fun same => phrase.begins.not_blankAt (same ▸ blank),
      fun same => phrase.begins.not_blankAt (same ▸ next)⟩
  by_contra beyond
  exact phrase.joined x (by omega) (by omega) ⟨blank, next⟩

end Break

namespace Lists

theorem nil (past : row.length ≤ x) : Lists row x [] where
  ordered := List.Pairwise.nil
  mem_iff := by
    refine fun first last => iff_of_false List.not_mem_nil ?_
    rintro ⟨from_, whole⟩
    have room := whole.begins.lt_length
    omega

theorem skip (lists : Lists row (x + 1) phrases) (blank : BlankAt row x) : Lists row x phrases where
  ordered := lists.ordered
  mem_iff := by
    intro first last
    rw [lists.mem_iff]
    refine and_congr_left fun whole => ⟨Nat.le_of_succ_le, fun from_ => ?_⟩
    refine Nat.lt_of_le_of_ne from_ ?_
    rintro rfl
    exact whole.begins.not_blankAt blank

theorem cons (whole : WholePhrase row first last) (later : last < x)
    (gap : ∀ i, last < i → i < x → ¬ WrittenAt row i) (lists : Lists row x phrases) :
    Lists row first ((first, last) :: phrases) where
  ordered := by
    refine List.pairwise_cons.2 ⟨?_, lists.ordered⟩
    rintro ⟨first', last'⟩ mem
    exact Nat.lt_of_lt_of_le later ((lists.mem_iff ..).1 mem).1
  mem_iff := by
    intro first' last'
    rw [List.mem_cons, Prod.mk.injEq, lists.mem_iff]
    constructor
    · rintro (⟨rfl, rfl⟩ | ⟨from_, other⟩)
      · exact ⟨Nat.le_refl _, whole⟩
      · exact ⟨by have := whole.ordered; omega, other⟩
    · rintro ⟨from_, other⟩
      refine (whole.eq_or_lt other from_).imp_right fun apart => ⟨?_, other⟩
      by_contra within
      exact gap first' apart (Nat.not_le.1 within) other.begins

end Lists

/-- What is known of a row when it is read up to a place: the run at hand is a phrase that nothing
before it belongs to, perhaps with a blank that came after it. -/
inductive Pending (row : List Char) (x : Nat) : Option (Nat × List Char) → Bool → Prop where
  | between {afterBlank : Bool} (apart : Break row x) : Pending row x none afterBlank
  | within {start last : Nat} {text : List Char} {afterBlank : Bool} (begun : Break row start)
      (taken : text.reverse = row.extract start x) (phrase : Phrase row start last)
      (next : if afterBlank then last + 2 = x ∧ BlankAt row (last + 1) else last + 1 = x) :
      Pending row x (some (start, text)) afterBlank

theorem extract_succ {start : Nat} (here : row[x]? = some c) (from_ : start ≤ x) :
    row.extract start (x + 1) = row.extract start x ++ [c] := by
  have next : (row.drop start)[x - start]? = some c := by
    rw [List.getElem?_drop, Nat.add_sub_cancel' from_, here]
  rw [List.extract_eq_take_drop, List.extract_eq_take_drop, Nat.succ_sub from_, List.take_add_one,
    next]
  rfl

theorem trimEnd_eq (cs : List Char) : Text.trimEnd cs = cs.rdropWhile Text.isSpace := rfl

theorem trimEnd_concat_blank (cs : List Char) (blank : Glyph.isBlank c) :
    Text.trimEnd (cs ++ [c]) = Text.trimEnd cs := by
  obtain rfl : c = Glyph.blank := eq_of_beq blank
  exact List.rdropWhile_concat_pos Text.isSpace cs Glyph.blank (by decide)

namespace Pending

variable {run : Option (Nat × List Char)} {afterBlank : Bool}

theorem write (pending : Pending row x run afterBlank) (here : row[x]? = some c)
    (written : ¬ Glyph.isBlank c) :
    Pending row (x + 1) (some ((run.getD (x, [])).1, c :: (run.getD (x, [])).2)) false := by
  have place := (writtenAt_iff here).2 written
  cases pending with
  | between apart =>
    refine .within apart ?_ (.single place) rfl
    rw [Option.getD_none, extract_succ here (Nat.le_refl x)]
    simp
  | @within start last text _ begun taken phrase next =>
    have near : last < x ∧ x ≤ last + 2 := by
      split at next <;> omega
    have from_ : start ≤ x := Nat.le_trans phrase.ordered (Nat.le_of_lt near.1)
    refine .within begun ?_ (phrase.concat place near.1 near.2) rfl
    rw [Option.getD_some, List.reverse_cons, taken, extract_succ here from_]

theorem pass (pending : Pending row x run false) (here : row[x]? = some c)
    (blank : Glyph.isBlank c) :
    Pending row (x + 1) (run.map fun (start, text) => (start, c :: text)) true := by
  have place := (blankAt_iff here).2 blank
  cases pending with
  | between apart => exact .between (apart.read place)
  | @within start last text _ begun taken phrase next =>
    obtain rfl : last + 1 = x := by simpa using next
    refine .within begun ?_ phrase ⟨rfl, place⟩
    rw [List.reverse_cons, taken, extract_succ here (Nat.le_succ_of_le phrase.ordered)]

theorem break_of_blank (pending : Pending row x run true) (blank : BlankAt row x) :
    Break row (x + 1) := by
  cases pending with
  | between apart => exact apart.read blank
  | within begun taken phrase next =>
    obtain ⟨rfl, before⟩ := next
    exact .of_blanks before blank

/-- A run at hand that is not gone on with is a whole phrase. -/
theorem close {start : Nat} {text : List Char}
    (pending : Pending row x (some (start, text)) afterBlank) (apart : Break row (x + 1))
    (done : ¬ WrittenAt row x) : ∃ last, WholePhrase row start last ∧ last < x ∧
      (∀ i, last < i → i < x + 1 → ¬ WrittenAt row i) ∧
      Text.trimEnd text.reverse = Text.trimEnd (row.extract start (last + 1)) := by
  cases pending with
  | @within _ last _ _ begun taken phrase next =>
    -- The last character written stands one place back, or two where a blank has been read.
    have near : last < x ∧ ∀ i, last < i → i < x + 1 → ¬ WrittenAt row i := by
      split at next
      · obtain ⟨rfl, blank⟩ := next
        refine ⟨by omega, fun i after upTo written => ?_⟩
        obtain rfl | rfl : i = last + 1 ∨ i = last + 2 := by omega
        · exact written.not_blankAt blank
        · exact done written
      · subst next
        refine ⟨by omega, fun i after upTo written => ?_⟩
        obtain rfl : i = last + 1 := by omega
        exact done written
    have stop : Break row (last + 1) := by
      intro first' last' other upTo
      have ended := apart first' last' other (by omega)
      by_contra beyond
      exact near.2 last' (by omega) ended other.ends
    refine ⟨last, .of_breaks phrase begun stop, near.1, near.2, ?_⟩
    split at next
    · obtain ⟨rfl, c, here, blank⟩ := next
      rw [taken, extract_succ here (Nat.le_succ_of_le phrase.ordered),
        trimEnd_concat_blank _ blank]
    · rw [taken, next]

end Pending

/-- What is left of a row is split into the whole phrases from the run at hand on. -/
theorem exists_lists {run : Option (Nat × List Char)} {afterBlank : Bool}
    (left : row.drop x = rest) (pending : Pending row x run afterBlank) :
    ∃ phrases, Lists row ((run.map Prod.fst).getD x) phrases ∧
      (runsFrom x run afterBlank rest).map (fun r => (r.1, Text.trimEnd r.2.reverse))
        = phrases.map fun p => (p.1, Text.trimEnd (row.extract p.1 (p.2 + 1))) := by
  -- By the characters still to come; `pending` says what the run at hand has read.
  induction rest generalizing x run afterBlank with
  | nil =>
    have past : row.length ≤ x := List.drop_eq_nil_iff.1 left
    rw [runsFrom]
    cases run with
    | none => exact ⟨[], .nil past, rfl⟩
    | some run =>
      have done : ¬ WrittenAt row x := fun written => Nat.not_lt.2 past written.lt_length
      have apart : Break row (x + 1) := fun _ last phrase _ =>
        Nat.lt_succ_of_lt (Nat.lt_of_lt_of_le phrase.ends.lt_length past)
      obtain ⟨last, whole, later, gap, same⟩ := pending.close apart done
      refine ⟨[(run.1, last)], .cons whole (Nat.lt_succ_of_lt later) gap (.nil (by omega)), ?_⟩
      simp [same]
  | cons c rest ih =>
    have here : row[x]? = some c := by
      rw [← Nat.add_zero x, ← List.getElem?_drop, left]
      rfl
    have further : row.drop (x + 1) = rest := by
      rw [← List.drop_drop, left]
      rfl
    rw [runsFrom]
    split
    next blank =>
      have place := (blankAt_iff here).2 blank
      split
      next second =>
        subst second
        have apart := pending.break_of_blank place
        obtain ⟨phrases, lists, same⟩ := ih further (.between apart : Pending row (x + 1) none true)
        cases run with
        | none => exact ⟨phrases, lists.skip place, same⟩
        | some run =>
          obtain ⟨last, whole, later, gap, shown⟩ :=
            pending.close apart fun written => written.not_blankAt place
          refine ⟨(run.1, last) :: phrases, .cons whole (Nat.lt_succ_of_lt later) gap lists, ?_⟩
          simp [same, shown]
      next first =>
        obtain rfl := eq_false_of_ne_true first
        obtain ⟨phrases, lists, same⟩ := ih further (pending.pass here blank)
        cases run with
        | none => exact ⟨phrases, lists.skip place, same⟩
        | some run => exact ⟨phrases, lists, same⟩
    next written =>
      obtain ⟨phrases, lists, same⟩ := ih further (pending.write here written)
      cases run with
      | none => exact ⟨phrases, lists, same⟩
      | some run => exact ⟨phrases, lists, same⟩

theorem runs_eq (row : List Char) : ∃ phrases, Lists row 0 phrases ∧
    runs row = phrases.map fun p =>
      (p.1, String.ofList (Text.trimEnd (row.extract p.1 (p.2 + 1)))) := by
  have start : Pending row 0 none false := .between fun _ _ _ below => absurd below (Nat.not_lt_zero _)
  obtain ⟨phrases, lists, same⟩ := exists_lists List.drop_zero start
  refine ⟨phrases, lists, ?_⟩
  have trimmed := congrArg (List.map fun p : Nat × List Char => (p.1, String.ofList p.2)) same
  rw [List.map_map, List.map_map] at trimmed
  rw [runs]
  refine Eq.trans (List.map_congr_left fun r _ => ?_) trimmed
  simp [Text.trimEnd]

/-- Row by row and from west to east, the strings of a drawing are its whole phrases, each at its
first cell and without the white space at its end. -/
theorem strings_are_phrases (g : Grid) : ∃ phrases : Nat → List (Nat × Nat),
    (∀ y, (phrases y).Pairwise (fun a b => a.2 < b.1) ∧
      ∀ first last, (first, last) ∈ phrases y ↔ WholePhrase (g.row y) first last) ∧
    strings g = (List.range g.height).flatMap fun (y : Nat) => (phrases y).map fun p =>
      (⟨p.1, y⟩, String.ofList (Text.trimEnd ((g.row y).extract p.1 (p.2 + 1)))) := by
  choose phrases lists same using fun y => runs_eq (g.row y)
  refine ⟨phrases, fun y => ⟨(lists y).ordered, fun first last => ?_⟩, ?_⟩
  · simpa using (lists y).mem_iff first last
  · rw [strings]
    refine List.flatMap_congr fun y _ => ?_
    rw [same, List.map_map]
    rfl

example : strings ⟨8, 1, #[' ', 'a', ' ', 'b', ' ', ' ', 'c', ' '], rfl⟩
    = [(⟨1, 0⟩, "a b"), (⟨6, 0⟩, "c")] := by decide +kernel

end Lettering

end Linework
