import Linework.Proofs.Rectangle

/-! Rulings: the lines of a table in one direction.

Lines are told by the widths of the fields between them, so they come in order, and there is room
between any two.
-/

set_option autoImplicit false

namespace Linework

/-- The lines of a table in one direction, told by the widths of the fields between them and of the
margins on either hand. -/
structure Ruling where
  before : Nat
  fields : List Nat
  after : Nat
  margins : 0 < before ∧ 0 < after
  some : fields ≠ []
  wide : ∀ field ∈ fields, 0 < field

namespace Ruling

def count (r : Ruling) : Nat := r.fields.length

def size (r : Ruling) : Nat := r.before + r.fields.sum + r.fields.length + 1 + r.after

def line (r : Ruling) (i : Nat) : Int := r.before + (r.fields.take i).sum + i

def Spans (r : Ruling) (x : Int) : Prop := r.line 0 ≤ x ∧ x ≤ r.line r.count

def Rules (r : Ruling) (x : Int) : Prop := ∃ i < r.count + 1, r.line i = x

instance (r : Ruling) : DecidablePred r.Spans := fun _ => inferInstanceAs (Decidable (_ ∧ _))

instance (r : Ruling) : DecidablePred r.Rules := fun _ => Nat.decidableExistsLT _

variable {r : Ruling} {i j : Nat} {x : Int}

theorem count_pos (r : Ruling) : 0 < r.count := List.length_pos_iff.2 r.some

theorem line_succ (bound : i < r.count) : r.line i + 2 ≤ r.line (i + 1) := by
  have field : 0 < r.fields[i] := r.wide _ (List.getElem_mem bound)
  have sum : (r.fields.take (i + 1)).sum = (r.fields.take i).sum + r.fields[i] := by
    rw [List.take_add_one, List.getElem?_eq_getElem bound, List.sum_append]
    simp
  simp only [line, sum]
  omega

theorem line_lt (less : i < j) (bound : j ≤ r.count) : r.line i + 2 ≤ r.line j := by
  induction j, less using Nat.le_induction with
  | base => exact line_succ bound
  | succ j less ih =>
    have next := line_succ (r := r) (i := j) bound
    have before := ih (by omega)
    omega

theorem line_le (le : i ≤ j) (bound : j ≤ r.count) : r.line i ≤ r.line j := by
  rcases Nat.lt_or_eq_of_le le with less | rfl
  · have apart := line_lt less bound
    omega
  · exact Int.le_refl _

theorem line_inj (bound : i ≤ r.count) (bound' : j ≤ r.count) (same : r.line i = r.line j) :
    i = j := by
  rcases Nat.lt_trichotomy i j with less | here | more
  · have apart := line_lt less bound'
    omega
  · exact here
  · have apart := line_lt more bound
    omega

theorem first_pos (r : Ruling) : 1 ≤ r.line 0 := by
  have margin := r.margins.1
  simp only [line, List.take_zero, List.sum_nil]
  omega

theorem last_lt (r : Ruling) : r.line r.count + 2 ≤ r.size := by
  have margin := r.margins.2
  simp only [line, size, count, List.take_length]
  omega

theorem first_lt_last (r : Ruling) : r.line 0 + 2 ≤ r.line r.count :=
  line_lt r.count_pos (Nat.le_refl _)

theorem Spans.bounds (spans : r.Spans x) : 1 ≤ x ∧ x + 2 ≤ r.size := by
  have first := r.first_pos
  have last := r.last_lt
  simp only [Spans] at spans
  omega

theorem rules_line (bound : i ≤ r.count) : r.Rules (r.line i) := ⟨i, Nat.lt_succ_of_le bound, rfl⟩

theorem Rules.spans (rules : r.Rules x) : r.Spans x := by
  obtain ⟨i, bound, rfl⟩ := rules
  exact ⟨line_le (Nat.zero_le i) (Nat.le_of_lt_succ bound),
    line_le (Nat.le_of_lt_succ bound) (Nat.le_refl _)⟩

theorem Rules.not_between (rules : r.Rules x) (bound : i < r.count) :
    ¬ (r.line i < x ∧ x < r.line (i + 1)) := by
  obtain ⟨k, most, rfl⟩ := rules
  rintro ⟨past, before⟩
  rcases Nat.lt_or_ge i k with less | le
  · have order := line_le (r := r) (i := i + 1) (j := k) less (by omega)
    omega
  · have order := line_le (r := r) le (Nat.le_of_lt bound)
    omega

/-- Every place before a line lies in a field, or on the line that begins it. -/
theorem exists_between (least : r.line 0 ≤ x) (most : x < r.line j) :
    ∃ i < j, r.line i ≤ x ∧ x < r.line (i + 1) := by
  induction j with
  | zero => omega
  | succ j ih =>
    by_cases here : r.line j ≤ x
    · exact ⟨j, Nat.lt_succ_self j, here, most⟩
    · obtain ⟨i, bound, found⟩ := ih (by omega)
      exact ⟨i, Nat.lt_succ_of_lt bound, found⟩

theorem Spans.exists_field (spans : r.Spans x) :
    ∃ i < r.count, r.line i ≤ x ∧ x ≤ r.line (i + 1) := by
  rcases Int.lt_or_eq_of_le spans.2 with before | last
  · obtain ⟨i, bound, found⟩ := exists_between spans.1 before
    exact ⟨i, bound, found.1, Int.le_of_lt found.2⟩
  · have some := r.count_pos
    have place : r.count - 1 + 1 = r.count := by omega
    refine ⟨r.count - 1, by omega, ?_, by rw [place, last]⟩
    rw [last]
    exact line_le (Nat.sub_le ..) (Nat.le_refl _)

theorem Spans.exists_inside (spans : r.Spans x) (clear : ¬ r.Rules x) :
    ∃ i < r.count, r.line i < x ∧ x < r.line (i + 1) := by
  obtain ⟨i, bound, least, most⟩ := spans.exists_field
  have first : r.line i ≠ x := fun same => clear (same ▸ rules_line (Nat.le_of_lt bound))
  have last : r.line (i + 1) ≠ x := fun same => clear (same ▸ rules_line bound)
  exact ⟨i, bound, by omega, by omega⟩

theorem count_eq_one (bound : i < r.count) (least : r.line i ≤ r.line 0)
    (most : r.line r.count ≤ r.line (i + 1)) : r.count = 1 := by
  by_contra more
  rcases Nat.eq_zero_or_pos i with rfl | later
  · have apart := line_lt (r := r) (i := 0 + 1) (j := r.count) (by omega) (Nat.le_refl _)
    omega
  · have apart := line_lt (r := r) later (Nat.le_of_lt bound)
    omega

theorem Spans.step (spans : r.Spans x) : r.Spans (x + 1) ∨ r.Spans (x + -1) := by
  have room := r.first_lt_last
  simp only [Spans] at *
  omega

theorem Spans.both (spans : r.Spans x) (clear : ¬ r.Rules x) :
    r.Spans (x + 1) ∧ r.Spans (x + -1) := by
  have first : x ≠ r.line 0 := fun same => clear (same ▸ rules_line (Nat.zero_le _))
  have last : x ≠ r.line r.count := fun same => clear (same ▸ rules_line (Nat.le_refl _))
  simp only [Spans] at *
  omega

/-! ### On a canvas -/

def fine (r : Ruling) : Ruling where
  before := 3 * r.before + 1
  fields := r.fields.map fun field => 3 * field + 2
  after := 3 * r.after + 1
  margins := ⟨Nat.succ_pos _, Nat.succ_pos _⟩
  some := mt List.map_eq_nil_iff.1 r.some
  wide := by simp

@[simp] theorem count_fine (r : Ruling) : r.fine.count = r.count := List.length_map ..

theorem sum_map_fine (fields : List Nat) :
    (fields.map fun field => 3 * field + 2).sum = 3 * fields.sum + 2 * fields.length := by
  induction fields with
  | nil => rfl
  | cons field rest ih =>
    simp only [List.map_cons, List.sum_cons, List.length_cons, ih]
    omega

theorem size_fine (r : Ruling) : r.fine.size = 3 * r.size := by
  simp only [size, fine, sum_map_fine, List.length_map]
  omega

theorem line_fine (bound : i ≤ r.count) : r.fine.line i = r.line i * 3 + 1 := by
  simp only [line, fine, ← List.map_take, sum_map_fine, List.length_take_of_le bound]
  omega

variable {dx : Int}

theorem rules_fine (near : -1 ≤ dx ∧ dx ≤ 1) :
    r.fine.Rules (x * 3 + 1 + dx) ↔ dx = 0 ∧ r.Rules x := by
  rw [Rules, count_fine]
  constructor
  · rintro ⟨i, bound, same⟩
    rw [line_fine (Nat.le_of_lt_succ bound)] at same
    exact ⟨by omega, i, bound, by omega⟩
  · rintro ⟨rfl, i, bound, rfl⟩
    exact ⟨i, bound, by rw [line_fine (Nat.le_of_lt_succ bound)]; omega⟩

theorem spans_fine (near : -1 ≤ dx ∧ dx ≤ 1) :
    r.fine.Spans (x * 3 + 1 + dx) ↔ r.Spans x ∧ r.Spans (x + dx) := by
  simp only [Spans, count_fine, line_fine (Nat.zero_le _), line_fine (Nat.le_refl _)]
  omega

end Ruling

end Linework
