import HexCover.Proofs.Coefficients
import HexCover.Raster.Choice
import Mathlib.Data.Nat.Cast.Order.Basic
import Mathlib.Order.Fin.Basic
import Mathlib.Tactic.Abel
import Mathlib.Tactic.GCongr

/-! The choice of a resolution on exact numbers. Both searches find the coarsest optimum: of
the resolutions with an area that is no larger, or of those with the closest area. A larger
pixel never gets a finer resolution. For the closest area this takes areas that do not grow
from one resolution to the next, and it is an exchange argument: the advantage that a smaller
area has over a larger one can only shrink when the target grows. -/
namespace HexCover.Raster

variable {ε α : Type} [LinearOrder α] {area : Resolution → Except ε α} {table : Resolution → α}
  {target : α} {r s : Resolution}

section FirstNoLarger

/-- The coarsest resolution with an area of at most `target`, or the finest one if there is
none. -/
def IsFirstNoLarger (table : Resolution → α) (target : α) (r : Resolution) : Prop :=
  table r ≤ target ∧ (∀ q < r, target < table q) ∨ r = 15 ∧ ∀ q, target < table q

/-- A larger target is met at the same resolution or before. -/
theorem IsFirstNoLarger.antitone {p q : α} (le : p ≤ q) (hr : IsFirstNoLarger table p r)
    (hs : IsFirstNoLarger table q s) : s ≤ r := by
  by_contra! finer
  rcases hs with ⟨_, first⟩ | ⟨_, beyond⟩
  · rcases hr with ⟨fits, _⟩ | ⟨rfl, _⟩
    · exact absurd (fits.trans le) (first r finer).not_ge
    · exact absurd finer (Fin.le_last s).not_gt
  · rcases hr with ⟨fits, _⟩ | ⟨rfl, _⟩
    · exact absurd (fits.trans le) (beyond r).not_ge
    · exact absurd finer (Fin.le_last s).not_gt

theorem IsFirstNoLarger.unique (hr : IsFirstNoLarger table target r)
    (hs : IsFirstNoLarger table target s) : r = s :=
  le_antisymm (hs.antitone le_rfl hr) (hr.antitone le_rfl hs)

theorem isFirstNoLarger_self (strict : StrictAnti table) (r : Resolution) :
    IsFirstNoLarger table (table r) r := .inl ⟨le_rfl, fun _ less => strict less⟩

theorem exists_firstNoLarger (defined : ∀ r, area r = .ok (table r)) (target : α)
    {rs : List Resolution} (ascending : rs.Pairwise (· < ·)) :
    ∃ r, firstNoLarger area target rs = .ok r ∧
      (table r ≤ target ∧ (∀ q ∈ rs, q < r → target < table q) ∨
        r = 15 ∧ ∀ q ∈ rs, target < table q) := by
  induction rs with
  | nil => exact ⟨15, rfl, .inr ⟨rfl, fun q member => absurd member List.not_mem_nil⟩⟩
  | cons r rs ih =>
    obtain ⟨finer, ascending⟩ := List.pairwise_cons.mp ascending
    rw [firstNoLarger, defined]
    by_cases fits : table r ≤ target
    · refine ⟨r, if_pos fits, .inl ⟨fits, fun q member less => ?_⟩⟩
      rcases List.mem_cons.mp member with rfl | later
      · exact absurd less (lt_irrefl q)
      · exact absurd (finer q later) less.asymm
    · have larger := not_le.mp fits
      obtain ⟨s, run, found⟩ := ih ascending
      refine ⟨s, (if_neg fits).trans run, ?_⟩
      simp only [List.forall_mem_cons]
      exact found.imp (fun ⟨below, first⟩ => ⟨below, fun _ => larger, first⟩)
        fun ⟨finest, beyond⟩ => ⟨finest, larger, beyond⟩

theorem firstNoLarger_isFirstNoLarger (defined : ∀ r, area r = .ok (table r)) (target : α) :
    ∃ r, firstNoLarger area target Resolution.all = .ok r ∧ IsFirstNoLarger table target r := by
  obtain ⟨r, run, found⟩ := exists_firstNoLarger defined target (List.pairwise_lt_finRange 16)
  refine ⟨r, run, found.imp ?_ ?_⟩
  · rintro ⟨fits, first⟩
    exact ⟨fits, fun q => first q (List.mem_finRange q)⟩
  · rintro ⟨finest, beyond⟩
    exact ⟨finest, fun q => beyond q (List.mem_finRange q)⟩

end FirstNoLarger

section Scan

variable [Scalar α] {difference : Resolution → α}

/-- What the scan holds after some resolutions: the first of them with the least difference. -/
structure BestOf (difference : Resolution → α) (seen : List Resolution) (c : Candidate α) :
    Prop where
  member : c.resolution ∈ seen
  value : c.difference = difference c.resolution
  least : ∀ q ∈ seen, c.difference ≤ difference q
  coarsest : ∀ q ∈ seen, q < c.resolution → c.difference < difference q

omit [Scalar α] in
theorem bestOf_singleton (difference : Resolution → α) (r : Resolution) :
    BestOf difference [r] ⟨r, difference r⟩ := by
  refine ⟨List.mem_singleton_self r, rfl, fun q member => ?_, fun q member less => ?_⟩
  · rw [List.mem_singleton.mp member]
  · exact absurd (List.mem_singleton.mp member) less.ne

/-- One step of the scan: only a smaller difference replaces the candidate. -/
theorem BestOf.step {seen : List Resolution} {c : Candidate α}
    (best : BestOf difference seen c) (finer : ∀ q ∈ seen, q < r) :
    ∃ c', closer (some c) r (difference r) = some c' ∧
      BestOf difference (seen ++ [r]) c' := by
  by_cases smaller : difference r < c.difference
  · refine ⟨⟨r, difference r⟩, if_pos smaller, by simp, rfl, ?_, ?_⟩
    · intro q member
      rcases List.mem_append.mp member with earlier | here
      · exact (smaller.trans_le (best.least q earlier)).le
      · rw [List.mem_singleton.mp here]
    · intro q member less
      rcases List.mem_append.mp member with earlier | here
      · exact smaller.trans_le (best.least q earlier)
      · exact absurd (List.mem_singleton.mp here) less.ne
  · have kept := not_lt.mp smaller
    refine ⟨c, if_neg smaller, List.mem_append_left _ best.member, best.value, ?_, ?_⟩
    · intro q member
      rcases List.mem_append.mp member with earlier | here
      · exact best.least q earlier
      · rwa [List.mem_singleton.mp here]
    · intro q member less
      rcases List.mem_append.mp member with earlier | here
      · exact best.coarsest q earlier less
      · rw [List.mem_singleton.mp here] at less
        exact absurd (finer _ best.member) less.asymm

/-- The rest of the scan, over resolutions that are finer and finer. -/
theorem BestOf.scan {seen rest : List Resolution} {c : Candidate α}
    (best : BestOf difference seen c) (ascending : (seen ++ rest).Pairwise (· < ·)) :
    ∃ c', rest.foldl (fun best r => closer best r (difference r)) (some c) = some c' ∧
      BestOf difference (seen ++ rest) c' := by
  induction rest generalizing seen c with
  | nil => exact ⟨c, rfl, (List.append_nil seen).symm ▸ best⟩
  | cons r rest ih =>
    have finer : ∀ q ∈ seen, q < r := by
      intro q member
      exact (List.pairwise_append.mp ascending).2.2 q member r List.mem_cons_self
    obtain ⟨c', next, best'⟩ := best.step finer
    rw [List.append_cons] at ascending ⊢
    rw [List.foldl_cons, next]
    exact ih best' ascending

end Scan

section Closest

variable [AddCommGroup α]

/-- The coarsest resolution with the area closest to `target`. -/
structure IsClosest (table : Resolution → α) (target : α) (r : Resolution) : Prop where
  least : ∀ q, |table r - target| ≤ |table q - target|
  coarsest : ∀ q < r, |table r - target| < |table q - target|

theorem IsClosest.unique (hr : IsClosest table target r) (hs : IsClosest table target s) :
    r = s := by
  rcases lt_trichotomy r s with less | same | greater
  · exact absurd (hr.least s) (hs.coarsest r less).not_ge
  · exact same
  · exact absurd (hs.least r) (hr.coarsest s greater).not_ge

section Search

variable [Scalar α] (defined : ∀ r, area r = .ok (table r))
include defined

theorem closestResolution_eq_foldl : closestResolution area target =
    .ok (((Resolution.all.foldl
      (fun best r => closer best r (Scalar.abs (table r - target))) none).map
        Candidate.resolution).getD 0) := by
  have scan : Resolution.all.foldlM (fun best r => do
      return closer best r (Scalar.abs ((← area r) - target))) (none : Option (Candidate α)) =
      (pure (Resolution.all.foldl
        (fun best r => closer best r (Scalar.abs (table r - target))) none) : Except ε _) := by
    rw [← List.foldlM_pure]
    congr
    funext best r
    rw [defined]
    rfl
  rw [closestResolution, scan]
  rfl

theorem closestResolution_isClosest [Exact α] (target : α) :
    ∃ r, closestResolution area target = .ok r ∧ IsClosest table target r := by
  have start : closer none 0 |table 0 - target| = some ⟨0, |table 0 - target|⟩ :=
    if_pos (Exact.isFinite_eq _)
  have ascending : Resolution.all.Pairwise (· < ·) := List.pairwise_lt_finRange 16
  obtain ⟨rest, all⟩ : ∃ rest, Resolution.all = 0 :: rest := ⟨_, List.finRange_succ⟩
  have every (q : Resolution) : q ∈ [0] ++ rest := by
    rw [List.singleton_append, ← all]
    exact List.mem_finRange q
  rw [all] at ascending
  obtain ⟨c, run, best⟩ := (bestOf_singleton (fun r => |table r - target|) 0).scan ascending
  rw [closestResolution_eq_foldl defined]
  simp only [Exact.abs_eq, all, List.foldl_cons, start, run]
  refine ⟨c.resolution, rfl, fun q => ?_, fun q less => ?_⟩
  · rw [← best.value]
    exact best.least q (every q)
  · rw [← best.value]
    exact best.coarsest q (every q) less

end Search

variable [IsOrderedAddMonoid α]

/-- The larger of two targets paired with the larger of two areas are as close as the other
way round, or closer. -/
theorem abs_sub_add_abs_sub_le {a b p q : α} (areas : b ≤ a) (targets : p ≤ q) :
    |a - q| + |b - p| ≤ |a - p| + |b - q| := by
  rcases le_total q a with le | le
  · have detour : |b - p| ≤ |b - q| + (q - p) := by
      rw [← abs_of_nonneg (sub_nonneg.mpr targets)]
      exact abs_sub_le b q p
    calc |a - q| + |b - p| ≤ (a - q) + (|b - q| + (q - p)) := by
          rw [abs_of_nonneg (sub_nonneg.mpr le)]
          gcongr
      _ = (a - p) + |b - q| := by abel
      _ ≤ |a - p| + |b - q| := by
          gcongr
          exact le_abs_self _
  · have detour : |b - p| ≤ (a - b) + |a - p| := by
      rw [← abs_of_nonneg (sub_nonneg.mpr areas), abs_sub_comm a b]
      exact abs_sub_le b a p
    calc |a - q| + |b - p| ≤ (q - a) + ((a - b) + |a - p|) := by
          rw [abs_sub_comm, abs_of_nonneg (sub_nonneg.mpr le)]
          gcongr
      _ = |a - p| + (q - b) := by abel
      _ ≤ |a - p| + |b - q| := by
          gcongr
          rw [abs_sub_comm]
          exact le_abs_self _

/-- With areas that do not grow, a larger target is closest at the same resolution or before.
Otherwise the smaller area would win for the larger target, and not for the smaller one. -/
theorem IsClosest.antitone (shrinking : Antitone table) {p q : α} (le : p ≤ q)
    (hr : IsClosest table p r) (hs : IsClosest table q s) : s ≤ r := by
  by_contra! finer
  have gain : |table s - q| < |table r - q| := hs.coarsest r finer
  have start : |table r - p| ≤ |table s - p| := hr.least s
  have exchange := abs_sub_add_abs_sub_le (shrinking finer.le) le
  rw [add_comm] at exchange
  exact absurd exchange (add_lt_add_of_le_of_lt start gain).not_ge

theorem isClosest_self (strict : StrictAnti table) (r : Resolution) :
    IsClosest table (table r) r where
  least q := by
    rw [sub_self, abs_zero]
    exact abs_nonneg _
  coarsest q less := by
    rw [sub_self, abs_zero]
    exact abs_pos.mpr (sub_pos.mpr (strict less)).ne'

variable [Scalar α] [Exact α]

/-- The choice is defined and optimal for every target. The larger of two targets never gets
the finer resolution, whatever the areas are when the first that is no larger is taken, and
for areas that do not grow when the closest is taken. With areas that shrink, both choose a
resolution for its own area. -/
theorem selectResolution_optimal (defined : ∀ r, area r = .ok (table r)) :
    (∀ p, ∃ r, selectResolution area .noLarger p = .ok r ∧ IsFirstNoLarger table p r) ∧
    (∀ p, ∃ r, selectResolution area .closest p = .ok r ∧ IsClosest table p r) ∧
    (∀ p q r s, p ≤ q → selectResolution area .noLarger p = .ok r →
      selectResolution area .noLarger q = .ok s → s ≤ r) ∧
    (Antitone table → ∀ p q r s, p ≤ q → selectResolution area .closest p = .ok r →
      selectResolution area .closest q = .ok s → s ≤ r) ∧
    (StrictAnti table → ∀ mode r, selectResolution area mode (table r) = .ok r) := by
  have first := firstNoLarger_isFirstNoLarger defined
  have closest := closestResolution_isClosest defined
  refine ⟨first, closest, ?_, ?_, ?_⟩
  · intro p q r s le left right
    obtain ⟨r', run, hr⟩ := first p
    obtain ⟨s', run', hs⟩ := first q
    obtain rfl := Except.ok.inj (run.symm.trans left)
    obtain rfl := Except.ok.inj (run'.symm.trans right)
    exact hr.antitone le hs
  · intro shrinking p q r s le left right
    obtain ⟨r', run, hr⟩ := closest p
    obtain ⟨s', run', hs⟩ := closest q
    obtain rfl := Except.ok.inj (run.symm.trans left)
    obtain rfl := Except.ok.inj (run'.symm.trans right)
    exact hr.antitone shrinking le hs
  · intro strict mode r
    cases mode with
    | noLarger =>
      obtain ⟨s, run, hs⟩ := first (table r)
      rw [selectResolution, run, hs.unique (isFirstNoLarger_self strict r)]
    | closest =>
      obtain ⟨s, run, hs⟩ := closest (table r)
      rw [selectResolution, run, hs.unique (isClosest_self strict r)]

end Closest

/-- Areas 16, 15, and so on down to 1. -/
def downward (r : Resolution) : ℚ := 16 - r.val

theorem strictAnti_downward : StrictAnti downward := by
  intro r s less
  have numbers : (r.val : ℚ) < s.val := Nat.cast_lt.mpr less
  exact sub_lt_sub_left numbers 16

/-- Midway between two areas the coarser resolution is the closest. -/
theorem selectResolution_optimal_midway :
    let area : Resolution → Except ConversionError ℚ := fun r => .ok (downward r)
    (∀ r, area r = .ok (downward r)) ∧ StrictAnti downward ∧
      selectResolution area .closest (5 / 2) = .ok 13 ∧
      selectResolution area .noLarger (5 / 2) = .ok 14 ∧
      selectResolution area .closest (downward 13) = .ok 13 := by
  intro area
  have defined (r : Resolution) : area r = .ok (downward r) := rfl
  obtain ⟨first, closest, _, _, own⟩ := selectResolution_optimal defined
  obtain ⟨r, run, hr⟩ := closest (5 / 2)
  obtain ⟨s, run', hs⟩ := first (5 / 2)
  have midway : IsClosest downward (5 / 2) 13 := ⟨by decide +kernel, by decide +kernel⟩
  have below : IsFirstNoLarger downward (5 / 2) 14 :=
    .inl ⟨by decide +kernel, by decide +kernel⟩
  refine ⟨defined, strictAnti_downward, ?_, ?_, own strictAnti_downward .closest 13⟩
  · rw [run, hr.unique midway]
  · rw [run', hs.unique below]

end HexCover.Raster
