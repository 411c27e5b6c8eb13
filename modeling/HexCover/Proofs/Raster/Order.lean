import HexCover.Proofs.Binary.Value
import HexCover.Proofs.Raster.Nodata

/-! The order of values. Numbers of a binary format are ordered as their ranks are, and what is
not a number comes last. So values are ordered as their keys are: the order is total, and the
values that it does not tell apart are the ones that are grouped together. -/
namespace HexCover

namespace Binary

/-- Signs and magnitudes are compared alike when the magnitudes are enlarged strictly. -/
theorem signedUnits_le_iff {enlarge : Nat → Nat} (increasing : StrictMono enlarge)
    (zero : enlarge 0 = 0) (s t : Bool) (m n : Nat) :
    signedUnits s (enlarge m) ≤ signedUnits t (enlarge n) ↔ signedUnits s m ≤ signedUnits t n := by
  have least {k : Nat} : enlarge k = 0 ↔ k = 0 := increasing.injective.eq_iff' zero
  have le := increasing.le_iff_le (a := m) (b := n)
  have ge := increasing.le_iff_le (a := n) (b := m)
  have left := least (k := m)
  have right := least (k := n)
  cases s <;> cases t <;> simp only [signedUnits, Bool.false_eq_true, if_true, if_false] <;> omega

namespace Format

variable {f : Format} {a b : Nat}

theorem rank_le_infinity (number : f.isNaN a = false) : f.rank a ≤ f.infinity := by
  have bounds := f.rank_bounds a
  have other : f.rank a ≠ f.infinity + 1 := fun top => by
    rw [rank_eq_top_iff, number] at top
    contradiction
  omega

/-- One number is at least another one exactly if its rank is. -/
theorem atLeast_iff_rank_le (proper : 0 < f.infinity) (first : f.isNaN a = false)
    (second : f.isNaN b = false) : f.atLeast a b = true ↔ f.rank b ≤ f.rank a := by
  have above := of_decide_eq_false first
  have above' := of_decide_eq_false second
  rw [rank_of_not_isNaN first, rank_of_not_isNaN second, atLeast, read_of_not_isNaN first,
    read_of_not_isNaN second]
  generalize f.isNegative a = s at *
  generalize f.isNegative b = t at *
  -- what is infinite is told by its sign, and its magnitude is above those of all numbers
  by_cases left : f.magnitude a = f.infinity <;> by_cases right : f.magnitude b = f.infinity
  · cases s <;> cases t <;> simp [left, right, signedUnits]; omega
  · cases s <;> cases t <;> simp [left, right, signedUnits] <;> omega
  · cases s <;> cases t <;> simp [left, right, signedUnits] <;> omega
  · simp [left, right, signedUnits_le_iff f.units_strictMono f.units_zero]

theorem isNaN_or_atLeast_iff (proper : 0 < f.infinity) :
    (f.isNaN a || f.atLeast a b) = true ↔ f.rank b ≤ f.rank a := by
  rw [Bool.or_eq_true]
  cases first : f.isNaN a with
  | true =>
    have bounds := f.rank_bounds b
    rw [rank_of_isNaN first]
    simp [bounds]
  | false =>
    cases second : f.isNaN b with
    | false => simp [atLeast_iff_rank_le proper first second]
    | true =>
      have below := rank_le_infinity first
      rw [rank_of_isNaN second, atLeast, read_of_isNaN second]
      cases f.read a <;> simp <;> omega

/-- Numbers are ordered as their ranks are. -/
theorem order_eq_compare (proper : 0 < f.infinity) (a b : Nat) :
    f.order a b = compare (f.rank a) (f.rank b) := by
  have first := isNaN_or_atLeast_iff proper (a := a) (b := b)
  have second := isNaN_or_atLeast_iff proper (a := b) (b := a)
  rcases lt_trichotomy (f.rank a) (f.rank b) with less | same | greater
  · rw [compare_lt_iff_lt.mpr less]
    simp [order, first.not.mpr less.not_ge]
  · rw [compare_eq_iff_eq.mpr same, order, first.mpr same.ge, second.mpr same.le]
    rfl
  · rw [compare_gt_iff_gt.mpr greater, order, first.mpr greater.le]
    simp [second.not.mpr greater.not_ge]

theorem order_of_isNaN (proper : 0 < f.infinity) (nan : f.isNaN b = true) :
    f.order a b = if f.isNaN a then .eq else .lt := by
  rw [order_eq_compare proper, rank_of_isNaN nan]
  cases other : f.isNaN a with
  | true => rw [rank_of_isNaN other, if_pos rfl, compare_eq_iff_eq]
  | false =>
    have below := rank_le_infinity other
    rw [if_neg Bool.false_ne_true, compare_lt_iff_lt]
    omega

theorem order_of_infinite (finite : f.isFinite a = true) (infinite : f.magnitude b = f.infinity) :
    f.order a b = if f.isNegative b then .gt else .lt := by
  have below := of_decide_eq_true finite
  have first : f.isNaN a = false := decide_eq_false (by omega)
  have second : f.isNaN b = false := decide_eq_false (by omega)
  rw [order_eq_compare (by omega), rank_of_not_isNaN first, rank_of_not_isNaN second, infinite]
  cases f.isNegative a <;> cases f.isNegative b <;>
    simp only [signedUnits, if_true, if_false, Bool.false_eq_true, compare_lt_iff_lt,
      compare_gt_iff_gt] <;> omega

theorem value?_le_iff_rank_le (formed : f.WellFormed) {x y : ℚ} (first : f.value? a = some x)
    (second : f.value? b = some y) : x ≤ y ↔ f.rank a ≤ f.rank b := by
  have below := lt_infinity_of_value? formed first
  have below' := lt_infinity_of_value? formed second
  obtain ⟨s, m, pattern, rfl⟩ := (value?_eq_some_iff formed).mp first
  obtain ⟨t, n, pattern', rfl⟩ := (value?_eq_some_iff formed).mp second
  obtain ⟨_, rfl, rfl⟩ := read_eq_finite_iff.mp pattern
  obtain ⟨_, rfl, rfl⟩ := read_eq_finite_iff.mp pattern'
  rw [mul_le_mul_iff_left₀ f.unit_pos, Int.cast_le,
    signedUnits_le_iff f.units_strictMono f.units_zero,
    rank_of_not_isNaN (decide_eq_false (by omega)), rank_of_not_isNaN (decide_eq_false (by omega))]

/-- Patterns that stand for numbers are ordered as these numbers are. -/
theorem order_of_value? (formed : f.WellFormed) {x y : ℚ} (first : f.value? a = some x)
    (second : f.value? b = some y) : f.order a b = compare x y := by
  have proper : 0 < f.infinity := Nat.zero_lt_of_lt (lt_infinity_of_value? formed first)
  have le := value?_le_iff_rank_le formed first second
  have ge := value?_le_iff_rank_le formed second first
  rw [order_eq_compare proper]
  rcases lt_trichotomy x y with less | same | greater
  · rw [compare_lt_iff_lt.mpr less, compare_lt_iff_lt, ← not_le, ← ge, not_le]
    exact less
  · rw [compare_eq_iff_eq.mpr same, compare_eq_iff_eq]
    exact le_antisymm (le.mp same.le) (ge.mp same.ge)
  · rw [compare_gt_iff_gt.mpr greater, compare_gt_iff_gt, ← not_le, ← le, not_le]
    exact greater

end Format

end Binary

namespace Raster

namespace Value

variable {v w : Value}

/-- Values of one type are ordered as their ranks are, and values of different types by type. -/
theorem compare_eq_compare_key (v w : Value) : compare v w = compare v.key w.key := by
  obtain ⟨t, p⟩ := v
  obtain ⟨t', p'⟩ := w
  change order _ _ = (compare t.place t'.place).then (compare p.key.rank p'.key.rank)
  by_cases same : t = t'
  · subst same
    simp only [order, number, Std.ReflCmp.compare_self, Ordering.then, Pixel.key, Pixel.number]
    cases encoding : t.encoding with
    | signed => rfl
    | unsigned => rfl
    | binary f => exact Binary.Format.order_eq_compare (ElementType.infinity_pos encoding) _ _
  · have apart : compare t.place t'.place ≠ .eq := fun equal =>
      same (ElementType.place_injective (Std.LawfulEqOrd.eq_of_compare equal))
    simp only [order]
    cases places : compare t.place t'.place with
    | eq => exact absurd places apart
    | lt => rfl
    | gt => rfl

/-- Values are the same exactly if they have one key. -/
theorem same_iff_key_eq : v.same w = true ↔ v.key = w.key := by
  obtain ⟨t, p⟩ := v
  obtain ⟨t', p'⟩ := w
  by_cases types : t = t'
  · subst types
    simp only [same, number, key, Pixel.key_eq_iff]
    cases encoding : t.encoding with
    | signed => simp [Pixel.number, encoding, BitVec.toInt_inj]
    | unsigned => simp [Pixel.number, encoding, BitVec.toNat_inj]
    | binary f =>
      have proper := ElementType.infinity_pos encoding
      simp only [Pixel.number, encoding, decide_true, Bool.true_and]
      split
      · rename_i nan
        rw [Binary.Format.rank_of_isNaN nan, eq_comm (a := _ + 1), Binary.Format.rank_eq_top_iff]
      · rename_i number
        rw [Bool.not_eq_true] at number
        exact Binary.Format.equal_iff_rank_eq proper (.inl number)
  · simp [same, key, Pixel.key, types]

instance : Std.TransOrd Value := by
  have keys : (compare : Value → Value → Ordering) = compareOn key :=
    funext₂ compare_eq_compare_key
  unfold Std.TransOrd
  rw [keys]
  infer_instance

/-- The order tells apart what is grouped apart. -/
theorem compare_eq_iff_same : compare v w = .eq ↔ v.same w = true := by
  rw [same_iff_key_eq, compare_eq_compare_key]
  exact Std.LawfulEqOrd.compare_eq_iff_eq

theorem compare_of_place_lt (less : v.type.place < w.type.place) : compare v w = .lt :=
  (compare_eq_compare_key v w).trans (Ordering.then_eq_lt.mpr (.inl (compare_lt_iff_lt.mpr less)))

section Alike

variable {t : ElementType} {p q : Pixel t}

theorem compare_of_integer {m n : Int} (first : p.number = .integer m)
    (second : q.number = .integer n) : compare (mk t p) (mk t q) = compare m n := by
  change order _ _ = _
  simp [order, number, first, second]

theorem compare_of_binary {f : Binary.Format} (encoding : t.encoding = .binary f)
    (p q : Pixel t) : compare (mk t p) (mk t q) = f.order p.toNat q.toNat := by
  change order _ _ = _
  simp [order, number, Pixel.number, encoding]

end Alike

/-- What a total order of values by type and then by number is. -/
structure TotalOrder (cmp : Value → Value → Ordering) : Prop where
  total : Std.TransCmp cmp
  equal : ∀ v w, cmp v w = .eq ↔ v.same w = true
  types : ElementType.all.Pairwise fun s t => ∀ (p : Pixel s) (q : Pixel t),
    cmp ⟨s, p⟩ ⟨t, q⟩ = .lt
  integers : ∀ (t : ElementType) (p q : Pixel t) (m n : Int), p.number = .integer m →
    q.number = .integer n → cmp ⟨t, p⟩ ⟨t, q⟩ = compare m n
  numbers : ∀ (t : ElementType) (f : Binary.Format) (p q : Pixel t) (x y : ℚ),
    t.encoding = .binary f → f.value? p.toNat = some x → f.value? q.toNat = some y →
      cmp ⟨t, p⟩ ⟨t, q⟩ = compare x y
  zeros : ∀ (t : ElementType) (f : Binary.Format) (p q : Pixel t), t.encoding = .binary f →
    f.magnitude p.toNat = 0 → f.magnitude q.toNat = 0 → cmp ⟨t, p⟩ ⟨t, q⟩ = .eq
  infinities : ∀ (t : ElementType) (f : Binary.Format) (p q : Pixel t), t.encoding = .binary f →
    f.isFinite p.toNat = true → f.magnitude q.toNat = f.infinity →
      cmp ⟨t, p⟩ ⟨t, q⟩ = if f.isNegative q.toNat then .gt else .lt
  nan : ∀ (t : ElementType) (f : Binary.Format) (p q : Pixel t), t.encoding = .binary f →
    f.isNaN q.toNat = true → cmp ⟨t, p⟩ ⟨t, q⟩ = if f.isNaN p.toNat then .eq else .lt

theorem totalOrder : TotalOrder compare where
  total := inferInstance
  equal _ _ := compare_eq_iff_same
  types := by
    have places : ElementType.all.Pairwise fun s t => s.place < t.place := by decide
    refine places.imp fun {s t} less p q => ?_
    exact compare_of_place_lt (v := ⟨s, p⟩) (w := ⟨t, q⟩) less
  integers _ _ _ _ _ := compare_of_integer
  numbers _ _ p q _ _ encoding first second := by
    rw [compare_of_binary encoding]
    exact Binary.Format.order_of_value? (ElementType.formed_of_encoding encoding) first second
  zeros _ _ p q encoding first second := by
    rw [compare_of_binary encoding, Binary.Format.order_eq_compare
      (ElementType.infinity_pos encoding), Binary.Format.rank_eq_zero_iff.mpr first,
      Binary.Format.rank_eq_zero_iff.mpr second]
    rfl
  infinities _ _ p q encoding finite infinite := by
    rw [compare_of_binary encoding]
    exact Binary.Format.order_of_infinite finite infinite
  nan _ _ p q encoding nan := by
    rw [compare_of_binary encoding]
    exact Binary.Format.order_of_isNaN (ElementType.infinity_pos encoding) nan

end Value

end Raster

end HexCover
