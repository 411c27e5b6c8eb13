import HexCover.Proofs.Outcome
import HexCover.Proofs.Wkb.NormalForm

/-! What the single steps of the walk read. A step succeeds exactly when the input goes
on with the bytes of some value, and then the cursor stands after them. A repeated
step reads the bytes of a list of values in a row, and folds what it does with each
of them. -/
namespace HexCover.Wkb

theorem ofCode?_eq_some_iff {code : Nat} {kind : Kind} :
    Kind.ofCode? code = some kind ↔ code = kind.code := by
  constructor
  · intro h
    unfold Kind.ofCode? at h
    split at h <;> cases h <;> rfl
  · rintro rfl
    cases kind <;> rfl

theorem Kind.code_lt (kind : Kind) : kind.code < countBound := by
  cases kind <;> simp [Kind.code, countBound]

theorem order?_eq_some_iff {marker : UInt8} {order : ByteOrder} :
    order? marker = some order ↔ marker = orderMarker order := by
  constructor
  · intro h
    unfold order? at h
    split at h
    · cases h; assumption
    · split at h
      · cases h; assumption
      · cases h
  · rintro rfl
    cases order <;> rfl

/-- Items of a size take at least their number times that size. -/
theorem length_mul_le_length_flatMap {α : Type} {bytes : α → List UInt8} {size : Nat} {as : List α}
    (least : ∀ a ∈ as, size ≤ (bytes a).length) : as.length * size ≤ (as.flatMap bytes).length := by
  induction as with
  | nil => simp
  | cons a as ih =>
    have tail := ih fun b member => least b (by simp [member])
    have head := least a (by simp)
    simp only [List.length_cons, List.flatMap_cons, List.length_append, Nat.add_mul]
    omega

namespace Cursor

/-- The input goes on with some bytes, and another cursor stands after them. -/
structure Advances (c : Cursor) (bytes : List UInt8) (c' : Cursor) : Prop where
  rest : c.rest = bytes ++ c'.rest
  position : c'.position = c.position + bytes.length

theorem Advances.start (bytes rest : List UInt8) (position : Nat) :
    Advances ⟨position, bytes ++ rest⟩ bytes ⟨position + bytes.length, rest⟩ :=
  ⟨rfl, rfl⟩

theorem advances_nil_iff {c c' : Cursor} : c.Advances [] c' ↔ c' = c := by
  constructor
  · rintro ⟨rest, position⟩
    cases c
    cases c'
    simp_all
  · rintro rfl
    exact ⟨rfl, rfl⟩

theorem advances_append_iff {c c' : Cursor} {first second : List UInt8} :
    c.Advances (first ++ second) c' ↔
      ∃ middle, c.Advances first middle ∧ middle.Advances second c' := by
  constructor
  · rintro ⟨rest, position⟩
    refine ⟨⟨c.position + first.length, second ++ c'.rest⟩, ⟨?_, rfl⟩, rfl, ?_⟩
    · rw [rest, List.append_assoc]
    · rw [position, List.length_append, Nat.add_assoc]
  · rintro ⟨middle, before, after⟩
    constructor
    · rw [before.rest, after.rest, List.append_assoc]
    · rw [after.position, before.position, List.length_append, Nat.add_assoc]

theorem take_eq_ok_iff {n : Nat} {c c' : Cursor} {bytes : List UInt8} :
    c.take n = .ok (bytes, c') ↔ bytes.length = n ∧ c.Advances bytes c' := by
  unfold take
  constructor
  · intro h
    split at h
    · cases h
    · cases h
      have length : (c.rest.take n).length = n := by
        rw [List.length_take]
        omega
      refine ⟨length, (List.take_append_drop n c.rest).symm, ?_⟩
      rw [length]
  · rintro ⟨rfl, rest, position⟩
    have enough : ¬ c.rest.length < bytes.length := by
      rw [rest, List.length_append]
      omega
    rw [if_neg enough, rest, List.take_left, List.drop_left, ← position]

theorem byteOrder_eq_ok_iff {c c' : Cursor} {order : ByteOrder} :
    c.byteOrder = .ok (order, c') ↔ c.Advances [orderMarker order] c' := by
  simp only [byteOrder, bind_eq_ok_iff, Prod.exists, take_eq_ok_iff]
  constructor
  · rintro ⟨bytes, c₁, ⟨single, advance⟩, found⟩
    obtain ⟨marker, rfl⟩ := List.length_eq_one_iff.mp single
    simp only [List.headD_cons] at found
    split at found
    · rename_i order' known
      cases found
      rw [order?_eq_some_iff] at known
      exact known ▸ advance
    · cases found
  · intro advance
    refine ⟨_, c', ⟨rfl, advance⟩, ?_⟩
    have known : order? (orderMarker order) = some order := order?_eq_some_iff.mpr rfl
    simp only [List.headD_cons, known]
    rfl

theorem word_eq_ok_iff {c c' : Cursor} {order : ByteOrder} {n : Nat} :
    c.word order = .ok (n, c') ↔ n < countBound ∧ c.Advances (order.write 4 n) c' := by
  simp only [word, bind_eq_ok_iff, Prod.exists, take_eq_ok_iff]
  constructor
  · rintro ⟨bytes, c₁, ⟨four, advance⟩, found⟩
    cases found
    have small := order.read_lt bytes
    have written := order.write_read bytes
    rw [four] at small written
    exact ⟨small, written.symm ▸ advance⟩
  · rintro ⟨small, advance⟩
    refine ⟨_, c', ⟨order.length_write 4 n, advance⟩, ?_⟩
    have value : order.read (order.write 4 n) = n := by
      rw [order.read_write]
      exact Nat.mod_eq_of_lt small
    rw [value]
    rfl

theorem double_eq_ok_iff {c c' : Cursor} {order : ByteOrder} {x : Double} :
    c.double order = .ok (x, c') ↔ c.Advances (x.write order) c' := by
  simp only [double, bind_eq_ok_iff, Prod.exists, take_eq_ok_iff]
  constructor
  · rintro ⟨bytes, c₁, ⟨eight, advance⟩, found⟩
    cases found
    exact (Double.write_read eight).symm ▸ advance
  · intro advance
    refine ⟨_, c', ⟨Double.length_write order x, advance⟩, ?_⟩
    rw [Double.read_write]
    rfl

theorem coord_eq_ok_iff {c c' : Cursor} {order : ByteOrder} {p : Coord Double} :
    c.coord order = .ok (p, c') ↔ c.Advances (coordBytes order p) c' := by
  simp only [coord, coordBytes, bind_eq_ok_iff, Prod.exists, double_eq_ok_iff, advances_append_iff]
  constructor
  · rintro ⟨x, c₁, first, y, c₂, second, found⟩
    cases found
    exact ⟨c₁, first, second⟩
  · rintro ⟨c₁, first, second⟩
    exact ⟨p.x, c₁, first, p.y, c', second, rfl⟩

theorem count_eq_ok_iff {c c' : Cursor} {order : ByteOrder} {itemBytes n : Nat} :
    c.count order itemBytes = .ok (n, c') ↔
      n < countBound ∧ c.Advances (order.write 4 n) c' ∧
        Size.mulSaturating n itemBytes ≤ c'.rest.length := by
  simp only [count, bind_eq_ok_iff, Prod.exists, word_eq_ok_iff]
  constructor
  · rintro ⟨n', c₁, ⟨small, advance⟩, found⟩
    split at found
    · cases found
    · cases found
      exact ⟨small, advance, by omega⟩
  · rintro ⟨small, advance, room⟩
    refine ⟨n, c', ⟨small, advance⟩, ?_⟩
    rw [if_neg (by omega)]
    rfl

/-- A repeated step reads values in a row if each step reads one value. -/
theorem times_eq_ok_iff {σ α : Type} {step : σ → Step σ} {Readable : α → Prop} {next : σ → α → σ}
    {bytes : α → List UInt8}
    (reads : ∀ s s' c c', step s c = .ok (s', c') ↔
      ∃ a, Readable a ∧ s' = next s a ∧ Advances c (bytes a) c')
    {n : Nat} {s s' : σ} {c c' : Cursor} :
    times step n s c = .ok (s', c') ↔
      ∃ as : List α, as.length = n ∧ (∀ a ∈ as, Readable a) ∧ s' = as.foldl next s ∧
        c.Advances (as.flatMap bytes) c' := by
  induction n generalizing s c with
  | zero =>
    simp only [times, List.length_eq_zero_iff, exists_eq_left, List.foldl_nil, List.flatMap_nil,
      advances_nil_iff]
    simp [eq_comm]
  | succ n ih =>
    simp only [times, bind_eq_ok_iff, Prod.exists, reads, ih]
    constructor
    · rintro ⟨s₁, c₁, ⟨a, readable, rfl, head⟩, as, rfl, all, rfl, tail⟩
      refine ⟨a :: as, rfl, ?_, rfl, ?_⟩
      · simpa using ⟨readable, all⟩
      · rw [List.flatMap_cons, advances_append_iff]
        exact ⟨c₁, head, tail⟩
    · rintro ⟨as, length, all, rfl, advance⟩
      obtain ⟨a, as, rfl⟩ := List.exists_cons_of_length_eq_add_one length
      rw [List.flatMap_cons, advances_append_iff] at advance
      obtain ⟨c₁, head, tail⟩ := advance
      rw [List.forall_mem_cons] at all
      exact ⟨_, c₁, ⟨a, all.1, rfl, head⟩, as, by simpa using length, all.2, rfl, tail⟩

/-- A counted step reads a count and as many values. -/
theorem counted_eq_ok_iff {σ α : Type} {step : σ → Step σ} {Readable : α → Prop}
    {next : σ → α → σ} {bytes : α → List UInt8} {itemBytes : Nat} {start : Nat → σ}
    (reads : ∀ s s' c c', step s c = .ok (s', c') ↔
      ∃ a, Readable a ∧ s' = next s a ∧ Advances c (bytes a) c')
    (least : ∀ a, itemBytes ≤ (bytes a).length) {order : ByteOrder} {n : Nat} {s' : σ}
    {c c' : Cursor} :
    counted itemBytes step start order c = .ok ((n, s'), c') ↔
      ∃ as : List α, as.length = n ∧ (as.length < countBound ∧ ∀ a ∈ as, Readable a) ∧
        s' = as.foldl next (start n) ∧
        c.Advances (order.write 4 as.length ++ as.flatMap bytes) c' := by
  simp only [counted, bind_eq_ok_iff, Prod.exists, count_eq_ok_iff, times_eq_ok_iff reads,
    advances_append_iff]
  constructor
  · rintro ⟨n', c₁, ⟨small, count, -⟩, s, c₂, ⟨as, rfl, readable, rfl, advance⟩, found⟩
    cases found
    exact ⟨as, rfl, ⟨small, readable⟩, rfl, c₁, count, advance⟩
  · rintro ⟨as, rfl, ⟨small, readable⟩, rfl, c₁, count, advance⟩
    have items : as.length * itemBytes ≤ (as.flatMap bytes).length :=
      length_mul_le_length_flatMap fun a _ => least a
    have room : Size.mulSaturating as.length itemBytes ≤ c₁.rest.length := by
      refine Nat.le_trans (Nat.min_le_left _ _) ?_
      rw [advance.rest, List.length_append]
      omega
    exact ⟨_, c₁, ⟨small, count, room⟩, _, c', ⟨as, rfl, readable, rfl, advance⟩, rfl⟩

theorem copyCoord_eq_ok_iff (order : ByteOrder) (out out' : List UInt8) (c c' : Cursor) :
    copyCoord order out c = .ok (out', c') ↔
      ∃ p : Coord Double, True ∧ out' = out ++ coordBytes .little p ∧
        c.Advances (coordBytes order p) c' := by
  simp only [copyCoord, bind_eq_ok_iff, Prod.exists, coord_eq_ok_iff]
  constructor
  · rintro ⟨p, c₁, advance, found⟩
    cases found
    exact ⟨p, trivial, rfl, advance⟩
  · rintro ⟨p, -, rfl, advance⟩
    exact ⟨p, c', advance, rfl⟩

theorem copyCoords_eq_ok_iff {order : ByteOrder} {out out' : List UInt8} {n : Nat}
    {c c' : Cursor} :
    copyCoords order out c = .ok ((n, out'), c') ↔
      ∃ ps : List (Coord Double), ps.length = n ∧ ps.length < countBound ∧
        out' = out ++ coordsBytes .little ps ∧ c.Advances (coordsBytes order ps) c' := by
  have least (p : Coord Double) : 16 ≤ (coordBytes order p).length :=
    Nat.le_of_eq (length_coordBytes order p).symm
  rw [copyCoords, counted_eq_ok_iff (copyCoord_eq_ok_iff order) least]
  simp only [List.foldl_append_eq_append, ← List.flatMap_def, List.append_assoc, implies_true,
    and_true]
  constructor
  · rintro ⟨ps, rfl, small, rfl, advance⟩
    exact ⟨ps, rfl, small, rfl, advance⟩
  · rintro ⟨ps, rfl, small, rfl, advance⟩
    exact ⟨ps, rfl, small, rfl, advance⟩

theorem copyRing_eq_ok_iff (order : ByteOrder) (out out' : List UInt8) (c c' : Cursor) :
    copyRing order out c = .ok (out', c') ↔
      ∃ ring : List (Coord Double), ring.length < countBound ∧
        out' = out ++ coordsBytes .little ring ∧ c.Advances (coordsBytes order ring) c' := by
  simp only [copyRing, bind_eq_ok_iff, Prod.exists, copyCoords_eq_ok_iff]
  constructor
  · rintro ⟨n, out₁, c₁, ⟨ring, rfl, small, rfl, advance⟩, found⟩
    cases found
    exact ⟨ring, small, rfl, advance⟩
  · rintro ⟨ring, small, rfl, advance⟩
    exact ⟨_, _, c', ⟨ring, rfl, small, rfl, advance⟩, rfl⟩

end Cursor

end HexCover.Wkb
