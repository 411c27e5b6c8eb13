import HexCover.Proofs.Lists
import HexCover.Proofs.Outcome
import HexCover.Raster.Buffer
import Mathlib.Data.List.GetD

/-! Arrays as bytes. A buffer has one reading as an array of a type and a shape, and it exists
exactly if the count of bytes is that of the shape and the shape is one of an array. The rows
of an array are pieces of its bytes, and the pixels of a row are pieces of these; so the
array and its bytes determine each other. -/
namespace HexCover.Raster

namespace ElementType

/-- A text spells a type by its name or its short name, in any case. -/
def Spells (text : String) (t : ElementType) : Prop :=
  lowercase text = t.name ∨ lowercase text = t.shortName

variable {text : String} {s t : ElementType}

theorem eq_of_spells (first : Spells text s) (second : Spells text t) : s = t := by
  have names : s.name = t.name → s = t := by cases s <;> cases t <;> decide
  have shortNames : s.shortName = t.shortName → s = t := by cases s <;> cases t <;> decide
  have apart (s t : ElementType) : s.name ≠ t.shortName := by cases s <;> cases t <;> decide
  rcases first with first | first <;> rcases second with second | second
  · exact names (first.symm.trans second)
  · exact absurd (first.symm.trans second) (apart s t)
  · exact absurd (second.symm.trans first) (apart t s)
  · exact shortNames (first.symm.trans second)

theorem spelled_iff : (t.name = lowercase text || t.shortName = lowercase text) = true ↔
    Spells text t := by
  simp only [Bool.or_eq_true, decide_eq_true_eq, Spells, eq_comm (b := lowercase text)]

theorem parse_of_spells (spells : Spells text t) : parse text = .ok t := by
  unfold parse
  dsimp only
  split
  · rename_i found
    have matched := List.find?_some found
    rw [eq_of_spells (spelled_iff.mp matched) spells]
  · rename_i none
    have member : t ∈ all := by cases t <;> decide
    exact absurd (spelled_iff.mpr spells) (List.find?_eq_none.mp none t member)

theorem parse_of_unknown (unknown : ∀ t, ¬ Spells text t) :
    parse text = .error (.unsupportedElementType text) := by
  unfold parse
  dsimp only
  split
  · rename_i found
    have matched := List.find?_some found
    exact absurd (spelled_iff.mp matched) (unknown _)
  · rfl

theorem size_pos (t : ElementType) : 0 < t.size := by
  cases t <;> decide

end ElementType

namespace Pixel

variable {t : ElementType}

theorem two_pow_width (t : ElementType) : 2 ^ t.width = 256 ^ t.size := by
  rw [ElementType.width, Nat.pow_mul]

theorem toNat_ofBytes {piece : List UInt8} (size : piece.length = t.size) :
    (ofBytes t piece).toNat = Bytes.toNat piece := by
  have small := Bytes.toNat_lt piece
  rw [size, ← two_pow_width] at small
  rw [ofBytes, ofPattern, BitVec.toNat_ofNat, Nat.mod_eq_of_lt small]

theorem toBytes_ofBytes {piece : List UInt8} (size : piece.length = t.size) :
    (ofBytes t piece).toBytes = piece := by
  rw [toBytes, toNat_ofBytes size, ← size, Bytes.ofNat_toNat]

theorem length_toBytes (p : Pixel t) : p.toBytes.length = t.size := Bytes.length_ofNat _ _

theorem ofBytes_toBytes (p : Pixel t) : ofBytes t p.toBytes = p := by
  have small := p.isLt
  rw [two_pow_width] at small
  apply BitVec.eq_of_toNat_eq
  rw [toNat_ofBytes p.length_toBytes, toBytes, Bytes.toNat_ofNat, Nat.mod_eq_of_lt small]

end Pixel

namespace PixelArray

variable {t : ElementType} {dim₀ dim₁ : Nat} {bytes : List UInt8}

theorem index_lt (i : Fin dim₀) (j : Fin dim₁) : i * dim₁ + j < dim₀ * dim₁ := by
  have rows : (i + 1) * dim₁ ≤ dim₀ * dim₁ := Nat.mul_le_mul_right dim₁ i.isLt
  rw [Nat.add_mul] at rows
  omega

/-- The pieces of the pixels of a row are pieces of the row. -/
theorem take_drop_row {α : Type} (items : List α) (size : Nat) (i : Nat) (j : Fin dim₁) :
    (items.drop ((i * dim₁ + j) * size)).take size =
      (((items.drop (i * (dim₁ * size))).take (dim₁ * size)).drop (j * size)).take size := by
  have inside : (j + 1) * size ≤ dim₁ * size := Nat.mul_le_mul_right size j.isLt
  rw [Nat.add_mul] at inside
  rw [List.drop_take, List.take_take, List.drop_drop, Nat.min_eq_left (by omega), Nat.add_mul,
    Nat.mul_assoc]

theorem ofPieces_eq : ofPieces t dim₀ dim₁ bytes.toArray = mk dim₀ dim₁ fun i j =>
    Pixel.ofBytes t ((bytes.drop ((i * dim₁ + j) * t.size)).take t.size) := by
  simp [ofPieces, List.extract_eq_take_drop]

theorem length_piece (count : bytes.length = dim₀ * dim₁ * t.size) {k : Nat}
    (bound : k < dim₀ * dim₁) : ((bytes.drop (k * t.size)).take t.size).length = t.size := by
  have inside := Nat.mul_le_mul_right t.size (Nat.succ_le_of_lt bound)
  rw [Nat.succ_mul] at inside
  rw [List.length_take, List.length_drop]
  omega

theorem toBytes_eq (a : PixelArray t) : a.toBytes =
    (List.finRange a.dim₀).flatMap fun i => (List.finRange a.dim₁).flatMap fun j =>
      (a.get i j).toBytes := by
  simp only [toBytes, toList, List.flatMap_assoc, List.flatMap_map]

theorem length_row (a : PixelArray t) (i : Fin a.dim₀) :
    ((List.finRange a.dim₁).flatMap fun j => (a.get i j).toBytes).length = a.dim₁ * t.size := by
  simp [List.length_flatMap, Pixel.length_toBytes]

theorem length_toBytes (a : PixelArray t) : a.toBytes.length = a.dim₀ * a.dim₁ * t.size := by
  simp [toBytes_eq, List.length_flatMap, Pixel.length_toBytes, Nat.mul_assoc]

/-- The piece of a pixel in the bytes of an array. -/
theorem piece_toBytes (a : PixelArray t) (i : Fin a.dim₀) (j : Fin a.dim₁) :
    (a.toBytes.drop ((i * a.dim₁ + j) * t.size)).take t.size = (a.get i j).toBytes := by
  rw [take_drop_row, toBytes_eq]
  have row := piece_flatMap (fun i _ => a.length_row i)
    (List.length_finRange.symm ▸ i.isLt : i.val < (List.finRange a.dim₀).length)
  have pixel := piece_flatMap (fun j _ => (a.get i j).length_toBytes)
    (List.length_finRange.symm ▸ j.isLt : j.val < (List.finRange a.dim₁).length)
  simp only [List.getElem_finRange, Fin.cast_mk, Fin.eta] at row pixel
  rw [row, pixel]

/-- An array is read back from its bytes. -/
theorem ofPieces_toBytes (a : PixelArray t) :
    ofPieces t a.dim₀ a.dim₁ a.toBytes.toArray = a := by
  simp only [ofPieces_eq, piece_toBytes, Pixel.ofBytes_toBytes]

/-- The bytes of an array that is read from a buffer are the buffer. -/
theorem toBytes_ofPieces (count : bytes.length = dim₀ * dim₁ * t.size) :
    (ofPieces t dim₀ dim₁ bytes.toArray).toBytes = bytes := by
  have row (i : Fin dim₀) : ((List.finRange dim₁).flatMap fun j : Fin dim₁ =>
      (Pixel.ofBytes t ((bytes.drop ((i * dim₁ + j) * t.size)).take t.size)).toBytes) =
        (bytes.drop (i * (dim₁ * t.size))).take (dim₁ * t.size) := by
    have pixel (j : Fin dim₁) := Pixel.toBytes_ofBytes (length_piece count (index_lt i j))
    simp only [pixel]
    simp only [take_drop_row]
    rw [flatMap_finRange_pieces, List.take_take, Nat.min_self]
  simp only [ofPieces_eq, toBytes_eq, row]
  rw [flatMap_finRange_pieces, List.take_of_length_le (by rw [count, Nat.mul_assoc])]

/-- The product of the dimensions that are not zero, if it is a size. -/
theorem foldlM_mul? (dim₀ dim₁ : Nat) : ([dim₀, dim₁].filter (· ≠ 0)).foldlM Size.mul? 1 =
    if dim₀ = 0 then if dim₁ = 0 then some 1 else Size.mul? 1 dim₁
    else if dim₁ = 0 then Size.mul? 1 dim₀
    else (Size.mul? 1 dim₀).bind (Size.mul? · dim₁) := by
  by_cases first : dim₀ = 0 <;> by_cases second : dim₁ = 0 <;> simp [first, second]

/-- The fault of a shape whose pixels are all there. -/
theorem shapeFault?_eq (allowed : dim₀ * dim₁ ≤ maxDim) : shapeFault? dim₀ dim₁ (dim₀ * dim₁) =
    if maxDim < dim₀ ∨ maxDim < dim₁ then some "ShapeError/Overflow: arithmetic overflow"
    else none := by
  have positive : 0 < maxDim := by decide
  have small : maxDim < Size.bound := by decide
  rw [shapeFault?, foldlM_mul?]
  -- where one dimension is zero the product is the other one, and nothing else bounds it
  by_cases first : dim₀ = 0 <;> by_cases second : dim₁ = 0
  · simp [first, second, Nat.not_lt.mpr positive]
  · by_cases wide : maxDim < dim₁ <;> by_cases large : dim₁ < Size.bound <;>
      simp [first, second, Size.mul?, wide, large]; omega
  · by_cases wide : maxDim < dim₀ <;> by_cases large : dim₀ < Size.bound <;>
      simp [first, second, Size.mul?, wide, large]; omega
  · have below := Nat.le_mul_of_pos_right dim₀ (Nat.pos_of_ne_zero second)
    have below' := Nat.le_mul_of_pos_left dim₁ (Nat.pos_of_ne_zero first)
    have fits : Size.mul? 1 dim₀ = some dim₀ := by
      rw [Size.mul?, Nat.one_mul, if_pos (by omega)]
    have fits' : Size.mul? dim₀ dim₁ = some (dim₀ * dim₁) := if_pos (by omega)
    have narrow : ¬ (maxDim < dim₀ ∨ maxDim < dim₁) := by omega
    simp [first, second, fits, fits', allowed, narrow]

theorem pieces_eq_map {α : Type} (size n : Nat) (items : List α) :
    pieces size n items = (List.range n).map fun i => (items.drop (i * size)).take size := by
  induction n generalizing items with
  | zero => rfl
  | succ n ih =>
    simp [pieces, ih, List.range_succ_eq_map, Nat.add_mul, Nat.add_comm]

theorem read?_eq (count : bytes.length = dim₀ * dim₁ * t.size) (allowed : dim₀ * dim₁ ≤ maxDim) :
    read? t dim₀ dim₁ bytes = some (
      if maxDim < dim₀ ∨ maxDim < dim₁ then
        .error (.invalidBuffer "ShapeError/Overflow: arithmetic overflow")
      else .ok (ofPieces t dim₀ dim₁ bytes.toArray)) := by
  have whole : wholePieces t.size bytes = (List.range (dim₀ * dim₁)).map fun i =>
      (bytes.drop (i * t.size)).take t.size := by
    rw [wholePieces, count, Nat.mul_div_cancel _ t.size_pos, pieces_eq_map]
  have each : ∀ piece ∈ wholePieces t.size bytes,
      Pixel.read? t piece = some (Pixel.ofBytes t piece) := by
    intro piece member
    rw [whole, List.mem_map] at member
    obtain ⟨i, bound, rfl⟩ := member
    exact if_pos (length_piece count (List.mem_range.mp bound))
  rw [read?, mapM_eq_some_map each, whole]
  simp only [Option.bind_eq_bind, Option.bind_some, List.length_map, List.length_range,
    shapeFault?_eq allowed]
  have pixels : ofList dim₀ dim₁ (((List.range (dim₀ * dim₁)).map fun i =>
      (bytes.drop (i * t.size)).take t.size).map (Pixel.ofBytes t)) =
        ofPieces t dim₀ dim₁ bytes.toArray := by
    rw [ofPieces_eq]
    refine congrArg (mk dim₀ dim₁) (funext₂ fun i j => ?_)
    rw [List.getD_eq_getElem _ _ (by simpa using index_lt i j)]
    simp
  by_cases wide : maxDim < dim₀ ∨ maxDim < dim₁
  · simp only [if_pos wide, pure]
  · simp only [if_neg wide, pure, pixels]

end PixelArray

namespace AnyArray

open PixelArray

variable {text : String} {t : ElementType} {dim₀ dim₁ : Nat} {bytes : List UInt8}

theorem byteCount?_eq (t : ElementType) (dim₀ dim₁ : Nat) : byteCount? t dim₀ dim₁ =
    if dim₀ * dim₁ * t.size < Size.bound then some (dim₀ * dim₁ * t.size) else none := by
  have below := Nat.le_mul_of_pos_right (dim₀ * dim₁) t.size_pos
  by_cases fits : dim₀ * dim₁ * t.size < Size.bound
  · have fits' : dim₀ * dim₁ < Size.bound := by omega
    simp [byteCount?, Size.mul?, fits, fits']
  · simp only [byteCount?, Size.mul?, if_neg fits]
    split <;> simp [fits]

/-- A buffer has the bytes of a shape, and the shape is one of an array. -/
structure Fits (t : ElementType) (dim₀ dim₁ : Nat) (bytes : List UInt8) : Prop where
  size : dim₀ * dim₁ * t.size < Size.bound
  count : bytes.length = dim₀ * dim₁ * t.size
  dim₀_le : dim₀ ≤ maxDim
  dim₁_le : dim₁ ≤ maxDim

theorem fits_iff (allowed : bytes.length ≤ maxDim) : Fits t dim₀ dim₁ bytes ↔
    dim₀ * dim₁ * t.size < Size.bound ∧ bytes.length = dim₀ * dim₁ * t.size ∧
      (dim₀ = 0 → dim₁ ≤ maxDim) ∧ (dim₁ = 0 → dim₀ ≤ maxDim) := by
  constructor
  · exact fun fits => ⟨fits.size, fits.count, fun _ => fits.dim₁_le, fun _ => fits.dim₀_le⟩
  · rintro ⟨size, count, first, second⟩
    -- a dimension is not zero only if there are as many bytes as the other one says
    have pixels : dim₀ * dim₁ ≤ maxDim :=
      (Nat.le_mul_of_pos_right _ t.size_pos).trans (count ▸ allowed)
    refine ⟨size, count, ?_, ?_⟩
    · rcases Nat.eq_zero_or_pos dim₁ with none | some
      · exact second none
      · exact (Nat.le_mul_of_pos_right _ some).trans pixels
    · rcases Nat.eq_zero_or_pos dim₀ with none | some
      · exact first none
      · exact (Nat.le_mul_of_pos_left _ some).trans pixels

theorem ofBytes_of_spells (spells : t.Spells text) : ofBytes text dim₀ dim₁ bytes =
    if dim₀ * dim₁ * t.size < Size.bound then
      if bytes.length ≠ dim₀ * dim₁ * t.size then
        .error (.invalidBuffer (wrongByteCount t dim₀ dim₁ (dim₀ * dim₁ * t.size) bytes.length))
      else if maxDim < dim₀ ∨ maxDim < dim₁ then
        .error (.invalidBuffer "ShapeError/Overflow: arithmetic overflow")
      else .ok ⟨t, ofPieces t dim₀ dim₁ bytes.toArray⟩
    else .error (.invalidBuffer ("shape " ++ shapeText dim₀ dim₁ ++ " overflows")) := by
  simp only [ofBytes, ElementType.parse_of_spells spells, byteCount?_eq, bind, Except.bind]
  by_cases size : dim₀ * dim₁ * t.size < Size.bound
  · simp only [if_pos size]
    split
    · rfl
    · split <;> rfl
  · simp only [if_neg size]
    rfl

theorem ofBytes_eq_ok_iff (spells : t.Spells text) {a : AnyArray} :
    ofBytes text dim₀ dim₁ bytes = .ok a ↔
      Fits t dim₀ dim₁ bytes ∧ a = ⟨t, ofPieces t dim₀ dim₁ bytes.toArray⟩ := by
  rw [ofBytes_of_spells spells]
  constructor
  · intro run
    split at run
    · rename_i size
      split at run
      · contradiction
      · rename_i count
        split at run
        · contradiction
        · rename_i narrow
          rw [not_or, Nat.not_lt, Nat.not_lt] at narrow
          exact ⟨⟨size, not_not.mp count, narrow.1, narrow.2⟩, (Except.ok.inj run).symm⟩
    · contradiction
  · rintro ⟨fits, rfl⟩
    have narrow : ¬ (maxDim < dim₀ ∨ maxDim < dim₁) := by
      simp [fits.dim₀_le, fits.dim₁_le]
    rw [if_pos fits.size, if_neg (not_not.mpr fits.count), if_neg narrow]

theorem ofBytes_eq_error (spells : t.Spells text) {e : ConversionError}
    (run : ofBytes text dim₀ dim₁ bytes = .error e) : ∃ message, e = .invalidBuffer message := by
  rw [ofBytes_of_spells spells] at run
  split at run
  · split at run
    · exact ⟨_, (Except.error.inj run).symm⟩
    · split at run
      · exact ⟨_, (Except.error.inj run).symm⟩
      · contradiction
  · exact ⟨_, (Except.error.inj run).symm⟩

/-- The reading of a buffer step by step never lacks a result. -/
theorem read?_eq_ofBytes (allowed : bytes.length ≤ maxDim) :
    read? text dim₀ dim₁ bytes = some (ofBytes text dim₀ dim₁ bytes) := by
  by_cases known : ∃ t, ElementType.Spells text t
  · obtain ⟨t, spells⟩ := known
    rw [ofBytes_of_spells spells]
    simp only [read?, ElementType.parse_of_spells spells, byteCount?_eq]
    by_cases size : dim₀ * dim₁ * t.size < Size.bound
    · simp only [if_pos size]
      split
      · rfl
      · rename_i count
        rw [not_not] at count
        have pixels : dim₀ * dim₁ ≤ maxDim :=
          (Nat.le_mul_of_pos_right _ t.size_pos).trans (count ▸ allowed)
        rw [read?_eq count pixels]
        split <;> rfl
    · simp only [if_neg size]
  · have parsed := ElementType.parse_of_unknown fun t spells => known ⟨t, spells⟩
    simp only [read?, ofBytes, parsed]
    rfl

/-- A buffer is read as an array exactly if it is the bytes of one. -/
theorem ofBytes_exact (allowed : bytes.length ≤ maxDim) :
    read? text dim₀ dim₁ bytes = some (ofBytes text dim₀ dim₁ bytes) ∧
    ((∀ t, ¬ ElementType.Spells text t) →
      ofBytes text dim₀ dim₁ bytes = .error (.unsupportedElementType text)) ∧
    ∀ t, ElementType.Spells text t →
      ((∃ a, ofBytes text dim₀ dim₁ bytes = .ok a) ↔ dim₀ * dim₁ * t.size < 2 ^ 64 ∧
        bytes.length = dim₀ * dim₁ * t.size ∧ (dim₀ = 0 → dim₁ ≤ maxDim) ∧
        (dim₁ = 0 → dim₀ ≤ maxDim)) ∧
      (∀ e, ofBytes text dim₀ dim₁ bytes = .error e → ∃ message, e = .invalidBuffer message) ∧
      (∀ a, ofBytes text dim₀ dim₁ bytes = .ok a → ∃ get, a = ⟨t, dim₀, dim₁, get⟩ ∧
        a.pixels.toBytes = bytes ∧ ∀ i j, (get i j).toNat =
          Bytes.toNat ((bytes.drop ((i * dim₁ + j) * t.size)).take t.size)) ∧
      ∀ a : PixelArray t, a.toBytes.length ≤ maxDim → (a.dim₀ = 0 → a.dim₁ ≤ maxDim) →
        (a.dim₁ = 0 → a.dim₀ ≤ maxDim) → ofBytes text a.dim₀ a.dim₁ a.toBytes = .ok ⟨t, a⟩ := by
  refine ⟨read?_eq_ofBytes allowed, fun unknown => ?_, fun t spells =>
    ⟨?_, fun _ => ofBytes_eq_error spells, fun a run => ?_, fun a allowed first second => ?_⟩⟩
  · rw [ofBytes, ElementType.parse_of_unknown unknown]
    rfl
  · rw [← Size.bound, ← fits_iff allowed]
    simp only [ofBytes_eq_ok_iff spells, exists_and_left, exists_eq, and_true]
  · obtain ⟨fits, rfl⟩ := (ofBytes_eq_ok_iff spells).mp run
    refine ⟨_, congrArg (mk t) ofPieces_eq, toBytes_ofPieces fits.count, fun i j => ?_⟩
    exact Pixel.toNat_ofBytes (length_piece fits.count (index_lt i j))
  · have size : a.dim₀ * a.dim₁ * t.size < Size.bound := by
      rw [← length_toBytes]
      exact Nat.lt_of_le_of_lt allowed (by decide)
    have fits := (fits_iff allowed).mpr ⟨size, a.length_toBytes, first, second⟩
    exact (ofBytes_eq_ok_iff spells).mpr ⟨fits, by rw [ofPieces_toBytes]⟩

/-- A pattern that is not a number keeps its payload, and an array without pixels may be too
wide for one. -/
theorem ofBytes_exact_payload :
    let bytes : List UInt8 := [0x01, 0x00, 0xc0, 0xff, 0x00, 0x00, 0x80, 0x3f]
    bytes.length ≤ maxDim ∧ ElementType.Spells "F32" .float32 ∧
      (∃ get, ofBytes "F32" 1 2 bytes = .ok ⟨.float32, 1, 2, get⟩ ∧
        (get 0 0).toNat = 0xffc00001 ∧ (get 0 1).toNat = 0x3f800000) ∧
      ∃ message, ofBytes "F32" 0 (2 ^ 63) [] = .error (.invalidBuffer message) := by
  intro bytes
  have spells : ElementType.Spells "F32" .float32 := by
    unfold ElementType.Spells
    decide +kernel
  have allowed : bytes.length ≤ maxDim := by decide
  obtain ⟨_, _, named⟩ := @ofBytes_exact "F32" 1 2 bytes allowed
  obtain ⟨ok, _, read, _⟩ := named .float32 spells
  obtain ⟨a, run⟩ := ok.mpr (by decide)
  obtain ⟨get, rfl, _, pixels⟩ := read a run
  refine ⟨allowed, spells, ⟨get, run, pixels 0 0, pixels 0 1⟩, ?_⟩
  obtain ⟨_, _, named⟩ := @ofBytes_exact "F32" 0 (2 ^ 63) [] (Nat.zero_le _)
  obtain ⟨ok, error, _⟩ := named .float32 spells
  have wide : ¬ ∃ a, ofBytes "F32" 0 (2 ^ 63) [] = .ok a := by
    rw [ok]
    decide
  cases run : ofBytes "F32" 0 (2 ^ 63) [] with
  | ok a => exact absurd ⟨a, run⟩ wide
  | error e =>
    obtain ⟨message, rfl⟩ := error e run
    exact ⟨message, rfl⟩

end AnyArray

end HexCover.Raster
