import HexCover.Proofs.Binary.Value
import HexCover.Raster.Value

/-! The values that keys stand for. Ranks of bit patterns run from minus infinity to the
patterns that are not numbers, and the pattern that represents a rank has that rank. So
the key of a pixel is also the key of the value that stands for it: values that are
reported as equal have one group. -/
namespace HexCover

namespace Binary.Format

variable {f : Format} (fraction : 0 < f.fractionBits)

theorem rank_bounds (f : Format) (bits : Nat) :
    -(f.infinity : Int) ≤ f.rank bits ∧ f.rank bits ≤ f.infinity + 1 := by
  unfold rank
  dsimp only
  split
  · omega
  · split <;> omega

include fraction

variable {rank : Int} (least : -(f.infinity : Int) ≤ rank)
include least

theorem rank_ofRank (greatest : rank ≤ f.infinity + 1) : f.rank (f.ofRank rank) = rank := by
  obtain ⟨above, below⟩ := quietNaN_bounds fraction
  by_cases nan : (f.infinity : Int) < rank
  · -- the only rank above infinity is that of the quiet pattern
    have top : rank = f.infinity + 1 := by omega
    have quiet : f.ofRank rank = f.quietNaN := if_pos nan
    have pattern : f.rank f.quietNaN = f.infinity + 1 := by
      rw [Format.rank, magnitude, Nat.mod_eq_of_lt below]
      exact if_pos above
    rw [quiet, pattern, top]
  · have signed : f.ofRank rank = f.withSign (rank < 0) rank.natAbs := if_neg nan
    rw [signed, rank_withSign fraction _ (by omega)]
    by_cases negative : rank < 0 <;> simp only [negative, decide_true, decide_false, if_true,
      Bool.false_eq_true, if_false] <;> omega

theorem ofRank_lt : f.ofRank rank < 2 * f.signWeight := by
  obtain ⟨above, below⟩ := quietNaN_bounds fraction
  unfold ofRank
  split
  · omega
  · exact withSign_lt fraction _ (by omega)

end Binary.Format

namespace Raster

variable {t : ElementType}

theorem ElementType.isFloat_iff : t.isFloat = true ↔ ∃ f, t.encoding = .binary f := by
  cases t <;> simp [isFloat, encoding]

theorem ElementType.format_bounds {f : Binary.Format} (h : t.encoding = .binary f) :
    0 < f.fractionBits ∧ 2 * f.signWeight = 2 ^ t.width := by
  cases t <;> cases h <;> exact ⟨by decide, by decide⟩

theorem ElementType.formed_of_encoding {f : Binary.Format} (h : t.encoding = .binary f) :
    f.WellFormed := by
  cases t <;> cases h
  · exact Binary.single_wellFormed
  · exact Binary.double_wellFormed

theorem ElementType.infinity_pos {f : Binary.Format} (h : t.encoding = .binary f) :
    0 < f.infinity := by
  cases t <;> cases h <;> decide

/-- A pixel and the value that stands for its key have the same key. -/
theorem Pixel.key_value_key (p : Pixel t) : p.key.value.key = p.key := by
  cases encoding : t.encoding with
  | signed => simp [Value.key, Key.value, Pixel.key, Pixel.number, encoding]
  | unsigned => simp [Value.key, Key.value, Pixel.key, Pixel.number, encoding]
  | binary f =>
    obtain ⟨fraction, full⟩ := ElementType.format_bounds encoding
    obtain ⟨least, greatest⟩ := f.rank_bounds p.toNat
    -- the representative fits into the pixel, so no bit of it is dropped
    have small := f.ofRank_lt fraction least
    rw [full] at small
    have pattern : (ofPattern t (f.ofRank (f.rank p.toNat))).toNat =
        f.ofRank (f.rank p.toNat) := by
      rw [ofPattern, BitVec.toNat_ofNat, Nat.mod_eq_of_lt small]
    simp [Value.key, Key.value, Pixel.key, Pixel.number, encoding, pattern,
      f.rank_ofRank fraction least greatest]

end Raster

end HexCover
