import HexCover.Proofs.Wkb.Walk

/-! Decoding accepts the grammar and returns what its trees stand for. A text in the
grammar has one normal form, whatever byte orders it was written in, and the reader
gives back from it what pruning leaves of the tree. -/
namespace HexCover.Wkb

open HexCover.Wkb.Tree

theorem normalize_eq_ok_iff {bytes : List UInt8} {normal? : Option (List UInt8)} :
    normalize bytes = .ok normal? ↔
      ∃ t : Tree, (t.Acceptable ∧ t.depth < maxDepth + 1) ∧ t.encode = bytes ∧
        t.normal? = normal? := by
  simp only [normalize, bind_eq_ok_iff, Prod.exists, walk_readsTrees _ _ _ _ _ _,
    List.nil_append]
  constructor
  · rintro ⟨kind?, out, c, ⟨t, fits, rfl, rfl, advance⟩, found⟩
    split at found
    · cases found
    · rename_i whole
      have nothing_left : c.rest = [] := by simpa using whole
      cases found
      refine ⟨t, fits, ?_, ?_⟩
      · have all := advance.rest
        rw [nothing_left, List.append_nil] at all
        exact all.symm
      · cases t.normal? <;> rfl
  · rintro ⟨t, fits, rfl, rfl⟩
    have advance := Cursor.Advances.start t.encode [] 0
    rw [List.append_nil] at advance
    refine ⟨_, _, _, ⟨t, fits, rfl, rfl, advance⟩, ?_⟩
    cases t.normal? <;> rfl

theorem readNormal_eq_some {bytes : List UInt8} {g : Geometry Double}
    (h : Reads (readGeometry (maxDepth + 1)) bytes g) : readNormal bytes = some g := by
  have whole := h []
  rw [List.append_nil] at whole
  simp [readNormal, whole]

theorem decode_encode (id : UInt64) {t : Tree} (acceptable : t.Acceptable)
    (shallow : t.depth < maxDepth + 1) : decode id t.encode = .ok t.prune? := by
  have normalized := normalize_eq_ok_iff.mpr ⟨t, ⟨acceptable, shallow⟩, rfl, rfl⟩
  have related := rel_normal acceptable shallow
  rw [decode, normalized]
  generalize t.normal? = normal at related ⊢
  generalize t.prune? = pruned at related ⊢
  cases related with
  | none => rfl
  | some reads => simp only [readNormal_eq_some reads]

/-- A text is refused only for a fault that the walk finds. -/
theorem decode_eq_error_iff {id : UInt64} {bytes : List UInt8} {error : ConversionError} :
    decode id bytes = .error error ↔ ∃ fault, normalize bytes = .error fault ∧
      error = malformed id fault := by
  cases normalized : normalize bytes with
  | error fault => simp [decode, normalized, eq_comm]
  | ok normal? =>
    obtain ⟨t, ⟨acceptable, shallow⟩, rfl, _⟩ := normalize_eq_ok_iff.mp normalized
    simp [decode_encode id acceptable shallow]

/-- Decoding gives for every tree in the grammar what is left of it, which is nothing
exactly if there is nothing in it; and all that it accepts is written so, but for the
types of empty members. -/
theorem decode_eq_ok_iff_tree (id : UInt64) :
    (∀ t : Tree, t.Grammatical → t.depth ≤ 32 →
      decode id t.encode = .ok t.prune? ∧ (t.prune? = none ↔ t.Empty)) ∧
    ∀ (bytes : List UInt8) (result : Option (Geometry Double)), decode id bytes = .ok result ↔
      ∃ t : Tree, t.Acceptable ∧ t.depth ≤ 32 ∧ t.encode = bytes ∧ t.prune? = result := by
  constructor
  · intro t grammatical shallow
    exact ⟨decode_encode id grammatical.acceptable (Nat.lt_succ_of_le shallow),
      prune?_eq_none_iff grammatical⟩
  · intro bytes result
    constructor
    · intro h
      cases normalized : normalize bytes with
      | error fault => simp [decode, normalized] at h
      | ok normal? =>
        obtain ⟨t, ⟨acceptable, shallow⟩, rfl, _⟩ := normalize_eq_ok_iff.mp normalized
        rw [decode_encode id acceptable shallow] at h
        exact ⟨t, acceptable, Nat.le_of_lt_succ shallow, rfl, Except.ok.inj h⟩
    · rintro ⟨t, acceptable, shallow, rfl, rfl⟩
      exact decode_encode id acceptable (Nat.lt_succ_of_le shallow)

namespace Mixed

def oneBytes : List UInt8 := [0x3f, 0xf0, 0, 0, 0, 0, 0, 0]
def twoBytes : List UInt8 := [0x40, 0, 0, 0, 0, 0, 0, 0]
def noNumberBytes : List UInt8 := [0x7f, 0xf8, 0, 0, 0, 0, 0, 1]

def one : Double := .ofNat 0x3ff0000000000000
def two : Double := .ofNat 0x4000000000000000
def noNumber : Double := .ofNat 0x7ff8000000000001

/-- A collection with a geometry of every type, in both byte orders and with empty parts at
several depths. -/
def mixedTree : Tree :=
  .members .geometries .big [
    .members .lineStrings .little
      [.lineString .big [⟨one, two⟩, ⟨two, one⟩], .lineString .little []],
    .point .big ⟨noNumber, noNumber⟩,
    .multiPoint .little [(.big, ⟨two, noNumber⟩), (.little, ⟨noNumber, noNumber⟩)],
    .members .geometries .little [.polygon .big [], .point .little ⟨one, two⟩],
    .members .polygons .big [.polygon .big [], .polygon .little [[], [⟨two, noNumber⟩]]],
    .polygon .little
      [[⟨one, one⟩, ⟨two, one⟩, ⟨one, one⟩], [⟨one, two⟩, ⟨two, two⟩]]]

def mixedBytes : List UInt8 := List.flatten [
  [0, 0, 0, 0, 7, 0, 0, 0, 6],
  [1, 5, 0, 0, 0, 2, 0, 0, 0],
  [0, 0, 0, 0, 2, 0, 0, 0, 2], oneBytes, twoBytes, twoBytes, oneBytes,
  [1, 2, 0, 0, 0, 0, 0, 0, 0],
  [0, 0, 0, 0, 1], noNumberBytes, noNumberBytes,
  [1, 4, 0, 0, 0, 2, 0, 0, 0],
  [0, 0, 0, 0, 1], twoBytes, noNumberBytes,
  [1, 1, 0, 0, 0], noNumberBytes.reverse, noNumberBytes.reverse,
  [1, 7, 0, 0, 0, 2, 0, 0, 0],
  [0, 0, 0, 0, 3, 0, 0, 0, 0],
  [1, 1, 0, 0, 0], oneBytes.reverse, twoBytes.reverse,
  [0, 0, 0, 0, 6, 0, 0, 0, 2],
  [0, 0, 0, 0, 3, 0, 0, 0, 0],
  [1, 3, 0, 0, 0, 2, 0, 0, 0],
  [0, 0, 0, 0], [1, 0, 0, 0], twoBytes.reverse, noNumberBytes.reverse,
  [1, 3, 0, 0, 0, 2, 0, 0, 0],
  [3, 0, 0, 0], oneBytes.reverse, oneBytes.reverse, twoBytes.reverse, oneBytes.reverse,
    oneBytes.reverse, oneBytes.reverse,
  [2, 0, 0, 0], oneBytes.reverse, twoBytes.reverse, twoBytes.reverse, twoBytes.reverse]

/-- What is left of the collection. The open hole is closed, and so is a single point that is
not equal to itself. -/
def mixedGeometry : Geometry Double :=
  .collection [
    .multiLineString [[⟨one, two⟩, ⟨two, one⟩]],
    .multiPoint [⟨two, noNumber⟩],
    .collection [.point ⟨one, two⟩],
    .multiPolygon [⟨[], [[⟨two, noNumber⟩, ⟨two, noNumber⟩]]⟩],
    .polygon ⟨[⟨one, one⟩, ⟨two, one⟩, ⟨one, one⟩], [[⟨one, two⟩, ⟨two, two⟩, ⟨one, two⟩]]⟩]

theorem mixedTree_grammatical : mixedTree.Grammatical := by
  have small (n : Nat) (bound : n < 7) : n < countBound := Nat.lt_of_lt_of_le bound (by decide)
  refine .members (small _ (by decide)) (by simp [Container.Admits]) ?_
  simp only [List.forall_mem_cons]
  refine ⟨.members (small _ (by decide)) (by simp [Container.Admits, Tree.kind]) ?_, .point _ _,
    .multiPoint (small _ (by decide)),
    .members (small _ (by decide)) (by simp [Container.Admits]) ?_,
    .members (small _ (by decide)) (by simp [Container.Admits, Tree.kind]) ?_,
    .polygon (small _ (by decide)) ?_, by simp⟩
  · simp only [List.forall_mem_cons]
    exact ⟨.lineString (small _ (by decide)), .lineString (small _ (by decide)), by simp⟩
  · simp only [List.forall_mem_cons]
    exact ⟨.polygon (small _ (by decide)) (by simp), .point _ _, by simp⟩
  · simp only [List.forall_mem_cons]
    refine ⟨.polygon (small _ (by decide)) (by simp), .polygon (small _ (by decide)) ?_, by simp⟩
    simp only [List.forall_mem_cons]
    exact ⟨small _ (by decide), small _ (by decide), by simp⟩
  · simp only [List.forall_mem_cons]
    exact ⟨small _ (by decide), small _ (by decide), by simp⟩

theorem decode_mixedTree :
    (mixedTree.Grammatical ∧ mixedTree.depth ≤ 32) ∧ mixedTree.encode = mixedBytes ∧
      decode 7 mixedBytes = .ok (some mixedGeometry) := by
  have left : mixedTree.prune? = some mixedGeometry := by rfl
  have written : mixedTree.encode = mixedBytes := by decide +kernel
  have decoded := (decode_eq_ok_iff_tree 7).1 mixedTree mixedTree_grammatical (by decide)
  exact ⟨⟨mixedTree_grammatical, by decide⟩, written, written ▸ left ▸ decoded.1⟩

end Mixed

end HexCover.Wkb
