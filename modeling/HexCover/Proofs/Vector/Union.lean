import HexCover.Proofs.Vector.Compaction
import HexCover.Proofs.Wkb.Decode

/-! Cells of a whole and of its parts. A collection is written as its members one after the
other, and a multi point as its points. Decoding the whole keeps what decoding the parts
keeps, so that a grid that lays a whole part by part gives it the cells of all parts.
They are listed in ascending order and once each: neither the order of the parts nor what
they share can be seen in the list. -/
namespace HexCover.Vector

open HexCover.Wkb (Kind Tree)

/-- Serialized geometries that a geometry of a type can be put together from: texts that are
accepted and leave room for one level above them, or points in any byte order. -/
inductive Parts : Kind → List (List UInt8) → Prop
  | collection {ts : List Tree} (fits : ∀ t ∈ ts, t.Acceptable ∧ t.depth < Wkb.maxDepth) :
      Parts .collection (ts.map Tree.encode)
  | multiPoint (points : List (ByteOrder × Coord Double)) :
      Parts .multiPoint (points.map Tree.pointBytes)

/-- The geometry of a type that is put together from serialized parts. -/
def wholeBytes (kind : Kind) (order : ByteOrder) (gs : List (List UInt8)) : List UInt8 :=
  Wkb.header order kind ++ order.write 4 gs.length ++ gs.flatten

section Decoding

variable {order : ByteOrder} (id : UInt64)

theorem decode_collection {ts : List Tree} (small : ts.length < Wkb.countBound)
    (fits : ∀ t ∈ ts, t.Acceptable ∧ t.depth < Wkb.maxDepth) :
    Wkb.decode id (wholeBytes .collection order (ts.map Tree.encode)) =
      .ok (Wkb.Container.geometries.assemble? (ts.filterMap Tree.prune?)) := by
  have acceptable : (Tree.members .geometries order ts).Acceptable :=
    .members small (fun _ _ => .inl trivial) fun t member => (fits t member).1
  have shallow : (Tree.members .geometries order ts).depth < Wkb.maxDepth + 1 :=
    Tree.depth_members_lt_iff.mpr fun t member => (fits t member).2
  have written : wholeBytes .collection order (ts.map Tree.encode) =
      (Tree.members .geometries order ts).encode := by
    simp [wholeBytes, Tree.encode, Tree.body, Tree.membersBytes_eq_flatMap, Tree.order, Tree.kind,
      Wkb.Container.kind, List.flatMap_def]
  rw [written, Wkb.decode_encode id acceptable shallow, Tree.prune?, Tree.pruneAll_eq_filterMap]

theorem decode_multiPoint {points : List (ByteOrder × Coord Double)}
    (small : points.length < Wkb.countBound) :
    Wkb.decode id (wholeBytes .multiPoint order (points.map Tree.pointBytes)) =
      .ok (if Tree.keptPoints points = [] then none
        else some (.multiPoint (Tree.keptPoints points))) := by
  have written : wholeBytes .multiPoint order (points.map Tree.pointBytes) =
      (Tree.multiPoint order points).encode := by
    simp [wholeBytes, Tree.encode, Tree.body, Tree.order, Tree.kind, List.flatMap_def]
  rw [written, Wkb.decode_encode id (.multiPoint small) (Nat.succ_pos _), Tree.prune?]

theorem decode_pointBytes (m : ByteOrder × Coord Double) :
    Wkb.decode id (Tree.pointBytes m) =
      .ok (if Tree.EmptyPoint m.2 then none else some (.point m.2)) := by
  have written : Tree.pointBytes m = (Tree.point m.1 m.2).encode := rfl
  rw [written, Wkb.decode_encode id (.point _ _) (Nat.succ_pos _), Tree.prune?]

end Decoding

/-- A whole is laid on a grid part by part: it is refused if a part is, and covers the cells
that the parts cover. -/
structure LaidByParts (cover : Resolution → Geometry Float → Except String (List CellId))
    (r : Resolution) (whole : Geometry Float) (parts : List (Geometry Float)) : Prop where
  refused_iff : (∃ text, cover r whole = .error text) ↔
    ∃ g ∈ parts, ∃ text, cover r g = .error text
  mem_iff : ∀ cells, cover r whole = .ok cells → ∀ c, c ∈ cells ↔
    ∃ g ∈ parts, ∃ found, cover r g = .ok found ∧ c ∈ found

/-- Collections and multi points are laid on a grid part by part. -/
structure Additive (cover : Resolution → Geometry Float → Except String (List CellId)) :
    Prop where
  collection : ∀ r gs, LaidByParts cover r (.collection gs) gs
  multiPoint : ∀ r ps, LaidByParts cover r (.multiPoint ps) (ps.map .point)

section Cover

variable {r : Resolution}

/-- The grid lays a whole part by part if it places the whole where it places the parts, and
gives it their cells. -/
theorem laidByParts_coverIds {whole : Geometry Float} {parts : List (Geometry Float)}
    (placed : H3.checkPlacement whole = .ok () ↔ ∀ g ∈ parts, H3.checkPlacement g = .ok ())
    (cells : ∀ c, c ∈ H3.coverCells r whole ↔ ∃ g ∈ parts, c ∈ H3.coverCells r g) :
    LaidByParts H3.coverIds r whole parts where
  refused_iff := by
    simp only [H3.exists_coverIds_eq_error_iff, ne_eq, placed]
    push Not
    rfl
  mem_iff ids covered c := by
    obtain ⟨all, rfl⟩ := H3.coverIds_eq_ok_iff.mp covered
    have each := placed.mp all
    simp only [H3.coverIds_eq_ok_iff, List.mem_map, cells]
    constructor
    · rintro ⟨d, ⟨g, member, inside⟩, rfl⟩
      exact ⟨g, member, _, ⟨each g member, rfl⟩, List.mem_map_of_mem inside⟩
    · rintro ⟨g, member, _, ⟨_, rfl⟩, found⟩
      obtain ⟨d, inside, rfl⟩ := List.mem_map.mp found
      exact ⟨d, ⟨g, member, inside⟩, rfl⟩

theorem additive_coverIds : Additive H3.coverIds where
  collection r gs := laidByParts_coverIds H3.checkPlacements_eq_ok_iff fun _ => H3.mem_coverMembers
  multiPoint r ps := by
    refine laidByParts_coverIds ?_ fun c => ?_
    · rw [H3.checkPlacement, forM_eq_ok_iff, List.forall_mem_map]
      rfl
    · simp [H3.coverCells, eq_comm]

end Cover

/-- The cells of what decoding has left of a record. -/
def laid (cover : Resolution → Geometry Float → Except String (List CellId)) (r : Resolution) :
    Option (Geometry Double) → Except String (List CellId)
  | none => .ok []
  | some g => cover r (g.map Double.toFloat)

section Laid

variable {cover : Resolution → Geometry Float → Except String (List CellId)} {id : UInt64}
  {r : Resolution}

theorem coveredSet_of_decode {bytes : List UInt8} {left? : Option (Geometry Double)}
    (decoded : Wkb.decode id bytes = .ok left?) :
    coveredSet cover id bytes r.val =
      ((laid cover r left?).mapError (.invalidGeometry id)).map .ofCells := by
  have valid : Resolution.validate r.val = .ok r := Resolution.validate_of_lt r.isLt
  cases left? with
  | none =>
    simp only [coveredSet, valid, decoded]
    rfl
  | some g =>
    simp only [coveredSet, valid, decoded, laid, bind, Except.bind]
    cases cover r (g.map Double.toFloat) <;> rfl

theorem convert_of_decode {compact : CellSet → Except ConversionError CellSet}
    (neutral : compact ∅ = .ok ∅) {bytes : List UInt8} {left? : Option (Geometry Double)}
    (decoded : Wkb.decode id bytes = .ok left?) (compacted : Bool) :
    (Indexer.ofCover cover compact).convert id bytes r.val compacted =
      (laid cover r left?).mapError (.invalidGeometry id) >>= fun cells =>
        (if compacted then compact (.ofCells cells) else .ok (.ofCells cells)).map (·.toList) := by
  rw [ofCover_eq neutral, coveredSet_of_decode decoded]
  cases laid cover r left? <;> rfl

/-- Without compaction a record fails only if the grid refuses it. -/
theorem convert_leaves_eq_ok_iff {compact : CellSet → Except ConversionError CellSet}
    (neutral : compact ∅ = .ok ∅) {bytes : List UInt8} {left? : Option (Geometry Double)}
    (decoded : Wkb.decode id bytes = .ok left?) {found : List CellId} :
    (Indexer.ofCover cover compact).convert id bytes r.val false = .ok found ↔
      ∃ cells, laid cover r left? = .ok cells ∧ (CellSet.ofCells cells).toList = found := by
  rw [convert_of_decode neutral decoded]
  cases laid cover r left? <;> simp [Except.mapError, Except.map, bind, Except.bind]

theorem convert_leaves_eq_error_iff {compact : CellSet → Except ConversionError CellSet}
    (neutral : compact ∅ = .ok ∅) {bytes : List UInt8} {left? : Option (Geometry Double)}
    (decoded : Wkb.decode id bytes = .ok left?) {e : ConversionError} :
    (Indexer.ofCover cover compact).convert id bytes r.val false = .error e ↔
      ∃ text, laid cover r left? = .error text ∧ .invalidGeometry id text = e := by
  rw [convert_of_decode neutral decoded]
  cases laid cover r left? <;> simp [Except.mapError, Except.map, bind, Except.bind]

theorem mem_toList_ofCells {cells : List CellId} {c : CellId} :
    c ∈ (CellSet.ofCells cells).toList ↔ c ∈ cells := by
  rw [Std.ExtTreeSet.mem_toList, CellSet.ofCells, Std.ExtTreeSet.mem_ofList, List.contains_iff_mem]

/-- What is left of a whole is laid part by part, of what is left of its parts. -/
def Assembles (cover : Resolution → Geometry Float → Except String (List CellId)) (r : Resolution)
    (parts : List (Geometry Double)) : Option (Geometry Double) → Prop
  | none => parts = []
  | some whole =>
    LaidByParts cover r (whole.map Double.toFloat) (parts.map (Geometry.map Double.toFloat))

theorem mapMembers_eq_map {α β : Type} (f : α → β) (gs : List (Geometry α)) :
    Geometry.mapMembers f gs = gs.map (Geometry.map f) := by
  induction gs with
  | nil => rfl
  | cons g gs ih => rw [Geometry.mapMembers, ih, List.map_cons]

theorem assembles_collection (additive : Additive cover) (parts : List (Geometry Double)) :
    Assembles cover r parts (Wkb.Container.geometries.assemble? parts) := by
  by_cases empty : parts = []
  · rw [Wkb.Container.assemble?_eq_none_iff.mpr empty]
    exact empty
  · rw [Wkb.Container.assemble?, if_neg empty]
    change LaidByParts cover r (.collection (Geometry.mapMembers Double.toFloat parts)) _
    rw [mapMembers_eq_map]
    exact additive.collection r _

theorem assembles_multiPoint (additive : Additive cover) (ps : List (Coord Double)) :
    Assembles cover r (ps.map .point) (if ps = [] then none else some (.multiPoint ps)) := by
  by_cases empty : ps = []
  · rw [if_pos empty, empty]
    exact List.map_nil
  · rw [if_neg empty]
    have whole := additive.multiPoint r (ps.map (·.map Double.toFloat))
    have parts : (ps.map Geometry.point).map (Geometry.map Double.toFloat) =
        (ps.map (·.map Double.toFloat)).map .point := by
      simp [Geometry.map]
    rwa [← parts] at whole

/-- What decoding leaves of a record that it accepts. -/
def left? (id : UInt64) (bytes : List UInt8) : Option (Geometry Double) :=
  (Wkb.decode id bytes).toOption.getD none

theorem left?_eq {bytes : List UInt8} {decoded? : Option (Geometry Double)}
    (decoded : Wkb.decode id bytes = .ok decoded?) : left? id bytes = decoded? := by
  rw [left?, decoded]
  rfl

/-- Decoding a whole keeps what decoding its parts keeps. -/
theorem Parts.exists_decoded (additive : Additive cover) {kind : Kind} {gs : List (List UInt8)}
    (parts : Parts kind gs) (small : gs.length < Wkb.countBound) (order : ByteOrder)
    (id : UInt64) (r : Resolution) :
    (∀ g ∈ gs, Wkb.decode id g = .ok (left? id g)) ∧
      ∃ whole?, Wkb.decode id (wholeBytes kind order gs) = .ok whole? ∧
        Assembles cover r (gs.filterMap (left? id)) whole? := by
  cases parts with
  | @collection ts fits =>
    rw [List.length_map] at small
    have decoded (t : Tree) (member : t ∈ ts) : Wkb.decode id t.encode = .ok t.prune? :=
      Wkb.decode_encode id (fits t member).1 (Nat.lt_succ_of_lt (fits t member).2)
    have left : (ts.map Tree.encode).filterMap (left? id) = ts.filterMap Tree.prune? := by
      rw [List.filterMap_map]
      exact List.filterMap_congr fun t member => left?_eq (decoded t member)
    refine ⟨?_, _, decode_collection id small fits, ?_⟩
    · intro g member
      obtain ⟨t, inside, rfl⟩ := List.mem_map.mp member
      rw [left?_eq (decoded t inside), decoded t inside]
    · rw [left]
      exact assembles_collection additive _
  | multiPoint points =>
    rw [List.length_map] at small
    have left : (points.map Tree.pointBytes).filterMap (left? id) =
        (Tree.keptPoints points).map .point := by
      rw [List.filterMap_map, ← Tree.filterMap_keptPoints]
      exact List.filterMap_congr fun m _ => left?_eq (decode_pointBytes id m)
    refine ⟨?_, _, decode_multiPoint id small, ?_⟩
    · intro g member
      obtain ⟨m, _, rfl⟩ := List.mem_map.mp member
      rw [left?_eq (decode_pointBytes id m), decode_pointBytes id m]
    · rw [left]
      exact assembles_multiPoint additive _

variable {gs : List (List UInt8)} {left? : List UInt8 → Option (Geometry Double)}
  {whole? : Option (Geometry Double)}

/-- What holds of the cells of some part holds where something is left of the part, unless
it holds of no cells. -/
theorem exists_laid_iff (P : Except String (List CellId) → Prop) (nothing : ¬ P (.ok [])) :
    (∃ g ∈ gs, P (laid cover r (left? g))) ↔
      ∃ g ∈ (gs.filterMap left?).map (Geometry.map Double.toFloat), P (cover r g) := by
  constructor
  · rintro ⟨bytes, inside, holds⟩
    cases found : left? bytes with
    | none =>
      rw [found] at holds
      exact absurd holds nothing
    | some part =>
      rw [found] at holds
      have kept := List.mem_filterMap.mpr ⟨bytes, inside, found⟩
      exact ⟨_, List.mem_map_of_mem kept, holds⟩
  · rintro ⟨g, member, holds⟩
    obtain ⟨part, kept, rfl⟩ := List.mem_map.mp member
    obtain ⟨bytes, inside, found⟩ := List.mem_filterMap.mp kept
    exact ⟨bytes, inside, by rwa [found]⟩

theorem Assembles.refused_iff (h : Assembles cover r (gs.filterMap left?) whole?) :
    (∃ text, laid cover r whole? = .error text) ↔
      ∃ g ∈ gs, ∃ text, laid cover r (left? g) = .error text := by
  refine .trans ?_ (exists_laid_iff (fun answer => ∃ text, answer = .error text) (by simp)).symm
  cases whole? with
  | none =>
    have nothing : gs.filterMap left? = [] := h
    simp [nothing, laid]
  | some whole => exact LaidByParts.refused_iff h

theorem Assembles.mem_iff (h : Assembles cover r (gs.filterMap left?) whole?)
    {cells : List CellId} (covered : laid cover r whole? = .ok cells) (c : CellId) :
    c ∈ cells ↔ ∃ g ∈ gs, ∃ found, laid cover r (left? g) = .ok found ∧ c ∈ found := by
  refine .trans ?_
    (exists_laid_iff (fun answer => ∃ found, answer = .ok found ∧ c ∈ found) (by simp)).symm
  cases whole? with
  | none =>
    have nothing : gs.filterMap left? = [] := h
    obtain rfl := Except.ok.inj covered
    simp [nothing]
  | some whole => exact LaidByParts.mem_iff h cells covered c

section Whole

variable {compact : CellSet → Except ConversionError CellSet} (neutral : compact ∅ = .ok ∅)
  (decoded : ∀ g ∈ gs, Wkb.decode id g = .ok (left? g))
  (assembles : Assembles cover r (gs.filterMap left?) whole?)
include neutral decoded assembles

/-- If all parts can be converted the grid takes the whole, and covers the union. -/
theorem exists_union {found : List UInt8 → List CellId}
    (converted : ∀ g ∈ gs,
      (Indexer.ofCover cover compact).convert id g r.val false = .ok (found g)) :
    ∃ cells, laid cover r whole? = .ok cells ∧ ∀ c, c ∈ cells ↔ ∃ g ∈ gs, c ∈ found g := by
  have part (g : List UInt8) (member : g ∈ gs) :=
    (convert_leaves_eq_ok_iff neutral (decoded g member)).mp (converted g member)
  cases covered : laid cover r whole? with
  | error text =>
    obtain ⟨g, member, text, refused⟩ := assembles.refused_iff.mp ⟨text, covered⟩
    obtain ⟨cells, taken, _⟩ := part g member
    cases refused.symm.trans taken
  | ok cells =>
    refine ⟨cells, rfl, fun c => (assembles.mem_iff covered c).trans ?_⟩
    refine exists_congr fun g => and_congr_right fun member => ?_
    obtain ⟨own, taken, same⟩ := part g member
    rw [← same, mem_toList_ofCells, taken]
    simp

/-- If a part cannot be converted the grid refuses the whole. -/
theorem exists_refused {g : List UInt8} (member : g ∈ gs) {e : ConversionError}
    (failed : (Indexer.ofCover cover compact).convert id g r.val false = .error e) :
    ∃ text, laid cover r whole? = .error text := by
  obtain ⟨text, refused, _⟩ :=
    (convert_leaves_eq_error_iff neutral (decoded g member)).mp failed
  exact assembles.refused_iff.mpr ⟨g, member, text, refused⟩

end Whole

end Laid

/-- A whole that a grid lays part by part covers the union of what its parts cover, listed in
ascending order and once each, and with compaction what the union compacts to; without
parts it covers nothing. It is an invalid geometry if one of its parts is refused. -/
theorem Indexer.convert_whole {cover : Resolution → Geometry Float → Except String (List CellId)}
    (additive : Additive cover) {compact : CellSet → Except ConversionError CellSet}
    (neutral : compact ∅ = .ok ∅) {kind : Kind} {gs : List (List UInt8)} (parts : Parts kind gs)
    (small : gs.length < Wkb.countBound) (order : ByteOrder) (id : UInt64) (r : Resolution) :
    let convert := (Indexer.ofCover cover compact).convert id
    let whole := wholeBytes kind order gs
    (∀ found : List UInt8 → List CellId, (∀ g ∈ gs, convert g r.val false = .ok (found g)) →
      ∃ cells : List CellId, cells.Pairwise (fun a b => a.raw < b.raw) ∧
        (∀ c, c ∈ cells ↔ ∃ g ∈ gs, c ∈ found g) ∧
        convert whole r.val false = .ok cells ∧
        convert whole r.val true = (compact (.ofCells cells)).map (·.toList) ∧
        ((∀ r g cells, cover r g = .ok cells → ∀ c ∈ cells, H3.resolutionOf c = .ok r.val) →
          ∃ kept, (Indexer.ofCover cover H3.compact).convert id whole r.val true = .ok kept ∧
            Compacted r.val cells kept)) ∧
    ((∃ g ∈ gs, ∃ e, convert g r.val false = .error e) →
      ∀ compacted, ∃ text, convert whole r.val compacted = .error (.invalidGeometry id text)) ∧
    (gs = [] → ∀ compacted, convert whole r.val compacted = .ok []) := by
  intro convert whole
  obtain ⟨decoded, whole?, decodedWhole, assembles⟩ :=
    parts.exists_decoded additive small order id r
  refine ⟨fun found converted => ?_, ?_, ?_⟩
  · obtain ⟨cells, covered, members⟩ := exists_union neutral decoded assembles converted
    refine ⟨(CellSet.ofCells cells).toList, CellSet.ascending_toList _, fun c => ?_, ?_, ?_, ?_⟩
    · rw [mem_toList_ofCells]
      exact members c
    · exact (convert_leaves_eq_ok_iff neutral decodedWhole).mpr ⟨cells, covered, rfl⟩
    · rw [CellSet.ofCells_toList]
      exact (convert_of_decode neutral decodedWhole true).trans (by rw [covered]; rfl)
    · intro single
      exact exists_ofCover_compacted single
        ((convert_leaves_eq_ok_iff H3.compact_empty decodedWhole).mpr ⟨cells, covered, rfl⟩)
  · rintro ⟨g, member, e, failed⟩ compacted
    obtain ⟨text, refused⟩ := exists_refused neutral decoded assembles member failed
    refine ⟨text, ?_⟩
    exact (convert_of_decode neutral decodedWhole compacted).trans (by rw [refused]; rfl)
  · rintro rfl compacted
    have nothing (g : List UInt8) (member : g ∈ ([] : List (List UInt8))) :
        convert g r.val false = .ok [] := by
      cases member
    obtain ⟨cells, covered, members⟩ := exists_union neutral decoded assembles nothing
    obtain rfl : cells = [] := List.eq_nil_iff_forall_not_mem.mpr (by simpa using members)
    refine (convert_of_decode neutral decodedWhole compacted).trans ?_
    rw [covered]
    cases compacted with
    | false => rfl
    | true =>
      change (compact ∅).map (·.toList) = _
      rw [neutral]
      rfl

/-- The origin twice, in both byte orders, around an empty collection. -/
def originParts : List Tree :=
  [.point .big ⟨.ofNat 0, .ofNat 0⟩, .members .geometries .little [],
    .point .little ⟨.ofNat 0, .ofNat 0⟩]

def farPoint : ByteOrder × Coord Double := (.little, ⟨.ofNat 0x7ff0000000000000, .ofNat 0⟩)

theorem Indexer.convert_whole_origin :
    (∃ cells kept,
      H3.indexer.convert 7 (wholeBytes .collection .big (originParts.map Tree.encode)) 5 false =
        .ok cells ∧
      H3.indexer.convert 7 (wholeBytes .collection .big (originParts.map Tree.encode)) 5 true =
        .ok kept ∧ Compacted 5 cells kept) ∧
    ∃ text, H3.indexer.convert 7
      (wholeBytes .multiPoint .little ([(.big, ⟨.ofNat 0, .ofNat 0⟩), farPoint].map
        Tree.pointBytes)) 5 true = .error (.invalidGeometry 7 text) := by
  have small (n : Nat) (bound : n < 4) : n < Wkb.countBound :=
    Nat.lt_of_lt_of_le bound (by decide)
  constructor
  · have fits : ∀ t ∈ originParts, t.Acceptable ∧ t.depth < Wkb.maxDepth := by
      simp only [originParts, List.forall_mem_cons]
      exact ⟨⟨.point _ _, by decide⟩, ⟨.members (by decide) (by simp) (by simp), by decide⟩,
        ⟨.point _ _, by decide⟩, by simp⟩
    have runs : ∀ g ∈ originParts.map Tree.encode,
        (H3.indexer.convert 7 g 5 false).toBool = true := by
      decide +kernel
    obtain ⟨found, converted⟩ := exists_values fun g member => exists_ok_of_toBool (runs g member)
    obtain ⟨cells, _, _, leaves, _, compacts⟩ := (Indexer.convert_whole additive_coverIds
      H3.compact_empty (.collection fits) (small _ (by decide)) .big 7 5).1 found converted
    obtain ⟨kept, compacted, related⟩ := compacts H3.resolutionOf_of_mem_coverIds
    exact ⟨cells, kept, leaves, compacted, related⟩
  · have refused : (H3.indexer.convert 7 (Tree.pointBytes farPoint) 5 false).toBool = false := by
      decide +kernel
    obtain ⟨e, failed⟩ := exists_error_of_toBool refused
    exact (Indexer.convert_whole additive_coverIds H3.compact_empty (.multiPoint _)
      (small _ (by decide)) .little 7 5).2.1 ⟨_, by simp, e, failed⟩ true

end HexCover.Vector
