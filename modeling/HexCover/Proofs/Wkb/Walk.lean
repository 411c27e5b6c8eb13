import HexCover.Proofs.Wkb.NormalForm
import HexCover.Proofs.Wkb.Steps

/-! The walk reads the trees of the grammar. It succeeds exactly when the input goes on
with what some tree is written as, and then it has appended the normal form of that
tree. The induction is on the depth that is left; one level of it goes through the
types of geometries, and the members of a container are read by the level below. -/
namespace HexCover.Wkb

/-- Keep a member unless it is empty. -/
def Kept.add (kept : Kept) : Option (List UInt8) → Kept
  | none => kept
  | some bytes => ⟨kept.count + 1, kept.bytes ++ bytes⟩

theorem foldl_add {α : Type} (normal? : α → Option (List UInt8)) (as : List α) (kept : Kept) :
    as.foldl (fun kept a => kept.add (normal? a)) kept =
      ⟨kept.count + (as.filterMap normal?).length,
        kept.bytes ++ (as.filterMap normal?).flatten⟩ := by
  induction as generalizing kept with
  | nil => simp
  | cons a as ih =>
    rw [List.foldl_cons, ih, List.filterMap_cons]
    cases normal? a with
    | none => rfl
    | some bytes => simp [Kept.add, Nat.add_assoc, Nat.add_comm 1]

theorem body?_foldl_add {α : Type} (normal? : α → Option (List UInt8)) (as : List α) :
    (as.foldl (fun kept a => Kept.add kept (normal? a)) ⟨0, []⟩).body? =
      counted? (as.filterMap normal?) := by
  simp [foldl_add, Kept.body?, counted?]

theorem checkMember_eq_ok_iff {container : Container} {member : Kind} {position : Nat} :
    checkMember container.kind member position = .ok () ↔ container.Admits member := by
  cases container <;> cases member <;> simp [checkMember, Container.kind, Container.Admits]

namespace Tree

theorem encode_eq (t : Tree) :
    t.encode = [orderMarker t.order] ++ (t.order.write 4 t.kind.code ++ t.body) := by
  simp [encode, header]

theorem nine_le_length_encode (t : Tree) : 9 ≤ t.encode.length := by
  have four : 4 ≤ t.body.length := by
    cases t <;> simp [body, coordsBytes, ringsBytes, length_coordBytes]
  rw [encode, List.length_append, length_header]
  omega

theorem length_pointBytes (m : ByteOrder × Coord Double) : (pointBytes m).length = 21 := by
  rw [pointBytes, List.length_append, length_header, length_coordBytes]

def normalPoint? (m : ByteOrder × Coord Double) : Option (List UInt8) :=
  if EmptyPoint m.2 then none else some (coordBytes .little m.2)

theorem filterMap_normalPoint? (points : List (ByteOrder × Coord Double)) :
    points.filterMap normalPoint? = (keptPoints points).map (coordBytes .little) :=
  filterMap_keptPoints (coordBytes .little) points

end Tree

open Cursor HexCover.Wkb.Tree

theorem pointMember_eq_ok_iff (kept kept' : Kept) (c c' : Cursor) :
    pointMember kept c = .ok (kept', c') ↔
      ∃ m : ByteOrder × Coord Double, True ∧ kept' = kept.add (normalPoint? m) ∧
        c.Advances (pointBytes m) c' := by
  have written (m : ByteOrder × Coord Double) : pointBytes m =
      [orderMarker m.1] ++ (m.1.write 4 Kind.point.code ++ coordBytes m.1 m.2) := by
    simp [pointBytes, header]
  simp only [pointMember, bind_eq_ok_iff, byteOrder_eq_ok_iff, word_eq_ok_iff, written,
    advances_append_iff, Prod.exists]
  constructor
  · rintro ⟨order, c₁, marker, code, c₂, ⟨-, word⟩, found⟩
    split at found
    · cases found
    · rename_i point
      rw [bind_eq_ok_iff] at found
      obtain ⟨⟨p, c₃⟩, coord, found⟩ := found
      rw [coord_eq_ok_iff] at coord
      have same : code = Kind.point.code := Decidable.not_not.mp point
      refine ⟨order, p, trivial, ?_⟩
      rw [normalPoint?]
      simp only [isEmptyPoint_iff] at found
      split at found <;> cases found <;>
        exact ⟨by simp [Kept.add, *], c₁, marker, c₂, same ▸ word, coord⟩
  · rintro ⟨order, p, -, rfl, c₁, marker, c₂, word, coord⟩
    refine ⟨order, c₁, marker, _, c₂, ⟨Kind.point.code_lt, word⟩, ?_⟩
    rw [if_neg (by simp), coord_eq_ok_iff.mpr coord]
    change (if isEmptyPoint p = true then _ else _) = _
    simp only [isEmptyPoint_iff, normalPoint?]
    split <;> rfl

section Shapes

variable {inner : List UInt8 → Step (Option Kind × List UInt8)} {order : ByteOrder}
  {bytes? : Option (List UInt8)} {c c' : Cursor}

theorem body?_point_eq_ok_iff :
    body? inner .point order c = .ok (bytes?, c') ↔
      ∃ p, bytes? = (point order p).normalBody? ∧ c.Advances (point order p).body c' := by
  simp only [body?, bind_eq_ok_iff, Prod.exists, coord_eq_ok_iff, isEmptyPoint_iff]
  constructor
  · rintro ⟨p, c₁, advance, found⟩
    cases found
    exact ⟨p, rfl, advance⟩
  · rintro ⟨p, rfl, advance⟩
    exact ⟨p, c', advance, rfl⟩

theorem body?_lineString_eq_ok_iff :
    body? inner .lineString order c = .ok (bytes?, c') ↔
      ∃ line, line.length < countBound ∧ bytes? = (lineString order line).normalBody? ∧
        c.Advances (lineString order line).body c' := by
  have normal (line : List (Coord Double)) : (lineString order line).normalBody? =
      if line.length = 0 then none else some ([] ++ coordsBytes .little line) := by
    simp only [normalBody?, counted?_map, List.length_eq_zero_iff]
    rfl
  simp only [body?, bind_eq_ok_iff, Prod.exists, copyCoords_eq_ok_iff, normal]
  constructor
  · rintro ⟨n, bytes, c₁, ⟨line, rfl, small, rfl, advance⟩, found⟩
    cases found
    exact ⟨line, small, rfl, advance⟩
  · rintro ⟨line, small, rfl, advance⟩
    exact ⟨_, _, c', ⟨line, rfl, small, rfl, advance⟩, rfl⟩

theorem body?_polygon_eq_ok_iff :
    body? inner .polygon order c = .ok (bytes?, c') ↔
      ∃ rings, (rings.length < countBound ∧ ∀ ring ∈ rings, ring.length < countBound) ∧
        bytes? = (polygon order rings).normalBody? ∧ c.Advances (polygon order rings).body c' := by
  have least (ring : List (Coord Double)) : 4 ≤ (coordsBytes order ring).length := by
    simp [coordsBytes]
  have normal (rings : List (List (Coord Double))) : (polygon order rings).normalBody? =
      if rings.length = 0 then none
      else some (rings.foldl (fun out ring => out ++ coordsBytes .little ring)
        (Bytes.ofNat 4 rings.length)) := by
    rw [normalBody?, counted?_map, List.foldl_append_eq_append, List.flatMap_def]
    simp only [List.length_eq_zero_iff]
  simp only [body?, bind_eq_ok_iff, Prod.exists,
    counted_eq_ok_iff (copyRing_eq_ok_iff order) least, normal, Tree.body, ringsBytes]
  constructor
  · rintro ⟨n, bytes, c₁, ⟨rings, rfl, small, rfl, advance⟩, found⟩
    cases found
    exact ⟨rings, small, rfl, advance⟩
  · rintro ⟨rings, small, rfl, advance⟩
    exact ⟨_, _, c', ⟨rings, rfl, small, rfl, advance⟩, rfl⟩

theorem countedMembers_eq_ok_iff {α : Type} {member : Kept → Step Kept} {Readable : α → Prop}
    {normal? : α → Option (List UInt8)} {bytes : α → List UInt8} {itemBytes : Nat}
    (reads : ∀ kept kept' c c', member kept c = .ok (kept', c') ↔
      ∃ a, Readable a ∧ kept' = kept.add (normal? a) ∧ Advances c (bytes a) c')
    (least : ∀ a, itemBytes ≤ (bytes a).length) :
    countedMembers itemBytes member order c = .ok (bytes?, c') ↔
      ∃ as : List α, (as.length < countBound ∧ ∀ a ∈ as, Readable a) ∧
        bytes? = counted? (as.filterMap normal?) ∧
        c.Advances (order.write 4 as.length ++ as.flatMap bytes) c' := by
  simp only [countedMembers, bind_eq_ok_iff, Prod.exists, counted_eq_ok_iff reads least]
  constructor
  · rintro ⟨n, kept, c₁, ⟨as, rfl, readable, rfl, advance⟩, found⟩
    cases found
    exact ⟨as, readable, body?_foldl_add _ _, advance⟩
  · rintro ⟨as, readable, rfl, advance⟩
    exact ⟨_, _, c', ⟨as, rfl, readable, rfl, advance⟩, by rw [body?_foldl_add]; rfl⟩

theorem body?_multiPoint_eq_ok_iff :
    body? inner .multiPoint order c = .ok (bytes?, c') ↔
      ∃ points, points.length < countBound ∧ bytes? = (multiPoint order points).normalBody? ∧
        c.Advances (multiPoint order points).body c' := by
  have least (m : ByteOrder × Coord Double) : 21 ≤ (pointBytes m).length :=
    Nat.le_of_eq (length_pointBytes m).symm
  rw [body?, countedMembers_eq_ok_iff pointMember_eq_ok_iff least]
  simp only [normalBody?, Tree.body, filterMap_normalPoint?, implies_true, and_true]

end Shapes

/-- A step that reads the trees of the grammar up to a depth. -/
def ReadsTrees (levels : Nat) (inner : List UInt8 → Step (Option Kind × List UInt8)) : Prop :=
  ∀ out out' kind? c c', inner out c = .ok ((kind?, out'), c') ↔
    ∃ t : Tree, (t.Acceptable ∧ t.depth < levels) ∧ kind? = t.normal?.map (fun _ => t.kind) ∧
      out' = out ++ t.normal?.getD [] ∧ c.Advances t.encode c'

section Body

variable {levels : Nat} {inner : List UInt8 → Step (Option Kind × List UInt8)}
  (reads : ReadsTrees levels inner)

include reads

theorem geometryMember_eq_ok_iff {container : Container} (kept kept' : Kept) (c c' : Cursor) :
    geometryMember inner container.kind kept c = .ok (kept', c') ↔
      ∃ m : Tree, ((m.Acceptable ∧ m.depth < levels) ∧
          (container.Admits m.kind ∨ m.Empty)) ∧
        kept' = kept.add m.normal? ∧ c.Advances m.encode c' := by
  simp only [geometryMember, bind_eq_ok_iff, Prod.exists, reads _ _ _ _ _]
  constructor
  · rintro ⟨member?, bytes, c₁, ⟨m, fits, rfl, rfl, advance⟩, found⟩
    cases normal : m.normal? with
    | none =>
      simp only [normal, Option.map_none, Option.getD_none, List.append_nil] at found
      cases found
      exact ⟨m, ⟨fits, .inr ((normal?_eq_none_iff fits.1).mp normal)⟩, by rw [normal]; rfl, advance⟩
    | some bytes =>
      simp only [normal, Option.map_some, Option.getD_some] at found
      rw [bind_eq_ok_iff] at found
      obtain ⟨_, checked, found⟩ := found
      cases found
      exact ⟨m, ⟨fits, .inl (checkMember_eq_ok_iff.mp checked)⟩, by rw [normal]; rfl, advance⟩
  · rintro ⟨m, ⟨fits, admitted⟩, rfl, advance⟩
    refine ⟨_, _, c', ⟨m, fits, rfl, rfl, advance⟩, ?_⟩
    cases normal : m.normal? with
    | none => simp [Kept.add]; rfl
    | some bytes =>
      have left : ¬ m.Empty := by
        rw [← normal?_eq_none_iff fits.1, normal]
        exact Option.some_ne_none bytes
      have checked : checkMember container.kind m.kind c.position = .ok () :=
        checkMember_eq_ok_iff.mpr (admitted.resolve_right left)
      simp only [Option.map_some, Option.getD_some, checked]
      rfl

theorem body?_members_eq_ok_iff {container : Container} {order : ByteOrder}
    {bytes? : Option (List UInt8)} {c c' : Cursor} :
    body? inner container.kind order c = .ok (bytes?, c') ↔
      ∃ ms, (ms.length < countBound ∧ ∀ m ∈ ms, (m.Acceptable ∧ m.depth < levels) ∧
          (container.Admits m.kind ∨ m.Empty)) ∧
        bytes? = (members container order ms).normalBody? ∧
        c.Advances (members container order ms).body c' := by
  have unfolded : body? inner container.kind order c =
      countedMembers 9 (geometryMember inner container.kind) order c := by
    cases container <;> rfl
  rw [unfolded,
    countedMembers_eq_ok_iff (geometryMember_eq_ok_iff reads) nine_le_length_encode]
  simp only [normalBody?, Tree.body, normalMembers_eq_filterMap, membersBytes_eq_flatMap]

/-- One level of the walk, below the header of a geometry. -/
theorem body?_eq_ok_iff {kind : Kind} {order : ByteOrder} {bytes? : Option (List UInt8)}
    {c c' : Cursor} :
    body? inner kind order c = .ok (bytes?, c') ↔
      ∃ t : Tree, (t.kind = kind ∧ t.order = order) ∧ (t.Acceptable ∧ t.depth < levels + 1) ∧
        bytes? = t.normalBody? ∧ c.Advances t.body c' := by
  constructor
  · intro read
    have container_case (container : Container) (same : container.kind = kind) :
        ∃ t : Tree, (t.kind = kind ∧ t.order = order) ∧ (t.Acceptable ∧ t.depth < levels + 1) ∧
          bytes? = t.normalBody? ∧ c.Advances t.body c' := by
      subst same
      obtain ⟨ms, ⟨small, each⟩, found⟩ := (body?_members_eq_ok_iff reads).mp read
      have acceptable : (members container order ms).Acceptable :=
        .members small (fun m member => (each m member).2) fun m member => (each m member).1.1
      have shallow : (members container order ms).depth < levels + 1 :=
        depth_members_lt_iff.mpr fun m member => (each m member).1.2
      exact ⟨_, ⟨rfl, rfl⟩, ⟨acceptable, shallow⟩, found⟩
    cases kind with
    | point =>
      obtain ⟨p, found⟩ := body?_point_eq_ok_iff.mp read
      exact ⟨_, ⟨rfl, rfl⟩, ⟨.point order p, Nat.succ_pos _⟩, found⟩
    | lineString =>
      obtain ⟨line, small, found⟩ := body?_lineString_eq_ok_iff.mp read
      exact ⟨_, ⟨rfl, rfl⟩, ⟨.lineString small, Nat.succ_pos _⟩, found⟩
    | polygon =>
      obtain ⟨rings, ⟨small, smalls⟩, found⟩ := body?_polygon_eq_ok_iff.mp read
      exact ⟨_, ⟨rfl, rfl⟩, ⟨.polygon small smalls, Nat.succ_pos _⟩, found⟩
    | multiPoint =>
      obtain ⟨points, small, found⟩ := body?_multiPoint_eq_ok_iff.mp read
      exact ⟨_, ⟨rfl, rfl⟩, ⟨.multiPoint small, Nat.succ_pos _⟩, found⟩
    | multiLineString => exact container_case .lineStrings rfl
    | multiPolygon => exact container_case .polygons rfl
    | collection => exact container_case .geometries rfl
  · rintro ⟨t, ⟨rfl, rfl⟩, ⟨acceptable, shallow⟩, found⟩
    cases acceptable with
    | point order p => exact body?_point_eq_ok_iff.mpr ⟨p, found⟩
    | lineString small => exact body?_lineString_eq_ok_iff.mpr ⟨_, small, found⟩
    | polygon small smalls => exact body?_polygon_eq_ok_iff.mpr ⟨_, ⟨small, smalls⟩, found⟩
    | multiPoint small => exact body?_multiPoint_eq_ok_iff.mpr ⟨_, small, found⟩
    | members small admitted below =>
      rw [depth_members_lt_iff] at shallow
      have each := fun m member => (⟨⟨below m member, shallow m member⟩, admitted m member⟩ :
        (m.Acceptable ∧ m.depth < levels) ∧ (_ ∨ m.Empty))
      exact (body?_members_eq_ok_iff reads).mpr ⟨_, ⟨small, each⟩, found⟩

end Body

/-- The walk reads the trees that are nested at most as deep as it may go. -/
theorem walk_readsTrees (levels : Nat) : ReadsTrees levels (walk levels) := by
  induction levels with
  | zero =>
    intro out out' kind? c c'
    simp [walk]
  | succ levels ih =>
    intro out out' kind? c c'
    simp only [walk, bind_eq_ok_iff, Prod.exists, byteOrder_eq_ok_iff, word_eq_ok_iff, encode_eq,
      advances_append_iff]
    constructor
    · rintro ⟨order, c₁, marker, code, c₂, ⟨-, word⟩, found⟩
      cases known : Kind.ofCode? code with
      | none =>
        rw [known] at found
        cases found
      | some kind =>
        rw [known] at found
        obtain ⟨⟨bytes?, c₃⟩, read, found⟩ := bind_eq_ok_iff.mp found
        obtain ⟨t, ⟨rfl, rfl⟩, fits, rfl, body⟩ := (body?_eq_ok_iff ih).mp read
        rw [ofCode?_eq_some_iff] at known
        refine ⟨t, fits, ?_⟩
        rw [normal?]
        cases normal : t.normalBody? <;> simp only [normal] at found <;> cases found
        · exact ⟨rfl, by simp, c₁, marker, c₂, known ▸ word, body⟩
        · exact ⟨rfl, by simp, c₁, marker, c₂, known ▸ word, body⟩
    · rintro ⟨t, fits, rfl, rfl, c₁, marker, c₂, word, body⟩
      refine ⟨t.order, c₁, marker, _, c₂, ⟨t.kind.code_lt, word⟩, ?_⟩
      have read := (body?_eq_ok_iff ih).mpr ⟨t, ⟨rfl, rfl⟩, fits, rfl, body⟩
      rw [ofCode?_eq_some_iff.mpr rfl]
      refine bind_eq_ok_iff.mpr ⟨_, read, ?_⟩
      rw [normal?]
      cases t.normalBody? <;> simp <;> rfl

end HexCover.Wkb
