import HexCover.Proofs.Wkb.Grammar
import HexCover.Wkb.Decode
import Mathlib.Data.List.Forall2

/-! The normal form of a tree and what is read back from it. Both the normal form and
the pruned geometry leave out the empty parts, so they are there together, and the
members that one keeps are the members that the other keeps. A reader is followed
through a normal form whatever bytes come after it; this is what lets the statement
for a member be used in the middle of a list of members. -/
namespace HexCover.Wkb

theorem length_header (order : ByteOrder) (kind : Kind) : (header order kind).length = 5 := by
  simp [header]

theorem length_coordBytes (order : ByteOrder) (p : Coord Double) :
    (coordBytes order p).length = 16 := by
  simp [coordBytes]

/-- A count and the items it counts, if there are any. -/
def counted? (items : List (List UInt8)) : Option (List UInt8) :=
  if items = [] then none else some (Bytes.ofNat 4 items.length ++ items.flatten)

theorem counted?_eq_none_iff {items : List (List UInt8)} : counted? items = none ↔ items = [] := by
  simp [counted?]

theorem counted?_map {α : Type} (bytes : α → List UInt8) (as : List α) :
    counted? (as.map bytes) =
      if as = [] then none else some (Bytes.ofNat 4 as.length ++ as.flatMap bytes) := by
  simp [counted?, List.flatMap_def]

namespace Tree

mutual

/-- The normal form of a tree after its header, unless the tree is empty. -/
def normalBody? : Tree → Option (List UInt8)
  | point _ p => if EmptyPoint p then none else some (coordBytes .little p)
  | lineString _ line => counted? (line.map (coordBytes .little))
  | polygon _ rings => counted? (rings.map (coordsBytes .little))
  | multiPoint _ points => counted? ((keptPoints points).map (coordBytes .little))
  | members _ _ ms => counted? (normalMembers ms)

def normalMembers : List Tree → List (List UInt8)
  | [] => []
  | m :: ms => match m.normalBody? with
    | none => normalMembers ms
    | some body => (header .little m.kind ++ body) :: normalMembers ms

end

def normal? (t : Tree) : Option (List UInt8) := t.normalBody?.map (header .little t.kind ++ ·)

theorem normalMembers_eq_filterMap (ms : List Tree) : normalMembers ms = ms.filterMap normal? := by
  induction ms with
  | nil => rfl
  | cons m ms ih =>
    rw [normalMembers, List.filterMap_cons, ih, normal?]
    cases m.normalBody? <;> rfl

end Tree

/-- A reader gives a value for some bytes, whatever comes after them. -/
def Reads {α : Type} (reader : Reader α) (bytes : List UInt8) (a : α) : Prop :=
  ∀ rest, reader (bytes ++ rest) = some (a, rest)

theorem readBytes_append {n : Nat} {bytes : List UInt8} (length : bytes.length = n) :
    Reads (readBytes n) bytes bytes := by
  intro rest
  subst length
  simp [readBytes]

theorem reads_word {n : Nat} (small : n < countBound) : Reads readWord (Bytes.ofNat 4 n) n := by
  intro rest
  have value : Bytes.toNat (Bytes.ofNat 4 n) = n := by
    rw [Bytes.toNat_ofNat]
    exact Nat.mod_eq_of_lt small
  simp [readWord, readBytes_append (Bytes.length_ofNat 4 n) rest, value]

theorem reads_coord (p : Coord Double) : Reads readCoord (coordBytes .little p) p := by
  intro rest
  have first := readBytes_append (Double.length_write .little p.x) (p.y.write .little ++ rest)
  have second := readBytes_append (Double.length_write .little p.y) rest
  simp [readCoord, coordBytes, first, second, Double.read_write]

theorem reads_kind (kind : Kind) : Reads readKind (header .little kind) kind := by
  intro rest
  have marker : readBytes 1 ([orderMarker .little] ++ (Bytes.ofNat 4 kind.code ++ rest)) = _ :=
    readBytes_append rfl _
  have code := reads_word (n := kind.code) (by cases kind <;> decide) rest
  have known : Kind.ofCode? kind.code = some kind := by cases kind <;> rfl
  simp_all [readKind, header, ByteOrder.write]

theorem reads_items {α : Type} {item : Reader α} {items : List (List UInt8)} {as : List α}
    (h : List.Forall₂ (Reads item) items as) :
    Reads (readItems item as.length) items.flatten as := by
  induction h with
  | nil => exact fun rest => rfl
  | cons head _ ih =>
    intro rest
    simp [readItems, head _, ih rest]

theorem reads_counted {α : Type} {item : Reader α} {items : List (List UInt8)} {as : List α}
    (h : List.Forall₂ (Reads item) items as) (small : items.length < countBound) :
    Reads (readCounted item) (Bytes.ofNat 4 items.length ++ items.flatten) as := by
  intro rest
  have count := reads_word small (items.flatten ++ rest)
  have each := reads_items h rest
  rw [← h.length_eq] at each
  simp [readCounted, count, each]

/-- Values that are all written are read back from what they are written as. -/
theorem reads_counted_map {α : Type} {item : Reader α} {bytes : α → List UInt8} {as : List α}
    (reads : ∀ a ∈ as, Reads item (bytes a) a) (small : as.length < countBound) :
    Reads (readCounted item) (Bytes.ofNat 4 as.length ++ as.flatMap bytes) as := by
  have each : List.Forall₂ (Reads item) (as.map bytes) as := by
    rw [List.forall₂_map_left_iff]
    exact List.forall₂_same.mpr reads
  simpa [List.flatMap_def] using reads_counted each (by simpa using small)

theorem reads_line {line : List (Coord Double)} (small : line.length < countBound) :
    Reads (readCounted readCoord) (coordsBytes .little line) line :=
  reads_counted_map (fun p _ => reads_coord p) small

theorem reads_polygon {outer : List (Coord Double)} {holes : List (List (Coord Double))}
    (small : (outer :: holes).length < countBound)
    (smalls : ∀ ring ∈ outer :: holes, ring.length < countBound) :
    Reads readPolygon (ringsBytes .little (outer :: holes))
      ⟨Tree.close outer, holes.map Tree.close⟩ := by
  intro rest
  have each := reads_counted_map (fun ring member => reads_line (smalls ring member)) small rest
  simp only [ringsBytes, ByteOrder.write, readPolygon, each, Polygon.ofRings?,
    funext Tree.closeRing_same, Option.bind_eq_bind, Option.bind_some, Option.pure_def]

/-- Lists that keep related values of the same items are related. -/
theorem forall₂_filterMap {α β γ : Type} {R : β → γ → Prop} {f : α → Option β} {g : α → Option γ}
    {as : List α} (h : ∀ a ∈ as, Option.Rel R (f a) (g a)) :
    List.Forall₂ R (as.filterMap f) (as.filterMap g) := by
  induction as with
  | nil => exact .nil
  | cons a as ih =>
    have tail := ih fun b member => h b (by simp [member])
    have head := h a (by simp)
    rw [List.filterMap_cons, List.filterMap_cons]
    generalize f a = found at head
    generalize g a = found' at head
    cases head with
    | none => exact tail
    | some related => exact .cons related tail

/-- A related value that has a part is related to its part. -/
theorem forall₂_filterMap_right {α β γ : Type} {R : α → β → Prop} {S : α → γ → Prop}
    {part? : β → Option γ} {as : List α} {bs : List β} (h : List.Forall₂ R as bs)
    (found : ∀ b ∈ bs, ∃ c, part? b = some c) (step : ∀ a b c, R a b → part? b = some c → S a c) :
    List.Forall₂ S as (bs.filterMap part?) := by
  induction h with
  | nil => exact .nil
  | @cons a b as bs head _ ih =>
    obtain ⟨c, part⟩ := found b (by simp)
    rw [List.filterMap_cons, part]
    exact .cons (step a b c head part) (ih fun b member => found b (by simp [member]))

theorem readAs_eq_some_iff {α β : Type} {make : α → β} {item : Reader α} {bytes rest : List UInt8}
    {b : β} :
    readAs make item bytes = some (b, rest) ↔ ∃ a, item bytes = some (a, rest) ∧ make a = b := by
  cases h : item bytes with
  | none => simp [readAs, h]
  | some found => simp [readAs, h, Prod.ext_iff, and_comm]

theorem Reads.as {α β : Type} {item : Reader α} {bytes : List UInt8} {a : α} (make : α → β)
    (h : Reads item bytes a) : Reads (readAs make item) bytes (make a) :=
  fun rest => readAs_eq_some_iff.mpr ⟨a, h rest, rfl⟩

theorem kindOf_readBody {inner : Reader (Geometry Double)} {kind : Kind} {bytes rest : List UInt8}
    {g : Geometry Double} (h : readBody inner kind bytes = some (g, rest)) : kindOf g = kind := by
  cases kind <;> obtain ⟨a, _, rfl⟩ := readAs_eq_some_iff.mp h <;> rfl

theorem reads_geometry {levels : Nat} {kind : Kind} {bytes : List UInt8} {g : Geometry Double}
    (h : Reads (readBody (readGeometry levels) kind) bytes g) :
    Reads (readGeometry (levels + 1)) (header .little kind ++ bytes) g := by
  intro rest
  simp [readGeometry, reads_kind kind _, h rest]

/-- What reads as a geometry of a type reads as a member that has to be of that type. -/
theorem reads_member_of_geometry {α : Type} {levels : Nat} {kind : Kind} {body : Reader α}
    {make : α → Geometry Double} {bytes : List UInt8} {a : α}
    (shape : ∀ inner, readBody inner kind = readAs make body) (type : kindOf (make a) = kind)
    (injective : Function.Injective make) (h : Reads (readGeometry levels) bytes (make a)) :
    Reads (readMember kind body) bytes a := by
  intro rest
  have read := h rest
  cases levels with
  | zero => cases read
  | succ levels =>
    simp only [readGeometry, Option.bind_eq_bind, Option.bind_eq_some_iff, Prod.exists] at read
    obtain ⟨kind', bytes', found, read⟩ := read
    have same : kind' = kind := (kindOf_readBody read).symm.trans type
    subst same
    rw [shape, readAs_eq_some_iff] at read
    obtain ⟨a', read, made⟩ := read
    cases injective made
    simp [readMember, found, read]

theorem eq_of_lineOf? {g : Geometry Double} {line : List (Coord Double)}
    (h : lineOf? g = some line) : g = .lineString line := by
  cases g <;> cases h
  rfl

theorem eq_of_polygonOf? {g : Geometry Double} {p : Polygon Double}
    (h : polygonOf? g = some p) : g = .polygon p := by
  cases g <;> cases h
  rfl

theorem lineOf?_of_kindOf {g : Geometry Double} (h : kindOf g = .lineString) :
    ∃ line, lineOf? g = some line := by
  cases g <;> cases h
  exact ⟨_, rfl⟩

theorem polygonOf?_of_kindOf {g : Geometry Double} (h : kindOf g = .polygon) :
    ∃ p, polygonOf? g = some p := by
  cases g <;> cases h
  exact ⟨_, rfl⟩

/-- Members that are read back make up a container whose body is read back. -/
theorem reads_members {container : Container} {levels : Nat} {items : List (List UInt8)}
    {gs : List (Geometry Double)} (each : List.Forall₂ (Reads (readGeometry levels)) items gs)
    (small : items.length < countBound) (admitted : ∀ g ∈ gs, container.Admits (kindOf g))
    (some_left : gs ≠ []) :
    ∃ g, container.assemble? gs = some g ∧
      Reads (readBody (readGeometry levels) container.kind)
        (Bytes.ofNat 4 items.length ++ items.flatten) g := by
  simp only [Container.assemble?, if_neg some_left]
  cases container with
  | lineStrings =>
    have lines : List.Forall₂ (Reads (readMember .lineString (readCounted readCoord))) items
        (gs.filterMap lineOf?) := by
      refine forall₂_filterMap_right each (fun g member => lineOf?_of_kindOf (admitted g member)) ?_
      intro bytes g line read part
      rw [eq_of_lineOf? part] at read
      exact reads_member_of_geometry (fun _ => rfl) rfl (fun _ _ => Geometry.lineString.inj) read
    exact ⟨_, rfl, (reads_counted lines small).as Geometry.multiLineString⟩
  | polygons =>
    have polygons : List.Forall₂ (Reads (readMember .polygon readPolygon)) items
        (gs.filterMap polygonOf?) := by
      refine forall₂_filterMap_right each
        (fun g member => polygonOf?_of_kindOf (admitted g member)) ?_
      intro bytes g p read part
      rw [eq_of_polygonOf? part] at read
      exact reads_member_of_geometry (fun _ => rfl) rfl (fun _ _ => Geometry.polygon.inj) read
    exact ⟨_, rfl, (reads_counted polygons small).as Geometry.multiPolygon⟩
  | geometries => exact ⟨_, rfl, (reads_counted each small).as Geometry.collection⟩

namespace Tree

theorem kindOf_prune {t : Tree} {g : Geometry Double} (h : t.prune? = some g) :
    kindOf g = t.kind := by
  cases t with
  | point order p =>
    rw [prune?] at h
    split at h <;> cases h
    rfl
  | lineString order line =>
    rw [prune?] at h
    split at h <;> cases h
    rfl
  | polygon order rings =>
    cases rings <;> cases h
    rfl
  | multiPoint order points =>
    rw [prune?] at h
    split at h <;> cases h
    rfl
  | members container order ms =>
    simp only [prune?, Container.assemble?] at h
    split at h
    · cases h
    · cases container <;> cases h <;> rfl

theorem pruneAll_admitted {container : Container} {ms : List Tree}
    (admitted : ∀ m ∈ ms, container.Admits m.kind ∨ m.Empty) :
    ∀ g ∈ pruneAll ms, container.Admits (kindOf g) := by
  intro g member
  rw [pruneAll_eq_filterMap, List.mem_filterMap] at member
  obtain ⟨m, member, found⟩ := member
  rw [kindOf_prune found]
  exact (admitted m member).resolve_right fun empty => by simp [empty.prune?_eq_none] at found

/-- A container is kept together with its members. -/
theorem rel_normal_members {container : Container} {order : ByteOrder} {ms : List Tree}
    {levels : Nat} (count : ms.length < countBound)
    (admitted : ∀ m ∈ ms, container.Admits m.kind ∨ m.Empty)
    (each : List.Forall₂ (Reads (readGeometry levels)) (normalMembers ms) (pruneAll ms)) :
    Option.Rel (Reads (readGeometry (levels + 1))) (members container order ms).normal?
      (members container order ms).prune? := by
  simp only [normal?, normalBody?, prune?, kind]
  by_cases left : pruneAll ms = []
  · have none_left : normalMembers ms = [] := List.forall₂_nil_right_iff.mp (left ▸ each)
    rw [counted?_eq_none_iff.mpr none_left, Container.assemble?_eq_none_iff.mpr left]
    exact .none
  · have items_left : normalMembers ms ≠ [] := by
      intro none_left
      rw [none_left, List.forall₂_nil_left_iff] at each
      exact left each
    have fewer : (normalMembers ms).length < countBound := by
      rw [normalMembers_eq_filterMap]
      exact Nat.lt_of_le_of_lt (List.length_filterMap_le _ _) count
    obtain ⟨g, assembled, read⟩ := reads_members each fewer (pruneAll_admitted admitted) left
    rw [assembled, counted?, if_neg items_left]
    exact .some (reads_geometry read)

/-- A tree in the grammar has a normal form unless nothing is left of it, and what is
left of it is what is read back. -/
theorem rel_normal {t : Tree} (h : t.Acceptable) : ∀ {levels : Nat}, t.depth < levels →
    Option.Rel (Reads (readGeometry levels)) t.normal? t.prune? := by
  induction h with
  | point order p =>
    rintro (_ | levels) shallow
    · cases shallow
    simp only [normal?, normalBody?, prune?, kind]
    split
    · exact .none
    · exact .some (reads_geometry ((reads_coord p).as Geometry.point))
  | @lineString order line count =>
    rintro (_ | levels) shallow
    · cases shallow
    simp only [normal?, normalBody?, prune?, kind, counted?_map]
    split
    · exact .none
    · exact .some (reads_geometry ((reads_line count).as Geometry.lineString))
  | @polygon order rings count counts =>
    rintro (_ | levels) shallow
    · cases shallow
    simp only [normal?, normalBody?, kind, counted?_map]
    cases rings with
    | nil => exact .none
    | cons outer holes =>
      exact .some (reads_geometry ((reads_polygon count counts).as Geometry.polygon))
  | @multiPoint order points count =>
    rintro (_ | levels) shallow
    · cases shallow
    have fewer : (keptPoints points).length < countBound :=
      Nat.lt_of_le_of_lt (length_keptPoints_le points) count
    simp only [normal?, normalBody?, prune?, kind, counted?_map]
    split
    · exact .none
    · exact .some (reads_geometry ((reads_line fewer).as Geometry.multiPoint))
  | @members container order ms count admitted below ih =>
    rintro (_ | levels) shallow
    · cases shallow
    rw [depth_members_lt_iff] at shallow
    have each := forall₂_filterMap fun m member => ih m member (shallow m member)
    rw [← normalMembers_eq_filterMap, ← pruneAll_eq_filterMap] at each
    exact rel_normal_members count admitted each

theorem normal?_eq_none_iff {t : Tree} (h : t.Acceptable) : t.normal? = none ↔ t.Empty := by
  rw [← prune?_eq_none_iff h]
  have related := rel_normal h (Nat.lt_succ_self t.depth)
  generalize t.normal? = normal at related ⊢
  generalize t.prune? = pruned at related ⊢
  cases related <;> simp

end Tree

end HexCover.Wkb
