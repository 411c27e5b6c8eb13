import HexCover.Proofs.Binary.Equality
import HexCover.Wkb.Normalize
import Mathlib.Data.List.Basic

/-! The grammar of well-known binary. A tree is a geometry as it is written, with a byte
order of its own for every header. A text in well-known binary is what a tree is
written as. Pruning a tree leaves out its empty parts and closes the rings of its
polygons; what is left, if anything, is the geometry that the text stands for. -/
namespace HexCover.Wkb

/-- One more than the largest count. -/
def countBound : Nat := 2 ^ 32

/-- The types of geometries that hold geometries. -/
inductive Container where
  | lineStrings
  | polygons
  | geometries
deriving DecidableEq, Repr

namespace Container

def kind : Container → Kind
  | lineStrings => .multiLineString
  | polygons => .multiPolygon
  | geometries => .collection

def Admits : Container → Kind → Prop
  | lineStrings, member => member = .lineString
  | polygons, member => member = .polygon
  | geometries, _ => True

end Container

def kindOf : Geometry Double → Kind
  | .point _ => .point
  | .lineString _ => .lineString
  | .polygon _ => .polygon
  | .multiPoint _ => .multiPoint
  | .multiLineString _ => .multiLineString
  | .multiPolygon _ => .multiPolygon
  | .collection _ => .collection

def lineOf? : Geometry Double → Option (List (Coord Double))
  | .lineString line => some line
  | _ => none

def polygonOf? : Geometry Double → Option (Polygon Double)
  | .polygon p => some p
  | _ => none

/-- The geometry with some members; there is none without members. -/
def Container.assemble? (container : Container) (members : List (Geometry Double)) :
    Option (Geometry Double) :=
  if members = [] then none
  else match container with
    | lineStrings => some (.multiLineString (members.filterMap lineOf?))
    | polygons => some (.multiPolygon (members.filterMap polygonOf?))
    | geometries => some (.collection members)

theorem Container.assemble?_eq_none_iff {container : Container} {gs : List (Geometry Double)} :
    container.assemble? gs = none ↔ gs = [] := by
  unfold assemble?
  split
  · simp [*]
  · cases container <;> simp [*]

/-- A geometry as it is written. -/
inductive Tree where
  | point (order : ByteOrder) (p : Coord Double)
  | lineString (order : ByteOrder) (line : List (Coord Double))
  | polygon (order : ByteOrder) (rings : List (List (Coord Double)))
  | multiPoint (order : ByteOrder) (points : List (ByteOrder × Coord Double))
  | members (container : Container) (order : ByteOrder) (members : List Tree)

namespace Tree

def order : Tree → ByteOrder
  | point order _ | lineString order _ | polygon order _ | multiPoint order _
  | members _ order _ => order

def kind : Tree → Kind
  | point _ _ => .point
  | lineString _ _ => .lineString
  | polygon _ _ => .polygon
  | multiPoint _ _ => .multiPoint
  | members container _ _ => container.kind

def pointBytes (member : ByteOrder × Coord Double) : List UInt8 :=
  header member.1 .point ++ coordBytes member.1 member.2

mutual

def body : Tree → List UInt8
  | point order p => coordBytes order p
  | lineString order line => coordsBytes order line
  | polygon order rings => ringsBytes order rings
  | multiPoint order points => order.write 4 points.length ++ points.flatMap pointBytes
  | members _ order ms => order.write 4 ms.length ++ membersBytes ms

def membersBytes : List Tree → List UInt8
  | [] => []
  | m :: ms => header m.order m.kind ++ m.body ++ membersBytes ms

end

def encode (t : Tree) : List UInt8 := header t.order t.kind ++ t.body

mutual

/-- How deep trees are nested below the root of a tree. -/
def depth : Tree → Nat
  | members _ _ ms => depthBelow ms
  | _ => 0

def depthBelow : List Tree → Nat
  | [] => 0
  | m :: ms => max (m.depth + 1) (depthBelow ms)

end

/-- Neither coordinate is a number. -/
def EmptyPoint (p : Coord Double) : Prop := p.x.NoNumber ∧ p.y.NoNumber

instance (p : Coord Double) : Decidable (EmptyPoint p) := inferInstanceAs (Decidable (_ ∧ _))

def keptPoints (points : List (ByteOrder × Coord Double)) : List (Coord Double) :=
  (points.map Prod.snd).filter fun p => ¬ EmptyPoint p

/-- A ring ends where it starts, if it has any points. -/
def Closed (ring : List (Coord Double)) : Prop :=
  ∀ some_point : ring ≠ [],
    (ring.head some_point).x.SameNumber (ring.getLast some_point).x ∧
      (ring.head some_point).y.SameNumber (ring.getLast some_point).y

instance (ring : List (Coord Double)) : Decidable (Closed ring) :=
  inferInstanceAs (Decidable (∀ _, _ ∧ _))

/-- The first point of a ring once more at its end, unless the ring is closed. -/
def close (ring : List (Coord Double)) : List (Coord Double) :=
  if Closed ring then ring else ring ++ ring.take 1

mutual

/-- The geometry that a tree stands for, unless it is empty. -/
def prune? : Tree → Option (Geometry Double)
  | point _ p => if EmptyPoint p then none else some (.point p)
  | lineString _ line => if line = [] then none else some (.lineString line)
  | polygon _ [] => none
  | polygon _ (outer :: holes) => some (.polygon ⟨close outer, holes.map close⟩)
  | multiPoint _ points =>
    if keptPoints points = [] then none else some (.multiPoint (keptPoints points))
  | members container _ ms => container.assemble? (pruneAll ms)

def pruneAll : List Tree → List (Geometry Double)
  | [] => []
  | m :: ms => match m.prune? with
    | none => pruneAll ms
    | some g => g :: pruneAll ms

end

/-- Counts take four bytes, and `admits` says which members a container may have. -/
inductive WellFormed (admits : Container → Tree → Prop) : Tree → Prop
  | point (order : ByteOrder) (p : Coord Double) : WellFormed admits (point order p)
  | lineString {order : ByteOrder} {line : List (Coord Double)} (count : line.length < countBound) :
      WellFormed admits (lineString order line)
  | polygon {order : ByteOrder} {rings : List (List (Coord Double))}
      (count : rings.length < countBound) (counts : ∀ ring ∈ rings, ring.length < countBound) :
      WellFormed admits (polygon order rings)
  | multiPoint {order : ByteOrder} {points : List (ByteOrder × Coord Double)}
      (count : points.length < countBound) : WellFormed admits (multiPoint order points)
  | members {container : Container} {order : ByteOrder} {ms : List Tree}
      (count : ms.length < countBound) (admitted : ∀ m ∈ ms, admits container m)
      (below : ∀ m ∈ ms, WellFormed admits m) : WellFormed admits (members container order ms)

/-- Members of a multi geometry have its member type. -/
def Grammatical : Tree → Prop := WellFormed fun container m => container.Admits m.kind

/-- There is nothing in a tree. -/
inductive Empty : Tree → Prop
  | point {order : ByteOrder} {p : Coord Double} (empty : EmptyPoint p) : Empty (point order p)
  | lineString (order : ByteOrder) : Empty (lineString order [])
  | polygon (order : ByteOrder) : Empty (polygon order [])
  | multiPoint {order : ByteOrder} {points : List (ByteOrder × Coord Double)}
      (each : ∀ m ∈ points, EmptyPoint m.2) : Empty (multiPoint order points)
  | members {container : Container} {order : ByteOrder} {ms : List Tree}
      (each : ∀ m ∈ ms, Empty m) : Empty (members container order ms)

/-- Members of a multi geometry have its member type or are empty. -/
def Acceptable : Tree → Prop :=
  WellFormed fun container m => container.Admits m.kind ∨ m.Empty

theorem WellFormed.mono {admits admits' : Container → Tree → Prop}
    (weaker : ∀ container m, admits container m → admits' container m) {t : Tree}
    (h : WellFormed admits t) : WellFormed admits' t := by
  induction h with
  | point order p => exact .point order p
  | lineString count => exact .lineString count
  | polygon count counts => exact .polygon count counts
  | multiPoint count => exact .multiPoint count
  | members count admitted _ ih =>
    exact .members count (fun m member => weaker _ m (admitted m member)) ih

theorem Grammatical.acceptable {t : Tree} (h : t.Grammatical) : t.Acceptable :=
  h.mono fun _ _ => .inl

theorem membersBytes_eq_flatMap (ms : List Tree) : membersBytes ms = ms.flatMap encode := by
  induction ms with
  | nil => rfl
  | cons m ms ih => rw [membersBytes, ih, List.flatMap_cons, encode]

theorem pruneAll_eq_filterMap (ms : List Tree) : pruneAll ms = ms.filterMap prune? := by
  induction ms with
  | nil => rfl
  | cons m ms ih =>
    rw [pruneAll, List.filterMap_cons, ih]
    cases m.prune? <;> rfl

theorem isEmptyPoint_iff {p : Coord Double} : isEmptyPoint p = true ↔ EmptyPoint p := by
  rw [isEmptyPoint, Bool.and_eq_true, Double.isNaN_iff, Double.isNaN_iff, EmptyPoint]

theorem closeRing_same (ring : List (Coord Double)) : closeRing Double.same ring = close ring := by
  cases ring with
  | nil => rfl
  | cons first rest =>
    have ends : Closed (first :: rest) ↔
        first.x.same ((first :: rest).getLast (by simp)).x &&
          first.y.same ((first :: rest).getLast (by simp)).y := by
      simp [Closed, Double.same_iff]
    simp [closeRing, close, ends, List.getLast?_eq_some_getLast]

theorem keptPoints_eq_nil_iff {points : List (ByteOrder × Coord Double)} :
    keptPoints points = [] ↔ ∀ m ∈ points, EmptyPoint m.2 := by
  simp only [keptPoints, List.filter_eq_nil_iff, List.forall_mem_map, decide_eq_true_eq,
    Decidable.not_not]

theorem length_keptPoints_le (points : List (ByteOrder × Coord Double)) :
    (keptPoints points).length ≤ points.length := by
  have kept := List.length_filter_le (fun p => decide (¬ EmptyPoint p)) (points.map Prod.snd)
  rwa [List.length_map] at kept

/-- What is made of the points that are kept. -/
theorem filterMap_keptPoints {β : Type} (f : Coord Double → β)
    (points : List (ByteOrder × Coord Double)) :
    (points.filterMap fun m => if EmptyPoint m.2 then none else some (f m.2)) =
      (keptPoints points).map f := by
  induction points with
  | nil => rfl
  | cons m ms ih =>
    rw [List.filterMap_cons, ih]
    unfold keptPoints
    rw [List.map_cons, List.filter_cons]
    by_cases empty : EmptyPoint m.2 <;> simp [empty]

theorem Empty.prune?_eq_none {t : Tree} (h : t.Empty) : t.prune? = none := by
  induction h with
  | point empty => rw [prune?, if_pos empty]
  | lineString => rfl
  | polygon => rfl
  | multiPoint each => rw [prune?, if_pos (keptPoints_eq_nil_iff.mpr each)]
  | @members container order ms each ih =>
    have nothing_left : pruneAll ms = [] := by
      rw [pruneAll_eq_filterMap, List.filterMap_eq_nil_iff]
      exact ih
    rw [prune?, Container.assemble?_eq_none_iff, nothing_left]

/-- Nothing is left of a tree only if there is nothing in it. -/
theorem prune?_eq_none_iff {admits : Container → Tree → Prop} {t : Tree}
    (h : WellFormed admits t) : t.prune? = none ↔ t.Empty := by
  refine ⟨fun gone => ?_, Empty.prune?_eq_none⟩
  induction h with
  | point order p =>
    rw [prune?] at gone
    split at gone
    · exact .point (by assumption)
    · cases gone
  | lineString count =>
    rw [prune?] at gone
    split at gone
    · subst_vars
      exact .lineString _
    · cases gone
  | @polygon order rings count counts =>
    cases rings with
    | nil => exact .polygon order
    | cons ring rings => cases gone
  | multiPoint count =>
    rw [prune?] at gone
    split at gone
    · exact .multiPoint (keptPoints_eq_nil_iff.mp (by assumption))
    · cases gone
  | members count admitted below ih =>
    rw [prune?, Container.assemble?_eq_none_iff, pruneAll_eq_filterMap,
      List.filterMap_eq_nil_iff] at gone
    exact .members fun m member => ih m member (gone m member)

theorem depth_members_lt_iff {container : Container} {order : ByteOrder} {ms : List Tree}
    {levels : Nat} : (members container order ms).depth < levels + 1 ↔
      ∀ m ∈ ms, m.depth < levels := by
  rw [depth, Nat.lt_succ_iff]
  induction ms with
  | nil => simp [depthBelow]
  | cons m ms ih =>
    rw [depthBelow, Nat.max_le, ih, Nat.succ_le_iff, List.forall_mem_cons]

end Tree

end HexCover.Wkb
