import HexCover.Proofs.Wkb.Layout

/-! The types of members. Decoding accepts exactly the layouts in which every multi point
holds points, every member of another multi geometry has the type of the multi geometry's
members or is empty, and nothing is nested too deep. These are the layouts of the trees
of the grammar. The type of an empty member is known when the member has been read and is
not looked at, while a point has to say that it is one. -/
namespace HexCover.Wkb

namespace Layout

/-- There is nothing in a layout. -/
inductive Empty : Layout → Prop
  | point {order : ByteOrder} {p : Coord Double} (empty : isEmptyPoint p) : Empty (point order p)
  | lineString (order : ByteOrder) : Empty (lineString order [])
  | polygon (order : ByteOrder) : Empty (polygon order [])
  | members {holder : Holder} {order : ByteOrder} {ms : List Layout}
      (each : ∀ m ∈ ms, Empty m) : Empty (members holder order ms)

/-- Every member has the type that its holder is meant to hold. -/
def Typed : Layout → Prop := WellFormed fun holder m => holder.Admits m.kind

/-- Every member has the type that its holder is meant to hold, or is empty and does not
stand in a multi point. -/
def Admissible : Layout → Prop :=
  WellFormed fun holder m => holder.Admits m.kind ∨ (holder ≠ .points ∧ m.Empty)

end Layout

namespace Tree

mutual

/-- The layout of what a tree is written as. -/
def layout : Tree → Layout
  | point order p => .point order p
  | lineString order line => .lineString order line
  | polygon order rings => .polygon order rings
  | multiPoint order points => .members .points order (points.map fun m => .point m.1 m.2)
  | members container order ms => .members (.container container) order (layouts ms)

def layouts : List Tree → List Layout
  | [] => []
  | m :: ms => m.layout :: layouts ms

end

theorem layouts_eq_map (ms : List Tree) : layouts ms = ms.map layout := by
  induction ms with
  | nil => rfl
  | cons m ms ih => rw [layouts, ih, List.map_cons]

@[simp] theorem order_layout (t : Tree) : t.layout.order = t.order := by cases t <;> rfl

@[simp] theorem kind_layout (t : Tree) : t.layout.kind = t.kind := by cases t <;> rfl

variable {admits : Container → Tree → Prop} {t : Tree}

theorem body_layout (h : WellFormed admits t) : t.layout.body = t.body := by
  induction h with
  | point | lineString | polygon => rfl
  | @multiPoint order points count =>
    have each (m : ByteOrder × Coord Double) : (Layout.point m.1 m.2).encode = pointBytes m := rfl
    simp [layout, Layout.body, Tree.body, Layout.membersBytes_eq_flatMap, List.flatMap_map, each]
  | @members container order ms count admitted below ih =>
    rw [layout, Layout.body, Tree.body, Layout.membersBytes_eq_flatMap, membersBytes_eq_flatMap,
      layouts_eq_map, List.length_map, List.flatMap_map]
    refine congrArg _ (List.flatMap_congr fun m member => ?_)
    rw [Layout.encode, order_layout, kind_layout, ih m member, encode]

theorem encode_layout (h : WellFormed admits t) : t.layout.encode = t.encode := by
  rw [Layout.encode, order_layout, kind_layout, body_layout h, encode]

theorem depth_layout (h : WellFormed admits t) : t.layout.depth = t.depth := by
  induction h with
  | point | lineString | polygon | multiPoint => rfl
  | @members container order ms count admitted below ih =>
    clear count admitted below
    rw [layout, Layout.depth, Tree.depth]
    induction ms with
    | nil => rfl
    | cons m ms rest =>
      rw [layouts, Layout.depthBelow, depthBelow, ih m (by simp),
        rest fun m member => ih m (by simp [member])]

theorem Empty.layout (h : t.Empty) : t.layout.Empty := by
  induction h with
  | point empty => exact .point (isEmptyPoint_iff.mpr empty)
  | lineString order => exact .lineString order
  | polygon order => exact .polygon order
  | multiPoint each =>
    refine .members fun m member => ?_
    obtain ⟨x, inside, rfl⟩ := List.mem_map.mp member
    exact .point (isEmptyPoint_iff.mpr (each x inside))
  | members each ih =>
    refine .members fun m member => ?_
    rw [layouts_eq_map] at member
    obtain ⟨x, inside, rfl⟩ := List.mem_map.mp member
    exact ih x inside

theorem empty_of_layout (h : WellFormed admits t) (empty : t.layout.Empty) : t.Empty := by
  induction h with
  | point order p =>
    cases empty with
    | point empty => exact .point (isEmptyPoint_iff.mp empty)
  | lineString =>
    cases empty with
    | lineString => exact .lineString _
  | polygon =>
    cases empty with
    | polygon => exact .polygon _
  | multiPoint =>
    cases empty with
    | members each =>
      refine .multiPoint fun m member => ?_
      cases each _ (List.mem_map_of_mem member) with
      | point empty => exact isEmptyPoint_iff.mp empty
  | members _ _ _ ih =>
    cases empty with
    | members each =>
      rw [layouts_eq_map] at each
      exact .members fun m member => ih m member (each _ (List.mem_map_of_mem member))

theorem Acceptable.layout (h : t.Acceptable) : t.layout.Admissible := by
  induction h with
  | point order p => exact .point order p
  | lineString count => exact .lineString count
  | polygon count counts => exact .polygon count counts
  | multiPoint count =>
    refine .members (by simpa using count) (fun m member => ?_) fun m member => ?_
    · obtain ⟨x, _, rfl⟩ := List.mem_map.mp member
      exact .inl rfl
    · obtain ⟨x, _, rfl⟩ := List.mem_map.mp member
      exact .point _ _
  | members count admitted _ ih =>
    refine .members (by simpa [layouts_eq_map] using count) (fun m member => ?_)
      fun m member => ?_
    · rw [layouts_eq_map] at member
      obtain ⟨x, inside, rfl⟩ := List.mem_map.mp member
      rw [kind_layout]
      exact (admitted x inside).imp_right fun empty => ⟨by simp, empty.layout⟩
    · rw [layouts_eq_map] at member
      obtain ⟨x, inside, rfl⟩ := List.mem_map.mp member
      exact ih x inside

/-- A list of points, each laid out on its own. -/
theorem exists_points {ms : List Layout} (each : ∀ m ∈ ms, m.kind = .point) :
    ∃ points : List (ByteOrder × Coord Double), points.map (fun m => .point m.1 m.2) = ms := by
  induction ms with
  | nil => exact ⟨[], rfl⟩
  | cons m ms ih =>
    obtain ⟨order, p, rfl⟩ := Layout.eq_point_of_kind (each m (by simp))
    obtain ⟨points, rfl⟩ := ih fun m member => each m (by simp [member])
    exact ⟨(order, p) :: points, rfl⟩

/-- An admissible layout is the layout of a tree in the grammar. -/
theorem exists_acceptable {l : Layout} (h : l.Admissible) :
    ∃ t : Tree, t.Acceptable ∧ t.layout = l := by
  induction h with
  | point order p => exact ⟨_, .point order p, rfl⟩
  | lineString count => exact ⟨_, .lineString count, rfl⟩
  | polygon count counts => exact ⟨_, .polygon count counts, rfl⟩
  | @members holder order ms count ruled _ ih =>
    cases holder with
    | points =>
      obtain ⟨points, rfl⟩ := exists_points fun m member =>
        (ruled m member).resolve_right fun lax => lax.1 rfl
      exact ⟨.multiPoint order points, .multiPoint (by simpa using count), rfl⟩
    | container container =>
      have : Nonempty Tree := ⟨.lineString order []⟩
      choose! tree acceptable same using ih
      have back : layouts (ms.map tree) = ms := by
        rw [layouts_eq_map, List.map_map]
        exact (List.map_congr_left same).trans (List.map_id ms)
      refine ⟨.members container order (ms.map tree), .members (by simpa using count) ?_ ?_, ?_⟩
      · intro x member
        obtain ⟨m, inside, rfl⟩ := List.mem_map.mp member
        rw [← kind_layout, same m inside]
        refine (ruled m inside).imp_right fun lax => ?_
        exact empty_of_layout (acceptable m inside) ((same m inside).symm ▸ lax.2)
      · intro x member
        obtain ⟨m, inside, rfl⟩ := List.mem_map.mp member
        exact acceptable m inside
      · rw [layout, back]

end Tree

namespace Layout

/-- What is accepted is laid out in an admissible way, and so in one way only. -/
theorem exists_of_decode_eq_ok {id : UInt64} {bytes : List UInt8}
    {result : Option (Geometry Double)} (accepted : decode id bytes = .ok result) :
    ∃ l : Layout, l.encode = bytes ∧ l.Admissible ∧ l.depth ≤ maxDepth := by
  cases normalized : normalize bytes with
  | error fault => simp [decode, normalized] at accepted
  | ok normal? =>
    obtain ⟨t, ⟨acceptable, shallow⟩, rfl, _⟩ := normalize_eq_ok_iff.mp normalized
    refine ⟨t.layout, Tree.encode_layout acceptable, acceptable.layout, ?_⟩
    rw [Tree.depth_layout acceptable]
    exact Nat.le_of_lt_succ shallow

theorem exists_decode_eq_ok_iff (id : UInt64) {l : Layout} (counted : l.Counted) :
    (∃ result, decode id l.encode = .ok result) ↔ l.Admissible ∧ l.depth ≤ maxDepth := by
  constructor
  · rintro ⟨result, accepted⟩
    obtain ⟨l', same, admissible, shallow⟩ := exists_of_decode_eq_ok accepted
    obtain rfl := eq_of_encode_eq admissible.counted counted same
    exact ⟨admissible, shallow⟩
  · rintro ⟨admissible, shallow⟩
    obtain ⟨t, acceptable, rfl⟩ := Tree.exists_acceptable admissible
    rw [Tree.depth_layout acceptable] at shallow
    rw [Tree.encode_layout acceptable]
    exact ⟨_, decode_encode id acceptable (Nat.lt_succ_of_le shallow)⟩

end Layout

/-- A text that is accepted has one layout. It is accepted exactly if the members of its
multi points are points, the members of its other multi geometries have the type of
these members or are empty, at every level, and nothing is nested too deep. A text with
members of other types is refused as an invalid geometry. -/
theorem decode_member_types (id : UInt64) :
    (∀ bytes result, decode id bytes = .ok result →
      ∃! l : Layout, l.Counted ∧ l.encode = bytes) ∧
    ∀ l : Layout, l.Counted →
      ((∃ result, decode id l.encode = .ok result) ↔ l.Admissible ∧ l.depth ≤ maxDepth) ∧
      (¬ l.Admissible → ∃ message, decode id l.encode = .error (.invalidGeometry id message)) := by
  constructor
  · intro bytes result accepted
    obtain ⟨l, rfl, admissible, _⟩ := Layout.exists_of_decode_eq_ok accepted
    refine ⟨l, ⟨admissible.counted, rfl⟩, fun l' other => ?_⟩
    exact Layout.eq_of_encode_eq other.1 admissible.counted other.2
  · intro l counted
    refine ⟨Layout.exists_decode_eq_ok_iff id counted, fun odd => ?_⟩
    cases outcome : decode id l.encode with
    | ok result =>
      exact absurd ((Layout.exists_decode_eq_ok_iff id counted).mp ⟨result, outcome⟩).1 odd
    | error e =>
      obtain ⟨fault, _, rfl⟩ := decode_eq_error_iff.mp outcome
      exact ⟨_, rfl⟩

def lineAmongPoints : Layout :=
  .members .points .big [.lineString .little [⟨.ofNat 0, .ofNat 0⟩]]

def polygonAmongLines : Layout := .members (.container .lineStrings) .little [.polygon .little []]

theorem polygonAmongLines_counted : polygonAmongLines.Counted := by
  refine .members (by decide) (fun _ _ => trivial) ?_
  simpa using .polygon (by decide) (by simp)

/-- The multi line string is accepted, though its member has another type. -/
theorem decode_polygon_among_lines :
    polygonAmongLines.encode = [1, 5, 0, 0, 0, 1, 0, 0, 0, 1, 3, 0, 0, 0, 0, 0, 0, 0] ∧
      polygonAmongLines.Counted ∧ ¬ polygonAmongLines.Typed ∧
      decode 7 polygonAmongLines.encode = .ok none := by
  refine ⟨by decide, polygonAmongLines_counted, fun typed => ?_, ?_⟩
  · have line : Kind.polygon = .lineString := typed.rule_of_mem List.mem_cons_self
    cases line
  · have acceptable : (Tree.members .lineStrings .little [.polygon .little []]).Acceptable := by
      refine .members (by decide) (by simpa using .inr (.polygon _)) ?_
      simpa using .polygon (by decide) (by simp)
    exact decode_encode 7 acceptable (by decide)

/-- A line is refused in a multi point, and the polygon without rings is admitted by the
text that it was accepted in. -/
theorem decode_member_types_odd :
    (lineAmongPoints.Counted ∧ ¬ lineAmongPoints.Admissible) ∧
      (∃ message, decode 7 lineAmongPoints.encode = .error (.invalidGeometry 7 message)) ∧
      polygonAmongLines.Counted ∧ polygonAmongLines.Admissible ∧
      ∃! l : Layout, l.Counted ∧ l.encode = polygonAmongLines.encode := by
  have counted : lineAmongPoints.Counted := by
    refine .members (by decide) (fun _ _ => trivial) ?_
    simpa using .lineString (by decide)
  have odd : ¬ lineAmongPoints.Admissible := by
    intro admissible
    rcases admissible.rule_of_mem List.mem_cons_self with point | ⟨elsewhere, _⟩
    · cases point
    · exact elsewhere rfl
  have runs : (decode 7 polygonAmongLines.encode).toBool := by decide +kernel
  obtain ⟨result, accepted⟩ := exists_ok_of_toBool runs
  obtain ⟨unique, types⟩ := decode_member_types 7
  exact ⟨⟨counted, odd⟩, (types _ counted).2 odd, polygonAmongLines_counted,
    ((types _ polygonAmongLines_counted).1.mp ⟨result, accepted⟩).1, unique _ _ accepted⟩

end HexCover.Wkb
