import HexCover.Proofs.Wkb.Walk

/-! The shape and the size of normal forms. In a normal form a header says what comes
behind it, and every count says how many items do. A normal form is at most as long as
what it was made from: headers and counts take the same room, the members of a multi
point lose their headers, and what is left out takes none. -/
namespace HexCover.Wkb

/-- Four bytes of a count, and behind them as many items as the count says. -/
def Tally (item : List UInt8 → Prop) (bytes : List UInt8) : Prop :=
  ∃ (count : List UInt8) (items : List (List UInt8)), bytes = count ++ items.flatten ∧
    count.length = 4 ∧ Bytes.toNat count = items.length ∧ ∀ i ∈ items, item i

/-- Sixteen bytes of a coordinate. -/
def IsCoord (bytes : List UInt8) : Prop := bytes.length = 16

/-- The bytes of a body by its type; `member` says which bytes are a geometry of a type. -/
def IsBody (member : Kind → List UInt8 → Prop) : Kind → List UInt8 → Prop
  | .point => IsCoord
  | .lineString | .multiPoint => Tally IsCoord
  | .polygon => Tally (Tally IsCoord)
  | .multiLineString => Tally (member .lineString)
  | .multiPolygon => Tally (member .polygon)
  | .collection => Tally fun bytes => ∃ kind, member kind bytes

/-- The bytes of a geometry that is nested at most `levels` deep, itself counted: a
little-endian header and a body. -/
def IsGeometry : (levels : Nat) → Kind → List UInt8 → Prop
  | 0 => fun _ _ => False
  | levels + 1 => fun kind bytes =>
    ∃ body, bytes = header .little kind ++ body ∧ IsBody (IsGeometry levels) kind body

theorem IsGeometry.header_isPrefix {levels : Nat} {kind : Kind} {bytes : List UInt8}
    (h : IsGeometry levels kind bytes) : header .little kind <+: bytes := by
  cases levels with
  | zero => exact h.elim
  | succ levels =>
    obtain ⟨body, rfl, _⟩ := h
    exact List.prefix_append _ _

theorem tally_ofNat {item : List UInt8 → Prop} {items : List (List UInt8)}
    (few : items.length < countBound) (each : ∀ i ∈ items, item i) :
    Tally item (Bytes.ofNat 4 items.length ++ items.flatten) := by
  refine ⟨_, items, rfl, Bytes.length_ofNat 4 _, ?_, each⟩
  rw [Bytes.toNat_ofNat]
  exact Nat.mod_eq_of_lt few

theorem tally_of_counted? {item : List UInt8 → Prop} {items : List (List UInt8)}
    {bytes : List UInt8} (found : counted? items = some bytes) (few : items.length < countBound)
    (each : ∀ i ∈ items, item i) : Tally item bytes := by
  unfold counted? at found
  split at found
  · cases found
  · cases found
    exact tally_ofNat few each

theorem isCoord_coordBytes {order : ByteOrder} (ps : List (Coord Double)) :
    ∀ i ∈ ps.map (coordBytes order), IsCoord i := by
  intro i member
  obtain ⟨p, _, rfl⟩ := List.mem_map.mp member
  exact length_coordBytes order p

theorem tally_coordsBytes {ps : List (Coord Double)} (few : ps.length < countBound) :
    Tally IsCoord (coordsBytes .little ps) := by
  have count : (ps.map (coordBytes .little)).length < countBound := by
    rwa [List.length_map]
  have tally := tally_ofNat count (isCoord_coordBytes ps)
  rwa [List.length_map, ← List.flatMap_def] at tally

namespace Tree

/-- The members that are kept have a type that the container may hold. -/
theorem exists_admitted {container : Container} {ms : List Tree} {levels : Nat}
    (acceptable : ∀ m ∈ ms, m.Acceptable)
    (admitted : ∀ m ∈ ms, container.Admits m.kind ∨ m.Empty)
    (each : ∀ m ∈ ms, ∀ bytes, m.normal? = some bytes → IsGeometry levels m.kind bytes) :
    ∀ bytes ∈ normalMembers ms, ∃ kind, container.Admits kind ∧ IsGeometry levels kind bytes := by
  intro bytes member
  rw [normalMembers_eq_filterMap, List.mem_filterMap] at member
  obtain ⟨m, member, found⟩ := member
  refine ⟨m.kind, (admitted m member).resolve_right fun empty => ?_, each m member bytes found⟩
  rw [(normal?_eq_none_iff (acceptable m member)).mpr empty] at found
  cases found

theorem isBody_members {container : Container} {items : List (List UInt8)} {levels : Nat}
    {body : List UInt8} (found : counted? items = some body) (few : items.length < countBound)
    (each : ∀ bytes ∈ items, ∃ kind, container.Admits kind ∧ IsGeometry levels kind bytes) :
    IsBody (IsGeometry levels) container.kind body := by
  cases container with
  | lineStrings =>
    refine tally_of_counted? found few fun bytes member => ?_
    obtain ⟨_, rfl, geometry⟩ := each bytes member
    exact geometry
  | polygons =>
    refine tally_of_counted? found few fun bytes member => ?_
    obtain ⟨_, rfl, geometry⟩ := each bytes member
    exact geometry
  | geometries =>
    refine tally_of_counted? found few fun bytes member => ?_
    obtain ⟨kind, _, geometry⟩ := each bytes member
    exact ⟨kind, geometry⟩

/-- The normal form of a tree in the grammar is a geometry of the type of the tree. -/
theorem isGeometry_normal {levels : Nat} : ∀ {t : Tree}, t.Acceptable → t.depth < levels →
    ∀ bytes, t.normal? = some bytes → IsGeometry levels t.kind bytes := by
  induction levels with
  | zero =>
    intro t _ shallow
    cases shallow
  | succ levels ih =>
    intro t acceptable shallow bytes found
    obtain ⟨body, kept, rfl⟩ := Option.map_eq_some_iff.mp found
    refine ⟨body, rfl, ?_⟩
    cases acceptable with
    | point order p =>
      rw [normalBody?] at kept
      split at kept <;> cases kept
      exact length_coordBytes .little p
    | @lineString order line count =>
      exact tally_of_counted? kept (by simpa using count) (isCoord_coordBytes line)
    | @polygon order rings count counts =>
      refine tally_of_counted? kept (by simpa using count) fun bytes member => ?_
      obtain ⟨ring, inside, rfl⟩ := List.mem_map.mp member
      exact tally_coordsBytes (counts ring inside)
    | @multiPoint order points count =>
      have fewer := length_keptPoints_le points
      exact tally_of_counted? kept (by simpa using Nat.lt_of_le_of_lt fewer count)
        (isCoord_coordBytes (keptPoints points))
    | @members container order ms count admitted below =>
      rw [depth_members_lt_iff] at shallow
      have fewer : (normalMembers ms).length ≤ ms.length := by
        rw [normalMembers_eq_filterMap]
        exact List.length_filterMap_le _ _
      refine isBody_members kept (Nat.lt_of_le_of_lt fewer count) ?_
      exact exists_admitted below admitted fun m member => ih (below m member) (shallow m member)

theorem length_flatten_filterMap_le {α : Type} {f : α → Option (List UInt8)}
    {bytes : α → List UInt8} {as : List α}
    (each : ∀ a ∈ as, ((f a).getD []).length ≤ (bytes a).length) :
    (as.filterMap f).flatten.length ≤ (as.flatMap bytes).length := by
  induction as with
  | nil => simp
  | cons a as ih =>
    obtain ⟨head, tail⟩ := List.forall_mem_cons.mp each
    have rest := ih tail
    rw [List.flatMap_cons, List.length_append]
    cases found : f a with
    | none =>
      rw [List.filterMap_cons_none found]
      exact Nat.le_add_left_of_le rest
    | some item =>
      rw [found] at head
      rw [List.filterMap_cons_some found, List.flatten_cons, List.length_append]
      exact Nat.add_le_add head rest

/-- Counted items are not longer than a count and what the items were made from. -/
theorem length_counted_le {α : Type} {f : α → Option (List UInt8)} {bytes : α → List UInt8}
    {as : List α} (order : ByteOrder)
    (each : ∀ a ∈ as, ((f a).getD []).length ≤ (bytes a).length) :
    ((counted? (as.filterMap f)).getD []).length ≤
      (order.write 4 as.length ++ as.flatMap bytes).length := by
  have items := length_flatten_filterMap_le each
  rw [List.length_append, ByteOrder.length_write]
  unfold counted?
  split
  · exact Nat.zero_le _
  · simpa using items

theorem length_normal_le_of_body {t : Tree}
    (body : (t.normalBody?.getD []).length ≤ t.body.length) :
    (t.normal?.getD []).length ≤ t.encode.length := by
  rw [normal?, encode, List.length_append, length_header]
  cases found : t.normalBody? with
  | none => exact Nat.zero_le _
  | some bytes =>
    rw [found] at body
    simpa [length_header] using body

/-- A normal form is not longer than what it was made from. -/
theorem length_normal_le {t : Tree} (h : t.Acceptable) :
    (t.normal?.getD []).length ≤ t.encode.length := by
  induction h with
  | point order p =>
    refine length_normal_le_of_body ?_
    rw [normalBody?, body, length_coordBytes]
    split <;> simp [length_coordBytes]
  | @lineString order line =>
    refine length_normal_le_of_body ?_
    rw [normalBody?, ← List.filterMap_eq_map]
    exact length_counted_le order fun p _ => by simp [length_coordBytes]
  | @polygon order rings =>
    refine length_normal_le_of_body ?_
    rw [normalBody?, ← List.filterMap_eq_map]
    exact length_counted_le order fun ring _ => by simp [coordsBytes, length_coordBytes]
  | @multiPoint order points =>
    refine length_normal_le_of_body ?_
    rw [normalBody?, ← filterMap_normalPoint?]
    refine length_counted_le order fun m _ => ?_
    rw [length_pointBytes, normalPoint?]
    split <;> simp [length_coordBytes]
  | @members container order ms _ _ _ ih =>
    refine length_normal_le_of_body ?_
    rw [normalBody?, body, normalMembers_eq_filterMap, membersBytes_eq_flatMap]
    exact length_counted_le order ih

end Tree

end HexCover.Wkb
