import HexCover.Proofs.Wkb.Decode

/-! Texts that hold members of any type. A layout says which headers, counts and
coordinates stand in a text; unlike a tree, it may have geometries of any type in
every container, multi points included. A text has one layout: its bytes tell every
part from others of its kind and tell where the part ends. -/
namespace HexCover.Wkb

/-- What holds members: a multi point, or a container of geometries. -/
inductive Holder where
  | points
  | container (container : Container)
deriving DecidableEq, Repr

namespace Holder

def kind : Holder → Kind
  | points => .multiPoint
  | container c => c.kind

def Admits : Holder → Kind → Prop
  | points, member => member = .point
  | container c, member => c.Admits member

theorem kind_injective {h h' : Holder} (same : h.kind = h'.kind) : h = h' := by
  rcases h with _ | (_ | _ | _) <;> rcases h' with _ | (_ | _ | _) <;> first | rfl | cases same

end Holder

/-- A geometry as it is written, with members of any type. -/
inductive Layout where
  | point (order : ByteOrder) (p : Coord Double)
  | lineString (order : ByteOrder) (line : List (Coord Double))
  | polygon (order : ByteOrder) (rings : List (List (Coord Double)))
  | members (holder : Holder) (order : ByteOrder) (members : List Layout)

namespace Layout

def order : Layout → ByteOrder
  | point order _ | lineString order _ | polygon order _ | members _ order _ => order

def kind : Layout → Kind
  | point _ _ => .point
  | lineString _ _ => .lineString
  | polygon _ _ => .polygon
  | members holder _ _ => holder.kind

mutual

def body : Layout → List UInt8
  | point order p => coordBytes order p
  | lineString order line => coordsBytes order line
  | polygon order rings => ringsBytes order rings
  | members _ order ms => order.write 4 ms.length ++ membersBytes ms

def membersBytes : List Layout → List UInt8
  | [] => []
  | m :: ms => header m.order m.kind ++ m.body ++ membersBytes ms

end

def encode (l : Layout) : List UInt8 := header l.order l.kind ++ l.body

mutual

/-- How deep layouts are nested; the members of a multi point do not count. -/
def depth : Layout → Nat
  | members (.container _) _ ms => depthBelow ms
  | _ => 0

def depthBelow : List Layout → Nat
  | [] => 0
  | m :: ms => max (m.depth + 1) (depthBelow ms)

end

/-- Counts take four bytes, and `rule` says which members may stand in a holder. -/
inductive WellFormed (rule : Holder → Layout → Prop) : Layout → Prop
  | point (order : ByteOrder) (p : Coord Double) : WellFormed rule (point order p)
  | lineString {order : ByteOrder} {line : List (Coord Double)} (count : line.length < countBound) :
      WellFormed rule (lineString order line)
  | polygon {order : ByteOrder} {rings : List (List (Coord Double))}
      (count : rings.length < countBound) (counts : ∀ ring ∈ rings, ring.length < countBound) :
      WellFormed rule (polygon order rings)
  | members {holder : Holder} {order : ByteOrder} {ms : List Layout}
      (count : ms.length < countBound) (ruled : ∀ m ∈ ms, rule holder m)
      (below : ∀ m ∈ ms, WellFormed rule m) : WellFormed rule (members holder order ms)

/-- Any geometry may stand in any holder. -/
def Counted : Layout → Prop := WellFormed fun _ _ => True

theorem WellFormed.counted {rule : Holder → Layout → Prop} {l : Layout} (h : WellFormed rule l) :
    l.Counted := by
  induction h with
  | point order p => exact .point order p
  | lineString count => exact .lineString count
  | polygon count counts => exact .polygon count counts
  | members count _ _ ih => exact .members count (fun _ _ => trivial) ih

theorem WellFormed.rule_of_mem {rule : Holder → Layout → Prop} {holder : Holder}
    {order : ByteOrder} {ms : List Layout} (h : WellFormed rule (.members holder order ms))
    {m : Layout} (member : m ∈ ms) : rule holder m := by
  cases h with
  | members _ ruled _ => exact ruled m member

theorem membersBytes_eq_flatMap (ms : List Layout) : membersBytes ms = ms.flatMap encode := by
  induction ms with
  | nil => rfl
  | cons m ms ih => rw [membersBytes, ih, List.flatMap_cons, encode]

theorem eq_point_of_kind {l : Layout} (h : l.kind = .point) : ∃ order p, l = point order p := by
  cases l with
  | point order p => exact ⟨order, p, rfl⟩
  | lineString | polygon => cases h
  | members holder => rcases holder with _ | (_ | _ | _) <;> cases h

theorem eq_lineString_of_kind {l : Layout} (h : l.kind = .lineString) :
    ∃ order line, l = lineString order line := by
  cases l with
  | lineString order line => exact ⟨order, line, rfl⟩
  | point | polygon => cases h
  | members holder => rcases holder with _ | (_ | _ | _) <;> cases h

theorem eq_polygon_of_kind {l : Layout} (h : l.kind = .polygon) :
    ∃ order rings, l = polygon order rings := by
  cases l with
  | polygon order rings => exact ⟨order, rings, rfl⟩
  | point | lineString => cases h
  | members holder => rcases holder with _ | (_ | _ | _) <;> cases h

theorem eq_members_of_kind {l : Layout} {holder : Holder} (h : l.kind = holder.kind) :
    ∃ order ms, l = members holder order ms := by
  cases l with
  | point | lineString | polygon => rcases holder with _ | (_ | _ | _) <;> cases h
  | members holder' order ms => exact ⟨order, ms, by rw [Holder.kind_injective h]⟩

end Layout

section Distinct

variable {α : Type} {P : α → Prop} {bytes : α → List UInt8}

/-- What `a` is written as tells it from all other values that satisfy `P`, and tells where
it ends, whatever comes after it. -/
def Distinct (P : α → Prop) (bytes : α → List UInt8) (a : α) : Prop :=
  ∀ b, P b → ∀ c c₁ c₂ : Cursor, c.Advances (bytes a) c₁ → c.Advances (bytes b) c₂ →
    a = b ∧ c₁ = c₂

/-- What a step reads is determined by the input. -/
theorem distinct_of_step {step : Step α}
    (reads : ∀ a c c', step c = .ok (a, c') ↔ P a ∧ c.Advances (bytes a) c') {a : α}
    (readable : P a) : Distinct P bytes a := by
  intro b readable' c c₁ c₂ first second
  have read := (reads a c c₁).mpr ⟨readable, first⟩
  have read' := (reads b c c₂).mpr ⟨readable', second⟩
  simpa using read.symm.trans read'

theorem distinct_items {as bs : List α} (each : ∀ a ∈ as, Distinct P bytes a)
    (same : as.length = bs.length) (all : ∀ b ∈ bs, P b) {c c₁ c₂ : Cursor}
    (first : c.Advances (as.flatMap bytes) c₁) (second : c.Advances (bs.flatMap bytes) c₂) :
    as = bs ∧ c₁ = c₂ := by
  induction as generalizing bs c with
  | nil =>
    obtain rfl := List.length_eq_zero_iff.mp same.symm
    rw [List.flatMap_nil, Cursor.advances_nil_iff] at first second
    exact ⟨rfl, first.trans second.symm⟩
  | cons a as ih =>
    obtain ⟨b, bs, rfl⟩ := List.exists_cons_of_length_eq_add_one same.symm
    rw [List.flatMap_cons, Cursor.advances_append_iff] at first second
    obtain ⟨m₁, head, tail⟩ := first
    obtain ⟨m₂, head', tail'⟩ := second
    obtain ⟨rfl, rfl⟩ := each a (by simp) b (all b (by simp)) c m₁ m₂ head head'
    obtain ⟨rfl, rfl⟩ := ih (fun x member => each x (by simp [member])) (by simpa using same)
      (fun x member => all x (by simp [member])) tail tail'
    exact ⟨rfl, rfl⟩

theorem distinct_word (order : ByteOrder) {n : Nat} (small : n < countBound) :
    Distinct (· < countBound) (order.write 4) n :=
  distinct_of_step (fun _ _ _ => Cursor.word_eq_ok_iff) small

theorem distinct_coord (order : ByteOrder) (p : Coord Double) :
    Distinct (fun _ => True) (coordBytes order) p := by
  have reads (q : Coord Double) (c c' : Cursor) :
      c.coord order = .ok (q, c') ↔ True ∧ c.Advances (coordBytes order q) c' := by
    rw [true_and]
    exact Cursor.coord_eq_ok_iff
  exact distinct_of_step reads trivial

/-- A count tells how many values follow, and the values are told from others. -/
theorem distinct_counted (order : ByteOrder) {as : List α} (small : as.length < countBound)
    (each : ∀ a ∈ as, Distinct P bytes a) :
    Distinct (fun bs : List α => bs.length < countBound ∧ ∀ b ∈ bs, P b)
      (fun as => order.write 4 as.length ++ as.flatMap bytes) as := by
  rintro bs ⟨small', all⟩ c c₁ c₂ first second
  obtain ⟨m₁, count, items⟩ := Cursor.advances_append_iff.mp first
  obtain ⟨m₂, count', items'⟩ := Cursor.advances_append_iff.mp second
  obtain ⟨same, rfl⟩ := distinct_word order small _ small' c m₁ m₂ count count'
  exact distinct_items each same all items items'

theorem distinct_coords (order : ByteOrder) {line : List (Coord Double)}
    (small : line.length < countBound) :
    Distinct (fun line : List (Coord Double) => line.length < countBound)
      (coordsBytes order) line := by
  intro line' small' c c₁ c₂ first second
  exact distinct_counted order small (fun p _ => distinct_coord order p) line'
    ⟨small', fun _ _ => trivial⟩ c c₁ c₂ first second

theorem distinct_rings (order : ByteOrder) {rings : List (List (Coord Double))}
    (small : rings.length < countBound) (smalls : ∀ ring ∈ rings, ring.length < countBound) :
    Distinct (fun rings : List (List (Coord Double)) =>
      rings.length < countBound ∧ ∀ ring ∈ rings, ring.length < countBound)
      (ringsBytes order) rings :=
  distinct_counted order small fun ring member => distinct_coords order (smalls ring member)

end Distinct

namespace Layout

/-- Texts that start the same have the same header, and go on with their bodies from the
same place. -/
theorem header_eq {l l' : Layout} {c c₁ c₂ : Cursor} (first : c.Advances l.encode c₁)
    (second : c.Advances l'.encode c₂) :
    l.order = l'.order ∧ l.kind = l'.kind ∧
      ∃ middle : Cursor, middle.Advances l.body c₁ ∧ middle.Advances l'.body c₂ := by
  have split (l : Layout) (c' : Cursor) (h : c.Advances l.encode c') :
      ∃ after, c.byteOrder = .ok (l.order, after) ∧
        ∃ middle, after.word l.order = .ok (l.kind.code, middle) ∧ middle.Advances l.body c' := by
    have written : l.encode =
        [orderMarker l.order] ++ (l.order.write 4 l.kind.code ++ l.body) := by
      simp [encode, header]
    rw [written, Cursor.advances_append_iff] at h
    obtain ⟨after, marker, h⟩ := h
    obtain ⟨middle, code, rest⟩ := Cursor.advances_append_iff.mp h
    exact ⟨after, Cursor.byteOrder_eq_ok_iff.mpr marker, middle,
      Cursor.word_eq_ok_iff.mpr ⟨l.kind.code_lt, code⟩, rest⟩
  obtain ⟨a₁, marker, m₁, code, body⟩ := split l c₁ first
  obtain ⟨a₂, marker', m₂, code', body'⟩ := split l' c₂ second
  obtain ⟨orders, rfl⟩ : l.order = l'.order ∧ a₁ = a₂ := by simpa using marker.symm.trans marker'
  rw [← orders] at code'
  obtain ⟨codes, rfl⟩ : l.kind.code = l'.kind.code ∧ m₁ = m₂ := by
    simpa using code.symm.trans code'
  have kinds : some l.kind = some l'.kind := by
    rw [← ofCode?_eq_some_iff.mpr rfl, ← ofCode?_eq_some_iff.mpr rfl, codes]
  exact ⟨orders, Option.some.inj kinds, m₁, body, body'⟩

/-- The bytes of a text tell its layout and where it ends. -/
theorem distinct {l : Layout} (h : l.Counted) : Distinct Counted encode l := by
  induction h with
  | point order p =>
    intro l' _ c c₁ c₂ first second
    obtain ⟨orders, kinds, middle, body, body'⟩ := header_eq first second
    obtain ⟨order', p', rfl⟩ := eq_point_of_kind kinds.symm
    obtain rfl : order = order' := orders
    obtain ⟨rfl, rfl⟩ := distinct_coord order p p' trivial middle c₁ c₂ body body'
    exact ⟨rfl, rfl⟩
  | @lineString order line count =>
    intro l' counted c c₁ c₂ first second
    obtain ⟨orders, kinds, middle, body, body'⟩ := header_eq first second
    obtain ⟨order', line', rfl⟩ := eq_lineString_of_kind kinds.symm
    obtain rfl : order = order' := orders
    cases counted with
    | lineString count' =>
      obtain ⟨rfl, rfl⟩ := distinct_coords order count line' count' middle c₁ c₂ body body'
      exact ⟨rfl, rfl⟩
  | @polygon order rings count counts =>
    intro l' counted c c₁ c₂ first second
    obtain ⟨orders, kinds, middle, body, body'⟩ := header_eq first second
    obtain ⟨order', rings', rfl⟩ := eq_polygon_of_kind kinds.symm
    obtain rfl : order = order' := orders
    cases counted with
    | polygon count' counts' =>
      obtain ⟨rfl, rfl⟩ :=
        distinct_rings order count counts rings' ⟨count', counts'⟩ middle c₁ c₂ body body'
      exact ⟨rfl, rfl⟩
  | @members holder order ms count _ _ ih =>
    intro l' counted c c₁ c₂ first second
    obtain ⟨orders, kinds, middle, body, body'⟩ := header_eq first second
    obtain ⟨order', ms', rfl⟩ := eq_members_of_kind kinds.symm
    obtain rfl : order = order' := orders
    cases counted with
    | members count' _ below' =>
      rw [Layout.body, membersBytes_eq_flatMap] at body body'
      obtain ⟨rfl, rfl⟩ :=
        distinct_counted order count ih ms' ⟨count', below'⟩ middle c₁ c₂ body body'
      exact ⟨rfl, rfl⟩

theorem eq_of_encode_eq {l l' : Layout} (h : l.Counted) (h' : l'.Counted)
    (same : l.encode = l'.encode) : l = l' := by
  have whole := Cursor.Advances.start l.encode [] 0
  have whole' : Cursor.Advances ⟨0, l.encode ++ []⟩ l'.encode ⟨0 + l'.encode.length, []⟩ := by
    rw [same]
    exact Cursor.Advances.start l'.encode [] 0
  exact (distinct h l' h' _ _ _ whole whole').1

end Layout

end HexCover.Wkb
