import HexCover.Proofs.Wkb.Decode

/-! Where a text ends. The walk looks at the length of the whole input whenever it reads a
count, and still what it reads does not depend on the bytes behind it: a longer input
lets it take the same steps and leaves more. So no text that is accepted goes on to
another one that is accepted, and bytes behind a text are counted and refused. -/
namespace HexCover.Wkb

namespace Cursor

/-- A cursor over an input that goes on longer. -/
def extend (c : Cursor) (extra : List UInt8) : Cursor := ⟨c.position, c.rest ++ extra⟩

theorem Advances.extend {c c' : Cursor} {bytes : List UInt8} (h : c.Advances bytes c')
    (extra : List UInt8) : (c.extend extra).Advances bytes (c'.extend extra) where
  rest := by
    change c.rest ++ extra = bytes ++ (c'.rest ++ extra)
    rw [h.rest, List.append_assoc]
  position := h.position

end Cursor

/-- More input changes neither what the walk gives nor what it has read. -/
theorem walk_extend {levels : Nat} {out : List UInt8} {c c' : Cursor}
    {result : Option Kind × List UInt8} (h : walk levels out c = .ok (result, c'))
    (extra : List UInt8) :
    walk levels out (c.extend extra) = .ok (result, c'.extend extra) := by
  obtain ⟨t, fits, kind, written, advance⟩ := (walk_readsTrees levels _ _ _ _ _).mp h
  exact (walk_readsTrees levels _ _ _ _ _).mpr ⟨t, fits, kind, written, advance.extend extra⟩

theorem normalize_of_walk {bytes out : List UInt8} {kind? : Option Kind} {c : Cursor}
    (walked : walk (maxDepth + 1) [] ⟨0, bytes⟩ = .ok ((kind?, out), c)) :
    normalize bytes =
      if c.rest.length ≠ 0 then .error (.trailing c.rest.length)
      else .ok (kind?.map fun _ => out) := by
  rw [normalize, walked]
  rfl

theorem normalize_append {bytes : List UInt8} {normal? : Option (List UInt8)}
    (accepted : normalize bytes = .ok normal?) {extra : List UInt8} (more : extra ≠ []) :
    normalize (bytes ++ extra) = .error (.trailing extra.length) := by
  obtain ⟨⟨⟨kind?, out⟩, c⟩, walked, _⟩ := bind_eq_ok_iff.mp accepted
  rw [normalize_of_walk walked] at accepted
  split at accepted
  · cases accepted
  · rename_i whole
    -- the shorter input has been read to its end, so what is left is what came behind it
    have left : (c.extend extra).rest = extra := by
      have nothing_left : c.rest = [] := by simpa using whole
      simp [Cursor.extend, nothing_left]
    have some_left : extra.length ≠ 0 := by simpa using more
    have longer : walk (maxDepth + 1) [] ⟨0, bytes ++ extra⟩ = _ := walk_extend walked extra
    rw [normalize_of_walk longer, left, if_pos some_left]

theorem decode_append {id : UInt64} {bytes : List UInt8} {result : Option (Geometry Double)}
    (accepted : decode id bytes = .ok result) (id' : UInt64) {extra : List UInt8}
    (more : extra ≠ []) :
    decode id' (bytes ++ extra) = .error (malformed id' (.trailing extra.length)) := by
  cases normalized : normalize bytes with
  | error fault => simp [decode, normalized] at accepted
  | ok normal? => rw [decode, normalize_append normalized more]

/-- No text that is accepted is the start of another one. A text with bytes behind it is
refused for as many trailing bytes, and one that breaks off is refused. -/
theorem decode_prefix_free {id : UInt64} {bytes : List UInt8} {result : Option (Geometry Double)}
    (accepted : decode id bytes = .ok result) (id' : UInt64) :
    (∀ extra, extra ≠ [] → decode id' (bytes ++ extra) = .error (.invalidGeometry id'
      ("malformed WKB: " ++ (toString extra.length ++ " trailing bytes")))) ∧
    ∀ start, start <+: bytes → start ≠ bytes →
      ∃ message, decode id' start = .error (.invalidGeometry id' message) := by
  constructor
  · intro extra more
    exact decode_append accepted id' more
  · rintro start ⟨extra, rfl⟩ proper
    have more : extra ≠ [] := by
      rintro rfl
      exact proper (List.append_nil start).symm
    cases outcome : decode id' start with
    | error e =>
      obtain ⟨fault, _, rfl⟩ := decode_eq_error_iff.mp outcome
      exact ⟨_, rfl⟩
    | ok result' =>
      -- then the whole text would have trailing bytes
      rw [decode_append outcome id more] at accepted
      cases accepted

def pointInCollection : Tree := .members .geometries .big [.point .little ⟨.ofNat 0, .ofNat 0⟩]

theorem decode_prefix_free_collection :
    decode 7 pointInCollection.encode = .ok pointInCollection.prune? ∧
      decode 8 (pointInCollection.encode ++ [1, 1]) =
        .error (.invalidGeometry 8 ("malformed WKB: " ++ (toString 2 ++ " trailing bytes"))) ∧
      ∃ message, decode 8 (pointInCollection.encode.take 29) =
        .error (.invalidGeometry 8 message) := by
  have acceptable : pointInCollection.Acceptable := by
    refine .members (by decide) (by simp [Container.Admits]) ?_
    simpa using .point _ _
  have accepted : decode 7 pointInCollection.encode = .ok pointInCollection.prune? :=
    decode_encode 7 acceptable (by decide)
  obtain ⟨trailing, broken⟩ := decode_prefix_free accepted 8
  exact ⟨accepted, trailing [1, 1] (by decide), broken _ (List.take_prefix 29 _) (by decide)⟩

end HexCover.Wkb
