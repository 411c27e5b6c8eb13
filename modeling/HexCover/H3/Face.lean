import HexCover.H3.Lattice
import HexCover.Sphere.Point

/-! The faces of the icosahedron. Each face carries a lattice of its own, centred
on the face; its first axis leaves the centre at a fixed azimuth. Beyond one of
its three edges, named by the two axes next to it, lies another face whose
lattice is a shifted and turned copy. -/
namespace HexCover.H3

open Sphere

abbrev Face := Fin 20

instance face_neZero : @NeZero Nat Zero.ofOfNat0 20 := ⟨by decide⟩

/-- How the lattice of a face continues on a neighbour: turn this often to the
left, then move by the offset in units of the face's size. -/
structure Crossing where
  face : Face
  offset : Point
  turns : Nat

/-- A face: its centre, the azimuth of its first axis at even resolutions, and
the crossings over its edges. -/
structure FaceData where
  center : Position
  azimuth : Float
  ij : Crossing
  ki : Crossing
  jk : Crossing

def faces : Array FaceData := #[
  ⟨⟨0.80358264971899, 1.2483974196173961⟩, 5.6199582685239395,
    ⟨4, ⟨2, 0, 2⟩, 1⟩, ⟨1, ⟨2, 2, 0⟩, 5⟩, ⟨5, ⟨0, 2, 2⟩, 3⟩⟩,
  ⟨⟨1.3077478834556382, 2.5369450098779214⟩, 5.7603390817141875,
    ⟨0, ⟨2, 0, 2⟩, 1⟩, ⟨2, ⟨2, 2, 0⟩, 5⟩, ⟨6, ⟨0, 2, 2⟩, 3⟩⟩,
  ⟨⟨1.054751253523952, -1.3475173589003966⟩, 0.78021365439343,
    ⟨1, ⟨2, 0, 2⟩, 1⟩, ⟨3, ⟨2, 2, 0⟩, 5⟩, ⟨7, ⟨0, 2, 2⟩, 3⟩⟩,
  ⟨⟨0.6001915955381868, -0.45060390946975576⟩, 0.4304693639799999,
    ⟨2, ⟨2, 0, 2⟩, 1⟩, ⟨4, ⟨2, 2, 0⟩, 5⟩, ⟨8, ⟨0, 2, 2⟩, 3⟩⟩,
  ⟨⟨0.49171542819877384, 0.40198820291130694⟩, 6.130269123335111,
    ⟨3, ⟨2, 0, 2⟩, 1⟩, ⟨0, ⟨2, 2, 0⟩, 5⟩, ⟨9, ⟨0, 2, 2⟩, 3⟩⟩,
  ⟨⟨0.1727453274156187, 1.6781468852804338⟩, 2.692877706530643,
    ⟨10, ⟨2, 2, 0⟩, 3⟩, ⟨14, ⟨2, 0, 2⟩, 3⟩, ⟨0, ⟨0, 2, 2⟩, 3⟩⟩,
  ⟨⟨0.6059293215713507, 2.9539233298124117⟩, 2.982963003477244,
    ⟨11, ⟨2, 2, 0⟩, 3⟩, ⟨10, ⟨2, 0, 2⟩, 3⟩, ⟨1, ⟨0, 2, 2⟩, 3⟩⟩,
  ⟨⟨0.42737051832897965, -1.8888762003362853⟩, 3.532912002790141,
    ⟨12, ⟨2, 2, 0⟩, 3⟩, ⟨11, ⟨2, 0, 2⟩, 3⟩, ⟨2, ⟨0, 2, 2⟩, 3⟩⟩,
  ⟨⟨-0.07906611854921283, -0.7334295133808677⟩, 3.494305004259568,
    ⟨13, ⟨2, 2, 0⟩, 3⟩, ⟨12, ⟨2, 0, 2⟩, 3⟩, ⟨3, ⟨0, 2, 2⟩, 3⟩⟩,
  ⟨⟨-0.23096164445538364, 0.506495587332349⟩, 3.0032141694995382,
    ⟨14, ⟨2, 2, 0⟩, 3⟩, ⟨13, ⟨2, 0, 2⟩, 3⟩, ⟨4, ⟨0, 2, 2⟩, 3⟩⟩,
  ⟨⟨0.07906611854921283, 2.4081631402089254⟩, 5.930472956509812,
    ⟨5, ⟨2, 2, 0⟩, 3⟩, ⟨6, ⟨2, 0, 2⟩, 3⟩, ⟨15, ⟨0, 2, 2⟩, 3⟩⟩,
  ⟨⟨0.23096164445538364, -2.635097066257444⟩, 0.13837848409025486,
    ⟨6, ⟨2, 2, 0⟩, 3⟩, ⟨7, ⟨2, 0, 2⟩, 3⟩, ⟨16, ⟨0, 2, 2⟩, 3⟩⟩,
  ⟨⟨-0.1727453274156187, -1.4634457683093596⟩, 0.4487149470591504,
    ⟨7, ⟨2, 2, 0⟩, 3⟩, ⟨8, ⟨2, 0, 2⟩, 3⟩, ⟨17, ⟨0, 2, 2⟩, 3⟩⟩,
  ⟨⟨-0.6059293215713507, -0.18766932377738163⟩, 0.15862965011254937,
    ⟨8, ⟨2, 2, 0⟩, 3⟩, ⟨9, ⟨2, 0, 2⟩, 3⟩, ⟨18, ⟨0, 2, 2⟩, 3⟩⟩,
  ⟨⟨-0.42737051832897965, 1.2527164532535078⟩, 5.891865957979238,
    ⟨9, ⟨2, 2, 0⟩, 3⟩, ⟨5, ⟨2, 0, 2⟩, 3⟩, ⟨19, ⟨0, 2, 2⟩, 3⟩⟩,
  ⟨⟨-0.6001915955381868, 2.6909887441200375⟩, 2.711123289609793,
    ⟨16, ⟨2, 0, 2⟩, 1⟩, ⟨19, ⟨2, 2, 0⟩, 5⟩, ⟨10, ⟨0, 2, 2⟩, 3⟩⟩,
  ⟨⟨-0.49171542819877384, -2.7396044506784865⟩, 3.294508837434268,
    ⟨17, ⟨2, 0, 2⟩, 1⟩, ⟨15, ⟨2, 2, 0⟩, 5⟩, ⟨11, ⟨0, 2, 2⟩, 3⟩⟩,
  ⟨⟨-0.80358264971899, -1.8931952339723972⟩, 3.80481969224544,
    ⟨18, ⟨2, 0, 2⟩, 1⟩, ⟨16, ⟨2, 2, 0⟩, 5⟩, ⟨12, ⟨0, 2, 2⟩, 3⟩⟩,
  ⟨⟨-1.3077478834556382, -0.6046476437118721⟩, 3.6644388790551923,
    ⟨19, ⟨2, 0, 2⟩, 1⟩, ⟨17, ⟨2, 2, 0⟩, 5⟩, ⟨13, ⟨0, 2, 2⟩, 3⟩⟩,
  ⟨⟨-1.054751253523952, 1.7940752946893965⟩, 2.361378999196363,
    ⟨15, ⟨2, 0, 2⟩, 1⟩, ⟨18, ⟨2, 2, 0⟩, 5⟩, ⟨14, ⟨0, 2, 2⟩, 3⟩⟩]

def Face.data (f : Face) : FaceData :=
  faces.getD f.val ⟨⟨0, 0⟩, 0, ⟨0, .zero, 0⟩, ⟨0, .zero, 0⟩, ⟨0, .zero, 0⟩⟩

inductive Edge where
  | ij
  | ki
  | jk
deriving DecidableEq

def Face.crossing (f : Face) : Edge → Crossing
  | .ij => f.data.ij
  | .ki => f.data.ki
  | .jk => f.data.jk

/-- The edge of a face behind which another face lies. -/
def Face.edgeTo (f other : Face) : Edge :=
  if f.data.ij.face = other then .ij else if f.data.jk.face = other then .jk else .ki

end HexCover.H3
