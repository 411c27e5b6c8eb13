/-! Positions on the unit sphere. A position is a latitude and a longitude in
radians. Directions between positions are azimuths, clockwise from north; the
distance to a far position is the angle between the two. -/
namespace HexCover.Sphere

structure Position where
  lat : Float
  lng : Float
deriving Repr

def pi : Float := 3.141592653589793

/-- Angles below this are taken for zero. -/
def negligible : Float := 1.0e-16

def radians (degrees : Float) : Float := degrees * (pi / 180.0)

def degrees (radians : Float) : Float := radians * (180.0 / pi)

structure Vector where
  x : Float
  y : Float
  z : Float

def Position.vector (p : Position) : Vector :=
  let r := p.lat.cos
  ⟨p.lng.cos * r, p.lng.sin * r, p.lat.sin⟩

def Vector.squareDistance (v w : Vector) : Float :=
  let dx := v.x - w.x
  let dy := v.y - w.y
  let dz := v.z - w.z
  dx * dx + dy * dy + dz * dz

/-- Cut a float off at minus one and one. -/
def clampUnit (x : Float) : Float := if x > 1.0 then 1.0 else if x < -1.0 then -1.0 else x

def Vector.position (v : Vector) : Position :=
  ⟨(clampUnit v.z).asin, Float.atan2 v.y v.x⟩

/-- The unit vector halfway between two positions. -/
def Position.middle (p q : Position) : Vector :=
  let v := p.vector
  let w := q.vector
  let (x, y, z) := (v.x + w.x, v.y + w.y, v.z + w.z)
  let length := (x * x + y * y + z * z).sqrt
  ⟨x / length, y / length, z / length⟩

/-- The mirror image of a position in a unit vector. -/
def Position.mirrored (p : Position) (m : Vector) : Position :=
  let v := p.vector
  let along := 2.0 * (v.x * m.x + v.y * m.y + v.z * m.z)
  Vector.position ⟨along * m.x - v.x, along * m.y - v.y, along * m.z - v.z⟩

/-- An angle in a full turn from zero. -/
def positiveAngle (a : Float) : Float :=
  let b := if a < 0.0 then a + 2.0 * pi else a
  if b >= 2.0 * pi then b - 2.0 * pi else b

/-- A longitude between minus and plus half a turn, for one at most a full turn
outside. -/
def wrapLongitude (a : Float) : Float :=
  if a > pi then a - 2.0 * pi else if a < -pi then a + 2.0 * pi else a

def Position.azimuth (p q : Position) : Float :=
  Float.atan2 (q.lat.cos * (q.lng - p.lng).sin)
    (p.lat.cos * q.lat.sin - p.lat.sin * q.lat.cos * (q.lng - p.lng).cos)

def Position.destination (p : Position) (azimuth distance : Float) : Position :=
  if distance < negligible then p
  else
    let azimuth := positiveAngle azimuth
    let lat :=
      if azimuth < negligible then p.lat + distance
      else if (azimuth - pi).abs < negligible then p.lat - distance
      else (clampUnit (p.lat.sin * distance.cos + p.lat.cos * distance.sin * azimuth.cos)).asin
    if (lat - pi / 2.0).abs < negligible then ⟨pi / 2.0, 0.0⟩
    else if (lat + pi / 2.0).abs < negligible then ⟨-(pi / 2.0), 0.0⟩
    else if azimuth < negligible || (azimuth - pi).abs < negligible then
      ⟨lat, wrapLongitude p.lng⟩
    else
      let sine := clampUnit (azimuth.sin * distance.sin / lat.cos)
      let cosine := clampUnit ((distance.cos - p.lat.sin * lat.sin) / p.lat.cos / lat.cos)
      ⟨lat, wrapLongitude (p.lng + Float.atan2 sine cosine)⟩

end HexCover.Sphere
