import HexCover.H3.Face

/-! Where the base cells lie. Each base cell has a home face and a place in its
lattice; near the edges of a face the same base cell is met again with its digits
turned. -/
namespace HexCover.H3

/-- The home of a base cell. For a pentagon, `rightFaces` are the faces on which
its missing direction is closed by a turn to the right. -/
structure Home where
  face : Face
  place : Point
  rightFaces : List Face

def homes : Array Home := #[
  ⟨1, ⟨1, 0, 0⟩, []⟩, ⟨2, ⟨1, 1, 0⟩, []⟩, ⟨1, ⟨0, 0, 0⟩, []⟩,
  ⟨2, ⟨1, 0, 0⟩, []⟩, ⟨0, ⟨2, 0, 0⟩, []⟩, ⟨1, ⟨1, 1, 0⟩, []⟩,
  ⟨1, ⟨0, 0, 1⟩, []⟩, ⟨2, ⟨0, 0, 0⟩, []⟩, ⟨0, ⟨1, 0, 0⟩, []⟩,
  ⟨2, ⟨0, 1, 0⟩, []⟩, ⟨1, ⟨0, 1, 0⟩, []⟩, ⟨1, ⟨0, 1, 1⟩, []⟩,
  ⟨3, ⟨1, 0, 0⟩, []⟩, ⟨3, ⟨1, 1, 0⟩, []⟩, ⟨11, ⟨2, 0, 0⟩, [2, 6]⟩,
  ⟨4, ⟨1, 0, 0⟩, []⟩, ⟨0, ⟨0, 0, 0⟩, []⟩, ⟨6, ⟨0, 1, 0⟩, []⟩,
  ⟨0, ⟨0, 0, 1⟩, []⟩, ⟨2, ⟨0, 1, 1⟩, []⟩, ⟨7, ⟨0, 0, 1⟩, []⟩,
  ⟨2, ⟨0, 0, 1⟩, []⟩, ⟨0, ⟨1, 1, 0⟩, []⟩, ⟨6, ⟨0, 0, 1⟩, []⟩,
  ⟨10, ⟨2, 0, 0⟩, [1, 5]⟩, ⟨6, ⟨0, 0, 0⟩, []⟩, ⟨3, ⟨0, 0, 0⟩, []⟩,
  ⟨11, ⟨1, 0, 0⟩, []⟩, ⟨4, ⟨1, 1, 0⟩, []⟩, ⟨3, ⟨0, 1, 0⟩, []⟩,
  ⟨0, ⟨0, 1, 1⟩, []⟩, ⟨4, ⟨0, 0, 0⟩, []⟩, ⟨5, ⟨0, 1, 0⟩, []⟩,
  ⟨0, ⟨0, 1, 0⟩, []⟩, ⟨7, ⟨0, 1, 0⟩, []⟩, ⟨11, ⟨1, 1, 0⟩, []⟩,
  ⟨7, ⟨0, 0, 0⟩, []⟩, ⟨10, ⟨1, 0, 0⟩, []⟩, ⟨12, ⟨2, 0, 0⟩, [3, 7]⟩,
  ⟨6, ⟨1, 0, 1⟩, []⟩, ⟨7, ⟨1, 0, 1⟩, []⟩, ⟨4, ⟨0, 0, 1⟩, []⟩,
  ⟨3, ⟨0, 0, 1⟩, []⟩, ⟨3, ⟨0, 1, 1⟩, []⟩, ⟨4, ⟨0, 1, 0⟩, []⟩,
  ⟨6, ⟨1, 0, 0⟩, []⟩, ⟨11, ⟨0, 0, 0⟩, []⟩, ⟨8, ⟨0, 0, 1⟩, []⟩,
  ⟨5, ⟨0, 0, 1⟩, []⟩, ⟨14, ⟨2, 0, 0⟩, [0, 9]⟩, ⟨5, ⟨0, 0, 0⟩, []⟩,
  ⟨12, ⟨1, 0, 0⟩, []⟩, ⟨10, ⟨1, 1, 0⟩, []⟩, ⟨4, ⟨0, 1, 1⟩, []⟩,
  ⟨12, ⟨1, 1, 0⟩, []⟩, ⟨7, ⟨1, 0, 0⟩, []⟩, ⟨11, ⟨0, 1, 0⟩, []⟩,
  ⟨10, ⟨0, 0, 0⟩, []⟩, ⟨13, ⟨2, 0, 0⟩, [4, 8]⟩, ⟨10, ⟨0, 0, 1⟩, []⟩,
  ⟨11, ⟨0, 0, 1⟩, []⟩, ⟨9, ⟨0, 1, 0⟩, []⟩, ⟨8, ⟨0, 1, 0⟩, []⟩,
  ⟨6, ⟨2, 0, 0⟩, [11, 15]⟩, ⟨8, ⟨0, 0, 0⟩, []⟩, ⟨9, ⟨0, 0, 1⟩, []⟩,
  ⟨14, ⟨1, 0, 0⟩, []⟩, ⟨5, ⟨1, 0, 1⟩, []⟩, ⟨16, ⟨0, 1, 1⟩, []⟩,
  ⟨8, ⟨1, 0, 1⟩, []⟩, ⟨5, ⟨1, 0, 0⟩, []⟩, ⟨12, ⟨0, 0, 0⟩, []⟩,
  ⟨7, ⟨2, 0, 0⟩, [12, 16]⟩, ⟨12, ⟨0, 1, 0⟩, []⟩, ⟨10, ⟨0, 1, 0⟩, []⟩,
  ⟨9, ⟨0, 0, 0⟩, []⟩, ⟨13, ⟨1, 0, 0⟩, []⟩, ⟨16, ⟨0, 0, 1⟩, []⟩,
  ⟨15, ⟨0, 1, 1⟩, []⟩, ⟨15, ⟨0, 1, 0⟩, []⟩, ⟨16, ⟨0, 1, 0⟩, []⟩,
  ⟨14, ⟨1, 1, 0⟩, []⟩, ⟨13, ⟨1, 1, 0⟩, []⟩, ⟨5, ⟨2, 0, 0⟩, [10, 19]⟩,
  ⟨8, ⟨1, 0, 0⟩, []⟩, ⟨14, ⟨0, 0, 0⟩, []⟩, ⟨9, ⟨1, 0, 1⟩, []⟩,
  ⟨14, ⟨0, 0, 1⟩, []⟩, ⟨17, ⟨0, 0, 1⟩, []⟩, ⟨12, ⟨0, 0, 1⟩, []⟩,
  ⟨16, ⟨0, 0, 0⟩, []⟩, ⟨17, ⟨0, 1, 1⟩, []⟩, ⟨15, ⟨0, 0, 1⟩, []⟩,
  ⟨16, ⟨1, 0, 1⟩, []⟩, ⟨9, ⟨1, 0, 0⟩, []⟩, ⟨15, ⟨0, 0, 0⟩, []⟩,
  ⟨13, ⟨0, 0, 0⟩, []⟩, ⟨8, ⟨2, 0, 0⟩, [13, 17]⟩, ⟨13, ⟨0, 1, 0⟩, []⟩,
  ⟨17, ⟨1, 0, 1⟩, []⟩, ⟨19, ⟨0, 1, 0⟩, []⟩, ⟨14, ⟨0, 1, 0⟩, []⟩,
  ⟨19, ⟨0, 1, 1⟩, []⟩, ⟨17, ⟨0, 1, 0⟩, []⟩, ⟨13, ⟨0, 0, 1⟩, []⟩,
  ⟨17, ⟨0, 0, 0⟩, []⟩, ⟨16, ⟨1, 0, 0⟩, []⟩, ⟨9, ⟨2, 0, 0⟩, [14, 18]⟩,
  ⟨15, ⟨1, 0, 1⟩, []⟩, ⟨15, ⟨1, 0, 0⟩, []⟩, ⟨18, ⟨0, 1, 1⟩, []⟩,
  ⟨18, ⟨0, 0, 1⟩, []⟩, ⟨19, ⟨0, 0, 1⟩, []⟩, ⟨17, ⟨1, 0, 0⟩, []⟩,
  ⟨19, ⟨0, 0, 0⟩, []⟩, ⟨18, ⟨0, 1, 0⟩, []⟩, ⟨18, ⟨1, 0, 1⟩, []⟩,
  ⟨19, ⟨2, 0, 0⟩, []⟩, ⟨19, ⟨1, 0, 0⟩, []⟩, ⟨18, ⟨0, 0, 0⟩, []⟩,
  ⟨19, ⟨1, 0, 1⟩, []⟩, ⟨18, ⟨1, 0, 0⟩, []⟩]

def BaseCell.home (b : BaseCell) : Home := homes.getD b.val ⟨0, .zero, []⟩

/-- For each face and each place with components 0 to 2, the base cell there and
the number of turns to the left from the face's lattice to the base cell's; the
last component varies fastest. -/
def placements : Array (Array (BaseCell × Nat)) := #[
  #[(16, 0), (18, 0), (24, 0), (33, 0), (30, 0), (32, 3), (49, 1), (48, 3), (50, 3),
    (8, 0), (5, 5), (10, 5), (22, 0), (16, 0), (18, 0), (41, 1), (33, 0), (30, 0),
    (4, 0), (0, 5), (2, 5), (15, 1), (8, 0), (5, 5), (31, 1), (22, 0), (16, 0)],
  #[(2, 0), (6, 0), (14, 0), (10, 0), (11, 0), (17, 3), (24, 1), (23, 3), (25, 3),
    (0, 0), (1, 5), (9, 5), (5, 0), (2, 0), (6, 0), (18, 1), (10, 0), (11, 0),
    (4, 1), (3, 5), (7, 5), (8, 1), (0, 0), (1, 5), (16, 1), (5, 0), (2, 0)],
  #[(7, 0), (21, 0), (38, 0), (9, 0), (19, 0), (34, 3), (14, 1), (20, 3), (36, 3),
    (3, 0), (13, 5), (29, 5), (1, 0), (7, 0), (21, 0), (6, 1), (9, 0), (19, 0),
    (4, 2), (12, 5), (26, 5), (0, 1), (3, 0), (13, 5), (2, 1), (1, 0), (7, 0)],
  #[(26, 0), (42, 0), (58, 0), (29, 0), (43, 0), (62, 3), (38, 1), (47, 3), (64, 3),
    (12, 0), (28, 5), (44, 5), (13, 0), (26, 0), (42, 0), (21, 1), (29, 0), (43, 0),
    (4, 3), (15, 5), (31, 5), (3, 1), (12, 0), (28, 5), (7, 1), (13, 0), (26, 0)],
  #[(31, 0), (41, 0), (49, 0), (44, 0), (53, 0), (61, 3), (58, 1), (65, 3), (75, 3),
    (15, 0), (22, 5), (33, 5), (28, 0), (31, 0), (41, 0), (42, 1), (44, 0), (53, 0),
    (4, 4), (8, 5), (16, 5), (12, 1), (15, 0), (22, 5), (26, 1), (28, 0), (31, 0)],
  #[(50, 0), (48, 0), (49, 3), (32, 0), (30, 3), (33, 3), (24, 3), (18, 3), (16, 3),
    (70, 0), (67, 0), (66, 3), (52, 3), (50, 0), (48, 0), (37, 3), (32, 0), (30, 3),
    (83, 0), (87, 3), (85, 3), (74, 3), (70, 0), (67, 0), (57, 1), (52, 3), (50, 0)],
  #[(25, 0), (23, 0), (24, 3), (17, 0), (11, 3), (10, 3), (14, 3), (6, 3), (2, 3),
    (45, 0), (39, 0), (37, 3), (35, 3), (25, 0), (23, 0), (27, 3), (17, 0), (11, 3),
    (63, 0), (59, 3), (57, 3), (56, 3), (45, 0), (39, 0), (46, 3), (35, 3), (25, 0)],
  #[(36, 0), (20, 0), (14, 3), (34, 0), (19, 3), (9, 3), (38, 3), (21, 3), (7, 3),
    (55, 0), (40, 0), (27, 3), (54, 3), (36, 0), (20, 0), (51, 3), (34, 0), (19, 3),
    (72, 0), (60, 3), (46, 3), (73, 3), (55, 0), (40, 0), (71, 3), (54, 3), (36, 0)],
  #[(64, 0), (47, 0), (38, 3), (62, 0), (43, 3), (29, 3), (58, 3), (42, 3), (26, 3),
    (84, 0), (69, 0), (51, 3), (82, 3), (64, 0), (47, 0), (76, 3), (62, 0), (43, 3),
    (97, 0), (89, 3), (71, 3), (98, 3), (84, 0), (69, 0), (96, 3), (82, 3), (64, 0)],
  #[(75, 0), (65, 0), (58, 3), (61, 0), (53, 3), (44, 3), (49, 3), (41, 3), (31, 3),
    (94, 0), (86, 0), (76, 3), (81, 3), (75, 0), (65, 0), (66, 3), (61, 0), (53, 3),
    (107, 0), (104, 3), (96, 3), (101, 3), (94, 0), (86, 0), (85, 3), (81, 3), (75, 0)],
  #[(57, 0), (59, 0), (63, 3), (74, 0), (78, 3), (79, 3), (83, 3), (92, 3), (95, 3),
    (37, 0), (39, 3), (45, 3), (52, 0), (57, 0), (59, 0), (70, 3), (74, 0), (78, 3),
    (24, 0), (23, 3), (25, 3), (32, 3), (37, 0), (39, 3), (50, 3), (52, 0), (57, 0)],
  #[(46, 0), (60, 0), (72, 3), (56, 0), (68, 3), (80, 3), (63, 3), (77, 3), (90, 3),
    (27, 0), (40, 3), (55, 3), (35, 0), (46, 0), (60, 0), (45, 3), (56, 0), (68, 3),
    (14, 0), (20, 3), (36, 3), (17, 3), (27, 0), (40, 3), (25, 3), (35, 0), (46, 0)],
  #[(71, 0), (89, 0), (97, 3), (73, 0), (91, 3), (103, 3), (72, 3), (88, 3), (105, 3),
    (51, 0), (69, 3), (84, 3), (54, 0), (71, 0), (89, 0), (55, 3), (73, 0), (91, 3),
    (38, 0), (47, 3), (64, 3), (34, 3), (51, 0), (69, 3), (36, 3), (54, 0), (71, 0)],
  #[(96, 0), (104, 0), (107, 3), (98, 0), (110, 3), (115, 3), (97, 3), (111, 3), (119, 3),
    (76, 0), (86, 3), (94, 3), (82, 0), (96, 0), (104, 0), (84, 3), (98, 0), (110, 3),
    (58, 0), (65, 3), (75, 3), (62, 3), (76, 0), (86, 3), (64, 3), (82, 0), (96, 0)],
  #[(85, 0), (87, 0), (83, 3), (101, 0), (102, 3), (100, 3), (107, 3), (112, 3), (114, 3),
    (66, 0), (67, 3), (70, 3), (81, 0), (85, 0), (87, 0), (94, 3), (101, 0), (102, 3),
    (49, 0), (48, 3), (50, 3), (61, 3), (66, 0), (67, 3), (75, 3), (81, 0), (85, 0)],
  #[(95, 0), (92, 0), (83, 0), (79, 0), (78, 0), (74, 3), (63, 1), (59, 3), (57, 3),
    (109, 0), (108, 0), (100, 5), (93, 1), (95, 0), (92, 0), (77, 1), (79, 0), (78, 0),
    (117, 4), (118, 5), (114, 5), (106, 1), (109, 0), (108, 0), (90, 1), (93, 1), (95, 0)],
  #[(90, 0), (77, 0), (63, 0), (80, 0), (68, 0), (56, 3), (72, 1), (60, 3), (46, 3),
    (106, 0), (93, 0), (79, 5), (99, 1), (90, 0), (77, 0), (88, 1), (80, 0), (68, 0),
    (117, 3), (109, 5), (95, 5), (113, 1), (106, 0), (93, 0), (105, 1), (99, 1), (90, 0)],
  #[(105, 0), (88, 0), (72, 0), (103, 0), (91, 0), (73, 3), (97, 1), (89, 3), (71, 3),
    (113, 0), (99, 0), (80, 5), (116, 1), (105, 0), (88, 0), (111, 1), (103, 0), (91, 0),
    (117, 2), (106, 5), (90, 5), (121, 1), (113, 0), (99, 0), (119, 1), (116, 1), (105, 0)],
  #[(119, 0), (111, 0), (97, 0), (115, 0), (110, 0), (98, 3), (107, 1), (104, 3), (96, 3),
    (121, 0), (116, 0), (103, 5), (120, 1), (119, 0), (111, 0), (112, 1), (115, 0), (110, 0),
    (117, 1), (113, 5), (105, 5), (118, 1), (121, 0), (116, 0), (114, 1), (120, 1), (119, 0)],
  #[(114, 0), (112, 0), (107, 0), (100, 0), (102, 0), (101, 3), (83, 1), (87, 3), (85, 3),
    (118, 0), (120, 0), (115, 5), (108, 1), (114, 0), (112, 0), (92, 1), (100, 0), (102, 0),
    (117, 0), (121, 5), (119, 5), (109, 1), (118, 0), (120, 0), (95, 1), (108, 1), (114, 0)]]

def Face.placement (f : Face) (p : Point) : BaseCell × Nat :=
  let index := (9 * p.i + 3 * p.j + p.k).toNat
  (placements.getD f.val #[]).getD index (0, 0)

end HexCover.H3
