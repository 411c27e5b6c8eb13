import HexCover.H3.Requests
import HexCover.Proofs.H3.Compaction
import Mathlib.Algebra.BigOperators.Group.Finset.Basic
import Mathlib.Algebra.Order.BigOperators.Group.Finset

/-! Expansion of sets of identifiers. Which of its answers expansion gives is decided by the
resolution, then by the identifiers, then by the resolutions of the members. Expanding is
additive and can be done in steps, and members that do not lie above one another expand to
disjoint sets, so that the numbers of their descendants add up. These are powers of seven,
less what the missing children of a pentagon would have had. -/
namespace HexCover.H3

section Lists

variable {α β : Type} {p : α → Bool} {q : β → Bool} {f : α → List β} {xs : List α}

theorem countP_flatMap_eq (each : ∀ x ∈ xs, (f x).countP q = if p x then 1 else 0) :
    (xs.flatMap f).countP q = xs.countP p := by
  induction xs with
  | nil => rfl
  | cons x xs ih =>
    obtain ⟨first, rest⟩ := List.forall_mem_cons.mp each
    rw [List.flatMap_cons, List.countP_append, first, ih rest, List.countP_cons, Nat.add_comm]

theorem length_flatMap_add_countP {n : Nat}
    (each : ∀ x ∈ xs, (f x).length + (if p x then 1 else 0) = n) :
    (xs.flatMap f).length + xs.countP p = n * xs.length := by
  induction xs with
  | nil => rfl
  | cons x xs ih =>
    obtain ⟨first, rest⟩ := List.forall_mem_cons.mp each
    rw [List.flatMap_cons, List.length_append, List.countP_cons, List.length_cons, Nat.mul_succ,
      ← ih rest, ← first]
    omega

end Lists

namespace Cell

variable {c d e : Cell} {digits : List Digit}

theorem leading_append (d : Digit) :
    leading (digits ++ [d]) = if digits.all (· = 0) then d else leading digits := by
  rw [leading, List.find?_append]
  cases found : digits.find? (· ≠ 0) with
  | none =>
    have zeros : digits.all (· = 0) = true := by simpa using found
    rw [zeros, if_pos rfl, Option.none_or]
    by_cases zero : d = 0
    · rw [zero]
      rfl
    · simp [zero]
  | some first =>
    have other : ¬ digits.all (· = 0) = true := by
      intro zeros
      have zero := List.all_eq_true.mp zeros first (List.mem_of_find?_eq_some found)
      have ne := List.find?_some found
      exact of_decide_eq_true ne (of_decide_eq_true zero)
    rw [if_neg other, leading, found]
    rfl

/-- Only the child of a pentagon in direction 1 is missing. -/
theorem isPath_child_iff (coarse : c.resolution < 15) (d : Digit) :
    IsPath c.base (c.digits ++ [d]) ↔ ¬ (c.isPentagon = true ∧ d = 1) := by
  have short : (c.digits ++ [d]).length ≤ 15 := by
    rw [List.length_append]
    exact coarse
  have path := c.isPath.2
  rw [IsPath, and_iff_right short, leading_append, isPentagon]
  by_cases pentagon : c.base ∈ pentagons
  · by_cases central : c.digits.all (· = 0) = true
    · simp [pentagon, central]
    · simp [pentagon, central, path pentagon]
  · simp [pentagon]

theorem isPentagon_child {x : Digit} (base : d.base = c.base)
    (digits : d.digits = c.digits ++ [x]) : d.isPentagon = (c.isPentagon && decide (x = 0)) := by
  rw [isPentagon, isPentagon, base, digits, List.all_append, Bool.and_assoc, List.all_cons,
    List.all_nil, Bool.and_true]

theorem length_children (coarse : c.resolution < 15) :
    c.children.length = if c.isPentagon then 6 else 7 := by
  have present : (fun d : Digit => (ofPath? c.base (c.digits ++ [d])).isSome) =
      fun d => !(c.isPentagon && decide (d = 1)) := by
    funext d
    have path := isPath_child_iff coarse d
    rw [Bool.eq_iff_iff, ofPath?, Bool.not_eq_true', Bool.and_eq_false_imp, decide_eq_false_iff_not,
      ← not_and, ← path]
    split
    · next there => exact iff_of_true rfl there
    · next missing => exact iff_of_false Bool.false_ne_true missing
  rw [children, List.length_filterMap_eq_countP, present]
  cases c.isPentagon <;> decide

/-- Exactly one child of a pentagon is a pentagon, and none of another cell. -/
theorem countP_children (coarse : c.resolution < 15) :
    c.children.countP isPentagon = if c.isPentagon then 1 else 0 := by
  have pentagon :
      (fun d : Digit => ((ofPath? c.base (c.digits ++ [d])).map isPentagon).getD false) =
        fun d => c.isPentagon && decide (d = 0) := by
    funext d
    have path := isPath_child_iff coarse d
    rw [ofPath?]
    split
    · exact isPentagon_child rfl rfl
    · next missing =>
      obtain ⟨_, rfl⟩ := not_not.mp (mt path.mpr missing)
      simp
  rw [children, List.countP_filterMap, pentagon]
  cases c.isPentagon <;> decide

theorem nodup_children (c : Cell) : c.children.Nodup := by
  refine (List.nodup_finRange 7).filterMap fun x y d left right => ?_
  have first := (ofPath?_eq_some_iff.mp left).2
  have second := (ofPath?_eq_some_iff.mp right).2
  rw [first] at second
  simpa using second

theorem nodup_descendants (c : Cell) (steps : Nat) : (c.descendants steps).Nodup := by
  induction steps with
  | zero => exact List.nodup_singleton c
  | succ steps ih =>
    refine List.nodup_flatMap.mpr ⟨fun d _ => d.nodup_children, ih.imp fun {d e} differ => ?_⟩
    intro child left right
    rw [← parent_of_mem_children left, ← parent_of_mem_children right] at differ
    exact differ rfl

section Count

variable {steps : Nat}

theorem coarse_of_mem_descendants (fits : c.resolution + (steps + 1) ≤ 15)
    (member : d ∈ c.descendants steps) : d.resolution < 15 := by
  have level := (mem_descendants_iff.mp member).1
  omega

theorem countP_descendants (fits : c.resolution + steps ≤ 15) :
    (c.descendants steps).countP isPentagon = if c.isPentagon then 1 else 0 := by
  induction steps with
  | zero => simp [descendants]
  | succ steps ih =>
    rw [descendants, ← ih (by omega)]
    refine countP_flatMap_eq fun d member => countP_children ?_
    exact coarse_of_mem_descendants fits member

/-- One step down, every cell gives seven, but one that comes from a pentagon gives six. -/
theorem length_descendants_succ (fits : c.resolution + (steps + 1) ≤ 15) :
    (c.descendants (steps + 1)).length + (if c.isPentagon then 1 else 0) =
      7 * (c.descendants steps).length := by
  have one : (c.descendants steps).countP isPentagon = if c.isPentagon then 1 else 0 :=
    countP_descendants (by omega)
  rw [descendants, ← one]
  refine length_flatMap_add_countP fun d member => ?_
  rw [length_children (coarse_of_mem_descendants fits member)]
  split <;> rfl

def descendantCount (c : Cell) (steps : Nat) : Nat :=
  if c.isPentagon then (5 * 7 ^ steps + 1) / 6 else 7 ^ steps

theorem length_descendants (fits : c.resolution + steps ≤ 15) :
    (c.descendants steps).length = c.descendantCount steps := by
  rw [descendantCount]
  induction steps with
  | zero => split <;> rfl
  | succ steps ih =>
    have next := length_descendants_succ fits
    rw [ih (by omega)] at next
    have rest : 7 ^ steps % 6 = 1 := by rw [Nat.pow_mod, Nat.one_pow]
    rw [Nat.pow_succ]
    split
    · next pentagon =>
      rw [if_pos pentagon, if_pos pentagon] at next
      omega
    · next hexagon =>
      rw [if_neg hexagon, if_neg hexagon] at next
      omega

end Count

end Cell

section Reading

variable {s t u v w : CellSet} {ids : List CellId} {cells : List Cell}

/-- A listing of a set names each member once, in any order. -/
structure Lists (ids : List CellId) (s : CellSet) : Prop where
  nodup : ids.Nodup
  mem_iff : ∀ id, id ∈ ids ↔ id ∈ s

theorem lists_toList (s : CellSet) : Lists s.toList s where
  nodup := s.distinct_toList.imp fun differ same =>
    differ (Std.LawfulEqCmp.compare_eq_iff_eq.mpr same)
  mem_iff _ := Std.ExtTreeSet.mem_toList

theorem Lists.exists_readAll (listed : Lists ids s) (valid : Valid s) :
    ∃ cells, readAll ids = .ok cells := by
  have every : ∀ id ∈ ids, ∃ c, Cell.ofId id = .ok c := by
    intro id member
    obtain ⟨c, same⟩ := valid id ((listed.mem_iff id).mp member)
    exact ⟨c, Cell.ofId_eq_ok_iff.mpr same⟩
  exact ⟨_, mapM_eq_ok_filterMap every⟩

theorem Lists.mem_cells (listed : Lists ids s) (read : readAll ids = .ok cells) {c : Cell} :
    c ∈ cells ↔ c ∈ cellsIn s := by
  rw [mem_cellsIn, ← listed.mem_iff, ← mapM_ofId_eq_ok_iff.mp read,
    List.mem_map_of_injective fun _ _ => Cell.id_injective]

theorem Lists.nodup_cells (listed : Lists ids s) (read : readAll ids = .ok cells) :
    cells.Nodup := by
  have distinct := listed.nodup
  rw [← mapM_ofId_eq_ok_iff.mp read] at distinct
  exact distinct.of_map

/-- Reading fails on the first identifier that is not that of a cell. -/
theorem Lists.exists_unread (listed : Lists ids s) (invalid : ¬ Valid s) :
    ∃ id ∈ s, (∀ c : Cell, c.id ≠ id) ∧ readAll ids = .error (.invalidCell id.raw) := by
  obtain good | ⟨e, first⟩ := forall_ok_or_firstFailure Cell.ofId ids
  · refine absurd (fun id member => ?_) invalid
    obtain ⟨c, read⟩ := good id ((listed.mem_iff id).mpr member)
    exact ⟨c, Cell.ofId_eq_ok_iff.mp read⟩
  · obtain ⟨id, member, failed⟩ := first.fails
    obtain ⟨rfl, unread⟩ := Cell.ofId_eq_error_iff.mp failed
    exact ⟨id, (listed.mem_iff id).mp member, unread, first.mapM_eq⟩

theorem valid_union_iff : Valid (s ∪ t) ↔ Valid s ∧ Valid t := by
  simp only [Valid, Std.ExtTreeSet.mem_union_iff, or_imp, forall_and]

theorem cellsIn_union (s t : CellSet) : cellsIn (s ∪ t) = cellsIn s ∪ cellsIn t := by
  ext c
  rw [Finset.mem_union, mem_cellsIn, mem_cellsIn, mem_cellsIn, Std.ExtTreeSet.mem_union_iff]

end Reading

section Answers

variable {s t u v w : CellSet} {ids : List CellId} {expansion : List Cell → Nat → List Cell}
  {q r : Nat}

/-- What is relied on of a way to expand cells: it lists the descendants at the resolution,
in any order and perhaps more than once. -/
def ListsDescendants (expansion : List Cell → Nat → List Cell) : Prop :=
  ∀ (cells : List Cell) (r : Nat), r < 16 → (∀ c ∈ cells, c.resolution ≤ r) →
    ∀ d, d ∈ expansion cells r ↔ ∃ c ∈ cells, d ∈ c.descendants (r - c.resolution)

theorem listsDescendants_expand : ListsDescendants expand := by
  intro cells r _ _ d
  rw [expand, List.mem_flatMap]

/-- A set holds the cells of resolution `r` that belong to `s` or have an ancestor there. -/
def IsExpansion (s : CellSet) (r : Nat) (u : CellSet) : Prop :=
  ∀ id, id ∈ u ↔ ∃ d : Cell, d.id = id ∧ d.resolution = r ∧ ∃ n ≤ r, (d.ancestor n).id ∈ s

/-- What expansion of a set to a resolution answers. The resolution is checked first, then
the members are read, then their resolutions are compared. -/
structure Expands (s : CellSet) (r : Nat) (answer : Except ConversionError CellSet) : Prop where
  outside : 16 ≤ r → answer = .error (.invalidResolution (Resolution.outOfRange r))
  unread : r < 16 → ¬ Valid s →
    ∃ id ∈ s, (∀ c : Cell, c.id ≠ id) ∧ answer = .error (.invalidCell id.raw)
  finer : r < 16 → Valid s → ¬ Within r (cellsIn s) → ∃ c : Cell, c.id ∈ s ∧ r < c.resolution ∧
    answer = .error (.invalidResolution (tooFine r c))
  reached : r < 16 → Valid s → Within r (cellsIn s) → ∃ u, answer = .ok u ∧ IsExpansion s r u

theorem exists_ancestor_iff {d : Cell} (level : d.resolution = r) :
    (∃ n ≤ r, (d.ancestor n).id ∈ s) ↔ Reaches (cellsIn s) d := by
  constructor
  · rintro ⟨n, _, member⟩
    exact ⟨_, mem_cellsIn.mpr member, d.covers_ancestor n⟩
  · rintro ⟨c, member, covers⟩
    have le := covers.resolution_le
    refine ⟨c.resolution, level ▸ le, ?_⟩
    rw [show d.ancestor c.resolution = c from covers]
    exact mem_cellsIn.mp member

theorem IsExpansion.valid (h : IsExpansion s r u) : Valid u := by
  intro id member
  obtain ⟨d, same, _⟩ := (h id).mp member
  exact ⟨d, same⟩

theorem IsExpansion.mem_cellsIn_iff (h : IsExpansion s r u) {d : Cell} :
    d ∈ cellsIn u ↔ d.resolution = r ∧ Reaches (cellsIn s) d := by
  rw [mem_cellsIn, h d.id]
  constructor
  · rintro ⟨e, same, level, above⟩
    obtain rfl := Cell.id_injective same
    exact ⟨level, (exists_ancestor_iff level).mp above⟩
  · rintro ⟨level, reached⟩
    exact ⟨d, rfl, level, (exists_ancestor_iff level).mpr reached⟩

theorem isExpansion_of_cellsIn (valid : Valid u)
    (members : ∀ d, d ∈ cellsIn u ↔ d.resolution = r ∧ Reaches (cellsIn s) d) :
    IsExpansion s r u := by
  intro id
  constructor
  · intro member
    obtain ⟨d, rfl⟩ := valid id member
    obtain ⟨level, reached⟩ := (members d).mp (mem_cellsIn.mpr member)
    exact ⟨d, rfl, level, (exists_ancestor_iff level).mpr reached⟩
  · rintro ⟨d, rfl, level, above⟩
    exact mem_cellsIn.mp ((members d).mpr ⟨level, (exists_ancestor_iff level).mp above⟩)

theorem IsExpansion.unique (hu : IsExpansion s r u) (hv : IsExpansion s r v) : u = v := by
  apply Std.ExtTreeSet.ext_mem
  intro id
  rw [hu id, hv id]

theorem uncompactFrom_of_outside (outside : 16 ≤ r) : uncompactFrom expansion ids r =
    .error (.invalidResolution (Resolution.outOfRange r)) := by
  rw [uncompactFrom, Resolution.validate_of_ge outside]
  rfl

theorem uncompactFrom_of_lt (lt : r < 16) : uncompactFrom expansion ids r =
    (readAll ids >>= fun cells => match cells.find? fun c => r < c.resolution with
      | some finer => .error (.invalidResolution (tooFine r finer))
      | none => .ok (idSet (expansion cells r))) := by
  rw [uncompactFrom, Resolution.validate_of_lt lt]
  rfl

theorem isExpansion_idSet {cells : List Cell} (expands : ListsDescendants expansion)
    (same : ∀ c, c ∈ cells ↔ c ∈ cellsIn s) (lt : r < 16) (bound : Within r (cellsIn s)) :
    IsExpansion s r (idSet (expansion cells r)) := by
  have coarse : ∀ c ∈ cells, c.resolution ≤ r := fun c member => bound c ((same c).mp member)
  refine isExpansion_of_cellsIn (valid_idSet _) fun d => ?_
  rw [cellsIn_idSet, List.mem_toFinset, expands cells r lt coarse]
  constructor
  · rintro ⟨c, member, descendant⟩
    obtain ⟨level, covers⟩ := Cell.mem_descendants_iff.mp descendant
    have le := coarse c member
    exact ⟨by omega, c, (same c).mp member, covers⟩
  · rintro ⟨level, c, member, covers⟩
    have le := bound c member
    exact ⟨c, (same c).mpr member, Cell.mem_descendants_iff.mpr ⟨by omega, covers⟩⟩

theorem Lists.expands (listed : Lists ids s) (expands : ListsDescendants expansion) (r : Nat) :
    Expands s r (uncompactFrom expansion ids r) where
  outside := uncompactFrom_of_outside
  unread lt invalid := by
    obtain ⟨id, member, unread, failed⟩ := listed.exists_unread invalid
    refine ⟨id, member, unread, ?_⟩
    rw [uncompactFrom_of_lt lt, failed]
    rfl
  finer lt valid beyond := by
    obtain ⟨cells, read⟩ := listed.exists_readAll valid
    rw [uncompactFrom_of_lt lt, read]
    cases found : cells.find? fun c => r < c.resolution with
    | none =>
      refine absurd (fun c member => ?_) beyond
      have coarse := List.find?_eq_none.mp found c ((listed.mem_cells read).mpr member)
      simpa using coarse
    | some c =>
      have fine := List.find?_some found
      have member := (listed.mem_cells read).mp (List.mem_of_find?_eq_some found)
      refine ⟨c, mem_cellsIn.mp member, of_decide_eq_true fine, ?_⟩
      simp only [bind, Except.bind, found]
  reached lt valid bound := by
    obtain ⟨cells, read⟩ := listed.exists_readAll valid
    have same (c : Cell) : c ∈ cells ↔ c ∈ cellsIn s := listed.mem_cells read
    have none_finer : cells.find? (fun c => r < c.resolution) = none := by
      apply List.find?_eq_none.mpr
      intro c member
      simpa using bound c ((same c).mp member)
    refine ⟨_, ?_, isExpansion_idSet expands same lt bound⟩
    simp only [uncompactFrom_of_lt lt, read, bind, Except.bind, none_finer]

theorem expands_uncompact (s : CellSet) (r : Nat) : Expands s r (uncompact s r) :=
  (lists_toList s).expands listsDescendants_expand r

/-- When expansion succeeds, and with what. -/
theorem uncompact_eq_ok_iff : uncompact s r = .ok u ↔
    r < 16 ∧ Valid s ∧ Within r (cellsIn s) ∧ IsExpansion s r u := by
  have answers := expands_uncompact s r
  constructor
  · intro run
    rw [run] at answers
    have lt : r < 16 := by
      by_contra outside
      exact nomatch answers.outside (Nat.le_of_not_lt outside)
    have valid : Valid s := by
      by_contra invalid
      obtain ⟨_, _, _, failed⟩ := answers.unread lt invalid
      exact nomatch failed
    have bound : Within r (cellsIn s) := by
      by_contra beyond
      obtain ⟨_, _, _, failed⟩ := answers.finer lt valid beyond
      exact nomatch failed
    obtain ⟨u', same, expansion⟩ := answers.reached lt valid bound
    exact ⟨lt, valid, bound, Except.ok.inj same ▸ expansion⟩
  · rintro ⟨lt, valid, bound, expansion⟩
    obtain ⟨u', run, expansion'⟩ := answers.reached lt valid bound
    rw [run, expansion.unique expansion']

theorem IsExpansion.union (hv : IsExpansion s r v) (hw : IsExpansion t r w) :
    IsExpansion (s ∪ t) r (v ∪ w) := by
  refine isExpansion_of_cellsIn (valid_union_iff.mpr ⟨hv.valid, hw.valid⟩) fun d => ?_
  rw [cellsIn_union, cellsIn_union, reaches_union, Finset.mem_union, hv.mem_cellsIn_iff,
    hw.mem_cellsIn_iff, and_or_left]

/-- The expansion of a union is the union of the expansions. -/
theorem uncompact_union : uncompact (s ∪ t) r = .ok u ↔
    ∃ v w, uncompact s r = .ok v ∧ uncompact t r = .ok w ∧ v ∪ w = u := by
  simp only [uncompact_eq_ok_iff, valid_union_iff, cellsIn_union]
  constructor
  · rintro ⟨lt, ⟨hs, ht⟩, bound, expansion⟩
    have left : Within r (cellsIn s) := bound.mono Finset.subset_union_left
    have right : Within r (cellsIn t) := bound.mono Finset.subset_union_right
    obtain ⟨v, _, hv⟩ := (expands_uncompact s r).reached lt hs left
    obtain ⟨w, _, hw⟩ := (expands_uncompact t r).reached lt ht right
    exact ⟨v, w, ⟨lt, hs, left, hv⟩, ⟨lt, ht, right, hw⟩, (hv.union hw).unique expansion⟩
  · rintro ⟨v, w, ⟨lt, hs, left, hv⟩, ⟨_, ht, right, hw⟩, rfl⟩
    exact ⟨lt, ⟨hs, ht⟩, left.union right, hv.union hw⟩

theorem IsExpansion.within (h : IsExpansion s q u) (le : q ≤ r) : Within r (cellsIn u) := by
  intro d member
  have level := (h.mem_cellsIn_iff.mp member).1
  omega

/-- What the cells reach that are reached at a resolution in between. -/
theorem IsExpansion.reaches_iff (h : IsExpansion s q u) (bound : Within q (cellsIn s)) {d : Cell}
    (fine : q ≤ d.resolution) : Reaches (cellsIn u) d ↔ Reaches (cellsIn s) d := by
  constructor
  · rintro ⟨e, member, below⟩
    obtain ⟨_, c, above, covers⟩ := h.mem_cellsIn_iff.mp member
    exact ⟨c, above, covers.trans below⟩
  · rintro ⟨c, member, covers⟩
    have level : (d.ancestor q).resolution = q := by
      rw [Cell.resolution_ancestor, Nat.min_eq_left fine]
    have between : c.Covers (d.ancestor q) :=
      covers.of_le (d.covers_ancestor q) (level.symm ▸ bound c member)
    exact ⟨_, h.mem_cellsIn_iff.mpr ⟨level, c, member, between⟩, d.covers_ancestor q⟩

theorem IsExpansion.trans (h : IsExpansion s q u) (bound : Within q (cellsIn s)) (le : q ≤ r)
    (h' : IsExpansion u r v) : IsExpansion s r v := by
  refine isExpansion_of_cellsIn h'.valid fun d => ?_
  rw [h'.mem_cellsIn_iff]
  refine and_congr_right fun level => h.reaches_iff bound ?_
  omega

/-- Expanding in two steps, by way of any resolution that is fine enough, is expanding. -/
theorem uncompact_uncompact (le : q ≤ r) (lt : r < 16) (bound : Within q (cellsIn s)) :
    (uncompact s q >>= fun u => uncompact u r) = uncompact s r := by
  by_cases valid : Valid s
  · obtain ⟨u, run, expansion⟩ := (expands_uncompact s q).reached (by omega) valid bound
    obtain ⟨v, run', expansion'⟩ :=
      (expands_uncompact u r).reached lt expansion.valid (expansion.within le)
    have direct : uncompact s r = .ok v := uncompact_eq_ok_iff.mpr
      ⟨lt, valid, fun c member => (bound c member).trans le, expansion.trans bound le expansion'⟩
    rw [run, direct, ← run']
    rfl
  · -- both runs fail on the identifier that is read first
    obtain ⟨id, _, _, failed⟩ := (lists_toList s).exists_unread valid
    have fails {n : Nat} (lt : n < 16) : uncompact s n = .error (.invalidCell id.raw) := by
      have run : uncompactFrom expand s.toList n = _ := uncompactFrom_of_lt lt
      rw [failed] at run
      exact run
    rw [fails lt, fails (by omega)]
    rfl

end Answers

section Sizes

variable {s u v w : CellSet} {r : Nat} {c d e : Cell}

theorem antichain_of_ancestor_ne (apart : ∀ c d : Cell, c.id ∈ s → d.id ∈ s →
    ∀ n < d.resolution, d.ancestor n ≠ c) : Antichain (cellsIn s) := by
  intro c hc d hd covers
  rcases covers.resolution_le.lt_or_eq with lt | same
  · exact absurd covers (apart c d (mem_cellsIn.mp hc) (mem_cellsIn.mp hd) _ lt)
  · exact covers.eq_of_le same.ge

/-- Of cells that do not lie above one another, only one lies above a cell. -/
theorem Antichain.eq_of_covers {a : Finset Cell} (apart : Antichain a) (hc : c ∈ a) (hd : d ∈ a)
    (above : c.Covers e) (above' : d.Covers e) : c = d := by
  rcases Nat.le_total c.resolution d.resolution with le | le
  · exact apart c hc d hd (above.of_le above' le)
  · exact (apart d hd c hc (above'.of_le above le)).symm

theorem IsExpansion.cellsIn_eq (h : IsExpansion s r u) (bound : Within r (cellsIn s)) :
    cellsIn u = (cellsIn s).biUnion fun c => (c.descendants (r - c.resolution)).toFinset := by
  ext d
  rw [h.mem_cellsIn_iff, Finset.mem_biUnion]
  constructor
  · rintro ⟨level, c, member, covers⟩
    have le := bound c member
    refine ⟨c, member, List.mem_toFinset.mpr (Cell.mem_descendants_iff.mpr ⟨?_, covers⟩)⟩
    omega
  · rintro ⟨c, member, descendant⟩
    obtain ⟨level, covers⟩ := Cell.mem_descendants_iff.mp (List.mem_toFinset.mp descendant)
    have le := bound c member
    exact ⟨by omega, c, member, covers⟩

theorem IsExpansion.size_eq (h : IsExpansion s r u) (lt : r < 16) (bound : Within r (cellsIn s))
    (apart : Antichain (cellsIn s)) :
    u.size = ∑ c ∈ cellsIn s, c.descendantCount (r - c.resolution) := by
  rw [← h.valid.card_cellsIn, h.cellsIn_eq bound, Finset.card_biUnion]
  · refine Finset.sum_congr rfl fun c member => ?_
    have le := bound c member
    rw [List.toFinset_card_of_nodup (c.nodup_descendants _), Cell.length_descendants (by omega)]
  · intro c hc d hd differ
    refine Finset.disjoint_left.mpr fun e left right => differ ?_
    have above := (Cell.mem_descendants_iff.mp (List.mem_toFinset.mp left)).2
    have above' := (Cell.mem_descendants_iff.mp (List.mem_toFinset.mp right)).2
    exact apart.eq_of_covers hc hd above above'

theorem cellsIn_single (c : Cell) : cellsIn (idSet [c]) = {c} := by
  rw [cellsIn_idSet, List.toFinset_cons, List.toFinset_nil, insert_empty_eq]

theorem exists_uncompact_single (lt : r < 16) (le : c.resolution ≤ r) :
    ∃ v, uncompact (idSet [c]) r = .ok v ∧ v.size = c.descendantCount (r - c.resolution) := by
  have bound : Within r (cellsIn (idSet [c])) := by
    rw [cellsIn_single]
    exact fun d member => Finset.mem_singleton.mp member ▸ le
  have apart : Antichain (cellsIn (idSet [c])) := by
    rw [cellsIn_single]
    intro d hd e he _
    rw [Finset.mem_singleton.mp hd, Finset.mem_singleton.mp he]
  obtain ⟨v, run, expansion⟩ := (expands_uncompact (idSet [c]) r).reached lt (valid_idSet _) bound
  refine ⟨v, run, ?_⟩
  rw [expansion.size_eq lt bound apart, cellsIn_single, Finset.sum_singleton]

theorem covers_of_uncompact_single (run : uncompact (idSet [c]) r = .ok v) (member : e.id ∈ v) :
    c.Covers e := by
  obtain ⟨_, _, _, expansion⟩ := uncompact_eq_ok_iff.mp run
  obtain ⟨_, d, here, covers⟩ := expansion.mem_cellsIn_iff.mp (mem_cellsIn.mpr member)
  rw [cellsIn_single] at here
  rwa [← Finset.mem_singleton.mp here]

end Sizes

/-- The laws of expansion. The answer is as described, also for any other listing of the set
and any other way to list descendants. Unions are expanded part by part, and expanding in
steps is expanding. Members that do not lie above one another expand to sets that have
nothing in common, and the numbers of their descendants add up to the size. -/
theorem uncompact_laws (s : CellSet) (r : Nat) :
    Expands s r (uncompact s r) ∧
    (∀ expansion, ListsDescendants expansion → ∀ ids, Lists ids s →
      Expands s r (uncompactFrom expansion ids r)) ∧
    (∀ t u, uncompact (s ∪ t) r = .ok u ↔
      ∃ v w, uncompact s r = .ok v ∧ uncompact t r = .ok w ∧ v ∪ w = u) ∧
    (∀ q ≤ r, r < 16 → (∀ c : Cell, c.id ∈ s → c.resolution ≤ q) →
      (uncompact s q >>= fun u => uncompact u r) = uncompact s r) ∧
    ∀ u, uncompact s r = .ok u →
      (∀ c d : Cell, c.id ∈ s → d.id ∈ s → ∀ n < d.resolution, d.ancestor n ≠ c) →
      (∀ c : Cell, c.id ∈ s → ∃ v, uncompact (idSet [c]) r = .ok v ∧
        v.size = c.descendantCount (r - c.resolution)) ∧
      (∀ c d : Cell, c.id ∈ s → d.id ∈ s → c ≠ d → ∀ v w, uncompact (idSet [c]) r = .ok v →
        uncompact (idSet [d]) r = .ok w → ∀ id ∈ v, id ∉ w) ∧
      u.size = ∑ c ∈ cellsIn s, c.descendantCount (r - c.resolution) := by
  refine ⟨expands_uncompact s r, fun expansion expands ids listed => listed.expands expands r,
    fun t u => uncompact_union, fun q le lt bound => ?_, fun u run apart => ?_⟩
  · exact uncompact_uncompact le lt fun c member => bound c (mem_cellsIn.mp member)
  · obtain ⟨lt, valid, bound, expansion⟩ := uncompact_eq_ok_iff.mp run
    have chain := antichain_of_ancestor_ne apart
    refine ⟨fun c member => ?_, ?_, expansion.size_eq lt bound chain⟩
    · exact exists_uncompact_single lt (bound c (mem_cellsIn.mpr member))
    · intro c d hc hd differ v w left right id inside shared
      obtain ⟨_, _, _, expansion'⟩ := uncompact_eq_ok_iff.mp left
      obtain ⟨e, rfl⟩ := expansion'.valid id inside
      apply differ
      exact chain.eq_of_covers (mem_cellsIn.mpr hc) (mem_cellsIn.mpr hd)
        (covers_of_uncompact_single left inside) (covers_of_uncompact_single right shared)

def firstHexagon : Cell := ⟨0, [3], by decide⟩

/-- A pentagon has 41 descendants two steps down, a hexagon seven one step down. -/
theorem uncompact_laws_pentagon :
    let s := idSet [fifthPentagon, firstHexagon]
    Lists s.toList s ∧ ListsDescendants expand ∧
      (∀ c : Cell, c.id ∈ s → c.resolution ≤ 1) ∧
      (∀ c d : Cell, c.id ∈ s → d.id ∈ s → ∀ n < d.resolution, d.ancestor n ≠ c) ∧
      ∃ u, uncompact s 2 = .ok u ∧ u.size = 48 ∧
        (uncompact s 1 >>= fun v => uncompact v 2) = .ok u := by
  intro s
  have members (c : Cell) : c.id ∈ s ↔ c = fifthPentagon ∨ c = firstHexagon := by
    rw [id_mem_idSet, List.mem_pair]
  have coarse : ∀ c : Cell, c.id ∈ s → c.resolution ≤ 1 := by
    intro c member
    rcases (members c).mp member with rfl | rfl <;> decide
  have apart : ∀ c d : Cell, c.id ∈ s → d.id ∈ s → ∀ n < d.resolution, d.ancestor n ≠ c := by
    intro c d hc hd
    rcases (members c).mp hc with rfl | rfl <;> rcases (members d).mp hd with rfl | rfl <;> decide
  have bound : Within 2 (cellsIn s) := fun c member =>
    (coarse c (mem_cellsIn.mp member)).trans (by decide)
  obtain ⟨answers, _, _, steps, sizes⟩ := uncompact_laws s 2
  obtain ⟨u, run, _⟩ := answers.reached (by decide) (valid_idSet _) bound
  obtain ⟨_, _, size⟩ := sizes u run apart
  refine ⟨lists_toList s, listsDescendants_expand, coarse, apart, u, run, ?_, ?_⟩
  · rw [size, cellsIn_idSet]
    decide
  · rw [steps 1 (by decide) (by decide) coarse, run]

end HexCover.H3
