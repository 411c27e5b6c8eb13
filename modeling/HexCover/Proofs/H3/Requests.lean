import HexCover.H3.Outline
import HexCover.Proofs.H3.Expansion
import HexCover.Proofs.Lists

/-! What a grid library is asked when sets are compacted and outlined. Whatever it answers,
the lists that it gets hold cells of one resolution, each once. A library that accepts such
lists therefore never makes a request fail, so that only identifiers that are not those of
cells do. The layer that is outlined is the expansion of the set to its finest resolution,
and the outline is that of this expansion. -/
namespace HexCover.H3

/-- Cells of one resolution, none of them twice. -/
structure IsLayer (cells : List Cell) : Prop where
  nodup : cells.Nodup
  single : ∃ r, ∀ c ∈ cells, c.resolution = r

/-- What is relied on of merging and of outlining: layers are not refused. -/
def AcceptsLayers {α : Type} (ask : List Cell → Except LayerFault α) : Prop :=
  ∀ cells, IsLayer cells → ∃ found, ask cells = .ok found

section Asked

variable {α β : Type}

/-- Runs with an outcome, for every way to merge. A run hands over layers only, fails only if
one of them is refused, and is the same for all ways to merge that do the same with what it
hands over; so it has written down all that its outcome depends on. -/
def AsksLayers (x : Merge → Asking α) (outcome : Merge → Except LayerFault α) : Prop :=
  ∀ merge asked, ∃ more, (x merge).run.run asked = (outcome merge, asked ++ more) ∧
    (∀ list ∈ more, IsLayer list) ∧
    (∀ fault, outcome merge = .error fault → ∃ list ∈ more, merge list = .error fault) ∧
    ∀ merge', (∀ list ∈ more, merge' list = merge list) →
      (x merge').run.run asked = (x merge).run.run asked

theorem run_bind_asking (x : Asking α) (f : α → Asking β) (asked : List (List Cell)) :
    (x >>= f).run.run asked = match x.run.run asked with
      | (.ok a, later) => (f a).run.run later
      | (.error fault, later) => (.error fault, later) := by
  rw [ExceptT.run_bind, StateT.run_bind]
  cases x.run.run asked with
  | mk outcome later => cases outcome <;> rfl

theorem asksLayers_pure (a : α) : AsksLayers (fun _ => pure a) fun _ => .ok a := by
  intro merge asked
  refine ⟨[], ?_, fun list member => absurd member List.not_mem_nil,
    fun fault same => (nomatch same), fun _ _ => rfl⟩
  rw [List.append_nil]
  rfl

theorem AsksLayers.bind {x : Merge → Asking α} {f : Merge → α → Asking β}
    {outcome : Merge → Except LayerFault α} {later : Merge → α → Except LayerFault β}
    (first : AsksLayers x outcome)
    (next : ∀ a, AsksLayers (fun merge => f merge a) fun merge => later merge a) :
    AsksLayers (fun merge => x merge >>= f merge) fun merge => outcome merge >>= later merge := by
  intro merge asked
  obtain ⟨more, run, layers, refused, replay⟩ := first merge asked
  simp only [run_bind_asking, run]
  cases reached : outcome merge with
  | error fault =>
    refine ⟨more, rfl, layers, fun fault' same => ?_, fun merge' agree => ?_⟩
    · obtain rfl := Except.error.inj same
      exact refused fault reached
    · rw [replay merge' agree, run, reached]
  | ok a =>
    obtain ⟨more', run', layers', refused', replay'⟩ := next a merge (asked ++ more)
    refine ⟨more ++ more', ?_, ?_, fun fault same => ?_, fun merge' agree => ?_⟩
    · rw [← List.append_assoc]
      exact run'
    · intro list member
      exact (List.mem_append.mp member).elim (layers list) (layers' list)
    · obtain ⟨list, member, refusal⟩ := refused' fault same
      exact ⟨list, List.mem_append_right _ member, refusal⟩
    · rw [replay merge' fun list member => agree list (List.mem_append_left _ member), run,
        reached]
      exact replay' merge' fun list member => agree list (List.mem_append_right _ member)

theorem run_asking (merge : Merge) (layer : List Cell) (asked : List (List Cell)) :
    (asking merge layer).run.run asked = (merge layer, asked ++ [layer]) := by
  rw [asking, run_bind_asking]
  cases outcome : merge layer <;> rfl

theorem asksLayers_asking {layer : List Cell} (isLayer : IsLayer layer) :
    AsksLayers (fun merge => asking merge layer) fun merge => merge layer := by
  intro merge asked
  have member := List.mem_singleton_self layer
  refine ⟨[layer], run_asking merge layer asked, fun list only => ?_,
    fun fault refusal => ⟨layer, member, refusal⟩, fun merge' agree => ?_⟩
  · rwa [List.mem_singleton.mp only]
  · rw [run_asking, run_asking, agree layer member]

theorem isLayer_distinct {layer : List Cell} {r : Nat} (single : ∀ c ∈ layer, c.resolution = r) :
    IsLayer (distinct layer) where
  nodup := nodup_distinct layer
  single := ⟨r, fun c member => single c (mem_distinct.mp member)⟩

theorem asksLayers_mergeLayer (r : Nat) (pending : List Cell) :
    AsksLayers (fun merge => mergeLayer (asking merge) (pending.filter fun c => c.resolution = r))
      fun merge => mergeLayer merge (pending.filter fun c => c.resolution = r) := by
  simp only [mergeLayer]
  split
  · exact asksLayers_pure []
  · apply asksLayers_asking
    apply isLayer_distinct (r := r)
    intro c member
    exact of_decide_eq_true (List.mem_filter.mp member).2

/-- One level after the other: the outcome is that of compaction, and every list that is
handed over on the way is a layer. -/
theorem asksLayers_compactLayers (r : Nat) (pending : List Cell) :
    AsksLayers (fun merge => compactLayers (asking merge) r pending)
      fun merge => compactLayers merge r pending := by
  induction r generalizing pending with
  | zero => exact asksLayers_mergeLayer 0 pending
  | succ r ih =>
    simp only [compactLayers, List.partition_eq_filter_filter]
    refine (asksLayers_mergeLayer (r + 1) pending).bind fun merged => ?_
    exact (ih _).bind fun coarser => asksLayers_pure _

end Asked

section Answers

variable {α ω : Type} {s u : CellSet} {ids ids' : List CellId} {cells cells' : List Cell}
  {r r' : Nat}

/-- An answer to a request for a set fails only on a member that is no cell. -/
structure FailsOnUnread (s : CellSet) (answer : Except ConversionError α) : Prop where
  unread : ¬ Valid s →
    ∃ id ∈ s, (∀ c : Cell, c.id ≠ id) ∧ answer = .error (.invalidCell id.raw)
  read : Valid s → ∃ a, answer = .ok a

/-- The finest resolution of the members of a set. -/
structure Finest (s : CellSet) (r : Nat) : Prop where
  reached : ∃ c : Cell, c.id ∈ s ∧ c.resolution = r
  bound : Within r (cellsIn s)

theorem Finest.lt (finest : Finest s r) : r < 16 := by
  obtain ⟨c, _, level⟩ := finest.reached
  have le := c.resolution_le
  omega

theorem Finest.unique (finest : Finest s r) (finest' : Finest s r') : r = r' := by
  obtain ⟨c, member, rfl⟩ := finest.reached
  obtain ⟨d, member', rfl⟩ := finest'.reached
  exact Nat.le_antisymm (finest'.bound c (mem_cellsIn.mpr member))
    (finest.bound d (mem_cellsIn.mpr member'))

section Compacting

variable {merge merge' : Merge}

theorem compactAsking_of_ok (merge : Merge) (read : readAll ids = .ok cells) :
    (compactAsking merge ids).answer = ((compactLayers merge 15 cells).map idSet).mapError
      (fun fault => .compaction fault.message) ∧
    (∀ list ∈ (compactAsking merge ids).asked, IsLayer list) ∧
    (∀ fault, compactLayers merge 15 cells = .error fault →
      ∃ list ∈ (compactAsking merge ids).asked, merge list = .error fault) ∧
    ∀ merge', (∀ list ∈ (compactAsking merge ids).asked, merge' list = merge list) →
      compactAsking merge' ids = compactAsking merge ids := by
  obtain ⟨asked, run, layers, refused, replay⟩ := asksLayers_compactLayers 15 cells merge []
  have requests : compactAsking merge ids = ⟨((compactLayers merge 15 cells).map idSet).mapError
      fun fault => .compaction fault.message, asked⟩ := by
    simp only [compactAsking, read, run, List.nil_append]
  rw [requests]
  refine ⟨rfl, layers, refused, fun merge' agree => ?_⟩
  rw [← requests]
  simp only [compactAsking, read, replay merge' agree]

theorem compactAsking_of_error {e : ConversionError} (unread : readAll ids = .error e) :
    compactAsking merge ids = ⟨.error e, []⟩ := by
  simp only [compactAsking, unread]

/-- What compaction answers depends on what is done with the lists that it has written down. -/
theorem compactAsking_congr
    (agree : ∀ list ∈ (compactAsking merge ids).asked, merge' list = merge list) :
    compactAsking merge' ids = compactAsking merge ids := by
  cases read : readAll ids with
  | error e => rw [compactAsking_of_error read, compactAsking_of_error read]
  | ok cells => exact (compactAsking_of_ok merge read).2.2.2 merge' agree

/-- The plain run of compaction is the one that writes down what it asks. -/
theorem compactAsking_toList (merge : Merge) (s : CellSet) :
    (compactAsking merge s.toList).answer = compactWith merge s := by
  rw [compactWith, show cellsOf s = readAll s.toList from rfl]
  cases read : readAll s.toList with
  | error e =>
    rw [compactAsking_of_error read]
    rfl
  | ok cells =>
    rw [(compactAsking_of_ok merge read).1]
    cases run : compactLayers merge 15 cells <;>
      simp only [run, Except.map, Except.mapError, bind, Except.bind, pure, Except.pure, throw,
        throwThe, MonadExceptOf.throw]

theorem compactAsking_layers (merge : Merge) (ids : List CellId) :
    ∀ list ∈ (compactAsking merge ids).asked, IsLayer list := by
  cases read : readAll ids with
  | error e =>
    rw [compactAsking_of_error read]
    exact fun list member => absurd member List.not_mem_nil
  | ok cells => exact (compactAsking_of_ok merge read).2.1

theorem Lists.compactAsking_failsOnUnread (listed : Lists ids s) (accepts : AcceptsLayers merge) :
    FailsOnUnread s (compactAsking merge ids).answer where
  unread invalid := by
    obtain ⟨id, member, unread, failed⟩ := listed.exists_unread invalid
    rw [compactAsking_of_error failed]
    exact ⟨id, member, unread, rfl⟩
  read valid := by
    obtain ⟨cells, read⟩ := listed.exists_readAll valid
    obtain ⟨answer, layers, refused, _⟩ := compactAsking_of_ok merge read
    rw [answer]
    cases run : compactLayers merge 15 cells with
    | ok merged => exact ⟨_, rfl⟩
    | error fault =>
      obtain ⟨list, asked, refusal⟩ := refused fault run
      obtain ⟨merged, accepted⟩ := accepts list (layers list asked)
      exact nomatch refusal.symm.trans accepted

theorem acceptsLayers_compactLayer : AcceptsLayers compactLayer := by
  intro cells layer
  obtain ⟨r, single⟩ := layer.single
  obtain ⟨merged, run, _⟩ := compactLayer_mergesSiblings cells r layer.nodup single
  exact ⟨merged, run⟩

end Compacting

section Outlining

variable {nothing : ω} {outline : List Cell → Except LayerFault ω}

def finestOf (cells : List Cell) : Nat := (cells.map Cell.resolution).foldl max 0

theorem finestOf_spec (nonempty : cells ≠ []) :
    (∃ c ∈ cells, c.resolution = finestOf cells) ∧
      ∀ c ∈ cells, c.resolution ≤ finestOf cells := by
  have nonempty' : cells.map Cell.resolution ≠ [] := mt List.map_eq_nil_iff.mp nonempty
  have greatest : finestOf cells = (cells.map Cell.resolution).max nonempty' := by
    rw [finestOf, List.foldl_max_eq_max nonempty', Nat.zero_max]
  rw [greatest]
  constructor
  · obtain ⟨c, member, same⟩ := List.mem_map.mp (List.max_mem nonempty')
    exact ⟨c, member, same⟩
  · intro c member
    exact List.le_max_of_mem (List.mem_map_of_mem member)

/-- What is outlined are the cells of the finest resolution that the given ones cover. -/
theorem mem_outlineCells (bound : ∀ c ∈ cells, c.resolution ≤ finestOf cells) {d : Cell} :
    d ∈ outlineCells cells ↔ d.resolution = finestOf cells ∧ ∃ c ∈ cells, c.Covers d := by
  simp only [outlineCells]
  rw [← finestOf]
  split
  · next mixed =>
    rw [mem_distinct, expand, List.mem_flatMap]
    constructor
    · rintro ⟨c, member, descendant⟩
      obtain ⟨level, covers⟩ := Cell.mem_descendants_iff.mp descendant
      have le := bound c member
      exact ⟨by omega, c, member, covers⟩
    · rintro ⟨level, c, member, covers⟩
      have le := bound c member
      exact ⟨c, member, Cell.mem_descendants_iff.mpr ⟨by omega, covers⟩⟩
  · next uniform =>
    have level : ∀ c ∈ cells, c.resolution = finestOf cells := by simpa using uniform
    constructor
    · intro member
      exact ⟨level d member, d, member, Cell.Covers.refl d⟩
    · rintro ⟨same, c, member, covers⟩
      rwa [← covers.eq_of_le (by rw [same, level c member])]

theorem nodup_outlineCells (nodup : cells.Nodup) : (outlineCells cells).Nodup := by
  simp only [outlineCells]
  split
  · exact nodup_distinct _
  · exact nodup

theorem Lists.finest (listed : Lists ids s) (read : readAll ids = .ok cells)
    (nonempty : cells ≠ []) : Finest s (finestOf cells) where
  reached := by
    obtain ⟨c, member, level⟩ := (finestOf_spec nonempty).1
    exact ⟨c, mem_cellsIn.mp ((listed.mem_cells read).mp member), level⟩
  bound c member := (finestOf_spec nonempty).2 c ((listed.mem_cells read).mpr member)

theorem Lists.valid (listed : Lists ids s) (read : readAll ids = .ok cells) : Valid s := by
  intro id member
  rw [← listed.mem_iff, ← mapM_ofId_eq_ok_iff.mp read] at member
  obtain ⟨c, _, same⟩ := List.mem_map.mp member
  exact ⟨c, same⟩

/-- What is outlined is the expansion of the set to its finest resolution. -/
theorem Lists.outlineCells_spec (listed : Lists ids s) (read : readAll ids = .ok cells)
    (nonempty : cells ≠ []) : IsLayer (outlineCells cells) ∧
      uncompact s (finestOf cells) = .ok (idSet (outlineCells cells)) := by
  have members {d : Cell} := mem_outlineCells (finestOf_spec nonempty).2 (d := d)
  have finest := listed.finest read nonempty
  constructor
  · refine ⟨nodup_outlineCells (listed.nodup_cells read), finestOf cells, fun d member => ?_⟩
    exact (members.mp member).1
  · refine uncompact_eq_ok_iff.mpr ⟨finest.lt, listed.valid read, finest.bound, ?_⟩
    refine isExpansion_of_cellsIn (valid_idSet _) fun d => ?_
    rw [cellsIn_idSet, List.mem_toFinset, members]
    refine and_congr_right fun _ => exists_congr fun c => ?_
    rw [listed.mem_cells read]

theorem dissolveAsking_of_ok (read : readAll ids = .ok cells) (nonempty : cells ≠ []) :
    dissolveAsking nothing outline ids =
      ⟨(outline (outlineCells cells)).mapError fun fault => .outline fault.message,
        [outlineCells cells]⟩ := by
  cases cells with
  | nil => exact absurd rfl nonempty
  | cons c cells => simp only [dissolveAsking, read]

theorem dissolveAsking_of_nil (read : readAll ids = .ok []) :
    dissolveAsking nothing outline ids = ⟨.ok nothing, []⟩ := by
  simp only [dissolveAsking, read]

theorem dissolveAsking_of_error {e : ConversionError} (unread : readAll ids = .error e) :
    dissolveAsking nothing outline ids = ⟨.error e, []⟩ := by
  simp only [dissolveAsking, unread]

/-- The order in which a layer is listed does not matter to its outline. -/
def IsOrderless (outline : List Cell → Except LayerFault ω) : Prop :=
  ∀ cells cells', IsLayer cells → IsLayer cells' → (∀ c, c ∈ cells ↔ c ∈ cells') →
    outline cells = outline cells'

theorem Lists.dissolveAsking_asked (listed : Lists ids s) :
    ∀ list ∈ (dissolveAsking nothing outline ids).asked,
      IsLayer list ∧ ∃ r, Finest s r ∧ uncompact s r = .ok (idSet list) := by
  intro list member
  cases read : readAll ids with
  | error e =>
    rw [dissolveAsking_of_error read] at member
    cases member
  | ok cells =>
    rcases eq_or_ne cells [] with rfl | nonempty
    · rw [dissolveAsking_of_nil read] at member
      cases member
    · rw [dissolveAsking_of_ok read nonempty] at member
      obtain rfl := List.mem_singleton.mp member
      obtain ⟨layer, run⟩ := listed.outlineCells_spec read nonempty
      exact ⟨layer, _, listed.finest read nonempty, run⟩

theorem Lists.dissolveAsking_failsOnUnread (listed : Lists ids s)
    (accepts : AcceptsLayers outline) :
    FailsOnUnread s (dissolveAsking nothing outline ids).answer where
  unread invalid := by
    obtain ⟨id, member, unread, failed⟩ := listed.exists_unread invalid
    rw [dissolveAsking_of_error failed]
    exact ⟨id, member, unread, rfl⟩
  read valid := by
    obtain ⟨cells, read⟩ := listed.exists_readAll valid
    rcases eq_or_ne cells [] with rfl | nonempty
    · rw [dissolveAsking_of_nil read]
      exact ⟨nothing, rfl⟩
    · obtain ⟨layer, _⟩ := listed.outlineCells_spec read nonempty
      obtain ⟨found, accepted⟩ := accepts _ layer
      rw [dissolveAsking_of_ok read nonempty, accepted]
      exact ⟨found, rfl⟩

/-- One list is outlined, unless there is nothing to outline, and its outline is the answer. -/
theorem Lists.dissolveAsking_asks (listed : Lists ids s) (valid : Valid s) (nonempty : s ≠ ∅) :
    ∃ list, dissolveAsking nothing outline ids =
      ⟨(outline list).mapError fun fault => .outline fault.message, [list]⟩ := by
  obtain ⟨cells, read⟩ := listed.exists_readAll valid
  have nonempty' : cells ≠ [] := by
    rintro rfl
    have none : [] = ids := mapM_ofId_eq_ok_iff.mp read
    refine nonempty (Std.ExtTreeSet.ext_mem fun id => ?_)
    rw [← listed.mem_iff, ← none]
    exact iff_of_false List.not_mem_nil Std.ExtTreeSet.not_mem_empty
  exact ⟨_, dissolveAsking_of_ok read nonempty'⟩

theorem Finest.expansion (finest : Finest s r) (run : uncompact s r = .ok u) :
    Finest u r ∧ uncompact u r = .ok u := by
  obtain ⟨_, _, _, expansion⟩ := uncompact_eq_ok_iff.mp run
  constructor
  · obtain ⟨c, member, level⟩ := finest.reached
    have reached := expansion.mem_cellsIn_iff.mpr
      ⟨level, c, mem_cellsIn.mpr member, Cell.Covers.refl c⟩
    exact ⟨⟨c, mem_cellsIn.mp reached, level⟩, expansion.within le_rfl⟩
  · have twice := uncompact_uncompact le_rfl finest.lt finest.bound
    rwa [run] at twice

/-- Of a set and of its expansion to the finest resolution, the same cells are outlined. -/
theorem Finest.outlineCells_iff (finest : Finest s r) (run : uncompact s r = .ok u)
    (listed : Lists ids s) (listed' : Lists ids' u) (read : readAll ids = .ok cells)
    (read' : readAll ids' = .ok cells') (nonempty : cells ≠ []) (nonempty' : cells' ≠ [])
    (c : Cell) : c ∈ outlineCells cells' ↔ c ∈ outlineCells cells := by
  obtain ⟨finest', again⟩ := finest.expansion run
  have outlined := (listed.outlineCells_spec read nonempty).2
  have outlined' := (listed'.outlineCells_spec read' nonempty').2
  rw [(listed.finest read nonempty).unique finest, run] at outlined
  rw [(listed'.finest read' nonempty').unique finest', again] at outlined'
  rw [← id_mem_idSet, ← id_mem_idSet, ← Except.ok.inj outlined, ← Except.ok.inj outlined']

theorem Finest.exists_cells (finest : Finest s r) (listed : Lists ids s) (valid : Valid s) :
    ∃ cells, readAll ids = .ok cells ∧ cells ≠ [] := by
  obtain ⟨cells, read⟩ := listed.exists_readAll valid
  obtain ⟨c, member, _⟩ := finest.reached
  exact ⟨cells, read, List.ne_nil_of_mem ((listed.mem_cells read).mpr (mem_cellsIn.mpr member))⟩

theorem Finest.dissolveAsking_eq (finest : Finest s r) (run : uncompact s r = .ok u)
    (listed : Lists ids s) (listed' : Lists ids' u)
    (same : ∀ cells cells', readAll ids = .ok cells → readAll ids' = .ok cells' →
      IsLayer (outlineCells cells) → IsLayer (outlineCells cells') →
      (∀ c, c ∈ outlineCells cells' ↔ c ∈ outlineCells cells) →
      outline (outlineCells cells') = outline (outlineCells cells)) :
    (dissolveAsking nothing outline ids').answer = (dissolveAsking nothing outline ids).answer := by
  obtain ⟨_, valid, _, expansion⟩ := uncompact_eq_ok_iff.mp run
  obtain ⟨cells, read, nonempty⟩ := finest.exists_cells listed valid
  obtain ⟨cells', read', nonempty'⟩ := (finest.expansion run).1.exists_cells listed' expansion.valid
  have members := finest.outlineCells_iff run listed listed' read read' nonempty nonempty'
  have layer := (listed.outlineCells_spec read nonempty).1
  have layer' := (listed'.outlineCells_spec read' nonempty').1
  rw [dissolveAsking_of_ok read nonempty, dissolveAsking_of_ok read' nonempty',
    same cells cells' read read' layer layer' members]

end Outlining

section Listing

/-- Cells in ascending order of their identifiers, each once. -/
def Ascending (cells : List Cell) : Prop :=
  (cells.map Cell.id).Pairwise fun a b => compare a b = .lt

theorem Ascending.eq_of_mem_iff (ascending : Ascending cells) (ascending' : Ascending cells')
    (same : ∀ c, c ∈ cells ↔ c ∈ cells') : cells = cells' := by
  have listed : cells.map Cell.id = cells'.map Cell.id := by
    refine eq_of_strict ascending ascending' fun id => ?_
    simp only [List.mem_map, same]
  exact List.map_injective_iff.mpr (fun _ _ => Cell.id_injective) listed

theorem compare_eq_lt_of_raw {a b : CellId} (le : a.raw ≤ b.raw) (differ : a ≠ b) :
    compare a b = .lt := by
  have differ' : a.raw ≠ b.raw := fun same => differ (congrArg CellId.mk same)
  have less : compare a.raw b.raw = .lt :=
    Std.compare_eq_lt.mpr (UInt64.lt_of_le_of_ne le differ')
  exact less

theorem ascending_distinct (cells : List Cell) : Ascending (distinct cells) := by
  have sorted : (distinct cells).Pairwise fun a b => decide (a.id.raw ≤ b.id.raw) = true := by
    rw [distinct_eq_dedup]
    exact (sorted_mergeSort cells).sublist (List.dedup_sublist _)
  apply List.pairwise_map.mpr
  refine ((nodup_distinct cells).and sorted).imp ?_
  rintro c d ⟨differ, le⟩
  exact compare_eq_lt_of_raw (of_decide_eq_true le) fun same => differ (Cell.id_injective same)

theorem ascending_of_toList (read : readAll s.toList = .ok cells) : Ascending cells := by
  rw [Ascending, mapM_ofId_eq_ok_iff.mp read]
  exact s.ordered_toList

theorem ascending_outlineCells (ascending : Ascending cells) : Ascending (outlineCells cells) := by
  simp only [outlineCells]
  split
  · exact ascending_distinct _
  · exact ascending

/-- Listed in ascending order, a set and its expansion to the finest resolution are the same
request. -/
theorem Finest.dissolveAsking_toList {nothing : ω} {outline : List Cell → Except LayerFault ω}
    (finest : Finest s r) (run : uncompact s r = .ok u) :
    (dissolveAsking nothing outline u.toList).answer =
      (dissolveAsking nothing outline s.toList).answer := by
  refine finest.dissolveAsking_eq run (lists_toList s) (lists_toList u) ?_
  intro cells cells' read read' _ _ members
  have ascending := ascending_outlineCells (ascending_of_toList read)
  have ascending' := ascending_outlineCells (ascending_of_toList read')
  rw [ascending'.eq_of_mem_iff ascending members]

theorem outlineLayer_nil : outlineLayer [] = .ok [] := by
  have accepted : checkLayer [] = .ok () :=
    checkLayer_eq_ok (r := 0) List.nodup_nil fun _ member => absurd member List.not_mem_nil
  rw [outlineLayer, accepted]
  simp [collectRings, assemble, bind, Except.bind, pure, Except.pure]

theorem acceptsLayers_outlineLayer : AcceptsLayers outlineLayer := by
  intro cells layer
  obtain ⟨r, single⟩ := layer.single
  rw [outlineLayer, checkLayer_eq_ok layer.nodup single]
  exact ⟨_, rfl⟩

theorem dissolveAsking_toList (s : CellSet) :
    (dissolveAsking [] outlineLayer s.toList).answer = dissolve s := by
  rw [dissolve, show cellsOf s = readAll s.toList from rfl]
  cases read : readAll s.toList with
  | error e =>
    rw [dissolveAsking_of_error read]
    rfl
  | ok cells =>
    rcases eq_or_ne cells [] with rfl | nonempty
    · rw [dissolveAsking_of_nil read]
      simp [outlineCells, outlineLayer_nil, bind, Except.bind, pure, Except.pure]
    · rw [dissolveAsking_of_ok read nonempty]
      cases run : outlineLayer (outlineCells cells) <;>
        simp only [run, Except.mapError, bind, Except.bind, pure, Except.pure, throw, throwThe,
          MonadExceptOf.throw]

end Listing

section Empty

variable {merge : Merge} {nothing : ω}
  {outline : List Cell → Except LayerFault ω}

theorem Lists.eq_nil (listed : Lists ids ∅) : ids = [] := by
  apply List.eq_nil_iff_forall_not_mem.mpr
  intro id member
  exact Std.ExtTreeSet.not_mem_empty ((listed.mem_iff id).mp member)

theorem idSet_nil : idSet [] = ∅ := Std.ExtTreeSet.ofList_nil

/-- Nothing is asked for the empty set. -/
theorem compactAsking_nil : compactAsking merge [] = ⟨.ok ∅, []⟩ := by
  rw [← idSet_nil]
  rfl

theorem dissolveAsking_nil : dissolveAsking nothing outline [] = ⟨.ok nothing, []⟩ := rfl

end Empty

end Answers

/-- Compaction and outlines ask for layers only, however the members of the set are listed.
All that compaction asks for is written down, since its answer is the same for all ways to
merge that do the same with these lists; an outline is that of the one list that is asked for,
which is the expansion to the finest resolution. The plain runs give what the runs give that
write down what they ask. If layers are accepted, requests fail only on members that are no
cells; in particular the plain runs do. Outlines of a set and of this expansion are the
same. -/
theorem requests_accepted (s : CellSet) :
    (∀ merge ids, Lists ids s →
      (∀ list ∈ (compactAsking merge ids).asked, IsLayer list) ∧
      (∀ merge', (∀ list ∈ (compactAsking merge ids).asked, merge' list = merge list) →
        compactAsking merge' ids = compactAsking merge ids) ∧
      (AcceptsLayers merge → FailsOnUnread s (compactAsking merge ids).answer) ∧
      (s = ∅ → compactAsking merge ids = ⟨.ok ∅, []⟩)) ∧
    (∀ merge, (compactAsking merge s.toList).answer = compactWith merge s) ∧
    (compactAsking compactLayer s.toList).answer = compact s ∧
    (∀ (ω : Type) (nothing : ω) outline ids, Lists ids s →
      (∀ list ∈ (dissolveAsking nothing outline ids).asked,
        IsLayer list ∧ ∃ r, Finest s r ∧ uncompact s r = .ok (idSet list)) ∧
      (Valid s → s ≠ ∅ → ∃ list, (dissolveAsking nothing outline ids).asked = [list] ∧
        (dissolveAsking nothing outline ids).answer =
          (outline list).mapError fun fault => .outline fault.message) ∧
      (AcceptsLayers outline → FailsOnUnread s (dissolveAsking nothing outline ids).answer) ∧
      (s = ∅ → dissolveAsking nothing outline ids = ⟨.ok nothing, []⟩) ∧
      (IsOrderless outline → ∀ r u ids', Finest s r → uncompact s r = .ok u → Lists ids' u →
        (dissolveAsking nothing outline ids').answer =
          (dissolveAsking nothing outline ids).answer)) ∧
    (dissolveAsking [] outlineLayer s.toList).answer = dissolve s ∧
    FailsOnUnread s (compact s) ∧ FailsOnUnread s (dissolve s) ∧
    (∀ r u, Finest s r → uncompact s r = .ok u → dissolve u = dissolve s) ∧
    ∀ t r u, compact s = .ok t → Finest t r → uncompact t r = .ok u → dissolve t = dissolve u := by
  have listed := lists_toList s
  have outlines {s u : CellSet} {r : Nat} (finest : Finest s r) (run : uncompact s r = .ok u) :
      dissolve u = dissolve s := by
    rw [← dissolveAsking_toList, ← dissolveAsking_toList]
    exact finest.dissolveAsking_toList run
  refine ⟨?_, fun merge => compactAsking_toList merge s, compactAsking_toList compactLayer s, ?_,
    dissolveAsking_toList s, ?_, ?_, fun r u => outlines,
    fun t r u _ finest run => (outlines finest run).symm⟩
  · intro merge ids listed
    refine ⟨compactAsking_layers merge ids, fun merge' => compactAsking_congr,
      listed.compactAsking_failsOnUnread, ?_⟩
    rintro rfl
    rw [listed.eq_nil, compactAsking_nil]
  · intro ω nothing outline ids listed
    refine ⟨listed.dissolveAsking_asked, fun valid nonempty => ?_,
      listed.dissolveAsking_failsOnUnread, ?_, ?_⟩
    · obtain ⟨list, asks⟩ := listed.dissolveAsking_asks valid nonempty
      exact ⟨list, congrArg Answered.asked asks, congrArg Answered.answer asks⟩
    · rintro rfl
      rw [listed.eq_nil, dissolveAsking_nil]
    · intro orderless r u ids' finest run listed'
      refine finest.dissolveAsking_eq run listed listed' ?_
      intro cells cells' _ _ layer layer' members
      exact orderless _ _ layer' layer members
  · rw [compact, ← compactAsking_toList]
    exact listed.compactAsking_failsOnUnread acceptsLayers_compactLayer
  · rw [← dissolveAsking_toList]
    exact listed.dissolveAsking_failsOnUnread acceptsLayers_outlineLayer

/-- Outline a layer in ascending order, whatever the order in which it is listed. -/
def outlineSorted (cells : List Cell) : Except LayerFault (List (Polygon Float)) := do
  checkLayer cells
  outlineLayer (distinct cells)

theorem outlineSorted_eq {cells : List Cell} (layer : IsLayer cells) :
    outlineSorted cells = outlineLayer (distinct cells) := by
  obtain ⟨r, single⟩ := layer.single
  rw [outlineSorted, checkLayer_eq_ok layer.nodup single]
  rfl

theorem acceptsLayers_outlineSorted : AcceptsLayers outlineSorted := by
  intro cells layer
  obtain ⟨r, single⟩ := layer.single
  obtain ⟨found, run⟩ := acceptsLayers_outlineLayer _ (isLayer_distinct single)
  exact ⟨found, (outlineSorted_eq layer).trans run⟩

theorem isOrderless_outlineSorted : IsOrderless outlineSorted := by
  intro cells cells' layer layer' same
  have equal : distinct cells = distinct cells' := by
    refine (ascending_distinct cells).eq_of_mem_iff (ascending_distinct cells') fun c => ?_
    rw [mem_distinct, mem_distinct, same]
  rw [outlineSorted_eq layer, outlineSorted_eq layer', equal]

/-- Merge a list of cells, none of which may stand in it twice. -/
def mergeDistinct : Merge := fun cells =>
  if cells.Nodup then compactLayer cells else .error .repeatedCell

/-- A pentagon together with its children, listed in descending order. -/
theorem requests_accepted_overlapping :
    let s := idSet (fifthPentagon :: fifthPentagon.children)
    Lists s.toList.reverse s ∧ Valid s ∧ s ≠ ∅ ∧ AcceptsLayers compactLayer ∧
      AcceptsLayers outlineSorted ∧ IsOrderless outlineSorted ∧ Finest s 1 ∧
      (∃ t, (compactAsking compactLayer s.toList.reverse).answer = .ok t) ∧
      compactAsking mergeDistinct s.toList.reverse = compactAsking compactLayer s.toList.reverse ∧
      (compactAsking compactLayer s.toList).answer = compact s ∧
      ∃ list outline u, (dissolveAsking [] outlineSorted s.toList.reverse).asked = [list] ∧
        IsLayer list ∧ outlineSorted list = .ok outline ∧
        uncompact s 1 = .ok u ∧ idSet list = u ∧ Lists u.toList u ∧
        (dissolveAsking [] outlineSorted s.toList.reverse).answer = .ok outline ∧
        (dissolveAsking [] outlineSorted u.toList).answer = .ok outline ∧
        (dissolveAsking [] outlineLayer s.toList).answer = dissolve s ∧
        dissolve u = dissolve s := by
  intro s
  have listed := lists_toList s
  have reversed : Lists s.toList.reverse s :=
    ⟨List.nodup_reverse.mpr listed.nodup, fun id => List.mem_reverse.trans (listed.mem_iff id)⟩
  have levels : ∀ c ∈ fifthPentagon :: fifthPentagon.children, c.resolution ≤ 1 := by decide
  have child : fifthPentagon.centralChild (by decide) ∈ fifthPentagon.children :=
    Cell.centralChild_mem_children _
  have bound : Within 1 (cellsIn s) := by
    intro c member
    exact levels c (id_mem_idSet.mp (mem_cellsIn.mp member))
  have member : (fifthPentagon.centralChild (by decide)).id ∈ s :=
    id_mem_idSet.mpr (List.mem_cons_of_mem _ child)
  have finest : Finest s 1 := ⟨⟨_, member, Cell.resolution_of_mem_children child⟩, bound⟩
  have valid : Valid s := valid_idSet _
  have nonempty : s ≠ ∅ := by
    intro empty
    rw [empty] at member
    exact Std.ExtTreeSet.not_mem_empty member
  obtain ⟨u, run, _⟩ := (expands_uncompact s 1).reached (by decide) valid bound
  obtain ⟨compacting, _, compacted, dissolving, dissolved, _, _, outlines, _⟩ := requests_accepted s
  obtain ⟨layers, replay, merged, _⟩ := compacting compactLayer _ reversed
  obtain ⟨asked, asks, _, _, same⟩ := dissolving _ [] outlineSorted _ reversed
  obtain ⟨list, only, answer⟩ := asks valid nonempty
  obtain ⟨layer, r, finest', expanded⟩ := asked list (only ▸ List.mem_singleton_self list)
  obtain rfl := finest.unique finest'
  obtain ⟨outline, found⟩ := acceptsLayers_outlineSorted list layer
  rw [found] at answer
  refine ⟨reversed, valid, nonempty, acceptsLayers_compactLayer, acceptsLayers_outlineSorted,
    isOrderless_outlineSorted, finest, (merged acceptsLayers_compactLayer).read valid,
    replay _ fun asked member => if_pos (layers asked member).nodup, compacted, list, outline, u,
    only, layer, found, run, Except.ok.inj (expanded.symm.trans run), lists_toList u, answer, ?_,
    dissolved, outlines 1 u finest run⟩
  exact (same isOrderless_outlineSorted 1 u _ finest run (lists_toList u)).trans answer

end HexCover.H3
