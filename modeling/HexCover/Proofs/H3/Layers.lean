import HexCover.Proofs.H3.Members
import HexCover.Proofs.H3.Merging
import Mathlib.Data.Finset.Union

/-! Merging of one layer. The cells of a layer that belong to complete groups are the
children of the parents found through the central cells, so that one round replaces
these groups by their parents. The round is repeated on the parents, and what is kept
aside is finer than all that follows. -/
namespace HexCover.H3

/-- What is relied on of a way to merge a layer: distinct cells of one resolution are
merged, group after group, until no group is complete. -/
def MergesSiblings (merge : List Cell → Except LayerFault (List Cell)) : Prop :=
  ∀ (layer : List Cell) (r : Nat), layer.Nodup → (∀ c ∈ layer, c.resolution = r) →
    ∃ merged, merge layer = .ok merged ∧ Merges layer.toFinset merged.toFinset ∧
      Settled merged.toFinset

theorem head_resolution_eq {layer : List Cell} {r : Nat} {c : Cell}
    (single : ∀ c ∈ layer, c.resolution = r) (member : c ∈ layer) :
    (layer.head?.map Cell.resolution).getD 0 = r := by
  cases layer with
  | nil => cases member
  | cons d layer => exact single d List.mem_cons_self

theorem checkLayer_eq_ok {layer : List Cell} {r : Nat} (nodup : layer.Nodup)
    (single : ∀ c ∈ layer, c.resolution = r) : checkLayer layer = .ok () := by
  have uniform : (layer.any fun c =>
      c.resolution != (layer.head?.map Cell.resolution).getD 0) = false := by
    apply List.any_eq_false.mpr
    intro c member
    rw [head_resolution_eq single member, single c member, bne_self_eq_false]
    exact Bool.false_ne_true
  have size := size_idSet nodup
  rw [checkLayer, uniform, if_neg (by simp), if_neg (by omega)]

theorem hasAllSiblings_iff {layer : List Cell} {c : Cell} :
    hasAllSiblings (idSet layer) c = true ↔ ∀ sibling ∈ c.parent.children, sibling ∈ layer := by
  simp only [hasAllSiblings, List.all_eq_true, ← Std.ExtTreeSet.mem_iff_contains, id_mem_idSet]

/-- Parents of one resolution share no child, so their groups are replaced one by one. -/
theorem merges_groups {parents : List Cell} {a : Finset Cell} {r : Nat} (coarse : r < 15)
    (nodup : parents.Nodup) (single : ∀ p ∈ parents, p.resolution = r)
    (complete : ∀ p ∈ parents, ∀ child ∈ p.children, child ∈ a) :
    Merges a (a \ (parents.flatMap Cell.children).toFinset ∪ parents.toFinset) := by
  induction parents generalizing a with
  | nil => simpa using Relation.ReflTransGen.refl
  | cons p parents ih =>
    obtain ⟨fresh, nodup⟩ := List.nodup_cons.mp nodup
    have level : p.resolution = r := single p (by simp)
    have first : MergeStep a (mergeGroup a p) :=
      .group p (level ▸ coarse) (complete p (by simp))
    have left : ∀ q ∈ parents, ∀ child ∈ q.children, child ∈ mergeGroup a p := by
      intro q hq child sibling
      refine mem_mergeGroup.mpr (.inr ⟨complete q (by simp [hq]) child sibling, fun shared => ?_⟩)
      rw [← Cell.parent_of_mem_children sibling, Cell.parent_of_mem_children shared] at hq
      exact fresh hq
    have rest := ih nodup (fun q hq => single q (by simp [hq])) left
    have same : a \ ((p :: parents).flatMap Cell.children).toFinset ∪ (p :: parents).toFinset =
        mergeGroup a p \ (parents.flatMap Cell.children).toFinset ∪ parents.toFinset := by
      have aside : p ∉ parents.flatMap Cell.children := by
        intro member
        obtain ⟨q, hq, child⟩ := List.mem_flatMap.mp member
        have finer := Cell.resolution_of_mem_children child
        rw [level, single q (by simp [hq])] at finer
        omega
      ext c
      simp only [Finset.mem_union, Finset.mem_sdiff, List.mem_toFinset, mem_mergeGroup,
        List.flatMap_cons, List.mem_append, List.mem_cons, not_or]
      by_cases here : c = p
      · subst here
        tauto
      · tauto
    rw [same]
    exact .head first rest

section Round

/-- The parents that a round finds through the central cells of complete groups. -/
def foundParents (layer : List Cell) : List Cell :=
  ((layer.filter (hasAllSiblings (idSet layer))).filter
    fun c => c.digits.getLast? = some 0).map Cell.parent

/-- The cells of a layer that belong to no complete group. -/
def leftover (layer : List Cell) : List Cell :=
  layer.filter fun c => !hasAllSiblings (idSet layer) c

theorem mergeSiblings_succ (r : Nat) (layer : List Cell) :
    mergeSiblings (r + 1) layer = leftover layer ++ mergeSiblings r (foundParents layer) := by
  rw [mergeSiblings, List.partition_eq_filter_filter]
  rfl

variable {layer : List Cell} {r : Nat}

theorem settled_leftover : Settled (leftover layer).toFinset := by
  intro p coarse
  by_contra! complete
  obtain ⟨child, sibling⟩ := Cell.exists_mem_children coarse
  have member := complete child sibling
  simp only [leftover, List.mem_toFinset, List.mem_filter, Bool.not_eq_true', ← Bool.not_eq_true,
    hasAllSiblings_iff] at member complete
  apply member.2
  rw [Cell.parent_of_mem_children sibling]
  exact fun c hc => (complete c hc).1

variable (single : ∀ c ∈ layer, c.resolution = r + 1)
include single

theorem mem_foundParents {p : Cell} : p ∈ foundParents layer ↔
    p.resolution = r ∧ p.resolution < 15 ∧ ∀ child ∈ p.children, child ∈ layer := by
  simp only [foundParents, List.mem_map, List.mem_filter, decide_eq_true_eq, hasAllSiblings_iff]
  constructor
  · rintro ⟨c, ⟨⟨member, complete⟩, _⟩, rfl⟩
    have level := single c member
    have bound := c.resolution_le
    rw [Cell.resolution_parent]
    exact ⟨by omega, by omega, complete⟩
  · rintro ⟨level, coarse, complete⟩
    have child := Cell.centralChild_mem_children coarse
    have parent := Cell.parent_of_mem_children child
    refine ⟨p.centralChild coarse, ⟨⟨complete _ child, ?_⟩, ?_⟩, parent⟩
    · rwa [parent]
    · rw [Cell.centralChild, List.getLast?_append, List.getLast?_singleton, Option.some_or]

theorem nodup_foundParents (nodup : layer.Nodup) : (foundParents layer).Nodup := by
  refine List.Nodup.map_on ?_ ((nodup.filter _).filter _)
  intro c hc d hd same
  simp only [List.mem_filter, decide_eq_true_eq] at hc hd
  have finer := single c hc.1.1
  have coarse : c.parent.resolution < 15 := by
    have bound := c.resolution_le
    rw [Cell.resolution_parent]
    omega
  have child := Cell.mem_children_parent (c := c) (by omega)
  have child' := Cell.mem_children_parent (c := d) (by rw [single d hd.1.1]; omega)
  rw [← same] at child'
  rw [Cell.eq_centralChild coarse child hc.2, Cell.eq_centralChild coarse child' hd.2]

theorem toFinset_leftover :
    (leftover layer).toFinset =
      layer.toFinset \ ((foundParents layer).flatMap Cell.children).toFinset := by
  ext c
  simp only [leftover, List.mem_toFinset, List.mem_filter, Finset.mem_sdiff, List.mem_flatMap,
    Bool.not_eq_true', ← Bool.not_eq_true, hasAllSiblings_iff]
  refine and_congr_right fun member => not_congr ?_
  have level := single c member
  have bound := c.resolution_le
  constructor
  · intro complete
    refine ⟨c.parent, (mem_foundParents single).mpr ?_, Cell.mem_children_parent (by omega)⟩
    rw [Cell.resolution_parent]
    exact ⟨by omega, by omega, complete⟩
  · rintro ⟨p, found, child⟩
    rw [Cell.parent_of_mem_children child]
    exact ((mem_foundParents single).mp found).2.2

/-- One round replaces the complete groups of a layer by their parents. -/
theorem merges_round (nodup : layer.Nodup) :
    Merges layer.toFinset ((foundParents layer).toFinset ∪ (leftover layer).toFinset) := by
  rw [toFinset_leftover single, Finset.union_comm]
  cases found : foundParents layer with
  | nil => simpa using Relation.ReflTransGen.refl
  | cons q parents =>
    have member {p : Cell} (h : p ∈ q :: parents) := (mem_foundParents single).mp (found ▸ h)
    have head : q.resolution = r ∧ q.resolution < 15 ∧ _ := member (by simp)
    refine merges_groups (r := r) (by omega) ?_ (fun p h => (member h).1) ?_
    · exact found ▸ nodup_foundParents single nodup
    · intro p h child sibling
      exact List.mem_toFinset.mpr ((member h).2.2 child sibling)

end Round

theorem mergeSiblings_merges {layer : List Cell} {r : Nat} (nodup : layer.Nodup)
    (single : ∀ c ∈ layer, c.resolution = r) :
    Merges layer.toFinset (mergeSiblings r layer).toFinset ∧
      Settled (mergeSiblings r layer).toFinset := by
  induction r generalizing layer with
  | zero =>
    refine ⟨.refl, settled_of_within_zero fun c member => ?_⟩
    exact (single c (List.mem_toFinset.mp member)).le
  | succ r ih =>
    have level : ∀ p ∈ foundParents layer, p.resolution = r :=
      fun p found => ((mem_foundParents single).mp found).1
    have bound : Within r (foundParents layer).toFinset :=
      fun p found => (level p (List.mem_toFinset.mp found)).le
    have fine : ∀ c ∈ (leftover layer).toFinset, r < c.resolution := by
      intro c member
      have kept := (List.mem_filter.mp (List.mem_toFinset.mp member)).1
      rw [single c kept]
      exact r.lt_succ_self
    have disjoint : Disjoint (foundParents layer).toFinset (leftover layer).toFinset :=
      Finset.disjoint_left.mpr fun c found kept => (fine c kept).not_ge (bound c found)
    have round := merges_round single nodup
    have apart := round.antichain <| antichain_of_single fun c member =>
      single c (List.mem_toFinset.mp member)
    obtain ⟨merges, settled⟩ := ih (nodup_foundParents single nodup) level
    rw [mergeSiblings_succ, List.toFinset_append]
    constructor
    · rw [Finset.union_comm]
      exact round.trans (merges.union_right apart disjoint).1
    · exact settled_leftover.union settled fine (merges.preserves.within r bound)

theorem compactLayer_mergesSiblings : MergesSiblings compactLayer := by
  intro layer r nodup single
  have accepted := checkLayer_eq_ok nodup single
  have run : compactLayer layer =
      .ok (mergeSiblings ((layer.head?.map Cell.resolution).getD 0) layer) := by
    rw [compactLayer, accepted]
    rfl
  refine ⟨_, run, mergeSiblings_merges nodup fun c member => ?_⟩
  rw [head_resolution_eq single member, single c member]

end HexCover.H3
