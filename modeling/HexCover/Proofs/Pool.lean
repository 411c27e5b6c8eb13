import HexCover.Pool
import HexCover.Proofs.Outcome

/-! What a pool computes does not depend on its plan. Where merging puts lists
together, the result is built from the lists of all parts in order. A pool fails
exactly when a part does, and then with the failure of such a part. -/
namespace HexCover

variable {α β κ ε : Type}

/-- Results are built from lists, and merging results puts their lists together. -/
structure Concatenates (build : List β → α) (empty : α) (merge : α → α → α) : Prop where
  nil : build [] = empty
  append : ∀ xs ys, merge (build xs) (build ys) = build (xs ++ ys)

namespace Plan

variable {empty : α} {merge : α → α → α} {result : Nat → Except ε α}

theorem run_eq_ok {build : List β → α} (c : Concatenates build empty merge) {value : Nat → List β}
    {plan : Plan} (good : ∀ i ∈ plan.parts, result i = .ok (build (value i))) :
    plan.run empty merge result = .ok (build (plan.parts.flatMap value)) := by
  induction plan with
  | nothing => simp [run, parts, c.nil]
  | part index => simpa [run, parts] using good index (by simp [parts])
  | join rightFirst left right ihLeft ihRight =>
    have first := ihLeft fun i member => good i (by simp [parts, member])
    have second := ihRight fun i member => good i (by simp [parts, member])
    have merged := c.append (left.parts.flatMap value) (right.parts.flatMap value)
    cases rightFirst <;>
      simp [run, parts, first, second, merged, bind, Except.bind, pure, Except.pure]

theorem run_eq_error {plan : Plan} {e : ε} (h : plan.run empty merge result = .error e) :
    ∃ i ∈ plan.parts, result i = .error e := by
  induction plan with
  | nothing => simp [run] at h
  | part index => exact ⟨index, by simp [parts], h⟩
  | join rightFirst left right ihLeft ihRight =>
    have onLeft (failed : left.run empty merge result = .error e) :
        ∃ i ∈ (join rightFirst left right).parts, result i = .error e := by
      obtain ⟨i, member, error⟩ := ihLeft failed
      exact ⟨i, by simp [parts, member], error⟩
    have onRight (failed : right.run empty merge result = .error e) :
        ∃ i ∈ (join rightFirst left right).parts, result i = .error e := by
      obtain ⟨i, member, error⟩ := ihRight failed
      exact ⟨i, by simp [parts, member], error⟩
    cases first : left.run empty merge result <;> cases second : right.run empty merge result <;>
      cases rightFirst <;>
      simp_all [run, bind, Except.bind, pure, Except.pure]

theorem parts_ok_of_run_eq_ok {plan : Plan} {a : α} (h : plan.run empty merge result = .ok a) :
    ∀ i ∈ plan.parts, ∃ b, result i = .ok b := by
  induction plan generalizing a with
  | nothing => simp [parts]
  | part index =>
    intro i member
    obtain rfl := List.mem_singleton.mp member
    exact ⟨a, h⟩
  | join rightFirst left right ihLeft ihRight =>
    have both : (∃ b, left.run empty merge result = .ok b) ∧
        ∃ b, right.run empty merge result = .ok b := by
      cases rightFirst <;>
        simp only [run, Bool.false_eq_true, if_true, if_false, bind_eq_ok_iff] at h
      · obtain ⟨b, first, c, second, _⟩ := h
        exact ⟨⟨b, first⟩, c, second⟩
      · obtain ⟨c, second, b, first, _⟩ := h
        exact ⟨⟨b, first⟩, c, second⟩
    obtain ⟨⟨b, first⟩, c, second⟩ := both
    intro i member
    rcases List.mem_append.mp member with member | member
    · exact ihLeft first i member
    · exact ihRight second i member

end Plan

namespace WorkerPool

variable {empty : α} {merge : α → α → α} {n : Nat} {result : Nat → Except ε α}

theorem combine_eq_ok (pool : WorkerPool) {build : List β → α}
    (c : Concatenates build empty merge) {value : Nat → List β}
    (good : ∀ i < n, result i = .ok (build (value i))) :
    pool.combine empty merge n result = .ok (build ((List.range n).flatMap value)) := by
  have run : (pool.plan n).run empty merge result =
      .ok (build ((pool.plan n).parts.flatMap value)) :=
    Plan.run_eq_ok c (by simpa [pool.parts_plan] using good)
  rwa [pool.parts_plan] at run

theorem combine_eq_error {pool : WorkerPool} {e : ε}
    (h : pool.combine empty merge n result = .error e) : ∃ i < n, result i = .error e := by
  simpa [pool.parts_plan] using Plan.run_eq_error h

theorem parts_ok_of_combine_eq_ok {pool : WorkerPool} {a : α}
    (h : pool.combine empty merge n result = .ok a) : ∀ i < n, ∃ b, result i = .ok b := by
  simpa [pool.parts_plan] using Plan.parts_ok_of_run_eq_ok h

theorem concatenates_append : Concatenates (fun xs : List α => xs) [] (· ++ ·) :=
  ⟨rfl, fun _ _ => rfl⟩

theorem flatMap_getElem?_toList (xs : List α) :
    ((List.range xs.length).flatMap fun i => xs[i]?.toList) = xs := by
  induction xs with
  | nil => rfl
  | cons x xs ih =>
    simp [List.range_succ_eq_map, List.flatMap_map, ih]

/-- Collecting the results of a list in parallel succeeds as a traversal does. -/
theorem collect_map_eq_ok_iff (pool : WorkerPool) {f : κ → Except ε α} {xs : List κ}
    {ys : List α} : pool.collect (xs.map f).toArray = .ok ys ↔ xs.mapM f = .ok ys := by
  have complete (zs : List α) (h : xs.mapM f = .ok zs) :
      pool.collect (xs.map f).toArray = .ok zs := by
    have items := mapM_eq_ok_iff.mp h
    have sizes := items.length_eq
    have run : pool.collect (xs.map f).toArray =
        .ok ((List.range (xs.map f).toArray.size).flatMap fun i => zs[i]?.toList) := by
      apply pool.combine_eq_ok concatenates_append
      intro i bound
      have bound : i < xs.length := by simpa using bound
      have item := items.get bound (sizes ▸ bound)
      simp only [List.get_eq_getElem] at item
      simp [bound, sizes ▸ bound, item, Except.map]
    rwa [List.size_toArray, List.length_map, sizes, flatMap_getElem?_toList] at run
  constructor
  · intro h
    have good : ∀ x ∈ xs, ∃ b, f x = .ok b := by
      intro x member
      obtain ⟨i, bound, rfl⟩ := List.getElem_of_mem member
      obtain ⟨b, part⟩ := parts_ok_of_combine_eq_ok h i (by simpa using bound)
      obtain ⟨a, item, _⟩ := map_eq_ok_iff.mp (by simpa [bound] using part)
      exact ⟨a, item⟩
    have traversed := mapM_eq_ok_filterMap good
    have same := (complete _ traversed).symm.trans h
    exact traversed.trans same
  · exact complete ys

theorem collect_map_eq_error {pool : WorkerPool} {f : κ → Except ε α} {xs : List κ} {e : ε}
    (h : pool.collect (xs.map f).toArray = .error e) : ∃ x ∈ xs, f x = .error e := by
  obtain ⟨i, bound, failed⟩ := combine_eq_error h
  have bound : i < xs.length := by simpa using bound
  exact ⟨xs[i], List.getElem_mem bound, map_eq_error_iff.mp (by simpa [bound] using failed)⟩

end WorkerPool

end HexCover
