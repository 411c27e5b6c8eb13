import Mathlib.Data.List.Forall2

/-! Outcomes of work that may fail. Steps in a row succeed when each of them does. A
traversal of a list succeeds when every item does, and otherwise reports the
failure of the first item that fails. A fold that adds one result after the other
is a traversal followed by a fold. -/
namespace HexCover

variable {α β σ ε : Type}

theorem bind_eq_ok_iff {x : Except ε α} {f : α → Except ε β} {b : β} :
    (x >>= f) = .ok b ↔ ∃ a, x = .ok a ∧ f a = .ok b := by
  cases x <;> simp [bind, Except.bind]

theorem map_eq_ok_iff {x : Except ε α} {f : α → β} {b : β} :
    x.map f = .ok b ↔ ∃ a, x = .ok a ∧ f a = b := by
  cases x <;> simp [Except.map]

theorem map_eq_error_iff {x : Except ε α} {f : α → β} {e : ε} :
    x.map f = .error e ↔ x = .error e := by
  cases x <;> simp [Except.map]

theorem seq_eq_ok_iff {x y : Except ε Unit} :
    (x >>= fun _ => y) = .ok () ↔ x = .ok () ∧ y = .ok () := by
  cases x <;> simp [bind, Except.bind]

theorem exists_ok_of_toBool {x : Except ε α} (h : x.toBool = true) : ∃ a, x = .ok a := by
  cases x with
  | ok a => exact ⟨a, rfl⟩
  | error e => contradiction

theorem exists_error_of_toBool {x : Except ε α} (h : x.toBool = false) : ∃ e, x = .error e := by
  cases x with
  | ok a => contradiction
  | error e => exact ⟨e, rfl⟩

theorem eq_of_toOption {x : Except ε α} {a b : α} (run : x = .ok a) (value : x.toOption = some b) :
    a = b := by
  rw [run] at value
  exact Option.some.inj value

/-- What fails only when another run fails gives a result when that one does. -/
theorem exists_ok_of_fails_iff {x : Except ε α} {y : Except ε β}
    (fails : (∃ e, x = .error e) ↔ ∃ e, y = .error e) {b : β} (h : y = .ok b) :
    ∃ a, x = .ok a := by
  cases x with
  | ok a => exact ⟨a, rfl⟩
  | error e =>
    obtain ⟨e', failed⟩ := fails.mp ⟨e, rfl⟩
    simp [h] at failed

/-- `e` is the failure of the first item of a list that fails. -/
def FirstFailure (f : α → Except ε β) (xs : List α) (e : ε) : Prop :=
  ∃ before x after, xs = before ++ x :: after ∧ (∀ y ∈ before, ∃ b, f y = .ok b) ∧ f x = .error e

theorem FirstFailure.fails {f : α → Except ε β} {xs : List α} {e : ε}
    (h : FirstFailure f xs e) : ∃ x ∈ xs, f x = .error e := by
  obtain ⟨before, x, after, rfl, _, failed⟩ := h
  exact ⟨x, by simp, failed⟩

/-- Either every item succeeds or there is a first one that fails. -/
theorem forall_ok_or_firstFailure (f : α → Except ε β) (xs : List α) :
    (∀ x ∈ xs, ∃ b, f x = .ok b) ∨ ∃ e, FirstFailure f xs e := by
  induction xs with
  | nil => simp
  | cons x xs ih =>
    cases head : f x with
    | error e => exact .inr ⟨e, [], x, xs, rfl, by simp, head⟩
    | ok b =>
      obtain good | ⟨e, before, y, after, rfl, good, failed⟩ := ih
      · left
        intro y member
        rcases List.mem_cons.mp member with rfl | member
        · exact ⟨b, head⟩
        · exact good y member
      · right
        refine ⟨e, x :: before, y, after, rfl, ?_, failed⟩
        intro z member
        rcases List.mem_cons.mp member with rfl | member
        · exact ⟨b, head⟩
        · exact good z member

theorem mapM_eq_ok_iff {f : α → Except ε β} {xs : List α} {ys : List β} :
    xs.mapM f = .ok ys ↔ List.Forall₂ (fun x y => f x = .ok y) xs ys := by
  induction xs generalizing ys with
  | nil => simp [pure, Except.pure, eq_comm]
  | cons x xs ih =>
    simp only [List.mapM_cons, bind_eq_ok_iff, ih, List.forall₂_cons_left_iff]
    constructor
    · rintro ⟨b, head, bs, tail, last⟩
      cases last
      exact ⟨b, bs, head, tail, rfl⟩
    · rintro ⟨b, bs, head, tail, rfl⟩
      exact ⟨b, head, bs, tail, rfl⟩

theorem exists_values [Inhabited β] {f : α → Except ε β} {xs : List α}
    (h : ∀ x ∈ xs, ∃ b, f x = .ok b) : ∃ value : α → β, ∀ x ∈ xs, f x = .ok (value x) := by
  refine ⟨fun x => (f x).toOption.getD default, fun x member => ?_⟩
  obtain ⟨b, result⟩ := h x member
  simp [result, Except.toOption]

theorem mapM_eq_some_map {f : α → Option β} {g : α → β} {xs : List α}
    (each : ∀ x ∈ xs, f x = some (g x)) : xs.mapM f = some (xs.map g) := by
  induction xs with
  | nil => rfl
  | cons x xs ih =>
    obtain ⟨first, rest⟩ := List.forall_mem_cons.mp each
    simp [first, ih rest]

theorem exists_mem_of_mapM_eq_ok {f : α → Except ε β} {xs : List α} {ys : List β}
    (h : xs.mapM f = .ok ys) {x : α} (member : x ∈ xs) : ∃ y ∈ ys, f x = .ok y := by
  have items := mapM_eq_ok_iff.mp h
  clear h
  induction items with
  | nil => contradiction
  | cons item _ ih =>
    rcases List.mem_cons.mp member with rfl | later
    · exact ⟨_, by simp, item⟩
    · obtain ⟨y, inside, result⟩ := ih later
      exact ⟨y, by simp [inside], result⟩

theorem mapM_eq_ok_filterMap {f : α → Except ε β} {xs : List α}
    (h : ∀ x ∈ xs, ∃ b, f x = .ok b) :
    xs.mapM f = .ok (xs.filterMap fun x => (f x).toOption) := by
  induction xs with
  | nil => rfl
  | cons x xs ih =>
    obtain ⟨b, head⟩ := h x (by simp)
    have tail := ih fun y member => h y (by simp [member])
    simp [head, tail, Except.toOption, bind, Except.bind, pure, Except.pure]

theorem FirstFailure.mapM_eq {f : α → Except ε β} {xs : List α} {e : ε}
    (h : FirstFailure f xs e) : xs.mapM f = .error e := by
  obtain ⟨before, x, after, rfl, good, failed⟩ := h
  induction before with
  | nil => simp [failed, bind, Except.bind]
  | cons y before ih =>
    obtain ⟨b, succeeded⟩ := good y (by simp)
    have rest := ih fun z member => good z (by simp [member])
    simp only [List.cons_append, List.mapM_cons, succeeded, rest, bind, Except.bind]

theorem mapM_eq_error_iff {f : α → Except ε β} {xs : List α} {e : ε} :
    xs.mapM f = .error e ↔ FirstFailure f xs e := by
  constructor
  · intro h
    obtain good | ⟨e', first⟩ := forall_ok_or_firstFailure f xs
    · simp [mapM_eq_ok_filterMap good] at h
    · have same : e = e' := by simpa [h] using first.mapM_eq
      exact same ▸ first
  · exact FirstFailure.mapM_eq

theorem firstFailure_map_iff {γ : Type} {f : α → Except ε β} {h : α → β → γ} {xs : List α}
    {e : ε} : FirstFailure (fun x => (f x).map (h x)) xs e ↔ FirstFailure f xs e := by
  have succeeds (x : α) : (∃ c, (f x).map (h x) = .ok c) ↔ ∃ b, f x = .ok b := by
    cases f x <;> simp [Except.map]
  simp only [FirstFailure, succeeds, map_eq_error_iff]

/-- Checks in a row pass when each of them does. -/
theorem forM_eq_ok_iff {f : α → Except ε Unit} {xs : List α} :
    xs.forM f = .ok () ↔ ∀ x ∈ xs, f x = .ok () := by
  induction xs with
  | nil => simp [pure, Except.pure]
  | cons x xs ih =>
    have head : (x :: xs).forM f = (f x >>= fun _ => xs.forM f) := rfl
    rw [head, seq_eq_ok_iff, ih, List.forall_mem_cons]

/-- A selection whose items all succeed. -/
theorem filterMapM_eq_ok {f : α → Except ε (Option β)} {g : α → Option β} {xs : List α}
    (h : ∀ x ∈ xs, f x = .ok (g x)) : xs.filterMapM f = .ok (xs.filterMap g) := by
  induction xs with
  | nil => rfl
  | cons x xs ih =>
    have tail := ih fun y member => h y (by simp [member])
    rw [List.filterMapM_cons, h x (by simp), List.filterMap_cons, tail]
    cases g x <;> rfl

/-- A fold that adds one result after the other. -/
theorem foldlM_map_eq (f : α → Except ε β) (add : σ → β → σ) (xs : List α) (s : σ) :
    xs.foldlM (fun s x => (f x).map (add s)) s = (xs.mapM f).map fun ys => ys.foldl add s := by
  induction xs generalizing s with
  | nil => rfl
  | cons x xs ih =>
    rw [List.foldlM_cons, List.mapM_cons]
    cases head : f x with
    | error e => rfl
    | ok b =>
      change xs.foldlM _ (add s b) = _
      rw [ih]
      cases xs.mapM f <;> rfl

/-- A fold over groups of items is a fold over all of them. -/
theorem foldlM_flatMap (step : σ → β → Except ε σ) (items : α → List β) (xs : List α) (s : σ) :
    xs.foldlM (fun s x => (items x).foldlM step s) s = (xs.flatMap items).foldlM step s := by
  induction xs generalizing s with
  | nil => rfl
  | cons x xs ih => simp only [List.foldlM_cons, ih, List.flatMap_cons, List.foldlM_append]

end HexCover
