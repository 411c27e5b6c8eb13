/-! Work split into parts and put together again. A pool of workers runs the parts
of a piece of work in some order and combines their results two at a time. How it
does so is a plan: a binary tree over the parts, in which empty results may stand
anywhere. A failing part makes the whole fail; which of several failures is
reported is up to the plan. A pool holds a plan for every number of parts, and
each plan takes every part once and in order. -/
namespace HexCover

/-- A plan that combines the results of parts. -/
inductive Plan where
  | nothing
  | part (index : Nat)
  | join (rightFirst : Bool) (left right : Plan)
deriving Repr

namespace Plan

/-- The parts of a plan from left to right. -/
def parts : Plan → List Nat
  | nothing => []
  | part index => [index]
  | join _ left right => left.parts ++ right.parts

/-- Combine results by a plan. A failure on the side that is finished first hides
one on the other side. -/
def run {ε α : Type} (empty : α) (merge : α → α → α) (result : Nat → Except ε α) :
    Plan → Except ε α
  | nothing => .ok empty
  | part index => result index
  | join rightFirst left right =>
    if rightFirst then do
      let b ← right.run empty merge result
      let a ← left.run empty merge result
      return merge a b
    else do
      let a ← left.run empty merge result
      let b ← right.run empty merge result
      return merge a b

/-- The plan that adds one part after the other. -/
def inOrder : (n : Nat) → Plan
  | 0 => nothing
  | n + 1 => join false (inOrder n) (part n)

theorem parts_inOrder (n : Nat) : (inOrder n).parts = List.range n := by
  induction n with
  | zero => rfl
  | succ n ih => simp [inOrder, parts, ih, List.range_succ]

end Plan

/-- Workers that share the parts of a piece of work. A dedicated pool has the
number of workers it was asked for. -/
structure WorkerPool where
  dedicated : Bool
  threads : Nat
  plan : Nat → Plan := Plan.inOrder
  parts_plan : ∀ n, (plan n).parts = List.range n := by exact Plan.parts_inOrder

namespace WorkerPool

/-- A dedicated pool of `threads` workers, or the shared one of `cores` workers when
no number is asked for. -/
def build (cores threads : Nat) : WorkerPool :=
  if threads = 0 then { dedicated := false, threads := cores }
  else { dedicated := true, threads := threads }

def combine {ε α : Type} (pool : WorkerPool) (empty : α) (merge : α → α → α) (n : Nat)
    (result : Nat → Except ε α) : Except ε α :=
  (pool.plan n).run empty merge result

/-- The results of parts in the order of the parts, if none fails. -/
def collect {ε α : Type} (pool : WorkerPool) (results : Array (Except ε α)) :
    Except ε (List α) :=
  pool.combine [] (· ++ ·) results.size fun n =>
    match results[n]? with
    | some result => result.map fun a => [a]
    | none => .ok []

def sum (pool : WorkerPool) (numbers : Array Int) : Int :=
  match pool.combine (ε := Empty) 0 (· + ·) numbers.size fun n => .ok (numbers.getD n 0) with
  | .ok total => total

def text (pool : WorkerPool) : String :=
  "WorkerPool \x7b dedicated: " ++ toString pool.dedicated ++ ", num_threads: " ++
    toString pool.threads ++ " \x7d"

end WorkerPool

end HexCover
