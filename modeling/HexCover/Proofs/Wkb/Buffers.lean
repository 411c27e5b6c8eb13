import HexCover.Proofs.Wkb.Decode
import HexCover.Wkb.Buffers

/-! The walk in place does what the walk does. Each action follows its step: it stops for
the same fault, or both go on from the same place in the input, having written the
same. What an action writes is compared after what was in the output before, since the
members of a container are written behind its header and its count. It follows that
no index is ever out of range, and that a stack for the root and one call more than
geometries may be deep is never used up. -/
namespace HexCover.Wkb

structure Cursor.Within (input : List UInt8) (c : Cursor) : Prop where
  position : c.position ≤ input.length
  rest : c.rest = input.drop c.position

theorem Cursor.within_of_position {input : List UInt8} {position : Nat}
    (bounded : position ≤ input.length) : Within input ⟨position, input.drop position⟩ :=
  ⟨bounded, rfl⟩

/-- Outcomes of an action and of a step agree: both stop for the same fault, or both go on
from the same place in the input with results that agree. -/
inductive Agrees (input : List UInt8) {α β : Type} (agree : α → List UInt8 → β → Prop) :
    Except Stop (α × Buffers) → Except Fault (β × Cursor) → Prop
  | fault (f : Fault) : Agrees input agree (.error (.fault f)) (.error f)
  | ok {a : α} {out : List UInt8} {b : β} {c : Cursor} (within : c.Within input)
      (agreed : agree a out b) : Agrees input agree (.ok (a, ⟨c.position, out⟩)) (.ok (b, c))

/-- From some buffers an action does what has come out of a step. -/
def Follows (input : List UInt8) {α β : Type} (agree : α → List UInt8 → β → Prop) (x : Action α)
    (b : Buffers) (y : Except Fault (β × Cursor)) : Prop :=
  Agrees input agree (x b) y

/-- The same result, and the output left as it was. -/
def Same {α : Type} (out : List UInt8) (a : α) (out' : List UInt8) (b : α) : Prop :=
  a = b ∧ out' = out

/-- The output is what it was before and what has been written behind it. -/
def Extends (before : List UInt8) (_ : Unit) (out written : List UInt8) : Prop :=
  out = before ++ written

/-- The output is what it was before and the members kept so far. -/
def Keeps (before : List UInt8) (count : Nat) (out : List UInt8) (kept : Kept) : Prop :=
  count = kept.count ∧ out = before ++ kept.bytes

/-- The same result, and the output extended. -/
def Behind {α : Type} (before : List UInt8) (a : α) (out : List UInt8) (b : α × List UInt8) :
    Prop :=
  a = b.1 ∧ out = before ++ b.2

/-- The same count, and values carried along that agree. -/
def Counted {σ τ : Type} (agree : σ → List UInt8 → τ → Prop) (a : Nat × σ) (out : List UInt8)
    (b : Nat × τ) : Prop :=
  a.1 = b.1 ∧ agree a.2 out b.2

/-- The output is what it was before and a body behind it, which counts unless it is
empty. -/
def BodyBehind (before : List UInt8) (written : Bool) (out : List UInt8)
    (bytes? : Option (List UInt8)) : Prop :=
  ∃ bytes, out = before ++ bytes ∧ bytes? = if written then some bytes else none

namespace Follows

variable {input : List UInt8} {α α' β β' : Type} {agree : α → List UInt8 → β → Prop}
  {agree' : α' → List UInt8 → β' → Prop} {b : Buffers} {y : Except Fault (β × Cursor)}

theorem bind {x : Action α} {f : α → Action α'} {g : β × Cursor → Except Fault (β' × Cursor)}
    (first : Follows input agree x b y)
    (next : ∀ a out b c, c.Within input → agree a out b →
      Follows input agree' (f a) ⟨c.position, out⟩ (g (b, c))) :
    Follows input agree' (x >>= f) b (y >>= g) := by
  change Agrees input agree' (x b >>= fun result => f result.1 result.2) (y >>= g)
  unfold Follows at first
  generalize x b = outcome at first ⊢
  cases first with
  | fault f => exact .fault f
  | ok within agreed => exact next _ _ _ _ within agreed

/-- After an action that leaves the output alone, both go on with the same value. -/
theorem bind_same {out : List UInt8} {x : Action α} {y : Except Fault (α × Cursor)}
    {f : α → Action α'} {g : α × Cursor → Except Fault (β' × Cursor)}
    (first : Follows input (Same out) x b y)
    (next : ∀ a c, c.Within input → Follows input agree' (f a) ⟨c.position, out⟩ (g (a, c))) :
    Follows input agree' (x >>= f) b (y >>= g) := by
  refine first.bind ?_
  rintro a out' b c within ⟨rfl, rfl⟩
  exact next a c within

theorem look_bind {f : Buffers → Action α} (next : Follows input agree (f b) b y) :
    Follows input agree (InPlace.look >>= f) b y :=
  next

theorem edit_bind {e : Edit} {f : Unit → Action α}
    (next : Follows input agree (f ()) { b with out := e.apply b.out } y) :
    Follows input agree (InPlace.edit e >>= f) b y :=
  next

/-- Repeated actions follow repeated steps. -/
theorem times {σ τ : Type} {agree : σ → List UInt8 → τ → Prop} {action : σ → Action σ}
    {step : τ → Step τ}
    (once : ∀ s out t c, c.Within input → agree s out t →
      Follows input agree (action s) ⟨c.position, out⟩ (step t c))
    (n : Nat) {s : σ} {out : List UInt8} {t : τ} {c : Cursor} (within : c.Within input)
    (agreed : agree s out t) :
    Follows input agree (InPlace.times action n s) ⟨c.position, out⟩
      (Cursor.times step n t c) := by
  induction n generalizing s out t c with
  | zero => exact .ok within agreed
  | succ n ih => exact (once s out t c within agreed).bind fun _ _ _ _ => ih

end Follows

namespace InPlace

variable {input out : List UInt8} {c : Cursor}

/-- Where a cursor stands in the input, what is left of it is known. -/
theorem remaining_eq (within : c.Within input) :
    (remaining input : Action Nat) ⟨c.position, out⟩ =
      .ok (c.rest.length, ⟨c.position, out⟩) := by
  change (if input.length < c.position then _ else _ : Action Nat) ⟨c.position, out⟩ = _
  rw [if_neg (Nat.not_lt.mpr within.position), within.rest, List.length_drop]
  rfl

theorem remaining_bind {α β : Type} {agree : α → List UInt8 → β → Prop}
    {y : Except Fault (β × Cursor)} {f : Nat → Action α} (within : c.Within input)
    (next : Follows input agree (f c.rest.length) ⟨c.position, out⟩ y) :
    Follows input agree (remaining input >>= f) ⟨c.position, out⟩ y := by
  change Agrees input agree
    ((remaining input : Action Nat) ⟨c.position, out⟩ >>= fun result => f result.1 result.2) y
  rw [remaining_eq within]
  exact next

theorem slice_eq (within : c.Within input) {n : Nat} (enough : n ≤ c.rest.length) :
    slice input c.position (c.position + n) = (pure (c.rest.take n) : Action (List UInt8)) := by
  have bounded : n ≤ input.length - c.position := by
    rw [← List.length_drop, ← within.rest]
    exact enough
  have position := within.position
  rw [slice, if_pos (by omega), within.rest, Nat.add_sub_cancel_left]

theorem take_follows (within : c.Within input) (n : Nat) :
    Follows input (Same out) (take input n) ⟨c.position, out⟩ (c.take n) := by
  refine Follows.look_bind (remaining_bind within ?_)
  unfold Cursor.take
  by_cases short : c.rest.length < n
  · rw [if_pos short, if_pos short]
    exact .fault _
  · rw [if_neg short, if_neg short, slice_eq within (Nat.not_lt.mp short)]
    have advanced : Cursor.Within input ⟨c.position + n, c.rest.drop n⟩ := by
      constructor
      · have bound := congrArg List.length within.rest
        rw [List.length_drop] at bound
        have position := within.position
        change c.position + n ≤ input.length
        omega
      · change c.rest.drop n = input.drop (c.position + n)
        rw [within.rest, List.drop_drop]
    exact .ok advanced ⟨rfl, rfl⟩

theorem byteOrder_follows (within : c.Within input) :
    Follows input (Same out) (byteOrder input) ⟨c.position, out⟩ c.byteOrder := by
  refine Follows.look_bind ((take_follows within 1).bind_same fun bytes c' within' => ?_)
  cases known : order? (bytes.headD 0) with
  | none => simp only [known]; exact .fault _
  | some order => simp only [known]; exact .ok within' ⟨rfl, rfl⟩

theorem word_follows (within : c.Within input) (order : ByteOrder) :
    Follows input (Same out) (word input order) ⟨c.position, out⟩ (c.word order) :=
  (take_follows within 4).bind_same fun _ _ within' => .ok within' ⟨rfl, rfl⟩

theorem double_follows (within : c.Within input) (order : ByteOrder) :
    Follows input (Same out) (double input order) ⟨c.position, out⟩ (c.double order) :=
  (take_follows within 8).bind_same fun _ _ within' => .ok within' ⟨rfl, rfl⟩

theorem count_follows (within : c.Within input) (order : ByteOrder) (itemBytes : Nat) :
    Follows input (Same out) (count input order itemBytes) ⟨c.position, out⟩
      (c.count order itemBytes) := by
  refine Follows.look_bind ((word_follows within order).bind_same fun n c' within' => ?_)
  refine remaining_bind within' ?_
  change Follows input _ _ _ (if c'.rest.length < Size.mulSaturating n itemBytes then _ else _)
  split
  · exact .fault _
  · exact .ok within' ⟨rfl, rfl⟩

theorem coord_follows (within : c.Within input) (order : ByteOrder) :
    Follows input (Same out) (coord input order) ⟨c.position, out⟩ (c.coord order) := by
  refine (double_follows within order).bind_same fun x c₁ within₁ => ?_
  exact (double_follows within₁ order).bind_same fun y c₂ within₂ => .ok within₂ ⟨rfl, rfl⟩

theorem counted_follows {σ τ : Type} {agree : σ → List UInt8 → τ → Prop} {action : σ → Action σ}
    {step : τ → Step τ}
    (once : ∀ s out t c, Cursor.Within input c → agree s out t →
      Follows input agree (action s) ⟨c.position, out⟩ (step t c))
    (within : c.Within input) (itemBytes : Nat) (order : ByteOrder) {s : σ} {start : Nat → τ}
    {place : Nat → List UInt8} (agreed : ∀ n, agree s (out ++ place n) (start n)) :
    Follows input (Counted agree) (counted input itemBytes action s place order) ⟨c.position, out⟩
      (Cursor.counted itemBytes step start order c) := by
  refine (count_follows within order itemBytes).bind_same fun n c₁ within₁ => ?_
  refine Follows.edit_bind ((Follows.times once n within₁ (agreed n)).bind ?_)
  intro s' out' t' c₂ within₂ agreed'
  exact .ok within₂ ⟨rfl, agreed'⟩

theorem copyCoord_follows (order : ByteOrder) (before : List UInt8) (u : Unit)
    (out written : List UInt8) (c : Cursor) (within : c.Within input)
    (same : Extends before u out written) :
    Follows input (Extends before) (copyCoord input order u) ⟨c.position, out⟩
      (Cursor.copyCoord order written c) := by
  subst same
  refine (coord_follows within order).bind_same fun p c' within' => .ok within' ?_
  exact List.append_assoc ..

theorem copyCoords_follows (within : c.Within input) (order : ByteOrder)
    (before written : List UInt8) :
    Follows input (Counted (Extends before)) (copyCoords input order)
      ⟨c.position, before ++ written⟩ (Cursor.copyCoords order written c) :=
  counted_follows (copyCoord_follows order before) within 16 order fun _ => List.append_assoc ..

theorem copyRing_follows (order : ByteOrder) (before : List UInt8) (u : Unit)
    (out written : List UInt8) (c : Cursor) (within : c.Within input)
    (same : Extends before u out written) :
    Follows input (Extends before) (copyRing input order u) ⟨c.position, out⟩
      (Cursor.copyRing order written c) := by
  subst same
  refine (copyCoords_follows within order before written).bind ?_
  rintro n out ⟨_, written'⟩ c' within' ⟨_, same⟩
  exact .ok within' same

theorem pointMember_follows (before : List UInt8) (count : Nat) (out : List UInt8) (kept : Kept)
    (c : Cursor) (within : c.Within input) (same : Keeps before count out kept) :
    Follows input (Keeps before) (pointMember input count) ⟨c.position, out⟩
      (Wkb.pointMember kept c) := by
  obtain ⟨rfl, rfl⟩ := same
  refine (byteOrder_follows within).bind_same fun order c₁ within₁ => ?_
  refine (word_follows within₁ order).bind_same fun code c₂ within₂ => ?_
  by_cases point : code ≠ Kind.point.code
  · simp only [if_pos point]
    exact .fault _
  · simp only [if_neg point]
    refine (coord_follows within₂ order).bind_same fun p c₃ within₃ => ?_
    cases isEmptyPoint p with
    | true => exact .ok within₃ ⟨rfl, rfl⟩
    | false => exact .ok within₃ ⟨rfl, List.append_assoc ..⟩

/-- A count that was left open is filled in behind what was in the output before it. -/
theorem patch_bind {α β : Type} {agree : α → List UInt8 → β → Prop}
    {y : Except Fault (β × Cursor)} {f : Unit → Action α} {before bytes : List UInt8}
    {position n : Nat}
    (next : Follows input agree (f ()) ⟨position, before ++ (Bytes.ofNat 4 n ++ bytes)⟩ y) :
    Follows input agree (patch before.length n >>= f)
      ⟨position, before ++ Bytes.ofNat 4 0 ++ bytes⟩ y := by
  have room : before.length + 4 ≤ (before ++ Bytes.ofNat 4 0 ++ bytes).length := by
    simp only [List.length_append, Bytes.length_ofNat]
    omega
  have behind : (before ++ Bytes.ofNat 4 0 ++ bytes).drop (before.length + 4) = bytes :=
    List.drop_left' (by simp)
  have front : (before ++ Bytes.ofNat 4 0 ++ bytes).take before.length = before := by
    rw [List.append_assoc, List.take_left]
  change Follows input agree ((if before.length + 4 ≤ _ then _ else _) >>= f) _ y
  rw [if_pos room]
  refine Follows.edit_bind ?_
  simp only [Edit.apply, front, behind]
  rw [List.append_assoc]
  exact next

theorem countedMembers_follows (within : c.Within input) {member : Nat → Action Nat}
    {step : Kept → Step Kept}
    (once : ∀ before count out kept c, c.Within input → Keeps before count out kept →
      Follows input (Keeps before) (member count) ⟨c.position, out⟩ (step kept c))
    (itemBytes : Nat) (order : ByteOrder) (before : List UInt8) :
    Follows input (BodyBehind before) (countedMembers input itemBytes member order)
      ⟨c.position, before⟩ (Wkb.countedMembers itemBytes step order c) := by
  have start (n : Nat) : Keeps (before ++ Bytes.ofNat 4 0) 0 (before ++ Bytes.ofNat 4 0) ⟨0, []⟩ :=
    ⟨rfl, (List.append_nil _).symm⟩
  refine Follows.look_bind ((counted_follows (once _) within itemBytes order start).bind ?_)
  rintro ⟨n, count⟩ out ⟨_, ⟨_, bytes⟩⟩ c' within' ⟨rfl, rfl, rfl⟩
  refine patch_bind (.ok within' ⟨_, rfl, ?_⟩)
  rw [Kept.body?]
  cases count <;> rfl

/-- A geometry read in place is written behind what was in the output before. -/
def GeometryFollows (input : List UInt8) (inner : Action (Option Kind))
    (step : List UInt8 → Step (Option Kind × List UInt8)) : Prop :=
  ∀ before written c, c.Within input →
    Follows input (Behind before) inner ⟨c.position, before ++ written⟩ (step written c)

theorem geometryMember_follows {inner : Action (Option Kind)}
    {step : List UInt8 → Step (Option Kind × List UInt8)}
    (follows : GeometryFollows input inner step)
    (kind : Kind) (before : List UInt8) (count : Nat) (out : List UInt8) (kept : Kept)
    (c : Cursor) (within : c.Within input) (same : Keeps before count out kept) :
    Follows input (Keeps before) (geometryMember inner kind count) ⟨c.position, out⟩
      (Wkb.geometryMember step kind kept c) := by
  obtain ⟨rfl, rfl⟩ := same
  refine Follows.look_bind ((follows before kept.bytes c within).bind ?_)
  rintro member? out ⟨_, written⟩ c₁ within₁ ⟨rfl, rfl⟩
  cases member? with
  | none => exact .ok within₁ ⟨rfl, rfl⟩
  | some member =>
    cases checked : checkMember kind member c.position with
    | error fault =>
      simp only [checked]
      exact .fault fault
    | ok =>
      simp only [checked]
      exact .ok within₁ ⟨rfl, rfl⟩

theorem body_follows {inner : Action (Option Kind)}
    {step : List UInt8 → Step (Option Kind × List UInt8)}
    (follows : GeometryFollows input inner step)
    (within : c.Within input) (kind : Kind) (order : ByteOrder) (before : List UInt8) :
    Follows input (BodyBehind before) (body input inner kind order) ⟨c.position, before⟩
      (body? step kind order c) := by
  cases kind with
  | point =>
    refine (coord_follows within order).bind_same fun p c₁ within₁ => .ok within₁ ⟨_, rfl, ?_⟩
    cases isEmptyPoint p <;> rfl
  | lineString =>
    have copied := copyCoords_follows within order before []
    rw [List.append_nil] at copied
    refine copied.bind ?_
    rintro ⟨n, _⟩ out ⟨_, bytes⟩ c₁ within₁ ⟨rfl, rfl⟩
    refine .ok within₁ ⟨bytes, rfl, ?_⟩
    cases n <;> rfl
  | polygon =>
    have start (n : Nat) : Extends before () (before ++ Bytes.ofNat 4 n) (Bytes.ofNat 4 n) := rfl
    refine (counted_follows (copyRing_follows order before) within 4 order start).bind ?_
    rintro ⟨n, _⟩ out ⟨_, bytes⟩ c₁ within₁ ⟨rfl, rfl⟩
    refine .ok within₁ ⟨bytes, rfl, ?_⟩
    cases n <;> rfl
  | multiPoint => exact countedMembers_follows within pointMember_follows 21 order before
  | multiLineString | multiPolygon | collection =>
    exact countedMembers_follows within (geometryMember_follows follows _) 9 order before

/-- A call at a depth follows the walk that may still go down to the greatest depth. -/
theorem geometry_follows (input : List UInt8) (levels : Nat) : ∀ stack depth : Nat,
    depth + levels = maxDepth + 1 → levels < stack →
      GeometryFollows input (geometry input stack depth) (walk levels) := by
  induction levels with
  | zero =>
    rintro (_ | stack) depth deep room before written c within
    · cases room
    have too_deep : maxDepth < depth := by omega
    rw [geometry, if_pos too_deep]
    exact .fault .tooDeep
  | succ levels ih =>
    rintro (_ | stack) depth deep room before written c within
    · cases room
    have shallow : ¬ maxDepth < depth := by omega
    have inner := ih stack (depth + 1) (by omega) (by omega)
    rw [geometry, if_neg shallow]
    refine Follows.look_bind ((byteOrder_follows within).bind_same fun order c₁ within₁ => ?_)
    refine Follows.look_bind ((word_follows within₁ order).bind_same fun code c₂ within₂ => ?_)
    refine Follows.edit_bind (Follows.edit_bind ?_)
    cases known : Kind.ofCode? code with
    | none =>
      simp only [known]
      exact .fault _
    | some kind =>
      simp only [known]
      refine (body_follows inner within₂ kind order _).bind ?_
      rintro present out bytes? c₃ within₃ ⟨bytes, rfl, rfl⟩
      have code_eq := ofCode?_eq_some_iff.mp known
      cases present with
      | false =>
        refine .ok within₃ ⟨rfl, ?_⟩
        simp only [Edit.apply, List.append_assoc]
        rw [← List.append_assoc before written]
        exact List.take_left
      | true =>
        refine .ok within₃ ⟨rfl, ?_⟩
        simp [Edit.apply, header, ByteOrder.write, code_eq]

end InPlace

namespace Buffers

variable {input : List UInt8}

/-- The walk in place gives the normal form, and stops for nothing else than a fault. -/
theorem normalize_eq {stack : Nat} (room : maxDepth + 1 < stack) :
    normalize input stack = (Wkb.normalize input).mapError .fault := by
  have start : Cursor.Within input ⟨0, input⟩ := ⟨Nat.zero_le _, rfl⟩
  have followed := InPlace.geometry_follows input (maxDepth + 1) stack 0 (by omega) room [] [] _
    start
  rw [List.append_nil] at followed
  unfold Follows at followed
  simp only [Wkb.normalize]
  change Prod.fst <$> ((InPlace.geometry input stack 0 : Action (Option Kind)) ⟨0, []⟩ >>=
    fun result => (if result.2.position ≠ input.length then _ else _ :
      Action (Option (List UInt8))) result.2) = _
  generalize walk (maxDepth + 1) [] ⟨0, input⟩ = walked at followed ⊢
  generalize (InPlace.geometry input stack 0 : Action (Option Kind)) ⟨0, []⟩ = called
    at followed ⊢
  cases followed with
  | fault f => rfl
  | @ok kind? out result c within same =>
    obtain ⟨_, written⟩ := result
    obtain ⟨rfl, rfl⟩ := same
    have left := congrArg List.length within.rest
    rw [List.length_drop] at left
    have position := within.position
    change Prod.fst <$> (if c.position ≠ input.length then _ else _ :
        Action (Option (List UInt8))) ⟨c.position, _⟩ =
      Except.mapError _ (if c.rest.length ≠ 0 then _ else _)
    by_cases whole : c.rest.length = 0
    · rw [if_neg (by omega), if_neg (by omega)]
      rfl
    · rw [if_pos (by omega), if_pos whole]
      change Prod.fst <$> ((InPlace.remaining input : Action Nat) ⟨c.position, _⟩ >>= _) = _
      rw [InPlace.remaining_eq within]
      rfl

/-- A run from some buffers does not go back in the input or past its end, and does
nothing that it must not do. -/
def Safe (input : List UInt8) {α : Type} (b : Buffers) : Except Stop (α × Buffers) → Prop
  | .ok (_, b') => b.position ≤ b'.position ∧ b'.position ≤ input.length
  | .error stop => ∃ fault, stop = .fault fault

theorem geometry_safe {depth : Nat} (deep : depth ≤ maxDepth + 1) {b : Buffers}
    (bounded : b.position ≤ input.length) :
    Safe input b (geometry input (maxDepth + 2 - depth) depth b) := by
  have within := Cursor.within_of_position bounded
  have followed := InPlace.geometry_follows input (maxDepth + 1 - depth) (maxDepth + 2 - depth)
    depth (by omega) (by omega) b.out [] _ within
  rw [List.append_nil] at followed
  unfold Follows at followed
  generalize walked : walk (maxDepth + 1 - depth) [] ⟨b.position, input.drop b.position⟩ = result
    at followed
  unfold geometry
  generalize (InPlace.geometry input (maxDepth + 2 - depth) depth : Action (Option Kind)) b = called
    at followed ⊢
  cases followed with
  | fault f => exact ⟨f, rfl⟩
  | @ok kind? out read c after same =>
    obtain ⟨kind', written⟩ := read
    obtain ⟨t, _, _, _, advance⟩ := (walk_readsTrees _ _ _ _ _ _).mp walked
    refine ⟨?_, after.position⟩
    rw [advance.position]
    exact Nat.le_add_right _ _

end Buffers

/-- Reading bytes that may be anything neither leaves its buffers nor goes deeper than its
stack, a refusal names the record, and what is handed on is read to its end. -/
theorem decode_safe (id : UInt64) (input : List UInt8) :
    (∀ stack, maxDepth + 1 < stack →
      Buffers.normalize input stack = (normalize input).mapError .fault) ∧
    (∀ depth ≤ maxDepth + 1, ∀ b : Buffers, b.position ≤ input.length →
      Buffers.Safe input b (Buffers.geometry input (maxDepth + 2 - depth) depth b)) ∧
    (∀ error, decode id input = .error error ↔ ∃ fault, normalize input = .error fault ∧
      error = .invalidGeometry id ("malformed WKB: " ++ fault.message)) ∧
    ∀ normal, normalize input = .ok (some normal) →
      ∃ g, readGeometry (maxDepth + 1) normal = some (g, []) ∧ decode id input = .ok (some g) := by
  refine ⟨fun stack room => Buffers.normalize_eq room,
    fun depth deep b bounded => Buffers.geometry_safe deep bounded,
    fun error => decode_eq_error_iff, ?_⟩
  intro normal normalized
  obtain ⟨t, ⟨acceptable, shallow⟩, rfl, found⟩ := normalize_eq_ok_iff.mp normalized
  have related := Tree.rel_normal acceptable shallow
  rw [decode_encode id acceptable shallow]
  generalize t.prune? = pruned at related ⊢
  rw [found] at related
  cases related with
  | @some _ g reads =>
    have whole := reads []
    rw [List.append_nil] at whole
    exact ⟨g, whole, rfl⟩

/-- A collection that claims more members than any input could hold. -/
def hugeCount : List UInt8 := [1, 7, 0, 0, 0, 255, 255, 255, 255]

/-- A big-endian multi point of a point that is empty and of the origin. -/
def pointAmongEmpty : List UInt8 :=
  [0, 0, 0, 0, 4, 0, 0, 0, 2] ++ [1, 1, 0, 0, 0] ++ List.replicate 16 255 ++
    [0, 0, 0, 0, 1] ++ List.replicate 16 0

theorem decode_huge_count :
    Buffers.normalize hugeCount (maxDepth + 2) = .error (.fault (.count 4294967295 5)) ∧
      decode 9 hugeCount = .error (.invalidGeometry 9
        ("malformed WKB: " ++ (Fault.count 4294967295 5).message)) ∧
      Buffers.Safe pointAmongEmpty ⟨0, []⟩
        (Buffers.geometry pointAmongEmpty (maxDepth + 2) 0 ⟨0, []⟩) ∧
      normalize pointAmongEmpty =
        .ok (some ([1, 4, 0, 0, 0, 1, 0, 0, 0] ++ List.replicate 16 0)) ∧
      ∃ g, readGeometry (maxDepth + 1) ([1, 4, 0, 0, 0, 1, 0, 0, 0] ++ List.replicate 16 0) =
          some (g, []) ∧
        decode 9 pointAmongEmpty = .ok (some g) := by
  have refused : normalize hugeCount = .error (.count 4294967295 5) := by decide +kernel
  have accepted : normalize pointAmongEmpty =
      .ok (some ([1, 4, 0, 0, 0, 1, 0, 0, 0] ++ List.replicate 16 0)) := by
    decide +kernel
  obtain ⟨in_place, _, failures, _⟩ := decode_safe 9 hugeCount
  obtain ⟨_, bounded, _, read⟩ := decode_safe 9 pointAmongEmpty
  refine ⟨?_, (failures _).mpr ⟨_, refused, rfl⟩, bounded 0 (Nat.zero_le _) _ (Nat.zero_le _),
    accepted, read _ accepted⟩
  rw [in_place (maxDepth + 2) (Nat.lt_succ_self _), refused]
  rfl

end HexCover.Wkb
