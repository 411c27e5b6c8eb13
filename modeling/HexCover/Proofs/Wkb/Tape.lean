import HexCover.Proofs.Wkb.Buffers

/-! The recorded walk is the walk in place. Without the record, and without what is left
behind when it stops, a recorded walk gives what the action of the same name gives; so a
call for a geometry reads a tree of the grammar and puts the normal form of the tree behind
what was in the output. -/
namespace HexCover.Wkb

namespace Tape

variable {α β : Type} {input : List UInt8}

/-- The outcome of a walk: what an action gives from the same buffers. -/
def settle : EStateM.Result Stop Tape α → Except Stop (α × Buffers)
  | .ok a t => .ok (a, t.toBuffers)
  | .error stop _ => .error stop

/-- A walk does what an action does. -/
def Does (walk : Walk α) (action : Action α) : Prop :=
  ∀ t, settle (walk t) = action t.toBuffers

theorem bind_of_ok {walk : Walk α} {f : α → Walk β} {a : α} {t t' : Tape}
    (run : walk t = .ok a t') : (walk >>= f) t = f a t' := by
  change EStateM.bind walk f t = _
  rw [EStateM.bind, run]

theorem bind_of_error {walk : Walk α} {f : α → Walk β} {stop : Stop} {t t' : Tape}
    (run : walk t = .error stop t') : (walk >>= f) t = .error stop t' := by
  change EStateM.bind walk f t = _
  rw [EStateM.bind, run]

namespace Does

theorem pure (a : α) : Does (Pure.pure a) (Pure.pure a) := fun _ => rfl

theorem throw (stop : Stop) : Does (MonadExcept.throw stop : Walk α) (MonadExcept.throw stop) :=
  fun _ => rfl

theorem look : Does InPlace.look InPlace.look := fun _ => rfl

theorem advance (n : Nat) : Does (InPlace.advance n) (InPlace.advance n) := fun _ => rfl

theorem edit (e : Edit) : Does (InPlace.edit e) (InPlace.edit e) := fun _ => rfl

theorem bind {walk : Walk α} {action : Action α} {f : α → Walk β} {g : α → Action β}
    (first : Does walk action) (next : ∀ a, Does (f a) (g a)) :
    Does (walk >>= f) (action >>= g) := by
  intro t
  change _ = action t.toBuffers >>= fun result => g result.1 result.2
  rw [← first t]
  cases outcome : walk t with
  | ok a t' =>
    rw [bind_of_ok outcome]
    exact next a t'
  | error stop t' =>
    rw [bind_of_error outcome]
    rfl

theorem ite {c : Prop} [Decidable c] {walk walk' : Walk α} {action action' : Action α}
    (yes : Does walk action) (no : Does walk' action') :
    Does (if c then walk else walk') (if c then action else action') := by
  split
  · exact yes
  · exact no

end Does

end Tape

namespace InPlace

open Tape

variable {σ : Type} {input : List UInt8}

theorem does_patch (start count : Nat) : Does (patch start count) (patch start count) :=
  Does.look.bind fun _ => .ite (.edit _) (.throw _)

theorem does_times {walk : σ → Walk σ} {action : σ → Action σ}
    (once : ∀ s, Does (walk s) (action s)) (n : Nat) (s : σ) :
    Does (times walk n s) (times action n s) := by
  induction n generalizing s with
  | zero => exact .pure s
  | succ n ih => exact (once s).bind ih

theorem does_remaining : Does (remaining input) (remaining input) :=
  Does.look.bind fun _ => .ite (.throw _) (.pure _)

theorem does_slice (start stop : Nat) : Does (slice input start stop) (slice input start stop) :=
  .ite (.pure _) (.throw _)

theorem does_take (n : Nat) : Does (take input n) (take input n) :=
  Does.look.bind fun _ => does_remaining.bind fun _ =>
    .ite (.throw _) ((does_slice _ _).bind fun _ => (Does.advance n).bind fun _ => .pure _)

theorem does_byteOrder : Does (byteOrder input) (byteOrder input) := by
  refine Does.look.bind fun b => (does_take 1).bind fun bytes => ?_
  cases known : order? (bytes.headD 0) with
  | none => simp only [known]; exact .throw _
  | some order => simp only [known]; exact .pure order

theorem does_word (order : ByteOrder) : Does (word input order) (word input order) :=
  (does_take 4).bind fun _ => .pure _

theorem does_double (order : ByteOrder) : Does (double input order) (double input order) :=
  (does_take 8).bind fun _ => .pure _

theorem does_count (order : ByteOrder) (itemBytes : Nat) :
    Does (count input order itemBytes) (count input order itemBytes) :=
  Does.look.bind fun _ => (does_word order).bind fun _ => does_remaining.bind fun _ =>
    .ite (.throw _) (.pure _)

theorem does_coord (order : ByteOrder) : Does (coord input order) (coord input order) :=
  (does_double order).bind fun _ => (does_double order).bind fun _ => .pure _

theorem does_counted {walk : σ → Walk σ} {action : σ → Action σ}
    (once : ∀ s, Does (walk s) (action s)) (itemBytes : Nat) (start : σ)
    (place : Nat → List UInt8) (order : ByteOrder) :
    Does (counted input itemBytes walk start place order)
      (counted input itemBytes action start place order) :=
  (does_count order itemBytes).bind fun n => (Does.edit _).bind fun _ =>
    (does_times once n start).bind fun _ => .pure _

theorem does_copyCoord (order : ByteOrder) (u : Unit) :
    Does (copyCoord input order u) (copyCoord input order u) :=
  (does_coord order).bind fun _ => .edit _

theorem does_copyCoords (order : ByteOrder) :
    Does (copyCoords input order) (copyCoords input order) :=
  does_counted (does_copyCoord order) 16 () _ order

theorem does_copyRing (order : ByteOrder) (u : Unit) :
    Does (copyRing input order u) (copyRing input order u) :=
  (does_copyCoords order).bind fun _ => .pure ()

theorem does_pointMember (kept : Nat) : Does (pointMember input kept) (pointMember input kept) :=
  does_byteOrder.bind fun order => (does_word order).bind fun _ =>
    .ite (.throw _) ((does_coord order).bind fun _ =>
      .ite (.pure _) ((Does.edit _).bind fun _ => .pure _))

theorem does_geometryMember {inner : Walk (Option Kind)} {action : Action (Option Kind)}
    (does : Does inner action) (kind : Kind) (kept : Nat) :
    Does (geometryMember inner kind kept) (geometryMember action kind kept) := by
  refine Does.look.bind fun b => does.bind fun member? => ?_
  cases member? with
  | none => exact .pure kept
  | some member =>
    cases checked : checkMember kind member b.position with
    | error fault => simp only [checked]; exact .throw _
    | ok => simp only [checked]; exact .pure _

theorem does_countedMembers {member : Nat → Walk Nat} {action : Nat → Action Nat}
    (once : ∀ kept, Does (member kept) (action kept)) (itemBytes : Nat) (order : ByteOrder) :
    Does (countedMembers input itemBytes member order)
      (countedMembers input itemBytes action order) :=
  Does.look.bind fun _ => (does_counted once itemBytes 0 _ order).bind fun _ =>
    (does_patch _ _).bind fun _ => .pure _

theorem does_body {inner : Walk (Option Kind)} {action : Action (Option Kind)}
    (does : Does inner action) (kind : Kind) (order : ByteOrder) :
    Does (body input inner kind order) (body input action kind order) := by
  cases kind with
  | point => exact (does_coord order).bind fun _ => (Does.edit _).bind fun _ => .pure _
  | lineString => exact (does_copyCoords order).bind fun _ => .pure _
  | polygon =>
    exact (does_counted (does_copyRing order) 4 () _ order).bind fun _ => .pure _
  | multiPoint => exact does_countedMembers does_pointMember 21 order
  | multiLineString | multiPolygon | collection =>
    exact does_countedMembers (does_geometryMember does _) 9 order

theorem does_geometry (stack depth : Nat) :
    Does (geometry input stack depth) (geometry input stack depth) := by
  induction stack generalizing depth with
  | zero => exact .throw _
  | succ stack ih =>
    refine .ite (.throw _) (Does.look.bind fun start => does_byteOrder.bind fun order =>
      Does.look.bind fun b => (does_word order).bind fun code =>
        (Does.edit _).bind fun _ => (Does.edit _).bind fun _ => ?_)
    cases known : Kind.ofCode? code with
    | none => exact .throw _
    | some kind =>
      exact (does_body (ih (depth + 1)) kind order).bind fun written =>
        .ite (.pure _) ((Does.edit _).bind fun _ => .pure _)

theorem does_normalize (stack : Nat) :
    Does (normalize input stack) (normalize input stack) :=
  (does_geometry stack 0).bind fun _ => Does.look.bind fun _ =>
    .ite (does_remaining.bind fun _ => .throw _) (.pure _)

/-- A position behind the input is told when the first byte is read. -/
theorem geometry_outside {b : Buffers} (outside : input.length < b.position) (stack depth : Nat) :
    ∃ stop, (geometry input stack depth : Action (Option Kind)) b = .error stop := by
  have nothing : (remaining input : Action Nat) b = .error (.breach .subtraction) := by
    change (if input.length < b.position then _ else _ : Action Nat) b = _
    rw [if_pos outside]
    rfl
  cases stack with
  | zero => exact ⟨_, rfl⟩
  | succ stack =>
    by_cases deep : maxDepth < depth
    · rw [geometry, if_pos deep]
      exact ⟨_, rfl⟩
    · refine ⟨.breach .subtraction, ?_⟩
      rw [geometry, if_neg deep]
      change (((remaining input : Action Nat) b >>= _) >>= _) >>= _ = _
      rw [nothing]
      rfl

end InPlace

namespace Tape

/-- A call with so many levels left is a call at a depth, with room on the stack. -/
theorem does_geometry {depth : Nat} (deep : depth ≤ maxDepth + 1) :
    Does (geometry input (maxDepth + 1 - depth))
      (Buffers.geometry input (maxDepth + 2 - depth) depth) := by
  have stack : maxDepth + 1 - depth + 1 = maxDepth + 2 - depth := by omega
  have back : maxDepth + 1 - (maxDepth + 1 - depth) = depth := by omega
  unfold geometry Buffers.geometry
  rw [stack, back]
  exact InPlace.does_geometry _ _

theorem geometry_agrees {levels : Nat} (few : levels ≤ maxDepth + 1) {t : Tape}
    (bounded : t.position ≤ input.length) :
    Agrees input (Behind t.out) (settle (geometry input levels t))
      (walk levels [] ⟨t.position, input.drop t.position⟩) := by
  have depth : maxDepth + 1 - levels + levels = maxDepth + 1 := by omega
  have followed := InPlace.geometry_follows input levels (levels + 1) _ depth
    (Nat.lt_succ_self _) t.out [] _ (Cursor.within_of_position bounded)
  rw [List.append_nil] at followed
  rw [geometry, InPlace.does_geometry]
  exact followed

/-- A call that gives a result has read a tree of the grammar, and has put the normal form
of the tree, if it has one, behind what was in the output. -/
theorem geometry_reads {levels : Nat} (few : levels ≤ maxDepth + 1) {t t' : Tape}
    {kind? : Option Kind} (run : geometry input levels t = .ok kind? t') :
    ∃ tree : Tree, (tree.Acceptable ∧ tree.depth < levels) ∧
      kind? = tree.normal?.map (fun _ => tree.kind) ∧
      t'.out = t.out ++ tree.normal?.getD [] ∧
      t'.position = t.position + tree.encode.length ∧ t'.position ≤ input.length := by
  have bounded : t.position ≤ input.length := by
    by_contra outside
    obtain ⟨stop, stopped⟩ := InPlace.geometry_outside (b := t.toBuffers) (Nat.not_le.mp outside)
      (levels + 1) (maxDepth + 1 - levels)
    rw [← InPlace.does_geometry _ _ t, ← geometry, run] at stopped
    cases stopped
  have followed := geometry_agrees few bounded
  rw [run] at followed
  obtain ⟨⟨position, out⟩, edits⟩ := t'
  generalize walked : walk levels [] ⟨t.position, input.drop t.position⟩ = result at followed
  cases followed with
  | @ok _ _ read c after same =>
    obtain ⟨kind', written⟩ := read
    obtain ⟨rfl, rfl⟩ := same
    obtain ⟨tree, fits, kind, normal, advance⟩ := (walk_readsTrees _ _ _ _ _ _).mp walked
    rw [List.nil_append] at normal
    exact ⟨tree, fits, kind, normal ▸ rfl, advance.position, after.position⟩

/-- The recorded walk gives the normal form. -/
theorem settle_normalize (input : List UInt8) :
    (settle (normalize input blank)).map Prod.fst = (Wkb.normalize input).mapError .fault := by
  rw [← Buffers.normalize_eq (Nat.lt_succ_self (maxDepth + 1)), normalize, InPlace.does_normalize]
  rfl

end Tape

end HexCover.Wkb
