import HexCover.Proofs.Wkb.Shape
import HexCover.Proofs.Wkb.Tape

/-! What a call leaves alone. A call appends to the output, fills in counts and cuts the
output back, and while it does so its callers hold on to places in the same output. Each
of its edits stands at or behind the end that the output had when the call began: from
one moment of a walk to a later one this is kept by every action, and the calls and the
loops put such stretches one behind the other. It holds as well for a call that stops. -/
namespace HexCover.Wkb

/-- An edit touches nothing before a place, and nothing that is not in the output. -/
def Edit.Stands (start : Nat) (out : List UInt8) : Edit → Prop
  | append _ => start ≤ out.length
  | patch place _ => start ≤ place ∧ place + 4 ≤ out.length
  | truncate length => start ≤ length ∧ length ≤ out.length

namespace Edit.Stands

variable {start start' : Nat} {out : List UInt8} {e : Edit}

theorem mono (h : e.Stands start out) (before : start' ≤ start) : e.Stands start' out := by
  cases e with
  | append bytes => exact Nat.le_trans before h
  | patch place count => exact ⟨Nat.le_trans before h.1, h.2⟩
  | truncate length => exact ⟨Nat.le_trans before h.1, h.2⟩

theorem room (h : e.Stands start out) : start ≤ (e.apply out).length := by
  cases e <;> simp only [Edit.Stands] at h <;>
    simp only [Edit.apply, List.length_append, List.length_take, List.length_drop,
      Bytes.length_ofNat] <;> omega

theorem take_apply (h : e.Stands start out) : (e.apply out).take start = out.take start := by
  cases e with
  | append bytes => exact List.take_append_of_le_length h
  | patch place count =>
    obtain ⟨before, inside⟩ := h
    have within : start ≤ (out.take place).length := by
      rw [List.length_take]
      omega
    rw [Edit.apply, List.append_assoc, List.take_append_of_le_length within, List.take_take,
      Nat.min_eq_left before]
  | truncate length => rw [Edit.apply, List.take_take, Nat.min_eq_left h.1]

end Edit.Stands

/-- Edits in a row that take one output to another, each of which, on the output as it is
then, touches nothing before a place. -/
inductive Edited (start : Nat) : List UInt8 → List Edit → List UInt8 → Prop
  | done {out : List UInt8} (room : start ≤ out.length) : Edited start out [] out
  | step {out out' : List UInt8} {e : Edit} {es : List Edit} (stands : e.Stands start out)
      (rest : Edited start (e.apply out) es out') : Edited start out (e :: es) out'

namespace Edited

variable {start start' : Nat} {out middle out' : List UInt8} {es es' : List Edit}

theorem mono (h : Edited start out es out') (before : start' ≤ start) :
    Edited start' out es out' := by
  induction h with
  | done room => exact .done (Nat.le_trans before room)
  | step stands _ ih => exact .step (stands.mono before) ih

theorem trans (first : Edited start out es middle) (second : Edited start middle es' out') :
    Edited start out (es ++ es') out' := by
  induction first with
  | done => exact second
  | step stands _ ih => exact .step stands (ih second)

theorem room (h : Edited start out es out') : start ≤ out'.length := by
  induction h with
  | done room => exact room
  | step _ _ ih => exact ih

theorem take_eq (h : Edited start out es out') : out'.take start = out.take start := by
  induction h with
  | done => rfl
  | step stands _ ih => rw [ih, stands.take_apply]

/-- What the output held when the edits began is there when they are made. -/
theorem isPrefix (h : Edited out.length out es out') : out <+: out' := by
  have kept := h.take_eq
  rw [List.take_length] at kept
  exact kept ▸ List.take_prefix out.length out'

end Edited

namespace Tape

variable {α β : Type}

/-- The tape that a walk leaves. -/
def left : EStateM.Result Stop Tape α → Tape
  | .ok _ t | .error _ t => t

theorem eq_ok_iff {result : EStateM.Result Stop Tape α} {a : α} {t : Tape} :
    result = .ok a t ↔ settle result = .ok (a, t.toBuffers) ∧ left result = t := by
  constructor
  · rintro rfl
    exact ⟨rfl, rfl⟩
  · rintro ⟨outcome, rfl⟩
    cases result with
    | ok a' t' =>
      cases outcome
      rfl
    | error stop t' => cases outcome

/-- From one moment of a walk to another, the walk has not gone back in the input or past
its end, and its edits have touched nothing before a place in the output. -/
structure Since (input : List UInt8) (start : Nat) (t t' : Tape) : Prop where
  forward : t.position ≤ t'.position
  inside : t.position ≤ input.length → t'.position ≤ input.length
  edits : ∃ made, t'.edits = t.edits ++ made ∧ Edited start t.out made t'.out

namespace Since

variable {input : List UInt8} {start start' : Nat} {t t' t'' : Tape}

theorem refl (room : start ≤ t.out.length) : Since input start t t where
  forward := Nat.le_refl _
  inside := id
  edits := ⟨[], (List.append_nil _).symm, .done room⟩

theorem trans (first : Since input start t t') (second : Since input start t' t'') :
    Since input start t t'' where
  forward := Nat.le_trans first.forward second.forward
  inside := second.inside ∘ first.inside
  edits := by
    obtain ⟨made, log, edited⟩ := first.edits
    obtain ⟨made', log', edited'⟩ := second.edits
    exact ⟨made ++ made', by rw [log', log, List.append_assoc], edited.trans edited'⟩

theorem mono (h : Since input start t t') (before : start' ≤ start) :
    Since input start' t t' where
  forward := h.forward
  inside := h.inside
  edits := by
    obtain ⟨made, log, edited⟩ := h.edits
    exact ⟨made, log, edited.mono before⟩

theorem room (h : Since input start t t') : start ≤ t'.out.length := by
  obtain ⟨made, _, edited⟩ := h.edits
  exact edited.room

theorem isPrefix (h : Since input t.out.length t t') : t.out <+: t'.out := by
  obtain ⟨made, _, edited⟩ := h.edits
  exact edited.isPrefix

theorem edited {e : Edit} (stands : e.Stands start t.out) : Since input start t (t.edited e) where
  forward := Nat.le_refl _
  inside := id
  edits := ⟨[e], rfl, .step stands (.done stands.room)⟩

end Since

/-- Wherever in the output it begins, a walk touches nothing before a place. -/
def Frames (input : List UInt8) (start : Nat) (walk : Walk α) : Prop :=
  ∀ t, start ≤ t.out.length → Since input start t (left (walk t))

section Primitives

variable {input : List UInt8} {start : Nat}

namespace Frames

theorem pure (a : α) : Frames input start (Pure.pure a) := fun _ => .refl

theorem throw (stop : Stop) : Frames input start (MonadExcept.throw stop : Walk α) := fun _ => .refl

theorem bind {walk : Walk α} {f : α → Walk β} (first : Frames input start walk)
    (next : ∀ a, Frames input start (f a)) : Frames input start (walk >>= f) := by
  intro t room
  have reached := first t room
  cases outcome : walk t with
  | ok a t' =>
    rw [outcome] at reached
    rw [bind_of_ok outcome]
    exact reached.trans (next a t' reached.room)
  | error stop t' =>
    rw [outcome] at reached
    rw [bind_of_error outcome]
    exact reached

/-- A walk that looks at its buffers knows that the place is in the output. -/
theorem look_bind {f : Buffers → Walk β}
    (next : ∀ b : Buffers, start ≤ b.out.length → Frames input start (f b)) :
    Frames input start (InPlace.look >>= f) :=
  fun t room => next t.toBuffers room t room

theorem append (bytes : List UInt8) :
    Frames input start (InPlace.edit (.append bytes) : Walk Unit) :=
  fun _ room => .edited room

theorem truncate : Frames input start (InPlace.edit (.truncate start) : Walk Unit) :=
  fun _ room => .edited ⟨Nat.le_refl _, room⟩

theorem ite {c : Prop} [Decidable c] {walk walk' : Walk α} (yes : Frames input start walk)
    (no : Frames input start walk') : Frames input start (if c then walk else walk') := by
  split
  · exact yes
  · exact no

end Frames

end Primitives

end Tape

namespace InPlace

open Tape

variable {σ : Type} {input : List UInt8} {start : Nat}

theorem frames_patch {place : Nat} (before : start ≤ place) (count : Nat) :
    Frames input start (patch place count) := by
  intro t room
  change Since input start t (left ((if place + 4 ≤ t.out.length then edit (.patch place count)
    else throw (.breach .patch) : Walk Unit) t))
  by_cases inside : place + 4 ≤ t.out.length
  · rw [if_pos inside]
    exact .edited ⟨before, inside⟩
  · rw [if_neg inside]
    exact .refl room

theorem frames_times {walk : σ → Walk σ} (once : ∀ s, Frames input start (walk s)) (n : Nat)
    (s : σ) : Frames input start (times walk n s) := by
  induction n generalizing s with
  | zero => exact .pure s
  | succ n ih => exact (once s).bind ih

theorem frames_remaining : Frames input start (remaining input) :=
  .look_bind fun _ _ => .ite (.throw _) (.pure _)

/-- A read moves the position by what it has read, and by no more than is there. -/
theorem frames_take (n : Nat) : Frames input start (take input n) := by
  intro t room
  by_cases outside : input.length < t.position
  · have nothing : (remaining input : Walk Nat) t = .error (.breach .subtraction) t := by
      change (if input.length < t.position then _ else _ : Walk Nat) t = _
      rw [if_pos outside]
      rfl
    change Since input start t (left ((remaining input >>= _ : Walk (List UInt8)) t))
    rw [bind_of_error nothing]
    exact .refl room
  · have known : (remaining input : Walk Nat) t = .ok (input.length - t.position) t := by
      change (if input.length < t.position then _ else _ : Walk Nat) t = _
      rw [if_neg outside]
      rfl
    change Since input start t (left ((remaining input >>= _ : Walk (List UInt8)) t))
    rw [bind_of_ok known]
    by_cases short : input.length - t.position < n
    · rw [if_pos short]
      exact .refl room
    · have inside : t.position + n ≤ input.length := by omega
      rw [if_neg short, slice, if_pos ⟨Nat.le_add_right _ _, inside⟩]
      exact ⟨Nat.le_add_right _ _, fun _ => inside, [], (List.append_nil _).symm, .done room⟩

theorem frames_byteOrder : Frames input start (byteOrder input) := by
  refine .look_bind fun b _ => (frames_take 1).bind fun bytes => ?_
  cases known : order? (bytes.headD 0) with
  | none => simp only [known]; exact .throw _
  | some order => simp only [known]; exact .pure order

theorem frames_word (order : ByteOrder) : Frames input start (word input order) :=
  (frames_take 4).bind fun _ => .pure _

theorem frames_double (order : ByteOrder) : Frames input start (double input order) :=
  (frames_take 8).bind fun _ => .pure _

theorem frames_count (order : ByteOrder) (itemBytes : Nat) :
    Frames input start (count input order itemBytes) :=
  .look_bind fun _ _ => (frames_word order).bind fun _ => frames_remaining.bind fun _ =>
    .ite (.throw _) (.pure _)

theorem frames_coord (order : ByteOrder) : Frames input start (coord input order) :=
  (frames_double order).bind fun _ => (frames_double order).bind fun _ => .pure _

theorem frames_counted {walk : σ → Walk σ} (once : ∀ s, Frames input start (walk s))
    (itemBytes : Nat) (s : σ) (place : Nat → List UInt8) (order : ByteOrder) :
    Frames input start (counted input itemBytes walk s place order) :=
  (frames_count order itemBytes).bind fun n => (Frames.append (place n)).bind fun _ =>
    (frames_times once n s).bind fun _ => .pure _

theorem frames_copyCoord (order : ByteOrder) (u : Unit) :
    Frames input start (copyCoord input order u) :=
  (frames_coord order).bind fun _ => .append _

theorem frames_copyCoords (order : ByteOrder) : Frames input start (copyCoords input order) :=
  frames_counted (frames_copyCoord order) 16 () _ order

theorem frames_copyRing (order : ByteOrder) (u : Unit) :
    Frames input start (copyRing input order u) :=
  (frames_copyCoords order).bind fun _ => .pure ()

theorem frames_pointMember (kept : Nat) : Frames input start (pointMember input kept) :=
  frames_byteOrder.bind fun order => (frames_word order).bind fun _ =>
    .ite (.throw _) ((frames_coord order).bind fun _ =>
      .ite (.pure _) ((Frames.append _).bind fun _ => .pure _))

theorem frames_geometryMember {inner : Walk (Option Kind)} (frames : Frames input start inner)
    (kind : Kind) (kept : Nat) : Frames input start (geometryMember inner kind kept) := by
  refine .look_bind fun b _ => frames.bind fun member? => ?_
  cases member? with
  | none => exact .pure kept
  | some member =>
    cases checked : checkMember kind member b.position with
    | error fault => simp only [checked]; exact .throw _
    | ok => simp only [checked]; exact .pure _

/-- The place of a count that is filled in later is where the output ended before it. -/
theorem frames_countedMembers {member : Nat → Walk Nat}
    (once : ∀ kept, Frames input start (member kept)) (itemBytes : Nat) (order : ByteOrder) :
    Frames input start (countedMembers input itemBytes member order) :=
  .look_bind fun _ room => (frames_counted once itemBytes 0 _ order).bind fun _ =>
    (frames_patch room _).bind fun _ => .pure _

theorem frames_body {inner : Walk (Option Kind)} (frames : Frames input start inner) (kind : Kind)
    (order : ByteOrder) : Frames input start (body input inner kind order) := by
  cases kind with
  | point => exact (frames_coord order).bind fun _ => (Frames.append _).bind fun _ => .pure _
  | lineString => exact (frames_copyCoords order).bind fun _ => .pure _
  | polygon =>
    exact (frames_counted (frames_copyRing order) 4 () _ order).bind fun _ => .pure _
  | multiPoint => exact frames_countedMembers frames_pointMember 21 order
  | multiLineString | multiPolygon | collection =>
    exact frames_countedMembers (frames_geometryMember frames _) 9 order

/-- A call for a geometry touches nothing that was in the output before. It cuts the
output back, if it does, to where the output ended when the call began. -/
theorem frames_geometry (stack depth : Nat) :
    Frames input start (geometry input stack depth) := by
  induction stack generalizing start depth with
  | zero => exact .throw _
  | succ stack ih =>
    refine .ite (.throw _) fun t room => ?_
    -- inside the call the place is the end that the output has now, since the call cuts the
    -- output back to it; for the caller's place it is far enough behind
    refine Since.mono ?_ room
    refine Frames.bind frames_byteOrder (fun order => ?_) t (Nat.le_refl _)
    refine .look_bind fun b _ => (frames_word order).bind fun code => ?_
    refine (Frames.append _).bind fun _ => (Frames.append _).bind fun _ => ?_
    cases known : Kind.ofCode? code with
    | none => exact .throw _
    | some kind =>
      exact (frames_body (ih (depth + 1)) kind order).bind fun written =>
        .ite (.pure _) (Frames.truncate.bind fun _ => .pure _)

end InPlace

namespace Tape

/-- What a call for a geometry with so many levels left has done, by its outcome. -/
structure Framed (input : List UInt8) (levels : Nat) (t : Tape)
    (result : EStateM.Result Stop Tape (Option Kind)) : Prop where
  since : Since input t.out.length t (left result)
  kept : t.out <+: (left result).out
  empty : ∀ t', result = .ok none t' → t'.out = t.out
  written : ∀ kind t', result = .ok (some kind) t' → ∃ bytes, t'.out = t.out ++ bytes ∧
    header .little kind <+: bytes ∧ IsGeometry levels kind bytes ∧
    t.position + bytes.length ≤ t'.position
  read : ∀ kind? t', result = .ok kind? t' →
    t.position + 9 ≤ t'.position ∧ t'.position ≤ input.length

theorem framed_geometry (input : List UInt8) {levels : Nat} (few : levels ≤ maxDepth + 1)
    (t : Tape) : Framed input levels t (geometry input levels t) where
  since := InPlace.frames_geometry _ _ t (Nat.le_refl _)
  kept := (InPlace.frames_geometry _ _ t (Nat.le_refl _)).isPrefix
  empty := by
    intro t' run
    obtain ⟨tree, _, kind, out, _⟩ := geometry_reads few run
    have nothing : tree.normal? = none := Option.map_eq_none_iff.mp kind.symm
    rw [out, nothing]
    exact List.append_nil _
  written := by
    intro kind t' run
    obtain ⟨tree, ⟨acceptable, shallow⟩, kind_eq, out, position, _⟩ := geometry_reads few run
    obtain ⟨bytes, normal, rfl⟩ := Option.map_eq_some_iff.mp kind_eq.symm
    have short := Tree.length_normal_le acceptable
    rw [normal] at out short
    have geometry := Tree.isGeometry_normal acceptable shallow bytes normal
    refine ⟨bytes, out, geometry.header_isPrefix, geometry, ?_⟩
    rw [position]
    exact Nat.add_le_add_left short _
  read := by
    intro kind? t' run
    obtain ⟨tree, _, _, _, position, inside⟩ := geometry_reads few run
    refine ⟨?_, inside⟩
    rw [position]
    exact Nat.add_le_add_left tree.nine_le_length_encode _

/-- A call for a geometry leaves alone what was in the output before. All its edits stand
behind that, whatever the outcome. If it gives a type, it has appended a geometry of this
type, whose counts are right and which is not longer than what was read; if it gives none,
the output is as before. So a normal form is not longer than its input. -/
theorem geometry_appends (input : List UInt8) :
    (∀ (depth : Nat) (t : Tape),
      Framed input (maxDepth + 1 - depth) t (geometry input (maxDepth + 1 - depth) t)) ∧
    (∀ depth ≤ maxDepth + 1, Does (geometry input (maxDepth + 1 - depth))
      (Buffers.geometry input (maxDepth + 2 - depth) depth)) ∧
    (settle (normalize input blank)).map Prod.fst = (Wkb.normalize input).mapError .fault ∧
    ∀ normal, Wkb.normalize input = .ok (some normal) → normal.length ≤ input.length := by
  refine ⟨fun depth t => framed_geometry input (Nat.sub_le _ _) t,
    fun depth deep => does_geometry deep, settle_normalize input, fun normal normalized => ?_⟩
  obtain ⟨tree, ⟨acceptable, _⟩, rfl, found⟩ := normalize_eq_ok_iff.mp normalized
  have short := Tree.length_normal_le acceptable
  rwa [found] at short

/-- A big-endian collection of a line without coordinates and a point. -/
def lineAndPoint : List UInt8 :=
  [0, 0, 0, 0, 7, 0, 0, 0, 2, 1, 2, 0, 0, 0, 0, 0, 0, 0] ++
    [1, 1, 0, 0, 0] ++ coordBytes .little ⟨.ofNat 0, .ofNat 0⟩

/-- What is left of the collection behind a byte of another writer. The header of the line
is cut off again, and the count of the members is filled in behind their header. -/
def pointTape : Tape where
  position := 39
  out := [9, 1, 7, 0, 0, 0, 1, 0, 0, 0, 1, 1, 0, 0, 0] ++ coordBytes .little ⟨.ofNat 0, .ofNat 0⟩
  edits := [.append [1], .append [7, 0, 0, 0], .append [0, 0, 0, 0],
    .append [1], .append [2, 0, 0, 0], .append [0, 0, 0, 0], .truncate 10,
    .append [1], .append [1, 0, 0, 0], .append (coordBytes .little ⟨.ofNat 0, .ofNat 0⟩),
    .patch 6 1]

theorem geometry_appends_point :
    geometry lineAndPoint (maxDepth + 1) ⟨⟨0, [9]⟩, []⟩ = .ok (some .collection) pointTape ∧
      (∃ bytes, pointTape.out = [9] ++ bytes ∧
        IsGeometry (maxDepth + 1) .collection bytes ∧ 0 + bytes.length ≤ 39) ∧
      (∃ t, geometry lineAndPoint maxDepth ⟨⟨9, [9]⟩, []⟩ = .ok none t ∧ t.out = [9] ∧
        9 + 9 ≤ t.position) ∧
      settle (geometry lineAndPoint maxDepth ⟨⟨9, [9]⟩, []⟩) =
        Buffers.geometry lineAndPoint (maxDepth + 1) 1 ⟨9, [9]⟩ ∧
      Wkb.normalize lineAndPoint = .ok (some (pointTape.out.drop 1)) ∧
      (pointTape.out.drop 1).length ≤ lineAndPoint.length := by
  have collection :
      geometry lineAndPoint (maxDepth + 1) ⟨⟨0, [9]⟩, []⟩ = .ok (some .collection) pointTape := by
    rw [eq_ok_iff]
    decide +kernel
  have line : geometry lineAndPoint maxDepth ⟨⟨9, [9]⟩, []⟩ = .ok none ⟨⟨18, [9]⟩,
      [.append [1], .append [2, 0, 0, 0], .append [0, 0, 0, 0], .truncate 1]⟩ := by
    rw [eq_ok_iff]
    decide +kernel
  have normalized : Wkb.normalize lineAndPoint = .ok (some (pointTape.out.drop 1)) := by
    decide +kernel
  obtain ⟨framed, recorded, _, short⟩ := geometry_appends lineAndPoint
  obtain ⟨bytes, out, _, geometry, length⟩ := (framed 0 _).written _ _ collection
  exact ⟨collection, ⟨bytes, out, geometry, length⟩,
    ⟨_, line, (framed 1 _).empty _ line, ((framed 1 _).read _ _ line).1⟩,
    recorded 1 (by decide) _, normalized, short _ normalized⟩

end Tape

end HexCover.Wkb
