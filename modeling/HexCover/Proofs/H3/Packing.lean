import HexCover.H3.Cell
import Mathlib.Data.List.Induction

/-! Identifiers of cells. The octal digits of an identifier are the digits of its cell,
and the bits above them hold its resolution and base cell, so that reading an
identifier gives back the cell. Nothing else is read: the identifiers that are
accepted are exactly those of cells. -/
namespace HexCover.H3

theorem octalDigits_foldl {digits : List Nat} (small : ∀ d ∈ digits, d < 8) (n : Nat) :
    octalDigits digits.length (digits.foldl (fun n d => 8 * n + d) n) = digits := by
  induction digits using List.reverseRecOn with
  | nil => rfl
  | append_singleton digits d ih =>
    have last : d < 8 := small d (by simp)
    have before := ih fun e member => small e (by simp [member])
    rw [List.length_append, List.length_singleton, List.foldl_append, octalDigits]
    generalize digits.foldl (fun n d => 8 * n + d) n = m at before ⊢
    have quotient : (8 * m + d) / 8 = m := by omega
    have remainder : (8 * m + d) % 8 = d := by omega
    simp only [List.foldl_cons, List.foldl_nil, quotient, remainder, before]

theorem foldl_div_pow {digits : List Nat} (small : ∀ d ∈ digits, d < 8) (n : Nat) :
    digits.foldl (fun n d => 8 * n + d) n / 8 ^ digits.length = n := by
  induction digits using List.reverseRecOn with
  | nil => simp
  | append_singleton digits d ih =>
    have last : d < 8 := small d (by simp)
    have before := ih fun e member => small e (by simp [member])
    rw [List.length_append, List.length_singleton, List.foldl_append, Nat.pow_succ',
      ← Nat.div_div_eq_div_mul]
    have quotient (m : Nat) : (8 * m + d) / 8 = m := by omega
    simp only [List.foldl_cons, List.foldl_nil, quotient, before]

theorem foldl_eq_add (digits : List Nat) (n : Nat) :
    digits.foldl (fun n d => 8 * n + d) n =
      n * 8 ^ digits.length + digits.foldl (fun n d => 8 * n + d) 0 := by
  induction digits using List.reverseRecOn with
  | nil => simp
  | append_singleton digits d ih =>
    simp only [List.foldl_append, List.foldl_cons, List.foldl_nil, ih, List.length_append,
      List.length_singleton, Nat.pow_succ, Nat.mul_add]
    rw [Nat.mul_left_comm, Nat.mul_comm 8 (8 ^ digits.length), ← Nat.mul_assoc]
    omega

theorem foldl_octalDigits (count n : Nat) :
    (octalDigits count n).foldl (fun n d => 8 * n + d) 0 = n % 8 ^ count := by
  induction count generalizing n with
  | zero => simp [octalDigits, Nat.mod_one]
  | succ count ih =>
    rw [octalDigits, List.foldl_append, ih, Nat.pow_succ', Nat.mod_mul]
    simp only [List.foldl_cons, List.foldl_nil]
    omega

@[simp] theorem length_octalDigits (count n : Nat) : (octalDigits count n).length = count := by
  induction count generalizing n with
  | zero => rfl
  | succ count ih => simp [octalDigits, ih]

namespace Cell

theorem ext {c d : Cell} (base : c.base = d.base) (digits : c.digits = d.digits) : c = d := by
  cases c
  cases d
  simp_all

theorem resolution_le (c : Cell) : c.resolution ≤ 15 := c.isPath.1

theorem length_paddedDigits (c : Cell) : c.paddedDigits.length = 15 := by
  have bound := c.resolution_le
  simp only [paddedDigits, List.length_append, List.length_map, List.length_replicate]
  unfold resolution at *
  omega

theorem paddedDigits_lt (c : Cell) : ∀ d ∈ c.paddedDigits, d < 8 := by
  intro d member
  rcases List.mem_append.mp member with digit | unused
  · obtain ⟨x, _, rfl⟩ := List.mem_map.mp digit
    omega
  · obtain rfl := List.eq_of_mem_replicate unused
    decide

def header (c : Cell) : Nat := 2 ^ 14 + c.resolution * 2 ^ 7 + c.base.val

theorem word_eq_foldl (c : Cell) :
    c.word = c.paddedDigits.foldl (fun n d => 8 * n + d) c.header := by
  rw [foldl_eq_add, c.length_paddedDigits, word, header]
  omega

theorem word_div (c : Cell) : c.word / 2 ^ 45 = c.header := by
  have shifted := foldl_div_pow c.paddedDigits_lt c.header
  rwa [← word_eq_foldl, c.length_paddedDigits] at shifted

theorem toNat_id (c : Cell) : c.id.raw.toNat = c.word := by
  have shifted := c.word_div
  have bound := c.resolution_le
  have base := c.base.isLt
  rw [header] at shifted
  have fits : c.word < 2 ^ 64 := by omega
  exact UInt64.toNat_ofNat_of_lt' fits

theorem ofPath?_eq_some (c : Cell) : ofPath? c.base c.digits = some c := dif_pos c.isPath

theorem digit?_eq_some_iff {n : Nat} {d : Digit} : digit? n = some d ↔ n = d.val := by
  constructor
  · intro h
    unfold digit? at h
    split at h
    · exact congrArg Fin.val (Option.some.inj h)
    · cases h
  · rintro rfl
    exact dif_pos d.isLt

theorem mapM_digit?_eq_some_iff {ns : List Nat} {digits : List Digit} :
    ns.mapM digit? = some digits ↔ ns = digits.map Fin.val := by
  induction ns generalizing digits with
  | nil =>
    rw [List.mapM_nil, eq_comm (b := digits.map Fin.val), List.map_eq_nil_iff]
    exact ⟨fun same => (Option.some.inj same).symm, fun empty => congrArg some empty.symm⟩
  | cons n ns ih =>
    rw [List.mapM_cons, Option.bind_eq_bind, Option.bind_eq_some_iff]
    constructor
    · rintro ⟨d, head, rest⟩
      obtain ⟨ds, tail, last⟩ := Option.bind_eq_some_iff.mp rest
      obtain rfl := Option.some.inj last
      rw [digit?_eq_some_iff.mp head, ih.mp tail, List.map_cons]
    · intro same
      cases digits with
      | nil => cases same
      | cons d ds =>
        obtain ⟨head, tail⟩ := List.cons.inj same
        refine ⟨d, digit?_eq_some_iff.mpr head, ?_⟩
        rw [ih.mpr tail]
        rfl

/-- Reading the identifier of a cell gives the cell. -/
theorem ofId?_id (c : Cell) : ofId? c.id = some c := by
  have bound := c.resolution_le
  have base := c.base.isLt
  have shifted := c.word_div
  rw [header] at shifted
  have mode : c.word / 2 ^ 56 = 8 := by omega
  have resolution : c.word / 2 ^ 52 % 16 = c.resolution := by omega
  have number : c.word / 2 ^ 45 % 128 = c.base.val := by omega
  have digits : octalDigits 15 c.word = c.paddedDigits := by
    rw [word_eq_foldl, ← c.length_paddedDigits]
    exact octalDigits_foldl c.paddedDigits_lt _
  have used : c.paddedDigits.take c.resolution = c.digits.map Fin.val := by
    rw [paddedDigits, List.take_left' (by rw [List.length_map, Cell.resolution])]
  have unused : c.paddedDigits.drop c.resolution = List.replicate (15 - c.resolution) 7 := by
    rw [paddedDigits, List.drop_left' (by rw [List.length_map, Cell.resolution])]
  have sevens : (List.replicate (15 - c.resolution) 7).all (· = 7) = true := by simp
  have read : (c.digits.map Fin.val).mapM digit? = some c.digits := mapM_digit?_eq_some_iff.mpr rfl
  simp only [ofId?, toNat_id, mode, resolution, number, digits, used, unused, sevens, and_self,
    if_true, dif_pos base]
  rw [read]
  exact c.ofPath?_eq_some

theorem paddedDigits_of_octalDigits {c : Cell} {n : Nat}
    (used : (octalDigits 15 n).take c.resolution = c.digits.map Fin.val)
    (unused : ((octalDigits 15 n).drop c.resolution).all (· = 7) = true) :
    c.paddedDigits = octalDigits 15 n := by
  have bound := c.resolution_le
  have rest : (octalDigits 15 n).drop c.resolution = List.replicate (15 - c.resolution) 7 := by
    apply List.eq_replicate_iff.mpr
    refine ⟨by rw [List.length_drop, length_octalDigits], fun d member => ?_⟩
    simpa using List.all_eq_true.mp unused d member
  rw [paddedDigits, ← used, ← rest, List.take_append_drop]

theorem fields_of_ofId? {id : CellId} {c : Cell} (h : ofId? id = some c) :
    id.raw.toNat / 2 ^ 56 = 8 ∧ id.raw.toNat / 2 ^ 52 % 16 = c.resolution ∧
      id.raw.toNat / 2 ^ 45 % 128 = c.base.val ∧ octalDigits 15 id.raw.toNat = c.paddedDigits := by
  simp only [ofId?, Option.ite_none_right_eq_some] at h
  obtain ⟨⟨mode, unused⟩, h⟩ := h
  split at h
  · next base =>
    obtain ⟨digits, read, path⟩ := Option.bind_eq_some_iff.mp h
    have used := mapM_digit?_eq_some_iff.mp read
    unfold ofPath? at path
    split at path
    · next isPath =>
      have length : id.raw.toNat / 2 ^ 52 % 16 = digits.length := by
        have same := congrArg List.length used
        rw [List.length_map, List.length_take, length_octalDigits] at same
        omega
      rw [length] at used unused
      obtain rfl := Option.some.inj path
      have padded := paddedDigits_of_octalDigits (c := ⟨_, digits, isPath⟩) used unused
      exact ⟨mode, length, rfl, padded.symm⟩
    · cases path
  · cases h

/-- Only the identifiers of cells are read. -/
theorem id_of_ofId? {id : CellId} {c : Cell} (h : ofId? id = some c) : c.id = id := by
  obtain ⟨mode, resolution, base, digits⟩ := fields_of_ofId? h
  have value := foldl_octalDigits 15 id.raw.toNat
  have word : c.word = id.raw.toNat := by
    rw [Cell.word, ← digits, value, ← resolution, ← base]
    omega
  obtain ⟨raw⟩ := id
  rw [Cell.id, word, UInt64.ofNat_toNat]

theorem ofId?_eq_some_iff {id : CellId} {c : Cell} : ofId? id = some c ↔ c.id = id :=
  ⟨id_of_ofId?, fun h => h ▸ c.ofId?_id⟩

theorem ofId_eq_ok_iff {id : CellId} {c : Cell} : ofId id = .ok c ↔ c.id = id := by
  rw [← ofId?_eq_some_iff, ofId]
  cases ofId? id <;> simp

theorem ofId_eq_error_iff {id : CellId} {e : ConversionError} :
    ofId id = .error e ↔ e = .invalidCell id.raw ∧ ∀ c : Cell, c.id ≠ id := by
  rw [ofId]
  cases read : ofId? id with
  | some c => exact iff_of_false nofun fun h => h.2 c (id_of_ofId? read)
  | none =>
    have unread : ∀ c : Cell, c.id ≠ id := by
      intro c same
      rw [← same, ofId?_id] at read
      contradiction
    rw [and_iff_left unread, Except.error.injEq, eq_comm]

theorem id_injective {c d : Cell} (h : c.id = d.id) : c = d := by
  have read := c.ofId?_id
  rw [h, ofId?_id] at read
  exact (Option.some.inj read).symm

end Cell

end HexCover.H3
