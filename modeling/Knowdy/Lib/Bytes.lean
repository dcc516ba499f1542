import Mathlib.Data.List.Flatten
import Mathlib.Data.Nat.Log
import Mathlib.Tactic.Ring

/-! # Byte strings

Big-endian numbers of a fixed width and the addressing of records inside a byte string.

* `beBytes`, `beNat` — a number as `w` bytes and back; `beNat_beBytes` is the round trip.
* `slice`, `LiesAt` — the bytes at an offset, and a byte string found at an offset.
* `liesAt_append`, `LiesAt.of_flatMap`, `LiesAt.cell` — a concatenation, the blocks of an array and
  the cells of one width are found where their lengths say. -/

namespace Knowdy

/-! ## (1) Big-endian numbers -/

/-- The `w` low-order bytes of `n`, most significant byte first. -/
def beBytes : Nat → Nat → List UInt8
  | 0, _ => []
  | w + 1, n => UInt8.ofNat (n / 256 ^ w) :: beBytes w n

/-- The number denoted by a big-endian byte string. -/
def beNat (bs : List UInt8) : Nat := bs.foldl (fun n b => n * 256 + b.toNat) 0

@[simp] theorem beBytes_zero (n : Nat) : beBytes 0 n = [] := rfl

@[simp] theorem length_beBytes (w n : Nat) : (beBytes w n).length = w := by
  induction w with
  | zero => rfl
  | succ w ih => rw [beBytes, List.length_cons, ih]

/-- An accumulator moves to the front of a big-endian number. -/
theorem foldl_beNat (bs : List UInt8) (n : Nat) :
    bs.foldl (fun n b => n * 256 + b.toNat) n = n * 256 ^ bs.length + beNat bs := by
  induction bs generalizing n with
  | nil => simp [beNat]
  | cons b bs ih =>
      rw [beNat, List.foldl_cons, List.foldl_cons, ih, ih (0 * 256 + b.toNat),
        List.length_cons, pow_succ]
      ring

theorem beNat_cons (b : UInt8) (bs : List UInt8) :
    beNat (b :: bs) = b.toNat * 256 ^ bs.length + beNat bs := by
  rw [beNat, List.foldl_cons, foldl_beNat, Nat.zero_mul, Nat.zero_add]

/-- Reading back the `w` low-order bytes of `n` gives `n` modulo `256 ^ w`. -/
theorem beNat_beBytes_mod (w n : Nat) : beNat (beBytes w n) = n % 256 ^ w := by
  induction w with
  | zero => simp [beNat, Nat.mod_one]
  | succ w ih =>
      have hmod : n % (256 ^ w * 256) = n % 256 ^ w + 256 ^ w * (n / 256 ^ w % 2 ^ 8) :=
        Nat.mod_mul
      rw [beBytes, beNat_cons, length_beBytes, ih, UInt8.toNat_ofNat', pow_succ 256, hmod,
        Nat.mul_comm, Nat.add_comm]

/-- **Round trip of a fixed-width number** that fits into its width. -/
theorem beNat_beBytes {w n : Nat} (h : n < 256 ^ w) : beNat (beBytes w n) = n := by
  rw [beNat_beBytes_mod, Nat.mod_eq_of_lt h]

/-! ## (2) Byte strings at an offset -/

/-- The `n` bytes of `bs` from offset `off` on (fewer at the end of `bs`). -/
def slice (bs : List UInt8) (off n : Nat) : List UInt8 := (bs.drop off).take n

/-- `bs` is found in `file` at offset `off`. -/
def LiesAt (file : List UInt8) (off : Nat) (bs : List UInt8) : Prop := bs <+: file.drop off

variable {file as bs : List UInt8} {off : Nat}

theorem LiesAt.slice_eq (h : LiesAt file off bs) : slice file off bs.length = bs :=
  (List.prefix_iff_eq_take.mp h).symm

theorem LiesAt.getElem? {c : UInt8} (h : LiesAt file off (c :: bs)) : file[off]? = some c := by
  obtain ⟨t, ht⟩ := h
  have h0 : (file.drop off)[0]? = some c := by rw [← ht]; rfl
  rwa [List.getElem?_drop, Nat.add_zero] at h0

theorem LiesAt.length_le (h : LiesAt file off bs) (hne : bs ≠ []) :
    off + bs.length ≤ file.length := by
  have hlen := List.IsPrefix.length_le h
  have hpos := List.length_pos_iff.mpr hne
  rw [List.length_drop] at hlen
  omega

/-- A concatenation lies at an offset when its parts lie one after the other. -/
theorem liesAt_append :
    LiesAt file off (as ++ bs) ↔ LiesAt file off as ∧ LiesAt file (off + as.length) bs := by
  unfold LiesAt
  rw [← List.drop_drop]
  constructor
  · rintro ⟨t, ht⟩
    rw [← ht, List.append_assoc]
    exact ⟨List.prefix_append _ _, by rw [List.drop_left]; exact List.prefix_append _ _⟩
  · rintro ⟨⟨t, ht⟩, h⟩
    rw [← ht, List.drop_left] at h
    rw [← ht]
    exact (List.prefix_append_right_inj as).mpr h

theorem liesAt_cons {c : UInt8} :
    LiesAt file off (c :: bs) ↔ LiesAt file off [c] ∧ LiesAt file (off + 1) bs := by
  rw [← List.singleton_append, liesAt_append, List.length_singleton]

/-- The bytes read through a pointer to `bs`, whatever is appended to the memory. -/
theorem LiesAt.take_drop_append (h : LiesAt file off bs) (t : List UInt8) :
    (file.drop off ++ t).take bs.length = bs := by
  obtain ⟨u, hu⟩ := h
  rw [← hu, List.append_assoc, List.take_left]

theorem liesAt_self (bs : List UInt8) : LiesAt bs 0 bs := List.prefix_rfl

/-- **The blocks of an array.** A block starts behind the blocks before it. -/
theorem LiesAt.of_flatMap {β : Type} {f : β → List UInt8} {pre post : List β} {b : β}
    (h : LiesAt file off ((pre ++ b :: post).flatMap f)) :
    LiesAt file (off + (pre.flatMap f).length) (f b) := by
  rw [List.flatMap_append, List.flatMap_cons, liesAt_append, liesAt_append] at h
  exact h.2.1

theorem length_flatMap_of_const {β : Type} (f : β → List UInt8) (w : Nat)
    (hw : ∀ b, (f b).length = w) (l : List β) : (l.flatMap f).length = l.length * w := by
  induction l with
  | nil => simp
  | cons b bs ih => rw [List.flatMap_cons, List.length_append, ih, hw, List.length_cons]; ring

/-- **Cells of one width.** The `i`-th cell of an array of cells of width `w`. -/
theorem LiesAt.cell {β : Type} {f : β → List UInt8} {w : Nat} (hw : ∀ b, (f b).length = w)
    {l : List β} (h : LiesAt file off (l.flatMap f)) {i : Nat} (hi : i < l.length) :
    LiesAt file (off + i * w) (f l[i]) := by
  have hsplit : l = l.take i ++ l[i] :: l.drop (i + 1) := by
    rw [← List.drop_eq_getElem_cons hi, List.take_append_drop]
  rw [hsplit] at h
  have hcell := h.of_flatMap
  rwa [length_flatMap_of_const f w hw, List.length_take, min_eq_left hi.le] at hcell

end Knowdy
