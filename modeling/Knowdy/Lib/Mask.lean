import Mathlib.Data.List.Nodup

/-! # Bit masks

A set of small numbers kept in the bits of a machine word: marking, unmarking, testing, and the loop that
takes the lowest bit of a mask until the mask is zero.

* `mark`, `unmark`, `test` — one bit of a mask, with what each does to every other bit.
* `lsbit`, `clearLsbit` — the number of the lowest bit, and the mask without it.
* `bits` — the bits in the order of the loop; `mem_bits`, `nodup_bits`. -/

namespace Knowdy

namespace Mask

variable {w : Nat}

/-! ## (1) One bit -/

/-- `mask | (1 << bit)`. -/
def mark (mask : BitVec w) (bit : Nat) : BitVec w := mask ||| BitVec.twoPow w bit

/-- `mask & ~(1 << bit)`. -/
def unmark (mask : BitVec w) (bit : Nat) : BitVec w := mask &&& ~~~BitVec.twoPow w bit

/-- `mask & (1 << bit)`, as a condition. -/
def test (mask : BitVec w) (bit : Nat) : Bool := mask &&& BitVec.twoPow w bit != 0

@[simp] theorem test_eq (mask : BitVec w) (bit : Nat) : test mask bit = mask.getLsbD bit := by
  rw [test, BitVec.and_twoPow]
  by_cases hbit : mask.getLsbD bit = true
  · have hw : bit < w := BitVec.lt_of_getLsbD hbit
    rw [if_pos hbit, hbit, bne_iff_ne]
    intro h
    have := congrArg (fun m : BitVec w => m.getLsbD bit) h
    simp [hw] at this
  · rw [if_neg hbit]
    simp only [Bool.not_eq_true] at hbit
    simp [hbit]

theorem getLsbD_mark {mask : BitVec w} {bit : Nat} (h : bit < w) (j : Nat) :
    (mark mask bit).getLsbD j = true ↔ j = bit ∨ mask.getLsbD j = true := by
  rw [mark, BitVec.getLsbD_or, BitVec.getLsbD_twoPow]
  simp only [h, decide_true, Bool.true_and, Bool.or_eq_true, decide_eq_true_eq]
  rw [or_comm, eq_comm]

theorem getLsbD_unmark {mask : BitVec w} {bit : Nat} (j : Nat) :
    (unmark mask bit).getLsbD j = true ↔ mask.getLsbD j = true ∧ j ≠ bit := by
  rw [unmark, BitVec.getLsbD_and, BitVec.getLsbD_not, BitVec.getLsbD_twoPow, Bool.and_eq_true]
  refine and_congr_right fun hj => ?_
  have hw : j < w := BitVec.lt_of_getLsbD hj
  by_cases hbit : bit = j
  · subst hbit
    simp [hw]
  · simp [hw, hbit, Ne.symm hbit]

/-! ## (2) The lowest bit -/

/-- `__builtin_ctzll(mask & (~mask + 1))`. -/
def lsbit (mask : BitVec w) : Nat := (mask &&& (~~~mask + 1#w)).ctz.toNat

/-- `mask & (mask - 1)`. -/
def clearLsbit (mask : BitVec w) : BitVec w := mask &&& (mask - 1#w)

/-- `mask & -mask` keeps the bit below which there is none. -/
theorem getLsbD_and_neg (mask : BitVec w) (j : Nat) :
    (mask &&& (~~~mask + 1#w)).getLsbD j = true ↔
      mask.getLsbD j = true ∧ ∀ i < j, mask.getLsbD i = false := by
  rw [← BitVec.neg_eq_not_add, BitVec.getLsbD_and, BitVec.getLsbD_neg, Bool.and_eq_true]
  refine and_congr_right fun hj => ?_
  have hw : j < w := BitVec.lt_of_getLsbD hj
  rw [hj]
  simp only [hw, decide_true, Bool.true_and, Bool.true_xor, Bool.not_eq_true', decide_eq_false_iff_not,
    not_exists, not_and, Bool.not_eq_true]

/-- `mask & (mask - 1)` keeps the bits below which there is one. -/
theorem getLsbD_clearLsbit (mask : BitVec w) (j : Nat) :
    (clearLsbit mask).getLsbD j = true ↔
      mask.getLsbD j = true ∧ ∃ i < j, mask.getLsbD i = true := by
  rw [clearLsbit, ← BitVec.not_neg, BitVec.getLsbD_and, BitVec.getLsbD_not, BitVec.getLsbD_neg,
    Bool.and_eq_true]
  refine and_congr_right fun hj => ?_
  have hw : j < w := BitVec.lt_of_getLsbD hj
  rw [hj]
  simp only [hw, decide_true, Bool.true_and, Bool.true_xor, Bool.not_not, decide_eq_true_eq]

/-- **The lowest bit** of a mask that is not zero is set, and none below it is. -/
theorem lsbit_spec {mask : BitVec w} (h : mask ≠ 0) :
    mask.getLsbD (lsbit mask) = true ∧ ∀ i < lsbit mask, mask.getLsbD i = false := by
  have hlow : (mask &&& (~~~mask + 1#w)).getLsbD mask.ctz.toNat = true := by
    rw [getLsbD_and_neg]
    exact ⟨BitVec.getLsbD_true_ctz_of_ne_zero h, fun i hi => BitVec.getLsbD_false_of_lt_ctz hi⟩
  have hne : mask &&& (~~~mask + 1#w) ≠ 0 := by
    intro h0
    rw [h0] at hlow
    simp at hlow
  exact (getLsbD_and_neg mask _).mp (BitVec.getLsbD_true_ctz_of_ne_zero hne)

/-- Without its lowest bit a mask has all its other bits. -/
theorem getLsbD_clearLsbit_iff {mask : BitVec w} (h : mask ≠ 0) (j : Nat) :
    (clearLsbit mask).getLsbD j = true ↔ mask.getLsbD j = true ∧ j ≠ lsbit mask := by
  obtain ⟨hset, hbelow⟩ := lsbit_spec h
  rw [getLsbD_clearLsbit]
  refine and_congr_right fun hj => ⟨?_, fun hne => ⟨lsbit mask, ?_, hset⟩⟩
  · rintro ⟨i, hi, hbit⟩ rfl
    rw [hbelow i hi] at hbit
    cases hbit
  · by_contra hle
    have := hbelow j (by omega)
    rw [hj] at this
    cases this

/-! ## (3) The loop over the bits -/

/-- The bits that `n` rounds of `for (m = mask; m; m = m & (m - 1))` see. -/
def bitsLoop : Nat → BitVec w → List Nat
  | 0, _ => []
  | n + 1, mask => if mask = 0 then [] else lsbit mask :: bitsLoop n (clearLsbit mask)

/-- **The bits of a mask** in the order of the loop: a word of `w` bits needs `w` rounds at most. -/
def bits (mask : BitVec w) : List Nat := bitsLoop w mask

theorem mem_bitsLoop {n : Nat} {mask : BitVec w} (h : ∀ i, mask.getLsbD i = true → w ≤ i + n) (j : Nat) :
    j ∈ bitsLoop n mask ↔ mask.getLsbD j = true := by
  induction n generalizing mask with
  | zero =>
      refine ⟨fun hj => (List.not_mem_nil hj).elim, fun hj => ?_⟩
      have := h j hj
      have := BitVec.lt_of_getLsbD hj
      omega
  | succ n ih =>
      rw [bitsLoop]
      by_cases h0 : mask = 0
      · rw [if_pos h0, h0]
        simp
      · obtain ⟨hset, hbelow⟩ := lsbit_spec h0
        -- every bit that is left lies above the one that was taken
        have habove : ∀ i, (clearLsbit mask).getLsbD i = true → w ≤ i + n := by
          intro i hi
          obtain ⟨-, k, hk, hbit⟩ := (getLsbD_clearLsbit mask i).mp hi
          have := h k hbit
          omega
        rw [if_neg h0, List.mem_cons, ih habove, getLsbD_clearLsbit_iff h0]
        constructor
        · rintro (rfl | ⟨hj, -⟩)
          · exact hset
          · exact hj
        · intro hj
          by_cases hlow : j = lsbit mask
          · exact .inl hlow
          · exact .inr ⟨hj, hlow⟩

/-- **The loop sees exactly the bits that are set.** -/
@[simp] theorem mem_bits {mask : BitVec w} {j : Nat} : j ∈ bits mask ↔ mask.getLsbD j = true :=
  mem_bitsLoop (fun _ _ => by omega) j

/-- No bit is seen twice. -/
theorem nodup_bitsLoop (n : Nat) (mask : BitVec w) :
    (bitsLoop n mask).Nodup ∧ ∀ j ∈ bitsLoop n mask, mask.getLsbD j = true := by
  induction n generalizing mask with
  | zero => exact ⟨List.nodup_nil, fun j hj => (List.not_mem_nil hj).elim⟩
  | succ n ih =>
      rw [bitsLoop]
      split
      · exact ⟨List.nodup_nil, fun j hj => (List.not_mem_nil hj).elim⟩
      · rename_i h0
        obtain ⟨hnodup, hset⟩ := ih (clearLsbit mask)
        refine ⟨List.nodup_cons.mpr ⟨fun hmem => ?_, hnodup⟩, fun j hj => ?_⟩
        · exact ((getLsbD_clearLsbit_iff h0 _).mp (hset _ hmem)).2 rfl
        · rcases List.mem_cons.mp hj with rfl | hj
          · exact (lsbit_spec h0).1
          · exact ((getLsbD_clearLsbit_iff h0 j).mp (hset j hj)).1

theorem nodup_bits (mask : BitVec w) : (bits mask).Nodup := (nodup_bitsLoop w mask).1

end Mask

end Knowdy
