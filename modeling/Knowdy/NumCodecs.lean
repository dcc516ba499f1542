import Knowdy.Utils
import Mathlib.Data.Nat.Bitwise
import Mathlib.Tactic.IntervalCases

/-! # Numeric ids and integer cells

Two codecs of `knd_utils.c` at the limits of their types: ids of base-62 digits, which `knd_num_to_str` writes
through a signed division and `knd_calc_num_id` reads with a multiplication that wraps around, and the cells of one
to four bytes that hold the sizes in a snapshot.

* `SizeT.kndNumToStr`, `SizeT.kndCalcNumId` — the codec of ids over 64 bits; `SizeT.kndNumToStr_eq` — below `2 ^ 63`
  it writes what the arithmetic of natural numbers gives.
* `RoundTrips`, `roundTrips_iff` — **numbers have ids that fit their buffers exactly below `62 ^ 8`**.
* `unpackU32`, `kndUnpackU32_eq` — a cell of four bytes is read through a signed shift.
* `CellsDenote`, `cellsDenote_iff` — **cells denote what was written exactly below `2 ^ 31`**. -/

namespace Knowdy

/-! ## (1) Ids over 64 bits -/

namespace SizeT

/-- A `size_t` that is passed as a `long`. -/
def toLong (n : UInt64) : Int := n.toBitVec.toInt

/-- A `long` that is stored in a `size_t`. -/
def ofLong (n : Int) : UInt64 := ⟨BitVec.ofInt 64 n⟩

/-- `obj_id_seq[i]`; the string ends in a zero byte, and any other index is out of bounds. -/
def objIdSeqAt (i : Int) : Option UInt8 :=
  if 0 ≤ i ∧ i < 62 then some (objIdSeq i.toNat) else if i = 62 then some 0 else none

/-- The digit loop of `knd_num_to_str`; the fuel bounds the number of rounds. -/
def numToStrLoop (base : UInt64) : Nat → UInt64 → Option (List UInt8)
  | 0, _ => none
  | fuel + 1, currVal =>
      if currVal = 0 then some []
      else do
        -- `ldiv`
        let c ← objIdSeqAt ((toLong currVal).tmod (toLong base))
        let rest ← numToStrLoop base fuel (ofLong ((toLong currVal).tdiv (toLong base)))
        return c :: rest

/-- `knd_num_to_str`: the characters that it writes to `buf`. A number of 64 bits has at most 64 digits. -/
def kndNumToStr (numval base : UInt64) : Option (List UInt8) :=
  if numval = 0 then some [objIdSeq 0] else numToStrLoop base 65 numval

/-- The loop of `knd_calc_num_id`. -/
def calcNumIdLoop : List UInt8 → UInt64 → UInt64 → Option UInt64
  | [], aggr, _ => some aggr
  | c :: id, aggr, base =>
      match objIdBase c with
      | none => none
      | some num => calcNumIdLoop id (aggr + .ofNat num.val * base) (base * 62)

/-- `knd_calc_num_id`: `none` leaves the caller's variable untouched. -/
def kndCalcNumId (id : List UInt8) : Option UInt64 := calcNumIdLoop id 0 1

theorem toLong_of_lt {n : UInt64} (h : n.toNat < 2 ^ 63) : toLong n = n.toNat := by
  rw [toLong, BitVec.toInt_eq_toNat_of_lt]
  · rfl
  · show 2 * n.toNat < 2 ^ 64
    omega

theorem toLong_of_le {n : UInt64} (h : 2 ^ 63 ≤ n.toNat) : toLong n = n.toNat - 2 ^ 64 := by
  rw [toLong, BitVec.toInt_eq_toNat_cond, if_neg]
  · rfl
  · show ¬2 * n.toNat < 2 ^ 64
    omega

theorem toLong_ofLong {n : Int} (h : -2 ^ 63 ≤ n) (h' : n < 2 ^ 63) : toLong (ofLong n) = n := by
  rw [toLong, ofLong, BitVec.toInt_ofInt]
  exact Int.bmod_eq_of_le (by omega) (by omega)

theorem ofLong_natCast {n : Nat} (h : n < 2 ^ 64) : (ofLong (n : Int)).toNat = n := by
  show (BitVec.ofInt 64 (n : Int)).toNat = n
  rw [BitVec.ofInt_natCast, BitVec.toNat_ofNat]
  exact Nat.mod_eq_of_lt h

theorem objIdSeqAt_natCast {n : Nat} (h : n < 62) : objIdSeqAt (n : Int) = some (objIdSeq n) := by
  rw [objIdSeqAt, if_pos (by omega), Int.toNat_natCast]

theorem objIdSeqAt_of_neg {i : Int} (h : i < 0) : objIdSeqAt i = none := by
  rw [objIdSeqAt, if_neg (by omega), if_neg (by omega)]

/-- **Below `2 ^ 63` the loop writes the digits of the number.** -/
theorem numToStrLoop_eq {fuel : Nat} {n : UInt64} (hn : n.toNat < 2 ^ 63) (hfuel : n.toNat < 62 ^ fuel) :
    numToStrLoop 62 (fuel + 1) n = some ((Nat.digits 62 n.toNat).map objIdSeq) := by
  induction fuel generalizing n with
  | zero =>
      obtain rfl : n = 0 := UInt64.toNat_inj.mp (by simpa using hfuel)
      rfl
  | succ fuel ih =>
      rw [numToStrLoop]
      by_cases hzero : n = 0
      · subst hzero
        rfl
      have hpos : 0 < n.toNat := by
        refine Nat.pos_of_ne_zero fun h => hzero ?_
        exact UInt64.toNat_inj.mp h
      have hbase : toLong 62 = (62 : Nat) := rfl
      have hquot : (ofLong ((n.toNat / 62 : Nat) : Int)).toNat = n.toNat / 62 := ofLong_natCast (by omega)
      have hrest := ih (n := ofLong ((n.toNat / 62 : Nat) : Int)) (by omega) (by
        rw [hquot, Nat.div_lt_iff_lt_mul (by decide)]
        exact hfuel)
      rw [if_neg hzero, toLong_of_lt hn, hbase, ← Int.ofNat_tmod, ← Int.ofNat_tdiv,
        objIdSeqAt_natCast (Nat.mod_lt _ (by decide)), hrest, hquot, Nat.digits_def' (by decide) hpos]
      rfl

/-- **From `2 ^ 63` on the number is negative as a `long`**, and some digit is read in front of the table. -/
theorem numToStrLoop_of_neg {fuel : Nat} {n : UInt64} (hn : 2 ^ 63 ≤ n.toNat) : numToStrLoop 62 fuel n = none := by
  induction fuel generalizing n with
  | zero => rfl
  | succ fuel ih =>
      have hlt := n.toNat_lt
      have hzero : n ≠ 0 := by
        rintro rfl
        exact absurd hn (by decide)
      have hbase : toLong 62 = 62 := rfl
      rw [numToStrLoop, if_neg hzero, toLong_of_le hn, hbase]
      -- the number is `-m`, its quotient and its remainder are those of `m`, negated
      obtain ⟨m, hm⟩ : ∃ m : Nat, (n.toNat : Int) - 2 ^ 64 = -(m : Int) := ⟨2 ^ 64 - n.toNat, by omega⟩
      have hpos : 0 < m ∧ m ≤ 2 ^ 63 := by omega
      rw [hm, Int.neg_tmod, Int.neg_tdiv, show ((62 : Int)) = ((62 : Nat) : Int) from rfl, ← Int.ofNat_tmod,
        ← Int.ofNat_tdiv]
      by_cases hrem : m % 62 = 0
      · have hquot : 0 < m / 62 := by omega
        have hneg : 2 ^ 63 ≤ (ofLong (-((m / 62 : Nat) : Int))).toNat := by
          by_contra hsmall
          have hlong := toLong_of_lt (Nat.lt_of_not_le hsmall)
          rw [toLong_ofLong (by omega) (by omega)] at hlong
          omega
        rw [ih hneg]
        cases objIdSeqAt (-((m % 62 : Nat) : Int)) <;> rfl
      · rw [objIdSeqAt_of_neg (by omega)]
        rfl

/-- **The arithmetic of natural numbers gives what `knd_num_to_str` writes** for a positive `long`. -/
theorem kndNumToStr_eq {n : UInt64} (hn : n.toNat < 2 ^ 63) :
    kndNumToStr n 62 = some (Knowdy.kndNumToStr n.toNat 62) := by
  rw [kndNumToStr, Knowdy.kndNumToStr]
  by_cases hzero : n = 0
  · subst hzero
    rfl
  · have hne : n.toNat ≠ 0 := fun h => hzero (UInt64.toNat_inj.mp h)
    have hfuel : n.toNat < 62 ^ 64 := Nat.lt_trans hn (by decide)
    rw [if_neg hzero, if_neg hne, numToStrLoop_eq hn hfuel, Knowdy.numToStrLoop_eq (by decide) _ _ le_rfl]

theorem kndNumToStr_of_le {n : UInt64} (hn : 2 ^ 63 ≤ n.toNat) : kndNumToStr n 62 = none := by
  have hzero : n ≠ 0 := by
    rintro rfl
    exact absurd hn (by decide)
  rw [kndNumToStr, if_neg hzero, numToStrLoop_of_neg hn]

/-- The characters of digits are added up, modulo `2 ^ 64`. -/
theorem calcNumIdLoop_eq {ds : List Nat} (hds : ∀ d ∈ ds, d < 62) (aggr base : UInt64) :
    calcNumIdLoop (ds.map objIdSeq) aggr base = some (aggr + base * .ofNat (Nat.ofDigits 62 ds)) := by
  induction ds generalizing aggr base with
  | nil =>
      rw [List.map_nil, calcNumIdLoop, Nat.ofDigits_nil]
      exact congrArg some (by simp)
  | cons d ds ih =>
      have hd : objIdBase (objIdSeq d) = some ⟨d, hds d (List.mem_cons_self ..)⟩ := objIdBase_objIdSeq ⟨d, _⟩
      rw [List.map_cons, calcNumIdLoop, hd]
      refine (ih (fun x hx => hds x (List.mem_cons_of_mem d hx)) _ _).trans (congrArg some ?_)
      rw [Nat.ofDigits_cons, UInt64.ofNat_add, UInt64.ofNat_mul, UInt64.mul_add, UInt64.add_assoc, UInt64.mul_assoc]
      rw [UInt64.mul_comm base (.ofNat d)]
      rfl

/-- **Ids are read back**, however long they are. -/
theorem kndCalcNumId_kndNumToStr {n : UInt64} {id : List UInt8} (h : kndNumToStr n 62 = some id) :
    kndCalcNumId id = some n := by
  by_cases hn : n.toNat < 2 ^ 63
  · rw [kndNumToStr_eq hn] at h
    obtain rfl := Option.some.inj h
    rw [Knowdy.kndNumToStr]
    by_cases hzero : n.toNat = 0
    · rw [if_pos hzero]
      obtain rfl : n = 0 := UInt64.toNat_inj.mp hzero
      rfl
    · rw [if_neg hzero, Knowdy.numToStrLoop_eq (by decide) _ _ le_rfl, kndCalcNumId,
        calcNumIdLoop_eq fun d hd => Nat.digits_lt_base (by decide) hd, Nat.ofDigits_digits, UInt64.ofNat_toNat]
      exact congrArg some (by simp)
  · rw [kndNumToStr_of_le (Nat.le_of_not_lt hn)] at h
    cases h

end SizeT

/-- **The id of a number**: it is written into a buffer of `KND_ID_SIZE` characters, read back, and no other number
has it. -/
structure RoundTrips (n : UInt64) (id : List UInt8) : Prop where
  /-- It is written. -/
  written : SizeT.kndNumToStr n 62 = some id
  /-- It fits the buffer. -/
  fits : id.length ≤ idSize
  /-- It is read back. -/
  read : SizeT.kndCalcNumId id = some n
  /-- It belongs to this number only. -/
  distinct : ∀ m, SizeT.kndNumToStr m 62 = some id → m = n

theorem length_kndNumToStr_le_iff (n : Nat) : (kndNumToStr n 62).length ≤ idSize ↔ n < 62 ^ 8 := by
  rw [kndNumToStr]
  by_cases hzero : n = 0
  · rw [if_pos hzero, hzero]
    decide
  · rw [if_neg hzero, numToStrLoop_eq (by decide) _ _ le_rfl, List.length_map]
    exact Nat.digits_length_le_iff (by decide) n

/-- **When numbers have ids that fit.** For every `size_t`, whatever a counter reaches: `knd_num_to_str` writes an id
of at most `KND_ID_SIZE` characters that `knd_calc_num_id` reads back and that no other number has, if and only if the
number is below `62 ^ 8`. -/
theorem roundTrips_iff (n : UInt64) : (∃ id, RoundTrips n id) ↔ n.toNat < 62 ^ 8 := by
  constructor
  · rintro ⟨id, h⟩
    have hwritten := h.written
    by_cases hn : n.toNat < 2 ^ 63
    · rw [SizeT.kndNumToStr_eq hn] at hwritten
      obtain rfl := Option.some.inj hwritten
      exact (length_kndNumToStr_le_iff n.toNat).mp h.fits
    · rw [SizeT.kndNumToStr_of_le (Nat.le_of_not_lt hn)] at hwritten
      cases hwritten
  · intro hn
    have hwritten := SizeT.kndNumToStr_eq (Nat.lt_trans hn (by decide) : n.toNat < 2 ^ 63)
    have hread := SizeT.kndCalcNumId_kndNumToStr hwritten
    refine ⟨_, hwritten, (length_kndNumToStr_le_iff n.toNat).mpr hn, hread, fun m hm => ?_⟩
    exact Option.some.inj ((SizeT.kndCalcNumId_kndNumToStr hm).symm.trans hread)

/-- **The number `62 ^ 8` has nine digits**, and `2 ^ 64 - 1` none. -/
theorem not_roundTrips : SizeT.kndNumToStr 218340105584896 62 = some [48, 48, 48, 48, 48, 48, 48, 48, 49] ∧
    SizeT.kndNumToStr 18446744073709551615 62 = none ∧ ¬∃ id, RoundTrips 218340105584896 id := by
  have hnine : SizeT.kndNumToStr 218340105584896 62 = some [48, 48, 48, 48, 48, 48, 48, 48, 49] := by decide +kernel
  refine ⟨hnine, by decide +kernel, ?_⟩
  rintro ⟨id, h⟩
  obtain rfl := Option.some.inj (hnine.symm.trans h.written)
  exact absurd h.fits (by decide)

/-! ## (2) Integer cells -/

/-- A byte that is promoted to `int`, shifted, and widened to `unsigned long`. -/
def shiftByte (b : UInt8) (k : Nat) : BitVec 64 := (b.toBitVec.setWidth 32 <<< k).signExtend 64

/-- `knd_unpack_u32`. -/
def unpackU32 (b₀ b₁ b₂ b₃ : UInt8) : BitVec 64 :=
  b₃.toBitVec.setWidth 64 ||| shiftByte b₂ 8 ||| shiftByte b₁ 16 ||| shiftByte b₀ 24

/-- **The shift of a byte is negative** where it reaches the sign of an `int`. -/
theorem toNat_shiftByte (b : UInt8) {k : Nat} (hk : k ≤ 24) : (shiftByte b k).toNat =
    b.toNat * 2 ^ k + if b.toNat * 2 ^ k < 2 ^ 31 then 0 else 2 ^ 64 - 2 ^ 32 := by
  have hb := b.toNat_lt
  have hpow : b.toNat * 2 ^ k < 2 ^ 32 :=
    calc b.toNat * 2 ^ k < 2 ^ 8 * 2 ^ k := Nat.mul_lt_mul_of_pos_right hb (Nat.two_pow_pos k)
      _ ≤ 2 ^ 8 * 2 ^ 24 := Nat.mul_le_mul_left _ (Nat.pow_le_pow_right (by decide) hk)
      _ = 2 ^ 32 := by decide
  have hbyte : b.toNat % 2 ^ 32 = b.toNat := Nat.mod_eq_of_lt (by omega)
  have hint : (b.toBitVec.setWidth 32 <<< k).toNat = b.toNat * 2 ^ k := by
    rw [BitVec.toNat_shiftLeft, BitVec.toNat_setWidth, UInt8.toNat_toBitVec, hbyte, Nat.shiftLeft_eq,
      Nat.mod_eq_of_lt hpow]
  rw [shiftByte, BitVec.toNat_signExtend, BitVec.toNat_setWidth, hint, Nat.mod_eq_of_lt (by omega),
    BitVec.msb_eq_decide, hint]
  by_cases hsmall : b.toNat * 2 ^ k < 2 ^ 31
  · rw [if_pos hsmall, decide_eq_false (by omega), if_neg (by decide)]
  · rw [if_neg hsmall, decide_eq_true (by omega), if_pos rfl]

/-- **`knd_unpack_u32` over the bits of its types** is the sum of the bytes, with a sign. -/
theorem kndUnpackU32_eq (b₀ b₁ b₂ b₃ : UInt8) : (unpackU32 b₀ b₁ b₂ b₃).toNat = kndUnpackU32 b₀ b₁ b₂ b₃ := by
  have h₀ := b₀.toNat_lt
  have h₁ := b₁.toNat_lt
  have h₂ := b₂.toNat_lt
  have h₃ := b₃.toNat_lt
  have hlow : (b₃.toBitVec.setWidth 64).toNat = b₃.toNat := by
    rw [BitVec.toNat_setWidth, UInt8.toNat_toBitVec, Nat.mod_eq_of_lt (by omega)]
  have hsecond : (shiftByte b₂ 8).toNat = 2 ^ 8 * b₂.toNat := by
    rw [toNat_shiftByte b₂ (by decide), if_pos (by omega)]
    omega
  have hthird : (shiftByte b₁ 16).toNat = 2 ^ 16 * b₁.toNat := by
    rw [toNat_shiftByte b₁ (by decide), if_pos (by omega)]
    omega
  -- the sign bits of the first byte stand above all others
  obtain ⟨high, hhigh, hsign⟩ : ∃ high, (shiftByte b₀ 24).toNat = 2 ^ 24 * high ∧
      2 ^ 24 * high = b₀.toNat * 2 ^ 24 + if b₀.toNat < 128 then 0 else 2 ^ 64 - 2 ^ 32 := by
    refine ⟨b₀.toNat + if b₀.toNat < 128 then 0 else 2 ^ 40 - 2 ^ 8, ?_, ?_⟩
    · rw [toNat_shiftByte b₀ (by decide)]
      split_ifs <;> omega
    · split_ifs <;> omega
  rw [unpackU32, BitVec.toNat_or, BitVec.toNat_or, BitVec.toNat_or, hlow, hsecond, hthird, hhigh,
    Nat.or_comm b₃.toNat, ← Nat.two_pow_add_eq_or_of_lt (by omega : b₃.toNat < 2 ^ 8),
    Nat.or_comm _ (2 ^ 16 * b₁.toNat), ← Nat.two_pow_add_eq_or_of_lt (by omega),
    Nat.or_comm _ (2 ^ 24 * high), ← Nat.two_pow_add_eq_or_of_lt (by omega), hsign, kndUnpackU32]
  split_ifs <;> omega

/-- Cells of one width, one after the other, as in a directory. -/
def packCells (cellSize : Nat) (vals : List Nat) : List UInt8 := vals.flatMap (kndPackInt · cellSize)

/-- The width of the cells: the running maximum is `cell_max_val`. -/
def cellSizeFor (vals : List Nat) : Nat := kndMinBytes (vals.foldl max 0)

/-- **Cells denote what was written into them.** -/
structure CellsDenote (vals : List Nat) : Prop where
  /-- In a cell of its own width. -/
  own : ∀ v ∈ vals, kndUnpackInt (kndPackInt v (kndMinBytes v)) (kndMinBytes v) = v
  /-- In a directory with the width of the largest value. -/
  shared : ∀ i v, vals[i]? = some v →
    kndUnpackInt ((packCells (cellSizeFor vals) vals).drop (i * cellSizeFor vals)) (cellSizeFor vals) = v

theorem le_foldl_max_of_mem {vals : List Nat} {v : Nat} (h : v ∈ vals) (m : Nat) : v ≤ vals.foldl max m := by
  have hinit : ∀ (l : List Nat) (m : Nat), m ≤ l.foldl max m := by
    intro l
    induction l with
    | nil => exact fun m => Nat.le_refl m
    | cons w l ih => exact fun m => (Nat.le_max_left m w).trans (ih _)
  induction vals generalizing m with
  | nil => cases h
  | cons w vals ih =>
      rcases List.mem_cons.mp h with rfl | h
      · exact (Nat.le_max_right m v).trans (hinit vals _)
      · exact ih h _

theorem foldl_max_lt {vals : List Nat} {b : Nat} (h : ∀ v ∈ vals, v < b) {m : Nat} (hm : m < b) :
    vals.foldl max m < b := by
  induction vals generalizing m with
  | nil => exact hm
  | cons w vals ih =>
      exact ih (fun v hv => h v (List.mem_cons_of_mem w hv)) (Nat.max_lt.mpr ⟨hm, h w (List.mem_cons_self ..)⟩)

/-- What follows a cell does not matter. -/
theorem kndUnpackInt_append {w : Nat} (hw : 1 ≤ w) (hw' : w ≤ uintSize) (v : Nat) (rest : List UInt8) :
    kndUnpackInt (kndPackInt v w ++ rest) w = kndUnpackInt (kndPackInt v w) w := by
  unfold uintSize at hw'
  interval_cases w <;> rfl

/-- The cells from one on. -/
theorem drop_packCells {w : Nat} (hw : 1 ≤ w) (hw' : w ≤ uintSize) (vals : List Nat) (i : Nat) :
    (packCells w vals).drop (i * w) = packCells w (vals.drop i) := by
  induction vals generalizing i with
  | nil => simp [packCells]
  | cons v vals ih =>
      cases i with
      | zero => rw [Nat.zero_mul, List.drop_zero, List.drop_zero]
      | succ i =>
          have hcell := length_kndPackInt hw hw' v
          rw [List.drop_succ_cons, ← ih i, packCells, List.flatMap_cons, Nat.succ_mul, Nat.add_comm, ← List.drop_drop,
            List.drop_append_of_le_length (Nat.le_of_eq hcell.symm), List.drop_of_length_le (Nat.le_of_eq hcell)]
          rfl

/-- **When cells denote what was written.** For every list of values below `2 ^ 32`: each value is recovered from a
cell of its own width and from its cell in a directory with the width of the largest, if and only if all are below
`2 ^ 31`. -/
theorem cellsDenote_iff {vals : List Nat} (h : ∀ v ∈ vals, v < 2 ^ 32) :
    CellsDenote vals ↔ ∀ v ∈ vals, v < 2 ^ 31 := by
  constructor
  · intro hcells v hv
    -- a cell never denotes a number between `2 ^ 31` and `2 ^ 63`
    have hrange := kndUnpackInt_lt_or_le (kndPackInt v (kndMinBytes v)) (kndMinBytes v)
    rw [hcells.own v hv] at hrange
    have hlt := h v hv
    omega
  · intro hsmall
    refine ⟨fun v hv => ?_, fun i v hi => ?_⟩
    · exact kndUnpackInt_kndPackInt (one_le_kndMinBytes v) (kndMinBytes_le v) (lt_pow_kndMinBytes le_rfl (h v hv))
        (hsmall v hv)
    · have hv := List.mem_of_getElem? hi
      have hw : 1 ≤ cellSizeFor vals := one_le_kndMinBytes _
      have hw' : cellSizeFor vals ≤ uintSize := kndMinBytes_le _
      have hfit : v < 256 ^ cellSizeFor vals :=
        lt_pow_kndMinBytes (le_foldl_max_of_mem hv 0) (foldl_max_lt h (by decide))
      have hdrop : vals.drop i = v :: vals.drop (i + 1) := List.drop_eq_getElem?_toList_append.trans (by rw [hi]; rfl)
      rw [drop_packCells hw hw', hdrop, packCells, List.flatMap_cons, kndUnpackInt_append hw hw']
      exact kndUnpackInt_kndPackInt hw hw' hfit (hsmall v hv)

/-- Cells of one and of three bytes. -/
theorem cellsDenote_iff_small : CellsDenote [7, 70000] ↔ ∀ v ∈ [7, 70000], v < 2 ^ 31 :=
  cellsDenote_iff (by decide)

/-- **The size of a block past 2 GiB is read back as one that no file has.** -/
theorem not_cellsDenote : kndUnpackInt (kndPackInt 2147483648 4) 4 = 18446744071562067968 ∧
    ¬CellsDenote [2147483648] := by
  refine ⟨by decide +kernel, fun h => ?_⟩
  have hown := h.own 2147483648 (List.mem_singleton_self _)
  revert hown
  decide +kernel

end Knowdy
