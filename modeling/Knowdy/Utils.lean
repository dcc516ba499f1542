import Knowdy.Lib.Bytes
import Mathlib.Data.Nat.Digits.Lemmas

/-! # Error codes, base-62 ids and integer cells

The shared vocabulary of `knd_err.h`, `knd_config.h` and `knd_utils.c`.

* `KndErr` — the error codes other than `knd_OK`.
* `objIdSeq`, `objIdBase` — the base-62 alphabet and its inverse table.
* `kndNumToStr`, `kndCalcNumId` — numbers as ids, least significant digit first.
* `kndMinBytes`, `kndPackInt`, `kndUnpackInt` — integer cells of 1 to 4 bytes; the round trip is
  `kndUnpackInt_kndPackInt`. -/

namespace Knowdy

/-! ## (1) Constants and error codes -/

/-- `KND_RADIX_BASE`. -/
def radixBase : Nat := 62

/-- A base-62 digit; also the slots `0 … KND_RADIX_BASE - 1` of a folder. -/
abbrev Digit := Fin 62

/-- `KND_ID_SIZE`: size of an id buffer. -/
def idSize : Nat := 8

/-- `KND_NAME_SIZE`. -/
def nameSize : Nat := 1024 - 8

/-- `KND_PATH_SIZE`. -/
def pathSize : Nat := 1024

/-- `KND_UINT_SIZE`: the widest integer cell. -/
def uintSize : Nat := 4

/-- The error codes of `knd_err_codes` (`knd_OK` is the `ok` of the result types). -/
inductive KndErr where
  | fail | nomem | conflict | limit | range | auth | invalidData | access | noMatch | format
  | ioFail | exists
  deriving DecidableEq, Repr

/-- Subtraction of two `size_t` values: it wraps around modulo `2 ^ 64`. -/
def sizeSub (a b : Nat) : Nat := (a + 2 ^ 64 - b) % 2 ^ 64

/-! ## (2) The base-62 alphabet -/

/-- `obj_id_seq[i]`: `0-9`, `A-Z`, `a-z`. -/
def objIdSeq (i : Nat) : UInt8 :=
  if i < 10 then UInt8.ofNat (48 + i)
  else if i < 36 then UInt8.ofNat (65 + (i - 10))
  else UInt8.ofNat (97 + (i - 36))

/-- `obj_id_base[c]`: the digit of a character, `none` for the entries `-1` of the table. -/
def objIdBase (c : UInt8) : Option (Digit) :=
  if h : 48 ≤ c.toNat ∧ c.toNat < 58 then some ⟨c.toNat - 48, by omega⟩
  else if h : 65 ≤ c.toNat ∧ c.toNat < 91 then some ⟨c.toNat - 65 + 10, by omega⟩
  else if h : 97 ≤ c.toNat ∧ c.toNat < 123 then some ⟨c.toNat - 97 + 36, by omega⟩
  else none

/-- Every digit is found back in the table. -/
@[simp] theorem objIdBase_objIdSeq (i : Digit) : objIdBase (objIdSeq i) = some i := by
  revert i; decide

private theorem objIdBase_all :
    ∀ n : Fin 256, (objIdBase (.ofNat n)).all (fun i => objIdSeq i == .ofNat n) = true := by
  decide +kernel

/-- The table only accepts characters of the alphabet. -/
theorem objIdSeq_of_objIdBase {c : UInt8} {i : Digit} (h : objIdBase c = some i) :
    objIdSeq i = c := by
  have hall := objIdBase_all ⟨c.toNat, c.toNat_lt⟩
  rw [UInt8.ofNat_toNat, h] at hall
  exact eq_of_beq hall

/-- Distinct digits have distinct characters. -/
theorem objIdSeq_inj {i j : Digit} (h : objIdSeq i = objIdSeq j) : i = j := by
  have := congrArg objIdBase h
  rw [objIdBase_objIdSeq, objIdBase_objIdSeq] at this
  exact Option.some.inj this

/-- The key spelled by a list of digits. -/
def digitsKey (ds : List (Digit)) : List UInt8 :=
  ds.map fun i : Digit => objIdSeq i.val

@[simp] theorem digitsKey_nil : digitsKey [] = [] := rfl

@[simp] theorem digitsKey_cons (i : Digit) (ds : List (Digit)) :
    digitsKey (i :: ds) = objIdSeq i :: digitsKey ds := rfl

@[simp] theorem digitsKey_append (ds es : List (Digit)) :
    digitsKey (ds ++ es) = digitsKey ds ++ digitsKey es := by
  simp [digitsKey]

@[simp] theorem length_digitsKey (ds : List (Digit)) :
    (digitsKey ds).length = ds.length := by
  simp [digitsKey]

/-- Spelling is injective. -/
theorem digitsKey_inj {ds es : List (Digit)} : digitsKey ds = digitsKey es ↔ ds = es := by
  unfold digitsKey
  exact (List.map_injective_iff.mpr fun (_ _ : Digit) hij => objIdSeq_inj hij).eq_iff

/-! ## (3) Numbers as ids -/

/-- The digit loop of `knd_num_to_str`; `fuel` bounds the number of rounds. -/
def numToStrLoop (base : Nat) : Nat → Nat → List UInt8
  | 0, _ => []
  | fuel + 1, currVal =>
      if currVal = 0 then []
      else objIdSeq (currVal % base) :: numToStrLoop base fuel (currVal / base)

/-- `knd_num_to_str`: the digits of `numval`, least significant first; `"0"` for zero. -/
def kndNumToStr (numval base : Nat) : List UInt8 :=
  if numval = 0 then [objIdSeq 0] else numToStrLoop base numval numval

/-- `knd_uid_create`, also `knd_num_to_gsp_num`: a number as an id. -/
def kndUidCreate (seed : Nat) : List UInt8 := kndNumToStr seed radixBase

/-- The loop of `knd_calc_num_id`: `aggr + Σ digit · base`; an unknown character stops it. -/
def calcNumIdLoop : List UInt8 → Nat → Nat → Option Nat
  | [], aggr, _ => some aggr
  | c :: id, aggr, base =>
      match objIdBase c with
      | none => none
      | some num => calcNumIdLoop id (aggr + num.val * base) (base * radixBase)

/-- `knd_calc_num_id`: the number of an id; `none` leaves the caller's variable untouched. -/
def kndCalcNumId (id : List UInt8) : Option Nat := calcNumIdLoop id 0 1

/-- With enough rounds the loop spells the base-`b` digits of the number. -/
theorem numToStrLoop_eq {base : Nat} (hb : 1 < base) (fuel n : Nat) (h : n ≤ fuel) :
    numToStrLoop base fuel n = (Nat.digits base n).map objIdSeq := by
  induction fuel generalizing n with
  | zero =>
      obtain rfl : n = 0 := by omega
      simp [numToStrLoop]
  | succ fuel ih =>
      rw [numToStrLoop]
      by_cases hn : n = 0
      · rw [if_pos hn, hn, Nat.digits_zero, List.map_nil]
      · have hlt : n / base < n := Nat.div_lt_self (Nat.pos_of_ne_zero hn) hb
        rw [if_neg hn, Nat.digits_def' hb (Nat.pos_of_ne_zero hn), List.map_cons,
          ih (n / base) (by omega)]

/-! ## (4) Integer cells -/

/-- `knd_min_bytes`. -/
def kndMinBytes (val : Nat) : Nat :=
  if val < 256 then 1
  else if val < 256 * 256 then 2
  else if val < 256 * 256 * 256 then 3
  else 4

/-- `knd_pack_int`: the `byteSize` low-order bytes, most significant first; every width other than
2, 3 and 4 writes one byte. -/
def kndPackInt (numval byteSize : Nat) : List UInt8 :=
  match byteSize with
  | 4 => [.ofNat (numval / 2 ^ 24), .ofNat (numval / 2 ^ 16), .ofNat (numval / 2 ^ 8),
      .ofNat numval]
  | 3 => [.ofNat (numval / 2 ^ 16), .ofNat (numval / 2 ^ 8), .ofNat numval]
  | 2 => [.ofNat (numval / 2 ^ 8), .ofNat numval]
  | _ => [.ofNat numval]

/-- `knd_unpack_u32`: `buf[0] << 24` is an `int`, so from `0x80` on it is negative and its sign bits
fill the upper half of the `unsigned long`. -/
def kndUnpackU32 (b₀ b₁ b₂ b₃ : UInt8) : Nat :=
  let low := b₀.toNat * 2 ^ 24 + b₁.toNat * 2 ^ 16 + b₂.toNat * 2 ^ 8 + b₃.toNat
  if b₀.toNat < 128 then low else low + (2 ^ 64 - 2 ^ 32)

/-- How many bytes `knd_unpack_int` reads. -/
def unpackWidth (byteSize : Nat) : Nat :=
  match byteSize with
  | 4 => 4
  | 3 => 3
  | 2 => 2
  | _ => 1

/-- `knd_unpack_int` on the `unpackWidth byteSize` bytes it reads. -/
def kndUnpackInt (buf : List UInt8) (byteSize : Nat) : Nat :=
  match byteSize, buf with
  | 4, b₀ :: b₁ :: b₂ :: b₃ :: _ => kndUnpackU32 b₀ b₁ b₂ b₃
  | 3, b₀ :: b₁ :: b₂ :: _ => b₀.toNat * 2 ^ 16 + b₁.toNat * 2 ^ 8 + b₂.toNat
  | 2, b₀ :: b₁ :: _ => b₀.toNat * 2 ^ 8 + b₁.toNat
  | _, b₀ :: _ => b₀.toNat
  | _, [] => 0

/-- A cell denotes a number below `2 ^ 31` or, by its sign, one that no size reaches. -/
theorem kndUnpackInt_lt_or_le (buf : List UInt8) (byteSize : Nat) :
    kndUnpackInt buf byteSize < 2 ^ 31 ∨ 2 ^ 63 ≤ kndUnpackInt buf byteSize := by
  unfold kndUnpackInt
  split
  · rename_i b₀ b₁ b₂ b₃ _
    have h₀ := b₀.toNat_lt
    have h₁ := b₁.toNat_lt
    have h₂ := b₂.toNat_lt
    have h₃ := b₃.toNat_lt
    rw [kndUnpackU32]
    split
    · left
      omega
    · right
      omega
  · rename_i b₀ b₁ b₂ _
    have h₀ := b₀.toNat_lt
    have h₁ := b₁.toNat_lt
    have h₂ := b₂.toNat_lt
    left
    omega
  · rename_i b₀ b₁ _
    have h₀ := b₀.toNat_lt
    have h₁ := b₁.toNat_lt
    left
    omega
  · rename_i b₀ _ _ _ _
    have h₀ := b₀.toNat_lt
    left
    omega
  · left
    decide

theorem one_le_kndMinBytes (n : Nat) : 1 ≤ kndMinBytes n := by
  unfold kndMinBytes; split_ifs <;> omega

theorem kndMinBytes_le (n : Nat) : kndMinBytes n ≤ uintSize := by
  unfold kndMinBytes uintSize; split_ifs <;> omega

/-- The chosen width holds every number up to the one it was chosen for. -/
theorem lt_pow_kndMinBytes {v n : Nat} (hv : v ≤ n) (hn : n < 2 ^ 32) :
    v < 256 ^ kndMinBytes n := by
  unfold kndMinBytes
  split_ifs <;> omega

/-- Packing writes big-endian bytes. -/
theorem kndPackInt_eq {w : Nat} (hw : 1 ≤ w) (hw' : w ≤ uintSize) (n : Nat) :
    kndPackInt n w = beBytes w n := by
  unfold uintSize at hw'
  interval_cases w <;> simp [kndPackInt, beBytes]

@[simp] theorem length_kndPackInt {w : Nat} (hw : 1 ≤ w) (hw' : w ≤ uintSize) (n : Nat) :
    (kndPackInt n w).length = w := by
  rw [kndPackInt_eq hw hw', length_beBytes]

theorem unpackWidth_eq {w : Nat} (hw : 1 ≤ w) (hw' : w ≤ uintSize) : unpackWidth w = w := by
  unfold uintSize at hw'
  interval_cases w <;> rfl

/-- Below `2 ^ 31` unpacking a cell gives the big-endian number of its bytes. -/
theorem kndUnpackInt_eq {w : Nat} (hw : 1 ≤ w) (hw' : w ≤ uintSize) {buf : List UInt8}
    (hlen : buf.length = w) (hlt : beNat buf < 2 ^ 31) : kndUnpackInt buf w = beNat buf := by
  unfold uintSize at hw'
  interval_cases w
  · obtain ⟨a, rfl⟩ := List.length_eq_one_iff.mp hlen
    simp [kndUnpackInt, beNat]
  · obtain ⟨a, b, rfl⟩ := List.length_eq_two.mp hlen
    simp [kndUnpackInt, beNat]
  · obtain ⟨a, b, c, rfl⟩ := List.length_eq_three.mp hlen
    simp only [kndUnpackInt, beNat, List.foldl_cons, List.foldl_nil]
    omega
  · obtain ⟨a, rest, rfl⟩ := List.exists_cons_of_length_eq_add_one hlen
    obtain ⟨b, c, d, rfl⟩ := List.length_eq_three.mp (Nat.succ.inj hlen)
    simp only [kndUnpackInt, kndUnpackU32, beNat, List.foldl_cons, List.foldl_nil] at hlt ⊢
    rw [if_pos (by omega)]
    omega

/-- **A cell denotes the number written into it**, for numbers below `2 ^ 31`. -/
theorem kndUnpackInt_kndPackInt {v w : Nat} (hw : 1 ≤ w) (hw' : w ≤ uintSize)
    (hfit : v < 256 ^ w) (hv : v < 2 ^ 31) : kndUnpackInt (kndPackInt v w) w = v := by
  have hval : beNat (kndPackInt v w) = v := by rw [kndPackInt_eq hw hw', beNat_beBytes hfit]
  rw [kndUnpackInt_eq hw hw' (length_kndPackInt hw hw' v) (by rw [hval]; exact hv), hval]

end Knowdy
