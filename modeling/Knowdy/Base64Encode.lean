import Knowdy.Lib.Base64
import Mathlib.Data.Nat.Bitwise

/-! # Base64 text

`knd_base64_encode` of `knd_utils.c`: groups of three bytes in a loop, the tail after it. Bytes are of type `char`, so
that those above 127 are negative where `char` is signed, and are promoted to `int` before they are shifted.

* `charAt`, `base64Char` — reads of the string and of the table; a read out of bounds is `none`.
* `encodeGroups`, `encodeTail`, `kndBase64Encode` — the code.
* `kndBase64Encode_eq` — it writes the encoding and a zero byte; `encodes_kndBase64Encode` — **what it writes is
  base64**, for every byte string. -/

namespace Knowdy

open Base64

/-! ## (1) The code -/

/-- A C `int`. -/
abbrev CInt := BitVec 32

/-- `knd_base_64`, with the zero byte at its end. -/
def kndBase64 : List UInt8 :=
  [65, 66, 67, 68, 69, 70, 71, 72, 73, 74, 75, 76, 77, 78, 79, 80, 81, 82, 83, 84, 85, 86, 87, 88, 89, 90,
    97, 98, 99, 100, 101, 102, 103, 104, 105, 106, 107, 108, 109, 110, 111, 112, 113, 114, 115, 116, 117, 118, 119,
    120, 121, 122, 48, 49, 50, 51, 52, 53, 54, 55, 56, 57, 43, 47, 0]

/-- A `char` that is promoted to `int`: whether it is signed is up to the compiler. -/
def promote (signed : Bool) (c : UInt8) : CInt :=
  if signed then c.toBitVec.signExtend 32 else c.toBitVec.setWidth 32

/-- `string[i]`, promoted. -/
def charAt (signed : Bool) (string : List UInt8) (i : Nat) : Option CInt :=
  string[i]?.map (promote signed)

/-- `knd_base_64[index]`. A negative index is out of bounds, as a large one is. -/
def base64Char (index : CInt) : Option UInt8 := kndBase64[index.toNat]?

/-- `(c >> 2) & 0x3F`. -/
def firstIndex (c : CInt) : CInt := c.sshiftRight 2 &&& 0x3F

/-- `((c & 0x3) << 4) | ((int) (d & 0xF0) >> 4)`. -/
def secondIndex (c d : CInt) : CInt := ((c &&& 0x3) <<< 4) ||| (d &&& 0xF0).sshiftRight 4

/-- `((d & 0xF) << 2) | ((int) (e & 0xC0) >> 6)`. -/
def thirdIndex (d e : CInt) : CInt := ((d &&& 0xF) <<< 2) ||| (e &&& 0xC0).sshiftRight 6

section Code

variable (signed : Bool) (string : List UInt8)

/-- The loop over groups of three bytes, from the index `i` on: what is written, and the index after it. The fuel
bounds the number of rounds. -/
def encodeGroups (len : Nat) : Nat → Nat → Option (List UInt8 × Nat)
  | 0, _ => none
  | fuel + 1, i =>
      if (i : Int) < (len : Int) - 2 then do
        let c ← charAt signed string i
        let d ← charAt signed string (i + 1)
        let e ← charAt signed string (i + 2)
        let p₀ ← base64Char (firstIndex c)
        let p₁ ← base64Char (secondIndex c d)
        let p₂ ← base64Char (thirdIndex d e)
        let p₃ ← base64Char (e &&& 0x3F)
        let (rest, i) ← encodeGroups len fuel (i + 3)
        return (p₀ :: p₁ :: p₂ :: p₃ :: rest, i)
      else some ([], i)

/-- The tail of one or two bytes. -/
def encodeTail (len i : Nat) : Option (List UInt8) :=
  if i < len then do
    let c ← charAt signed string i
    let p₀ ← base64Char (firstIndex c)
    if (i : Int) = (len : Int) - 1 then do
      let p₁ ← base64Char ((c &&& 0x3) <<< 4)
      return [p₀, p₁, pad, pad]
    else do
      let d ← charAt signed string (i + 1)
      let p₁ ← base64Char (secondIndex c d)
      let p₂ ← base64Char ((d &&& 0xF) <<< 2)
      return [p₀, p₁, p₂, pad]
  else some []

/-- **`knd_base64_encode`**: what it writes to `encoded`, for a string of the length `len`. -/
def kndBase64Encode : Option (List UInt8) := do
  let (text, i) ← encodeGroups signed string string.length (string.length + 1) 0
  let tail ← encodeTail signed string string.length i
  return text ++ tail ++ [0]

end Code

/-! ## (2) Bits -/

/-- The table is the alphabet. -/
theorem base64Char_of_lt {index : CInt} {n : Nat} (h : index.toNat = n) (hn : n < 64) :
    base64Char index = some (symbol n) := by
  have hall : ∀ i : Fin 64, kndBase64[i.val]? = some (symbol i.val) := by decide +kernel
  rw [base64Char, h]
  exact hall ⟨n, hn⟩

/-- **The bits of a byte do not depend on the sign of `char`.** -/
theorem promote_bits (signed : Bool) (x : UInt8) :
    (firstIndex (promote signed x)).toNat = x.toNat / 4 ∧
      ((promote signed x &&& 0x3) <<< 4).toNat = x.toNat % 4 * 16 ∧
      ((promote signed x &&& 0xF0).sshiftRight 4).toNat = x.toNat / 16 ∧
      ((promote signed x &&& 0xF) <<< 2).toNat = x.toNat % 16 * 4 ∧
      ((promote signed x &&& 0xC0).sshiftRight 6).toNat = x.toNat / 64 ∧
      (promote signed x &&& 0x3F).toNat = x.toNat % 64 := by
  have hall : ∀ (signed : Bool) (n : Fin 256),
      (firstIndex (promote signed (.ofNat n))).toNat = n / 4 ∧
        ((promote signed (.ofNat n) &&& 0x3) <<< 4).toNat = n % 4 * 16 ∧
        ((promote signed (.ofNat n) &&& 0xF0).sshiftRight 4).toNat = n / 16 ∧
        ((promote signed (.ofNat n) &&& 0xF) <<< 2).toNat = n % 16 * 4 ∧
        ((promote signed (.ofNat n) &&& 0xC0).sshiftRight 6).toNat = n / 64 ∧
        (promote signed (.ofNat n) &&& 0x3F).toNat = n % 64 := by
    decide +kernel
  have hx := hall signed ⟨x.toNat, x.toNat_lt⟩
  rwa [UInt8.ofNat_toNat] at hx

section Chars

variable (signed : Bool) (x y z : UInt8)

theorem base64Char_first : base64Char (firstIndex (promote signed x)) = some (symbol (x.toNat / 4)) :=
  base64Char_of_lt (promote_bits signed x).1 (div_four_lt x)

/-- The bits of two bytes are put side by side. -/
theorem toNat_or_of_lt {a b : CInt} {m n k : Nat} (ha : a.toNat = 2 ^ k * m) (hb : b.toNat = n) (hn : n < 2 ^ k) :
    (a ||| b).toNat = 2 ^ k * m + n := by
  rw [BitVec.toNat_or, ha, hb, Nat.two_pow_add_eq_or_of_lt hn]

theorem base64Char_second : base64Char (secondIndex (promote signed x) (promote signed y)) =
    some (symbol (x.toNat % 4 * 16 + y.toNat / 16)) := by
  have hy := y.toNat_lt
  obtain ⟨-, hx, -⟩ := promote_bits signed x
  obtain ⟨-, -, hhigh, -⟩ := promote_bits signed y
  refine base64Char_of_lt ?_ (second_lt x y)
  rw [mul_comm]
  exact toNat_or_of_lt (k := 4) (hx.trans (mul_comm _ _)) hhigh (by omega)

theorem base64Char_third : base64Char (thirdIndex (promote signed y) (promote signed z)) =
    some (symbol (y.toNat % 16 * 4 + z.toNat / 64)) := by
  have hz := z.toNat_lt
  obtain ⟨-, -, -, hy, -⟩ := promote_bits signed y
  obtain ⟨-, -, -, -, hhigh, -⟩ := promote_bits signed z
  refine base64Char_of_lt ?_ (third_lt y z)
  rw [mul_comm]
  exact toNat_or_of_lt (k := 2) (hy.trans (mul_comm _ _)) hhigh (by omega)

theorem base64Char_fourth : base64Char (promote signed z &&& 0x3F) = some (symbol (z.toNat % 64)) :=
  base64Char_of_lt (promote_bits signed z).2.2.2.2.2 (mod_lt z)

theorem base64Char_second_tail :
    base64Char ((promote signed x &&& 0x3) <<< 4) = some (symbol (x.toNat % 4 * 16)) := by
  refine base64Char_of_lt (promote_bits signed x).2.1 ?_
  omega

theorem base64Char_third_tail :
    base64Char ((promote signed y &&& 0xF) <<< 2) = some (symbol (y.toNat % 16 * 4)) := by
  refine base64Char_of_lt (promote_bits signed y).2.2.2.1 ?_
  omega

end Chars

/-! ## (3) The text -/

section Text

variable (signed : Bool) {string rest : List UInt8} {i : Nat}

/-- A read inside what is left of the string. -/
theorem charAt_of_drop (h : string.drop i = rest) (k : Nat) {x : UInt8} (hx : rest[k]? = some x) :
    charAt signed string (i + k) = some (promote signed x) := by
  rw [charAt, ← List.getElem?_drop, h, hx]
  rfl

/-- **The loop and the tail together encode what is left of the string.** -/
theorem encodeGroups_tail (hlen : string.length = i + rest.length) (hdrop : string.drop i = rest) {fuel : Nat}
    (hfuel : rest.length < fuel) :
    ∃ text j tail, encodeGroups signed string string.length fuel i = some (text, j) ∧
      encodeTail signed string string.length j = some tail ∧ text ++ tail = encode rest := by
  -- the groups are those of the encoding, and the loop ends in front of its last cases
  induction rest using encode.induct generalizing i fuel with
  | case1 =>
      obtain ⟨fuel, rfl⟩ := Nat.exists_eq_add_one_of_ne_zero (Nat.ne_of_gt (Nat.zero_lt_of_lt hfuel))
      rw [List.length_nil] at hlen
      refine ⟨[], i, [], ?_, ?_, rfl⟩
      · exact if_neg (by omega)
      · exact if_neg (by omega)
  | case2 x =>
      obtain ⟨fuel, rfl⟩ := Nat.exists_eq_add_one_of_ne_zero (Nat.ne_of_gt (Nat.zero_lt_of_lt hfuel))
      have hx := charAt_of_drop signed hdrop 0 rfl
      rw [List.length_singleton] at hlen
      refine ⟨[], i, encode [x], ?_, ?_, rfl⟩
      · exact if_neg (by omega)
      · rw [encodeTail, if_pos (by omega), ← Nat.add_zero i, hx]
        simp only [Option.bind_eq_bind, Option.bind_some, base64Char_first, base64Char_second_tail]
        refine (if_pos ?_).trans rfl
        omega
  | case3 x y =>
      obtain ⟨fuel, rfl⟩ := Nat.exists_eq_add_one_of_ne_zero (Nat.ne_of_gt (Nat.zero_lt_of_lt hfuel))
      have hx := charAt_of_drop signed hdrop 0 rfl
      have hy := charAt_of_drop signed hdrop 1 rfl
      simp only [List.length_cons, List.length_nil] at hlen
      refine ⟨[], i, encode [x, y], ?_, ?_, rfl⟩
      · exact if_neg (by omega)
      · rw [encodeTail, if_pos (by omega), hy, ← Nat.add_zero i, hx]
        simp only [Option.bind_eq_bind, Option.bind_some, base64Char_first, base64Char_second, base64Char_third_tail]
        refine (if_neg ?_).trans rfl
        omega
  | case4 x y z rest ih =>
      obtain ⟨fuel, rfl⟩ := Nat.exists_eq_add_one_of_ne_zero (Nat.ne_of_gt (Nat.zero_lt_of_lt hfuel))
      have hx := charAt_of_drop signed hdrop 0 rfl
      have hy := charAt_of_drop signed hdrop 1 rfl
      have hz := charAt_of_drop signed hdrop 2 rfl
      simp only [List.length_cons] at hlen hfuel
      have hdrop' : string.drop (i + 3) = rest := by
        rw [← List.drop_drop, hdrop]
        rfl
      have hfuel' : rest.length < fuel := by omega
      obtain ⟨text, j, tail, hgroups, htail, heq⟩ := ih (i := i + 3) (by omega) hdrop' hfuel'
      refine ⟨symbol (x.toNat / 4) :: symbol (x.toNat % 4 * 16 + y.toNat / 16) ::
        symbol (y.toNat % 16 * 4 + z.toNat / 64) :: symbol (z.toNat % 64) :: text, j, tail, ?_, htail, ?_⟩
      · rw [encodeGroups, if_pos (by omega), hy, hz, ← Nat.add_zero i, hx]
        simp only [Option.bind_eq_bind, Option.bind_some, base64Char_first, base64Char_second, base64Char_third,
          base64Char_fourth, Nat.add_zero, hgroups]
        rfl
      · rw [encode, ← heq]
        rfl

/-- **`knd_base64_encode` writes the encoding and a zero byte.** Every read is in bounds. -/
theorem kndBase64Encode_eq (signed : Bool) (string : List UInt8) :
    kndBase64Encode signed string = some (encode string ++ [0]) := by
  obtain ⟨text, j, tail, hgroups, htail, heq⟩ :=
    encodeGroups_tail signed (i := 0) (Nat.zero_add _).symm rfl (Nat.lt_succ_self string.length)
  rw [kndBase64Encode, hgroups]
  simp only [Option.bind_eq_bind, Option.bind_some, htail]
  rw [← heq]
  rfl

/-- **What `knd_base64_encode` writes is base64.** For every byte string, whether `char` is signed or not: it returns,
and what it has written is a text and a zero byte, where the text decodes to the byte string by the standard, has four
characters for every three bytes or what is left of them, and consists of characters of the standard alphabet
followed by the padding that the length requires. -/
theorem encodes_kndBase64Encode (signed : Bool) (string : List UInt8) :
    ∃ text, kndBase64Encode signed string = some (text ++ [0]) ∧ Encodes string text :=
  ⟨encode string, kndBase64Encode_eq signed string, encodes_encode string⟩

/-- `ÿþ` in Latin-1. -/
example : kndBase64Encode true [255, 254] = some [47, 47, 52, 61, 0] := by decide +kernel

end Text

end Knowdy
