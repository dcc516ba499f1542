import Mathlib.Data.List.Basic

/-! # Base64

The base64 encoding of RFC 4648 over bytes. Three bytes are four characters of six bits each; at the end one or two
bytes are filled up with zero bits, and padding stands for the characters that have none of theirs.

* `symbol`, `value?` — the standard alphabet.
* `encode` — the encoding; `decode` — the strict decoding: padding only at the end, and no stray bits before it.
* `decode_encode` — **decoding gives back what was encoded**.
* `Encodes` — what a text has to be for a byte string; `encodes_encode`. -/

namespace Knowdy.Base64

/-! ## (1) The alphabet -/

/-- The character of a value: `A`–`Z`, `a`–`z`, `0`–`9`, `+`, `/`. -/
def symbol (i : Nat) : UInt8 :=
  if i < 26 then .ofNat (65 + i)
  else if i < 52 then .ofNat (97 + (i - 26))
  else if i < 62 then .ofNat (48 + (i - 52))
  else if i = 62 then 43
  else 47

/-- The value of a character of the alphabet. -/
def value? (c : UInt8) : Option Nat :=
  if 65 ≤ c.toNat ∧ c.toNat ≤ 90 then some (c.toNat - 65)
  else if 97 ≤ c.toNat ∧ c.toNat ≤ 122 then some (c.toNat - 97 + 26)
  else if 48 ≤ c.toNat ∧ c.toNat ≤ 57 then some (c.toNat - 48 + 52)
  else if c.toNat = 43 then some 62
  else if c.toNat = 47 then some 63
  else none

/-- The padding character `=`. -/
def pad : UInt8 := 61

theorem value?_symbol {i : Nat} (h : i < 64) : value? (symbol i) = some i := by
  have hall : ∀ i : Fin 64, value? (symbol i) = some i.val := by decide +kernel
  exact hall ⟨i, h⟩

theorem symbol_ne_pad {i : Nat} (h : i < 64) : symbol i ≠ pad := by
  have hall : ∀ i : Fin 64, symbol i ≠ pad := by decide +kernel
  exact hall ⟨i, h⟩

/-! ## (2) Encoding and decoding -/

/-- **The encoding.** -/
def encode : List UInt8 → List UInt8
  | [] => []
  | [x] => [symbol (x.toNat / 4), symbol (x.toNat % 4 * 16), pad, pad]
  | [x, y] =>
      [symbol (x.toNat / 4), symbol (x.toNat % 4 * 16 + y.toNat / 16), symbol (y.toNat % 16 * 4), pad]
  | x :: y :: z :: rest =>
      symbol (x.toNat / 4) :: symbol (x.toNat % 4 * 16 + y.toNat / 16) ::
        symbol (y.toNat % 16 * 4 + z.toNat / 64) :: symbol (z.toNat % 64) :: encode rest

/-- Four characters without padding. -/
def decodeGroup (a b c d : UInt8) : Option (List UInt8) := do
  let a ← value? a
  let b ← value? b
  let c ← value? c
  let d ← value? d
  return [.ofNat (a * 4 + b / 16), .ofNat (b % 16 * 16 + c / 4), .ofNat (c % 4 * 64 + d)]

/-- The last four characters. The bits before the padding that belong to no byte have to be zero. -/
def decodeLast (a b c d : UInt8) : Option (List UInt8) :=
  if d = pad then
    if c = pad then do
      let a ← value? a
      let b ← value? b
      if b % 16 = 0 then some [.ofNat (a * 4 + b / 16)] else none
    else do
      let a ← value? a
      let b ← value? b
      let c ← value? c
      if c % 4 = 0 then some [.ofNat (a * 4 + b / 16), .ofNat (b % 16 * 16 + c / 4)] else none
  else decodeGroup a b c d

/-- **The decoding** of a text, where it is one. -/
def decode : List UInt8 → Option (List UInt8)
  | [] => some []
  | a :: b :: c :: d :: rest =>
      if rest.isEmpty then decodeLast a b c d
      else do
        let bytes ← decodeGroup a b c d
        let rest ← decode rest
        return bytes ++ rest
  | _ => none

section Groups

variable (x y z : UInt8)

/-- Six bits of a byte. -/
theorem div_four_lt : x.toNat / 4 < 64 := by
  have hx := x.toNat_lt
  omega

theorem second_lt : x.toNat % 4 * 16 + y.toNat / 16 < 64 := by
  have hy := y.toNat_lt
  omega

theorem third_lt : y.toNat % 16 * 4 + z.toNat / 64 < 64 := by
  have hz := z.toNat_lt
  omega

theorem mod_lt : z.toNat % 64 < 64 := Nat.mod_lt _ (by decide)

/-- A byte that is put together from its bits. -/
theorem ofNat_eq {n : Nat} (h : n = x.toNat) : UInt8.ofNat n = x := by
  rw [h, UInt8.ofNat_toNat]

theorem decodeGroup_eq : decodeGroup (symbol (x.toNat / 4)) (symbol (x.toNat % 4 * 16 + y.toNat / 16))
    (symbol (y.toNat % 16 * 4 + z.toNat / 64)) (symbol (z.toNat % 64)) = some [x, y, z] := by
  have hx := x.toNat_lt
  have hy := y.toNat_lt
  have hz := z.toNat_lt
  rw [decodeGroup, value?_symbol (div_four_lt x), value?_symbol (second_lt x y), value?_symbol (third_lt y z),
    value?_symbol (mod_lt z)]
  refine congrArg some ?_
  rw [ofNat_eq x (by omega), ofNat_eq y (by omega), ofNat_eq z (by omega)]

theorem decodeLast_one :
    decodeLast (symbol (x.toNat / 4)) (symbol (x.toNat % 4 * 16)) pad pad = some [x] := by
  have hx := x.toNat_lt
  rw [decodeLast, if_pos rfl, if_pos rfl, value?_symbol (div_four_lt x), value?_symbol (by omega)]
  refine (if_pos (by omega)).trans (congrArg some ?_)
  rw [ofNat_eq x (by omega)]

theorem decodeLast_two :
    decodeLast (symbol (x.toNat / 4)) (symbol (x.toNat % 4 * 16 + y.toNat / 16)) (symbol (y.toNat % 16 * 4)) pad =
      some [x, y] := by
  have hx := x.toNat_lt
  have hy := y.toNat_lt
  have hc : y.toNat % 16 * 4 < 64 := by omega
  rw [decodeLast, if_pos rfl, if_neg (symbol_ne_pad hc), value?_symbol (div_four_lt x), value?_symbol (second_lt x y),
    value?_symbol hc]
  refine (if_pos (by omega)).trans (congrArg some ?_)
  rw [ofNat_eq x (by omega), ofNat_eq y (by omega)]

theorem decodeLast_three : decodeLast (symbol (x.toNat / 4)) (symbol (x.toNat % 4 * 16 + y.toNat / 16))
    (symbol (y.toNat % 16 * 4 + z.toNat / 64)) (symbol (z.toNat % 64)) = some [x, y, z] := by
  rw [decodeLast, if_neg (symbol_ne_pad (mod_lt z)), decodeGroup_eq]

end Groups

/-- Something is encoded by something. -/
theorem encode_isEmpty (bs : List UInt8) : (encode bs).isEmpty = bs.isEmpty := by
  fun_cases encode <;> rfl

/-- **Decoding gives back what was encoded.** -/
theorem decode_encode (bs : List UInt8) : decode (encode bs) = some bs := by
  induction bs using encode.induct with
  | case1 => rfl
  | case2 x => exact decodeLast_one x
  | case3 x y => exact decodeLast_two x y
  | case4 x y z rest ih =>
      rw [encode, decode, encode_isEmpty]
      cases rest with
      | nil => exact decodeLast_three x y z
      | cons w rest =>
          rw [decodeGroup_eq, ih]
          rfl

/-! ## (3) Length and padding -/

/-- How many padding characters the length of a byte string requires. -/
def padding (n : Nat) : Nat := (3 - n % 3) % 3

/-- **A text that stands for a byte string**, as the standard has it. -/
structure Encodes (bs text : List UInt8) : Prop where
  /-- It decodes to the byte string. -/
  decodes : decode text = some bs
  /-- Every three bytes, or what is left of them, are four characters. -/
  length : text.length = 4 * ((bs.length + 2) / 3)
  /-- It consists of characters of the alphabet and the padding that the length requires. -/
  padded : ∃ body, text = body ++ List.replicate (padding bs.length) pad ∧ ∀ c ∈ body, ∃ i < 64, c = symbol i

theorem length_encode (bs : List UInt8) : (encode bs).length = 4 * ((bs.length + 2) / 3) := by
  induction bs using encode.induct with
  | case1 => rfl
  | case2 x => simp only [encode, List.length_cons, List.length_nil, Nat.reduceAdd, Nat.reduceDiv, Nat.reduceMul]
  | case3 x y => simp only [encode, List.length_cons, List.length_nil, Nat.reduceAdd, Nat.reduceDiv, Nat.reduceMul]
  | case4 x y z rest ih =>
      simp only [encode, List.length_cons, ih]
      omega

theorem encode_padded (bs : List UInt8) :
    ∃ body, encode bs = body ++ List.replicate (padding bs.length) pad ∧ ∀ c ∈ body, ∃ i < 64, c = symbol i := by
  induction bs using encode.induct with
  | case1 => exact ⟨[], rfl, fun c hc => absurd hc List.not_mem_nil⟩
  | case2 x =>
      have hx := x.toNat_lt
      refine ⟨[symbol (x.toNat / 4), symbol (x.toNat % 4 * 16)], rfl, fun c hc => ?_⟩
      rcases List.mem_pair.mp hc with rfl | rfl
      · exact ⟨_, div_four_lt x, rfl⟩
      · exact ⟨x.toNat % 4 * 16, by omega, rfl⟩
  | case3 x y =>
      have hy := y.toNat_lt
      refine ⟨[symbol (x.toNat / 4), symbol (x.toNat % 4 * 16 + y.toNat / 16), symbol (y.toNat % 16 * 4)], rfl,
        fun c hc => ?_⟩
      rcases List.mem_cons.mp hc with rfl | hc
      · exact ⟨_, div_four_lt x, rfl⟩
      rcases List.mem_pair.mp hc with rfl | rfl
      · exact ⟨_, second_lt x y, rfl⟩
      · exact ⟨y.toNat % 16 * 4, by omega, rfl⟩
  | case4 x y z rest ih =>
      obtain ⟨body, heq, hbody⟩ := ih
      have hpadding : padding (x :: y :: z :: rest).length = padding rest.length := by
        simp only [padding, List.length_cons]
        omega
      refine ⟨symbol (x.toNat / 4) :: symbol (x.toNat % 4 * 16 + y.toNat / 16) ::
        symbol (y.toNat % 16 * 4 + z.toNat / 64) :: symbol (z.toNat % 64) :: body, ?_, fun c hc => ?_⟩
      · rw [encode, heq, hpadding]
        rfl
      · rcases List.mem_cons.mp hc with rfl | hc
        · exact ⟨_, div_four_lt x, rfl⟩
        rcases List.mem_cons.mp hc with rfl | hc
        · exact ⟨_, second_lt x y, rfl⟩
        rcases List.mem_cons.mp hc with rfl | hc
        · exact ⟨_, third_lt y z, rfl⟩
        rcases List.mem_cons.mp hc with rfl | hc
        · exact ⟨_, mod_lt z, rfl⟩
        · exact hbody c hc

/-- **The encoding is as the standard has it**, for every byte string. -/
theorem encodes_encode (bs : List UInt8) : Encodes bs (encode bs) :=
  ⟨decode_encode bs, length_encode bs, encode_padded bs⟩

end Knowdy.Base64
