import Knowdy.Utils

/-! # The output buffer

`kndOutput` of `knd_output.c`: an append-only buffer of a fixed capacity, and the append to a file.

* `Output` — the buffer; `reset`, `writec`, `write` are its operations.
* `decimalBytes` — a number as it is written.
* `kndAppendFile` — `knd_append_file` on a file system with a bound on the file size.
* `bind_eq_ok` — inversion of a successful sequence of operations. -/

namespace Knowdy

/-- A successful sequence of two fallible operations: both succeeded. -/
theorem bind_eq_ok {ε α β : Type} {x : Except ε α} {f : α → Except ε β} {b : β} :
    (x >>= f) = .ok b ↔ ∃ a, x = .ok a ∧ f a = .ok b := by
  cases x with
  | error e => simp [Bind.bind, Except.bind]
  | ok a => simp [Bind.bind, Except.bind]

@[simp] theorem pure_eq_ok {ε α : Type} {a b : α} :
    (pure a : Except ε α) = .ok b ↔ a = b := by
  simp [pure, Except.pure]

/-- `struct kndOutput`: the bytes written so far (`buf[0 … buf_size)`) and the buffer's capacity. -/
structure Output where
  /-- The bytes written since the last reset. -/
  buf : List UInt8
  /-- Size of the allocated buffer, including the place of the final NUL. -/
  capacity : Nat
  deriving DecidableEq, Repr

namespace Output

/-- `kndOutput_reset`. -/
def reset (self : Output) : Output := { self with buf := [] }

/-- `kndOutput_writec`. -/
def writec (self : Output) (ch : UInt8) : Except KndErr Output :=
  if self.buf.length ≥ sizeSub self.capacity 1 then .error .nomem
  else .ok { self with buf := self.buf ++ [ch] }

/-- `kndOutput_write`. -/
def write (self : Output) (buf : List UInt8) : Except KndErr Output :=
  if buf.length > sizeSub (sizeSub self.capacity self.buf.length) 1 then .error .nomem
  else .ok { self with buf := self.buf ++ buf }

@[simp] theorem reset_buf (self : Output) : self.reset.buf = [] := rfl

@[simp] theorem reset_capacity (self : Output) : self.reset.capacity = self.capacity := rfl

/-- `self` with more bytes at its end. -/
def append (self : Output) (bytes : List UInt8) : Output := { self with buf := self.buf ++ bytes }

@[simp] theorem append_buf (self : Output) (bs : List UInt8) :
    (self.append bs).buf = self.buf ++ bs := rfl

@[simp] theorem append_append (self : Output) (bs cs : List UInt8) :
    (self.append bs).append cs = self.append (bs ++ cs) := by
  simp [append]

@[simp] theorem append_nil (self : Output) : self.append [] = self := by
  simp [append]

/-- A write that succeeds has appended its bytes. -/
theorem eq_append_of_write {self out : Output} {bs : List UInt8} (h : self.write bs = .ok out) :
    out = self.append bs := by
  unfold write at h
  split at h
  · cases h
  · cases h; rfl

/-- A character that was written is at the end of the buffer. -/
theorem eq_append_of_writec {self out : Output} {ch : UInt8} (h : self.writec ch = .ok out) :
    out = self.append [ch] := by
  unfold writec at h
  split at h
  · cases h
  · cases h; rfl

end Output

/-- A `size_t` in decimal digits. -/
def decimalBytes (n : Nat) : List UInt8 := (Nat.toDigits 10 n).map fun c => UInt8.ofNat c.toNat

/-- The code of a decimal digit. -/
theorem toNat_of_isDigit {d : Char} (h : d.isDigit = true) :
    (UInt8.ofNat d.toNat).toNat = d.toNat ∧ 48 ≤ d.toNat ∧ d.toNat ≤ 57 := by
  rw [Char.isDigit_iff_toNat] at h
  obtain ⟨hlow, hhigh⟩ : 48 ≤ d.toNat ∧ d.toNat ≤ 57 := h
  refine ⟨?_, hlow, hhigh⟩
  rw [UInt8.toNat_ofNat']
  omega

/-- A decimal number is written in digits. -/
theorem mem_decimalBytes {n : Nat} {c : UInt8} (h : c ∈ decimalBytes n) : 48 ≤ c.toNat ∧ c.toNat ≤ 57 := by
  obtain ⟨d, hd, rfl⟩ := List.mem_map.mp h
  obtain ⟨heq, hrange⟩ := toNat_of_isDigit (Nat.isDigit_of_mem_toDigits (by decide) (by decide) hd)
  rwa [heq]

/-- `knd_append_file` on a file system where a file may grow to at most `disk` bytes; a short write
is reported as `knd_IO_FAIL`. -/
def kndAppendFile (disk : Nat) (file buf : List UInt8) : Except KndErr (List UInt8) :=
  if file.length + buf.length ≤ disk then .ok (file ++ buf) else .error .ioFail

/-- An append that succeeds has appended the whole buffer. -/
theorem eq_append_of_kndAppendFile {disk : Nat} {file buf file' : List UInt8}
    (h : kndAppendFile disk file buf = .ok file') : file' = file ++ buf := by
  unfold kndAppendFile at h
  split at h
  · cases h; rfl
  · cases h

end Knowdy
