import Knowdy.Lib.Runs
import Knowdy.Utils
import Mathlib.Data.List.Basic
import Mathlib.Logic.Function.Basic

/-! # The memory of an output buffer

`knd_output.c`, byte by byte: the operations of a `kndOutput` write to a memory of `capacity` bytes and keep the size
of what was written. Each operation has its own test for room, with or without the final NUL.

* `OutBuf`, `OutBuf.store` — the buffer, a write of some bytes.
* `writef`, `write`, `writeEscaped`, … — the code; `escape` — what `write_escaped` makes of a text.
* `Intact` — the size is below the capacity, a NUL follows, and nothing was written past the end.
* `Keeps` — the buffer is intact in a sequence of calls, and a call that fails leaves what was there.
* `keeps_iff` — it is, if and only if it starts with a NUL and every call is safe. -/

namespace Knowdy.OutputBuffer

/-! ## (1) Memory -/

/-- **`struct kndOutput`** with the memory that `buf` points to. -/
structure OutBuf where
  /-- The bytes from `buf` on. -/
  mem : Nat → UInt8
  /-- `buf_size`. -/
  bufSize : Nat := 0
  /-- `capacity`. -/
  capacity : Nat
  /-- It is a `size_t`. -/
  capacity_lt : capacity < 2 ^ 64
  /-- Just past the last place that was ever written to. -/
  reach : Nat := 0

namespace OutBuf

variable (self : OutBuf)

/-- A write of one byte. -/
def set (i : Nat) (a : UInt8) : OutBuf :=
  { self with
    mem := Function.update self.mem i a
    reach := max self.reach (i + 1) }

/-- **A write of some bytes.** -/
def store (self : OutBuf) (i : Nat) : List UInt8 → OutBuf
  | [] => self
  | a :: l => store (self.set i a) (i + 1) l

/-- `buf_size += n`. -/
def advance (n : Nat) : OutBuf := { self with bufSize := self.bufSize + n }

variable {self} {i j : Nat} {l l' : List UInt8}

@[simp] theorem store_nil (self : OutBuf) (i : Nat) : self.store i [] = self := rfl

@[simp] theorem bufSize_store (self : OutBuf) (i : Nat) (l : List UInt8) :
    (self.store i l).bufSize = self.bufSize := by
  induction l generalizing self i with
  | nil => rfl
  | cons a l ih => exact ih _ _

@[simp] theorem capacity_store (self : OutBuf) (i : Nat) (l : List UInt8) :
    (self.store i l).capacity = self.capacity := by
  induction l generalizing self i with
  | nil => rfl
  | cons a l ih => exact ih _ _

theorem store_append (self : OutBuf) (i : Nat) (l l' : List UInt8) :
    self.store i (l ++ l') = (self.store i l).store (i + l.length) l' := by
  induction l generalizing self i with
  | nil => rfl
  | cons a l ih =>
      rw [List.cons_append, store, store, ih, List.length_cons, Nat.add_assoc, Nat.add_comm 1]

/-- What comes before is kept. -/
theorem mem_store_of_lt (self : OutBuf) (l : List UInt8) (h : j < i) : (self.store i l).mem j = self.mem j := by
  induction l generalizing self i with
  | nil => rfl
  | cons a l ih =>
      rw [store, ih _ (Nat.lt_succ_of_lt h)]
      exact Function.update_of_ne (Nat.ne_of_lt h) ..

/-- What comes after is kept. -/
theorem mem_store_of_le (self : OutBuf) (h : i + l.length ≤ j) : (self.store i l).mem j = self.mem j := by
  induction l generalizing self i with
  | nil => rfl
  | cons a l ih =>
      rw [List.length_cons] at h
      rw [store, ih _ (by omega)]
      exact Function.update_of_ne (by omega) ..

/-- The first byte. -/
theorem mem_store_head (self : OutBuf) (i : Nat) (a : UInt8) (l : List UInt8) :
    (self.store i (a :: l)).mem i = a := by
  rw [store, mem_store_of_lt _ _ (Nat.lt_succ_self i)]
  exact Function.update_self ..

/-- The last byte. -/
theorem mem_store_concat (self : OutBuf) (i : Nat) (l : List UInt8) (a : UInt8) :
    (self.store i (l ++ [a])).mem (i + l.length) = a := by
  rw [store_append]
  exact mem_store_head ..

/-- How far it reaches. -/
theorem reach_store_le {n : Nat} (hself : self.reach ≤ n) (h : i + l.length ≤ n) : (self.store i l).reach ≤ n := by
  induction l generalizing self i with
  | nil => exact hself
  | cons a l ih =>
      rw [List.length_cons] at h
      exact ih (Nat.max_le.mpr ⟨hself, by omega⟩) (by omega)

end OutBuf

/-! ## (2) The code -/

namespace OutBuf

variable (self : OutBuf)

/-- `kndOutput_reset`. -/
def reset : OutBuf := { self with bufSize := 0 }.store 0 [0]

/-- `kndOutput_rtrim`. -/
def rtrim (trimSize : Nat) : Except KndErr Unit × OutBuf :=
  if trimSize > self.bufSize then (.error .limit, self)
  else (.ok (), { self with bufSize := self.bufSize - trimSize }.store (self.bufSize - trimSize) [0])

/-- `kndOutput_writec`. -/
def writec (ch : UInt8) : Except KndErr Unit × OutBuf :=
  if self.bufSize ≥ sizeSub self.capacity 1 then (.error .nomem, self)
  else (.ok (), (self.store self.bufSize [ch, 0]).advance 1)

/-- What `vsnprintf` makes of its arguments: a text, or an error after some of it. -/
inductive Formatted
  /-- A text. -/
  | text (l : List UInt8)
  /-- An error. -/
  | error (l : List UInt8)

/-- `vsnprintf` into a buffer of `room` bytes. -/
def vsnprintf (room : Nat) : Formatted → OutBuf
  | .text l => if room = 0 then self else self.store self.bufSize (l.take (room - 1) ++ [0])
  | .error l => if room = 0 then self else self.store self.bufSize (l.take (room - 1))

/-- `kndOutput_writef`. -/
def writef (f : Formatted) : Except KndErr Unit × OutBuf :=
  let room := sizeSub self.capacity self.bufSize
  match f with
  | .error _ => (.error .ioFail, self.vsnprintf room f)
  | .text l =>
      if l.length ≥ room then (.error .nomem, self.vsnprintf room f)
      else (.ok (), (self.vsnprintf room f).advance l.length)

/-- `kndOutput_write`. -/
def write (buf : List UInt8) : Except KndErr Unit × OutBuf :=
  if buf.length > sizeSub (sizeSub self.capacity self.bufSize) 1 then (.error .nomem, self)
  else (.ok (), (self.store self.bufSize (buf ++ [0])).advance buf.length)

end OutBuf

/-- The `switch` of `kndOutput_write_escaped`: what a character gives, and whether it was a white space. -/
def escapeChar (inWhitespace : Bool) (c : UInt8) : List UInt8 × Bool :=
  if c = 123 ∨ c = 125 ∨ c = 34 ∨ c = 39 then ([], inWhitespace)
  else if c = 10 ∨ c = 13 ∨ c = 9 ∨ c = 32 then (if inWhitespace then [] else [32], true)
  else ([c], false)

/-- **What `write_escaped` makes of a text**, after a white space or not. -/
def escape (inWhitespace : Bool) : List UInt8 → List UInt8
  | [] => []
  | c :: cs => (escapeChar inWhitespace c).1 ++ escape (escapeChar inWhitespace c).2 cs

namespace OutBuf

/-- The loop of `kndOutput_write_escaped`. -/
def writeEscapedLoop (freeSpace chunkSize : Nat) (inWhitespace : Bool) (self : OutBuf) :
    List UInt8 → Except KndErr Unit × OutBuf
  | [] => (.ok (), self.advance chunkSize)
  | c :: cs =>
      if chunkSize ≥ freeSpace then (.error .nomem, self)
      else
        writeEscapedLoop freeSpace (chunkSize + (escapeChar inWhitespace c).1.length) (escapeChar inWhitespace c).2
          (self.store (self.bufSize + chunkSize) (escapeChar inWhitespace c).1) cs

variable (self : OutBuf)

/-- `kndOutput_write_escaped`. -/
def writeEscaped (buf : List UInt8) : Except KndErr Unit × OutBuf :=
  writeEscapedLoop (sizeSub self.capacity self.bufSize) 0 false self buf

/-- `kndOutput_write_state_path`. -/
def writeStatePath (state : List UInt8) : Except KndErr Unit × OutBuf :=
  let recSize := state.length * 2 + 1
  if recSize > sizeSub self.capacity self.bufSize then (.error .nomem, self)
  else (.ok (), (self.store self.bufSize (state.flatMap (fun c => [47, c]) ++ [0])).advance recSize)

/-- `kndOutput_write_file_content`, of a file that cannot be opened, or of a size and some bytes that can be read. -/
def writeFileContent (file : Option (Nat × List UInt8)) : Except KndErr Unit × OutBuf :=
  if self.bufSize ≠ 0 then (.error .fail, self)
  else
    match file with
    | none => (.error .ioFail, self)
    | some (fileSize, bytes) =>
        if fileSize > sizeSub (sizeSub self.capacity self.bufSize) 1 then (.error .nomem, self)
        else
          (.ok (), (self.store self.bufSize (bytes.take fileSize ++ [0])).advance (bytes.take fileSize).length)

end OutBuf

open OutBuf

/-! ## (3) Calls -/

/-- A call. -/
inductive Op
  /-- `reset`. -/
  | reset
  /-- `rtrim`. -/
  | rtrim (trimSize : Nat)
  /-- `writec`. -/
  | writec (ch : UInt8)
  /-- `writef`. -/
  | writef (f : Formatted)
  /-- `write`. -/
  | write (buf : List UInt8)
  /-- `write_escaped`. -/
  | writeEscaped (buf : List UInt8)
  /-- `write_state_path`. -/
  | writeStatePath (state : List UInt8)
  /-- `write_file_content`. -/
  | writeFileContent (file : Option (Nat × List UInt8))

/-- **A call.** -/
def Op.apply (self : OutBuf) : Op → Except KndErr Unit × OutBuf
  | .reset => (.ok (), self.reset)
  | .rtrim trimSize => self.rtrim trimSize
  | .writec ch => self.writec ch
  | .writef f => self.writef f
  | .write buf => self.write buf
  | .writeEscaped buf => self.writeEscaped buf
  | .writeStatePath state => self.writeStatePath state
  | .writeFileContent file => self.writeFileContent file

/-- `knd_output_new`: the memory is as it is found. -/
def kndOutputNew (mem : Nat → UInt8) (capacity : Nat) (capacity_lt : capacity < 2 ^ 64) : OutBuf :=
  { mem, capacity, capacity_lt }

/-- **The buffer is intact.** -/
structure Intact (s : OutBuf) : Prop where
  /-- `buf_size` is below the capacity. -/
  size_lt : s.bufSize < s.capacity
  /-- A NUL follows. -/
  terminated : s.mem s.bufSize = 0
  /-- Nothing was written past the end. -/
  within : s.reach ≤ s.capacity

/-- **A call that fails** leaves `buf_size` and the bytes before. -/
structure Unchanged (s s' : OutBuf) : Prop where
  /-- `buf_size`. -/
  bufSize : s'.bufSize = s.bufSize
  /-- The bytes. -/
  mem : ∀ i, i < s.bufSize → s'.mem i = s.mem i

/-- **The buffer is kept** in a sequence of calls. -/
def Keeps (s : OutBuf) : List Op → Prop
  | [] => Intact s
  | op :: ops =>
      Intact s ∧ (∀ e, (op.apply s).1 = .error e → Unchanged s (op.apply s).2) ∧ Keeps (op.apply s).2 ops

/-- The bytes are none, or begin with a NUL. -/
def NulFirst (l : List UInt8) : Prop := ∀ a, l.head? = some a → a = 0

/-- The byte at a place of the buffer is a NUL. -/
def OutBuf.NulAt (s : OutBuf) (i : Nat) : Prop := i < s.capacity ∧ s.mem i = 0

/-- **A safe call.** What is written after `buf_size` by a call that fails begins with a NUL, and `write_escaped` and
`write_state_path`, which do not write one, meet one. -/
def Safe (s : OutBuf) : Op → Prop
  | .writef (.text l) => l.length < s.capacity - s.bufSize ∨ NulFirst (l.take (s.capacity - s.bufSize - 1))
  | .writef (.error l) => NulFirst (l.take (s.capacity - s.bufSize - 1))
  | .writeEscaped buf =>
      if buf ≠ [] ∧ s.capacity - s.bufSize ≤ (escape false buf.dropLast).length then NulFirst (escape false buf)
      else s.NulAt (s.bufSize + (escape false buf).length)
  | .writeStatePath state =>
      s.capacity - s.bufSize < state.length * 2 + 1 ∨ s.NulAt (s.bufSize + (state.length * 2 + 1))
  | _ => True

/-! ## (4) One call -/

section Calls

variable {s : OutBuf} {l : List UInt8}

theorem sizeSub_of_le {a b : Nat} (h : b ≤ a) (ha : a < 2 ^ 64) : sizeSub a b = a - b := by
  rw [sizeSub]
  omega

/-- The room after `buf_size`. -/
theorem Intact.room (h : Intact s) : sizeSub s.capacity s.bufSize = s.capacity - s.bufSize :=
  sizeSub_of_le (Nat.le_of_lt h.size_lt) s.capacity_lt

/-- The room before the last place. -/
theorem Intact.room_pred (h : Intact s) :
    sizeSub (sizeSub s.capacity s.bufSize) 1 = s.capacity - s.bufSize - 1 := by
  have hlt := h.size_lt
  have hcap := s.capacity_lt
  rw [h.room]
  exact sizeSub_of_le (by omega) (by omega)

/-- A write after `buf_size` leaves what comes before. -/
theorem unchanged_store (s : OutBuf) (l : List UInt8) : Unchanged s (s.store s.bufSize l) :=
  ⟨bufSize_store .., fun _ hi => mem_store_of_lt _ _ hi⟩

theorem Unchanged.refl (s : OutBuf) : Unchanged s s := ⟨rfl, fun _ _ => rfl⟩

/-- A write after `buf_size` that is not counted. -/
theorem Intact.store_iff (h : Intact s) (hroom : s.bufSize + l.length ≤ s.capacity) :
    Intact (s.store s.bufSize l) ↔ NulFirst l := by
  have hsize : (s.store s.bufSize l).bufSize < (s.store s.bufSize l).capacity := by
    rw [bufSize_store, capacity_store]
    exact h.size_lt
  have hwithin : (s.store s.bufSize l).reach ≤ (s.store s.bufSize l).capacity := by
    rw [capacity_store]
    exact reach_store_le h.within hroom
  have hmem : (s.store s.bufSize l).mem s.bufSize = 0 ↔ NulFirst l := by
    cases l with
    | nil => exact iff_of_true h.terminated fun a ha => by cases ha
    | cons a l =>
        rw [mem_store_head, NulFirst]
        simp
  refine ⟨fun hintact => hmem.mp ?_, fun hfirst => ⟨hsize, ?_, hwithin⟩⟩
  · have hterminated := hintact.terminated
    rwa [bufSize_store] at hterminated
  · rw [bufSize_store]
    exact hmem.mpr hfirst

/-- A write that is counted up to its last byte, a NUL. -/
theorem Intact.store_terminated (h : Intact s) (hroom : s.bufSize + l.length < s.capacity) :
    Intact ((s.store s.bufSize (l ++ [0])).advance l.length) := by
  refine ⟨?_, ?_, ?_⟩
  · show (s.store s.bufSize (l ++ [0])).bufSize + l.length < (s.store s.bufSize (l ++ [0])).capacity
    rw [bufSize_store, capacity_store]
    exact hroom
  · show (s.store s.bufSize (l ++ [0])).mem ((s.store s.bufSize (l ++ [0])).bufSize + l.length) = 0
    rw [bufSize_store]
    exact mem_store_concat ..
  · show (s.store s.bufSize (l ++ [0])).reach ≤ (s.store s.bufSize (l ++ [0])).capacity
    rw [capacity_store]
    refine reach_store_le h.within ?_
    rw [List.length_append, List.length_singleton]
    omega

/-- A write that is counted wholly meets a NUL or does not. -/
theorem Intact.store_advance_iff (h : Intact s) (hroom : s.bufSize + l.length ≤ s.capacity) :
    Intact ((s.store s.bufSize l).advance l.length) ↔ s.NulAt (s.bufSize + l.length) := by
  have hsize : (s.store s.bufSize l).bufSize + l.length < (s.store s.bufSize l).capacity ↔
      s.bufSize + l.length < s.capacity := by rw [bufSize_store, capacity_store]
  have hmem : (s.store s.bufSize l).mem ((s.store s.bufSize l).bufSize + l.length) = 0 ↔
      s.mem (s.bufSize + l.length) = 0 := by
    rw [bufSize_store, mem_store_of_le s le_rfl]
  refine ⟨fun hintact => ⟨hsize.mp hintact.size_lt, hmem.mp hintact.terminated⟩,
    fun hnul => ⟨hsize.mpr hnul.1, hmem.mpr hnul.2, ?_⟩⟩
  show (s.store s.bufSize l).reach ≤ (s.store s.bufSize l).capacity
  rw [capacity_store]
  exact reach_store_le h.within hroom

/-! ### `write_escaped` -/

/-- At most one byte for a character. -/
theorem length_escapeChar_le (ws : Bool) (c : UInt8) : (escapeChar ws c).1.length ≤ 1 := by
  rw [escapeChar]
  split_ifs <;> simp

/-- **The loop of `write_escaped`** fails when the room is used up before the last character. -/
theorem writeEscapedLoop_eq {room chunk : Nat} (hchunk : chunk ≤ room) (ws : Bool) (s : OutBuf) (cs : List UInt8) :
    if cs ≠ [] ∧ room ≤ chunk + (escape ws cs.dropLast).length then
      ∃ l, l <+: escape ws cs ∧ chunk + l.length = room ∧
        writeEscapedLoop room chunk ws s cs = (.error .nomem, s.store (s.bufSize + chunk) l)
    else
      chunk + (escape ws cs).length ≤ room ∧
        writeEscapedLoop room chunk ws s cs =
          (.ok (), (s.store (s.bufSize + chunk) (escape ws cs)).advance (chunk + (escape ws cs).length)) := by
  induction cs generalizing chunk ws s with
  | nil =>
      rw [if_neg (by simp)]
      exact ⟨hchunk, rfl⟩
  | cons c cs ih =>
      rw [writeEscapedLoop]
      by_cases hfull : chunk ≥ room
      · rw [if_pos ⟨List.cons_ne_nil _ _, by omega⟩, if_pos hfull]
        exact ⟨[], List.nil_prefix, by rw [List.length_nil]; omega, rfl⟩
      rw [if_neg hfull]
      have hone := length_escapeChar_le ws c
      have hleft : chunk + (escapeChar ws c).1.length ≤ room := by omega
      have hih := ih hleft (escapeChar ws c).2 (s.store (s.bufSize + chunk) (escapeChar ws c).1)
      rw [bufSize_store] at hih
      have hlength : ∀ cs, (escape ws (c :: cs)).length =
          (escapeChar ws c).1.length + (escape (escapeChar ws c).2 cs).length := by
        intro cs
        rw [escape, List.length_append]
      -- the last character is written while there is room
      have hcond : (c :: cs ≠ [] ∧ room ≤ chunk + (escape ws (c :: cs).dropLast).length) ↔
          cs ≠ [] ∧ room ≤ chunk + (escapeChar ws c).1.length + (escape (escapeChar ws c).2 cs.dropLast).length := by
        cases cs with
        | nil =>
            have hnil : (escape ws [c].dropLast).length = 0 := rfl
            rw [hnil]
            simp only [ne_eq, List.cons_ne_self, not_false_eq_true, true_and, not_true_eq_false, false_and, iff_false]
            omega
        | cons c' cs =>
            rw [List.dropLast_cons_cons, hlength]
            simp [Nat.add_assoc]
      by_cases hfail : cs ≠ [] ∧
          room ≤ chunk + (escapeChar ws c).1.length + (escape (escapeChar ws c).2 cs.dropLast).length
      · rw [if_pos hfail] at hih
        rw [if_pos (hcond.mpr hfail)]
        obtain ⟨l, hl, hlen, hrun⟩ := hih
        refine ⟨(escapeChar ws c).1 ++ l, ?_, ?_, ?_⟩
        · rw [escape]
          exact (List.prefix_append_right_inj _).mpr hl
        · rw [List.length_append]
          omega
        · rw [hrun, store_append, Nat.add_assoc]
      · rw [if_neg hfail] at hih
        rw [if_neg (mt hcond.mp hfail), hlength, hih.2]
        refine ⟨by omega, ?_⟩
        rw [escape, store_append]
        simp only [Nat.add_assoc]

/-- A call of `write_escaped`. -/
theorem Intact.writeEscaped (h : Intact s) (buf : List UInt8) :
    (∀ e, (s.writeEscaped buf).1 = .error e → Unchanged s (s.writeEscaped buf).2) ∧
      (Intact (s.writeEscaped buf).2 ↔ Safe s (.writeEscaped buf)) := by
  have hlt := h.size_lt
  have hloop := writeEscapedLoop_eq (Nat.zero_le (s.capacity - s.bufSize)) false s buf
  rw [OutBuf.writeEscaped, h.room, Safe]
  simp only [Nat.zero_add, Nat.add_zero] at hloop
  by_cases hfail : buf ≠ [] ∧ s.capacity - s.bufSize ≤ (escape false buf.dropLast).length
  · rw [if_pos hfail] at hloop ⊢
    obtain ⟨l, hl, hlen, hrun⟩ := hloop
    rw [hrun]
    refine ⟨fun _ _ => unchanged_store s l, (h.store_iff (by omega)).trans ?_⟩
    -- at least one byte was written
    obtain ⟨rest, hrest⟩ := hl
    cases l with
    | nil =>
        rw [List.length_nil] at hlen
        omega
    | cons a l =>
        rw [← hrest, NulFirst, NulFirst]
        exact Iff.rfl
  · rw [if_neg hfail] at hloop ⊢
    rw [hloop.2]
    exact ⟨fun e he => (by cases he), h.store_advance_iff (by omega)⟩

/-! ### The other calls -/

/-- A call of `writef`. -/
theorem Intact.writef (h : Intact s) (f : Formatted) :
    (∀ e, (s.writef f).1 = .error e → Unchanged s (s.writef f).2) ∧
      (Intact (s.writef f).2 ↔ Safe s (.writef f)) := by
  have hlt := h.size_lt
  have hroom : ¬s.capacity - s.bufSize = 0 := by omega
  have htake : ∀ l : List UInt8, (l.take (s.capacity - s.bufSize - 1)).length ≤ s.capacity - s.bufSize - 1 :=
    fun l => List.length_take_le _ _
  cases f with
  | error l =>
      have hl := htake l
      rw [OutBuf.writef, h.room]
      simp only [vsnprintf, if_neg hroom]
      exact ⟨fun _ _ => unchanged_store s _, h.store_iff (by omega)⟩
  | text l =>
      have hl := htake l
      rw [OutBuf.writef, h.room]
      simp only [vsnprintf, if_neg hroom]
      by_cases hfull : l.length ≥ s.capacity - s.bufSize
      · rw [if_pos hfull]
        refine ⟨fun _ _ => unchanged_store s _, (h.store_iff ?_).trans ?_⟩
        · rw [List.length_append, List.length_singleton]
          omega
        · rw [Safe, or_iff_right (by omega)]
          cases l.take (s.capacity - s.bufSize - 1) with
          | nil => simp [NulFirst]
          | cons a l => exact Iff.rfl
      · rw [if_neg hfull]
        have hall : l.take (s.capacity - s.bufSize - 1) = l := List.take_of_length_le (by omega)
        rw [hall]
        exact ⟨fun e he => (by cases he), iff_of_true (h.store_terminated (by omega)) (.inl (by omega))⟩

/-- A call of `write_state_path`. -/
theorem Intact.writeStatePath (h : Intact s) (state : List UInt8) :
    (∀ e, (s.writeStatePath state).1 = .error e → Unchanged s (s.writeStatePath state).2) ∧
      (Intact (s.writeStatePath state).2 ↔ Safe s (.writeStatePath state)) := by
  have hlt := h.size_lt
  have hlength : (state.flatMap (fun c => [47, c]) ++ [0]).length = state.length * 2 + 1 := by
    rw [List.length_append, List.length_singleton, List.length_flatMap]
    simp
  rw [OutBuf.writeStatePath, h.room, Safe]
  by_cases hfull : state.length * 2 + 1 > s.capacity - s.bufSize
  · simp only [if_pos hfull]
    exact ⟨fun _ _ => .refl s, iff_of_true h (.inl hfull)⟩
  · simp only [if_neg hfull]
    rw [or_iff_right (by omega), ← hlength]
    exact ⟨fun e he => (by cases he), h.store_advance_iff (by omega)⟩

/-- **A call on an intact buffer**: a failure leaves what was there, and the buffer stays intact if and only if the
call is safe. -/
theorem Intact.apply (h : Intact s) (op : Op) :
    (∀ e, (op.apply s).1 = .error e → Unchanged s (op.apply s).2) ∧ (Intact (op.apply s).2 ↔ Safe s op) := by
  have hlt := h.size_lt
  cases op with
  | reset =>
      refine ⟨fun e he => (by cases he), iff_of_true ⟨?_, mem_store_head .., ?_⟩ trivial⟩
      · show 0 < s.capacity
        omega
      · exact reach_store_le h.within (by show 0 + 1 ≤ s.capacity; omega)
  | rtrim trimSize =>
      rw [Op.apply, OutBuf.rtrim]
      by_cases hlimit : trimSize > s.bufSize
      · rw [if_pos hlimit]
        exact ⟨fun _ _ => .refl s, iff_of_true h trivial⟩
      · rw [if_neg hlimit]
        refine ⟨fun e he => (by cases he), iff_of_true ⟨?_, mem_store_head .., ?_⟩ trivial⟩
        · show s.bufSize - trimSize < s.capacity
          omega
        · exact reach_store_le h.within (by show s.bufSize - trimSize + 1 ≤ s.capacity; omega)
  | writec ch =>
      rw [Op.apply, OutBuf.writec, sizeSub_of_le (by omega) s.capacity_lt]
      by_cases hfull : s.bufSize ≥ s.capacity - 1
      · rw [if_pos hfull]
        exact ⟨fun _ _ => .refl s, iff_of_true h trivial⟩
      · rw [if_neg hfull]
        exact ⟨fun e he => (by cases he),
          iff_of_true (h.store_terminated (l := [ch]) (by rw [List.length_singleton]; omega)) trivial⟩
  | writef f => exact h.writef f
  | write buf =>
      rw [Op.apply, OutBuf.write, h.room_pred]
      by_cases hfull : buf.length > s.capacity - s.bufSize - 1
      · rw [if_pos hfull]
        exact ⟨fun _ _ => .refl s, iff_of_true h trivial⟩
      · rw [if_neg hfull]
        exact ⟨fun e he => (by cases he), iff_of_true (h.store_terminated (by omega)) trivial⟩
  | writeEscaped buf => exact h.writeEscaped buf
  | writeStatePath state => exact h.writeStatePath state
  | writeFileContent file =>
      rw [Op.apply]
      unfold OutBuf.writeFileContent
      by_cases hused : s.bufSize ≠ 0
      · rw [if_pos hused]
        exact ⟨fun _ _ => .refl s, iff_of_true h trivial⟩
      · rw [if_neg hused]
        cases file with
        | none => exact ⟨fun _ _ => .refl s, iff_of_true h trivial⟩
        | some file =>
            simp only [h.room_pred]
            by_cases hfull : file.1 > s.capacity - s.bufSize - 1
            · rw [if_pos hfull]
              exact ⟨fun _ _ => .refl s, iff_of_true h trivial⟩
            · rw [if_neg hfull]
              have htake : (file.2.take file.1).length ≤ file.1 := List.length_take_le _ _
              exact ⟨fun e he => (by cases he), iff_of_true (h.store_terminated (by omega)) trivial⟩

/-! ## (5) Sequences of calls -/

theorem Keeps.intact {ops : List Op} (h : Keeps s ops) : Intact s := by
  cases ops with
  | nil => exact h
  | cons op ops => exact h.1

/-- **From an intact buffer.** -/
theorem Intact.keeps_iff_safe (h : Intact s) (ops : List Op) :
    Keeps s ops ↔ AllAllowed (fun s op => (Op.apply s op).2) Safe s ops := by
  induction ops generalizing s with
  | nil => exact iff_of_true h trivial
  | cons op ops ih =>
      obtain ⟨herror, hsafe⟩ := h.apply op
      constructor
      · rintro ⟨-, -, hrest⟩
        have hnext := hrest.intact
        exact ⟨hsafe.mp hnext, (ih hnext).mp hrest⟩
      · rintro ⟨hop, hall⟩
        exact ⟨h, herror, (ih (hsafe.mpr hop)).mpr hall⟩

/-- **When the buffer is kept.** In every sequence of calls on a new output, of any capacity and with any memory, the
buffer is intact and a call that fails leaves what was there, if and only if the memory begins with a NUL and every
call is safe. -/
theorem keeps_iff (mem : Nat → UInt8) (capacity : Nat) (capacity_lt : capacity < 2 ^ 64) (ops : List Op) :
    Keeps (kndOutputNew mem capacity capacity_lt) ops ↔
      (0 < capacity ∧ mem 0 = 0) ∧
        AllAllowed (fun s op => (Op.apply s op).2) Safe (kndOutputNew mem capacity capacity_lt) ops := by
  have hnew : Intact (kndOutputNew mem capacity capacity_lt) ↔ 0 < capacity ∧ mem 0 = 0 :=
    ⟨fun h => ⟨h.size_lt, h.terminated⟩, fun h => ⟨h.1, h.2, Nat.zero_le _⟩⟩
  constructor
  · intro hkeeps
    exact ⟨hnew.mp hkeeps.intact, (hkeeps.intact.keeps_iff_safe ops).mp hkeeps⟩
  · rintro ⟨hstart, hall⟩
    exact ((hnew.mpr hstart).keeps_iff_safe ops).mpr hall

end Calls

/-- A short text is written and trimmed. -/
theorem keeps_iff_trimmed :
    Keeps (kndOutputNew (fun _ => 0) 8 (by decide)) [.write [97, 98], .rtrim 1, .writec 99] ↔
      (0 < 8 ∧ (0 : UInt8) = 0) ∧ AllAllowed (fun s op => (Op.apply s op).2) Safe
        (kndOutputNew (fun _ => 0) 8 (by decide)) [.write [97, 98], .rtrim 1, .writec 99] :=
  keeps_iff (fun _ => 0) 8 (by decide) _

/-- **`write_escaped` fills the buffer wholly**, and the next `write` goes past its end. -/
theorem not_keeps_filled :
    ¬Keeps (kndOutputNew (fun _ => 0) 4 (by decide)) [.writeEscaped [97, 98, 99, 100], .write [101, 102]] ∧
      (([.writeEscaped [97, 98, 99, 100], .write [101, 102]] : List Op).foldl (fun s op => (Op.apply s op).2)
        (kndOutputNew (fun _ => 0) 4 (by decide))).reach = 7 := by
  refine ⟨fun h => ?_, by decide +kernel⟩
  have hsize := h.2.2.intact.size_lt
  revert hsize
  decide +kernel

end Knowdy.OutputBuffer
