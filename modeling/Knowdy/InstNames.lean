import Knowdy.EntryNames
import Mathlib.Data.List.Forall2

/-! # Names of class instances across a snapshot

`knd_class_inst_marshall` writes the raw name of an instance in front of its alias, position and attributes;
`knd_class_inst_entry_unmarshall` reads it back as `Knowdy.EntryNames` describes.

* `ExportedInst`, `kndClassInstExportGSP`, `kndClassInstMarshall` — the writer.
* `Survives` — what a name, the string index and the bytes behind the record must be like.
* `foldlM_entryUnmarshall_iff` — when a load of entries succeeds.
* `names_survive_iff` — **all names come back** if and only if they are different and each survives. -/

namespace Knowdy

open Checked

/-! ## (1) The writer -/

/-- An attribute variable as `knd_attr_vars_export_GSP` writes it. -/
structure AttrVarGsp where
  /-- `attr->is_a_set`. -/
  isASet : Bool
  /-- `attr->id`. -/
  id : List UInt8
  /-- What the exporter of the value writes. -/
  body : List UInt8

/-- `struct kndClassInst`, as far as `knd_class_inst_export_GSP` reads it. -/
structure ExportedInst where
  /-- `name`, empty for an instance without a name. -/
  name : Name
  /-- `alias` and `alias_size`. -/
  aliasName : List UInt8 := []
  /-- `linear_pos`. -/
  linearPos : Nat := 0
  /-- `linear_len`. -/
  linearLen : Nat := 0
  /-- `class_var->attrs`. -/
  attrs : List AttrVarGsp := []

/-- One round of `knd_attr_vars_export_GSP`: `[id…]` or `{id …}`. -/
def exportAttrVar (out : Output) (item : AttrVarGsp) : Except KndErr Output := do
  if item.isASet then
    let out ← out.write [91]
    let out ← out.write item.id
    let out ← out.write item.body
    out.write [93]
  else
    let out ← out.write [123]
    let out ← out.write item.id
    let out ← out.write [32]
    let out ← out.write item.body
    out.write [125]

/-- `knd_attr_vars_export_GSP`. -/
def kndAttrVarsExportGSP (items : List AttrVarGsp) (out : Output) : Except KndErr Output :=
  items.foldlM exportAttrVar out

/-- `knd_class_inst_export_GSP`. -/
def kndClassInstExportGSP (useAlias : Bool) (self : ExportedInst) (out : Output) : Except KndErr Output := do
  let out ← out.write self.name
  let out ← (if useAlias ∧ self.aliasName ≠ [] then do
    let out ← out.write [123, 95, 97, 115, 32]   -- `{_as `
    let out ← out.write self.aliasName
    out.writec 125
    else pure out)
  let out ← (if self.linearPos ≠ 0 then do
    let out ← out.write [123, 95, 112, 111, 115, 32]   -- `{_pos `
    let out ← out.write (decimalBytes self.linearPos)
    out.writec 125
    else pure out)
  let out ← (if self.linearLen ≠ 0 then do
    let out ← out.write [123, 95, 108, 101, 110, 32]   -- `{_len `
    let out ← out.write (decimalBytes self.linearLen)
    out.writec 125
    else pure out)
  kndAttrVarsExportGSP self.attrs out

/-- `knd_class_inst_marshall`. -/
def kndClassInstMarshall (useAlias : Bool) : ElemMarshallCb ExportedInst := fun inst out => do
  let out' ← kndClassInstExportGSP useAlias inst out
  return (out'.buf.length - out.buf.length, out')

/-! ## (2) The record of an instance -/

/-- A field in braces. -/
def braced (tag body : List UInt8) : List UInt8 := tag ++ body ++ [125]

/-- The text of an attribute variable. -/
def AttrVarGsp.text (item : AttrVarGsp) : List UInt8 :=
  if item.isASet then [91] ++ item.id ++ item.body ++ [93]
  else [123] ++ item.id ++ [32] ++ item.body ++ [125]

/-- What the record of an instance has behind the name. -/
def ExportedInst.tail (useAlias : Bool) (self : ExportedInst) : List UInt8 :=
  (if useAlias ∧ self.aliasName ≠ [] then braced [123, 95, 97, 115, 32] self.aliasName else []) ++
    (if self.linearPos ≠ 0 then braced [123, 95, 112, 111, 115, 32] (decimalBytes self.linearPos) else []) ++
    (if self.linearLen ≠ 0 then braced [123, 95, 108, 101, 110, 32] (decimalBytes self.linearLen) else []) ++
    self.attrs.flatMap AttrVarGsp.text

/-- **The record of an instance.** -/
def ExportedInst.gsp (useAlias : Bool) (self : ExportedInst) : List UInt8 := self.name ++ self.tail useAlias

theorem exportAttrVar_ok {out out' : Output} {item : AttrVarGsp} (h : exportAttrVar out item = .ok out') :
    out' = out.append item.text := by
  rw [exportAttrVar] at h
  rw [AttrVarGsp.text]
  split_ifs at h ⊢
  · simp only [bind_eq_ok] at h
    obtain ⟨out₁, h₁, out₂, h₂, out₃, h₃, h₄⟩ := h
    rw [Output.eq_append_of_write h₄, Output.eq_append_of_write h₃, Output.eq_append_of_write h₂,
      Output.eq_append_of_write h₁]
    simp only [Output.append_append]
  · simp only [bind_eq_ok] at h
    obtain ⟨out₁, h₁, out₂, h₂, out₃, h₃, out₄, h₄, h₅⟩ := h
    rw [Output.eq_append_of_write h₅, Output.eq_append_of_write h₄, Output.eq_append_of_write h₃,
      Output.eq_append_of_write h₂, Output.eq_append_of_write h₁]
    simp only [Output.append_append]

theorem kndAttrVarsExportGSP_ok {items : List AttrVarGsp} {out out' : Output}
    (h : kndAttrVarsExportGSP items out = .ok out') : out' = out.append (items.flatMap AttrVarGsp.text) := by
  induction items generalizing out with
  | nil =>
      cases h
      simp
  | cons item items ih =>
      rw [kndAttrVarsExportGSP, List.foldlM_cons, bind_eq_ok] at h
      obtain ⟨out₁, hitem, hitems⟩ := h
      rw [ih hitems, exportAttrVar_ok hitem, Output.append_append, List.flatMap_cons]

/-- A successful export has appended the record. -/
theorem kndClassInstExportGSP_ok {useAlias : Bool} {self : ExportedInst} {out out' : Output}
    (h : kndClassInstExportGSP useAlias self out = .ok out') : out' = out.append (self.gsp useAlias) := by
  have hfield : ∀ {p : Prop} [Decidable p] {tag body : List UInt8} {o o' : Output},
      (if p then (do
        let o ← o.write tag
        let o ← o.write body
        o.writec 125) else pure o) = Except.ok o' → o' = o.append (if p then braced tag body else []) := by
    intro p _ tag body o o' ho
    split_ifs at ho ⊢
    · simp only [bind_eq_ok] at ho
      obtain ⟨o₁, h₁, o₂, h₂, h₃⟩ := ho
      rw [Output.eq_append_of_writec h₃, Output.eq_append_of_write h₂, Output.eq_append_of_write h₁]
      simp only [Output.append_append, braced]
    · cases ho
      rw [Output.append_nil]
  rw [kndClassInstExportGSP, bind_eq_ok] at h
  obtain ⟨out₁, hname, h⟩ := h
  rw [bind_eq_ok] at h
  obtain ⟨out₂, halias, h⟩ := h
  rw [bind_eq_ok] at h
  obtain ⟨out₃, hpos, h⟩ := h
  rw [bind_eq_ok] at h
  obtain ⟨out₄, hlen, hattrs⟩ := h
  rw [kndAttrVarsExportGSP_ok hattrs, hfield hlen, hfield hpos, hfield halias, Output.eq_append_of_write hname]
  simp only [Output.append_append, ExportedInst.gsp, ExportedInst.tail, List.append_assoc]

/-- The callback writes the record of an instance, if it has one. -/
theorem marshalls_kndClassInstMarshall {useAlias : Bool} {inst : ExportedInst} (hne : inst.gsp useAlias ≠ [])
    (hnul : 0 ∉ inst.gsp useAlias) :
    Marshalls (kndClassInstMarshall useAlias) (ExportedInst.gsp useAlias) inst where
  ne_nil := hne
  no_nul := hnul
  writes := by
    intro out n out' h
    simp only [kndClassInstMarshall, bind_eq_ok, pure_eq_ok, Prod.mk.injEq] at h
    obtain ⟨out₁, hexport, rfl, rfl⟩ := h
    rw [kndClassInstExportGSP_ok hexport, Output.append_buf, List.length_append, Nat.add_sub_cancel_left]
    exact ⟨rfl, rfl⟩

/-! ## (3) A load of entries -/

section Load

variable {entryName : Name → GspM (Name × Option CharSeq)}

/-- The name that the bytes from a record on give. -/
def readName (entryName : Name → GspM (Name × Option CharSeq)) (mem : List UInt8) :
    GspM (Name × Option CharSeq) := scanName mem >>= entryName

theorem taken_push_valid {α : Type} (self : SharedDict α) (key key' : Name) (data : α) :
    (self.push ⟨.valid, key, data, []⟩).Taken key' ↔ key' = key ∨ self.Taken key' := by
  rw [SharedDict.Taken, SharedDict.item?_push]
  by_cases h : key' = key
  · simp [h]
  · simp [h, SharedDict.Taken]

/-- What a call of the callback has done when it returns. -/
theorem entryUnmarshall_ok {id mem : List UInt8} {n : Nat} {self self' : EntryLoad}
    (h : entryUnmarshall entryName id mem n self = .ok self') :
    ∃ p, readName entryName mem = .ok p ∧ ¬self.nameIdx.Taken p.1 ∧
      (∀ v, self'.nameIdx.Taken v ↔ v = p.1 ∨ self.nameIdx.Taken v) ∧
      ∀ id' e, kndSharedSetGet self'.idx id' = .ok e ↔
        if id' = id then ⟨id, p.1, p.2⟩ = e else kndSharedSetGet self.idx id' = .ok e := by
  obtain ⟨entry, rfl, hread, hfree, hname, hadd⟩ := entryUnmarshall_registers h
  refine ⟨(entry.name, entry.seq), hread, hfree, fun v => ?_, kndSharedSetAdd_ok hadd⟩
  rw [hname]
  exact taken_push_valid _ _ v _

/-- A call returns when the pages suffice, the record has a name that is not taken, and the id is free. -/
theorem entryUnmarshall_of {mem : List UInt8} {n : Nat} {self : EntryLoad} {p : Name × Option CharSeq}
    {ds : List Digit} (hpages : self.smallPages ≠ 0) (hpool : self.mempool.tinyPages ≠ 0)
    (hread : readName entryName mem = .ok p) (htaken : ¬self.nameIdx.Taken p.1) (hds : ds ≠ [])
    (hfree : ∀ e, kndSharedSetGet self.idx (digitsKey ds) ≠ .ok e) :
    ∃ self', entryUnmarshall entryName (digitsKey ds) mem n self = .ok self' ∧
      self.smallPages = self'.smallPages + 1 ∧ self.mempool.tinyPages = self'.mempool.tinyPages + 1 := by
  obtain ⟨name, hname, hp⟩ := Checked.bind_eq_ok.mp hread
  obtain ⟨v, seq⟩ := p
  obtain ⟨k, hk⟩ : ∃ k, self.mempool = ⟨k + 1⟩ := by
    obtain ⟨k, hk⟩ := Nat.exists_eq_succ_of_ne_zero hpool
    exact ⟨k, congrArg MemPool.mk hk⟩
  have hset : kndSharedDictSet self.nameIdx self.mempool v ⟨digitsKey ds, v, seq⟩ none false
      = (.ok (⟨.valid, v, ⟨digitsKey ds, v, seq⟩, []⟩,
        self.nameIdx.push ⟨.valid, v, ⟨digitsKey ds, v, seq⟩, []⟩), ⟨k⟩) := by
    rw [kndSharedDictSet_of_not_taken htaken, hk]
    rfl
  obtain ⟨idx, hadd⟩ := kndSharedSetAdd_of_free hds hfree (⟨digitsKey ds, v, seq⟩ : IdxEntry)
  refine ⟨{ self with
    nameIdx := self.nameIdx.push ⟨.valid, v, ⟨digitsKey ds, v, seq⟩, []⟩
    mempool := ⟨k⟩
    idx
    smallPages := self.smallPages - 1 }, ?_, ?_, ?_⟩
  · rw [entryUnmarshall, ensure_of hpages, ok_bind, hname, ok_bind, hp, ok_bind]
    simp only [registerEntry, hset, hadd]
  · exact (Nat.succ_pred_eq_of_ne_zero hpages).symm
  · rw [hk]

/-- The calls of a load, with their ids and the memories from their records on. -/
abbrev Calls := List (List UInt8 × List UInt8)

/-- A load. -/
def runCalls (entryName : Name → GspM (Name × Option CharSeq)) (calls : Calls) (self : EntryLoad) :
    GspM EntryLoad :=
  calls.foldlM (fun self c => entryUnmarshall entryName c.1 c.2 0 self) self

/-- **A load that returns** has read different names, and has an entry for each call. -/
theorem runCalls_ok {calls : Calls} {self self' : EntryLoad} (h : runCalls entryName calls self = .ok self')
    (hids : (calls.map Prod.fst).Nodup) :
    ∃ names : List (Name × Option CharSeq), calls.map (readName entryName ·.2) = names.map .ok ∧
      (names.map Prod.fst).Nodup ∧ (∀ p ∈ names, ¬self.nameIdx.Taken p.1) ∧
      (∀ id e, id ∉ calls.map Prod.fst →
        (kndSharedSetGet self'.idx id = .ok e ↔ kndSharedSetGet self.idx id = .ok e)) ∧
      ∀ c ∈ calls, ∃ p, readName entryName c.2 = .ok p ∧
        kndSharedSetGet self'.idx c.1 = .ok ⟨c.1, p.1, p.2⟩ := by
  induction calls generalizing self with
  | nil =>
      cases h
      exact ⟨[], rfl, List.nodup_nil, by simp, fun _ _ _ => Iff.rfl, by simp⟩
  | cons c calls ih =>
      rw [runCalls, List.foldlM_cons] at h
      obtain ⟨self₁, hcall, hrest⟩ := Checked.bind_eq_ok.mp h
      obtain ⟨p, hread, hfree, htaken, hget⟩ := entryUnmarshall_ok hcall
      rw [List.map_cons, List.nodup_cons] at hids
      obtain ⟨names, hmap, hnodup, hnew, hother, hentries⟩ := ih hrest hids.2
      refine ⟨p :: names, ?_, ?_, ?_, ?_, ?_⟩
      · rw [List.map_cons, List.map_cons, hread, hmap]
      · -- the names behind it are not taken after this call
        rw [List.map_cons, List.nodup_cons]
        refine ⟨fun hmem => ?_, hnodup⟩
        obtain ⟨q, hq, heq⟩ := List.mem_map.mp hmem
        exact hnew q hq ((htaken _).mpr (.inl heq))
      · intro q hq
        rcases List.mem_cons.mp hq with rfl | hq
        · exact hfree
        · exact fun hold => hnew q hq ((htaken _).mpr (.inr hold))
      · intro id e hid
        rw [List.map_cons, List.mem_cons, not_or] at hid
        rw [hother id e hid.2, hget, if_neg hid.1]
      · intro d hd
        rcases List.mem_cons.mp hd with rfl | hd
        · exact ⟨p, hread, (hother _ _ hids.1).mpr ((hget _ _).mpr (by rw [if_pos rfl]))⟩
        · exact hentries d hd

/-- **A load returns** when its pages suffice, its ids are free, and the names it reads are different and free. -/
theorem runCalls_of {calls : Calls} {self : EntryLoad} (hpages : calls.length ≤ self.smallPages)
    (hpool : calls.length ≤ self.mempool.tinyPages) (hids : (calls.map Prod.fst).Nodup)
    (hkeys : ∀ c ∈ calls, ∃ ds, ds ≠ [] ∧ c.1 = digitsKey ds)
    (hfree : ∀ c ∈ calls, ∀ e, kndSharedSetGet self.idx c.1 ≠ .ok e)
    {names : List (Name × Option CharSeq)} (hmap : calls.map (readName entryName ·.2) = names.map .ok)
    (hnodup : (names.map Prod.fst).Nodup) (hnew : ∀ p ∈ names, ¬self.nameIdx.Taken p.1) :
    Returns (runCalls entryName calls self) := by
  induction calls generalizing self names with
  | nil => exact returns_ok _
  | cons c calls ih =>
      cases names with
      | nil => cases hmap
      | cons p names =>
          rw [List.map_cons, List.map_cons, List.cons.injEq] at hmap
          rw [List.map_cons, List.nodup_cons] at hids hnodup
          rw [List.length_cons] at hpages hpool
          obtain ⟨ds, hds, hkey⟩ := hkeys c List.mem_cons_self
          have hfree₀ := hfree c List.mem_cons_self
          rw [hkey] at hfree₀
          obtain ⟨self₁, hcall, hsmall, htiny⟩ := @entryUnmarshall_of entryName c.2 0 self p ds (by omega)
            (by omega) hmap.1 (hnew p List.mem_cons_self) hds hfree₀
          obtain ⟨q, hread, -, htaken, hget⟩ := entryUnmarshall_ok hcall
          obtain rfl : q = p := Checked.ok.inj (hread.symm.trans hmap.1)
          rw [runCalls, List.foldlM_cons, hkey, hcall, ok_bind]
          refine ih (by omega) (by omega) hids.2 (fun d hd => hkeys d (List.mem_cons_of_mem _ hd)) ?_ hmap.2
            hnodup.2 ?_
          · intro d hd e he
            have hcases := (hget _ _).mp he
            rw [if_neg] at hcases
            · exact hfree d (List.mem_cons_of_mem _ hd) e hcases
            · -- the ids are different
              intro heq
              exact hids.1 (List.mem_map.mpr ⟨d, hd, heq.trans hkey.symm⟩)
          · intro r hr htak
            rcases (htaken _).mp htak with heq | hold
            · exact hnodup.1 (List.mem_map.mpr ⟨r, hr, heq⟩)
            · exact hnew r (List.mem_cons_of_mem _ hr) hold

end Load

/-! ## (4) Names that survive -/

variable {useAlias : Bool} {strIdx : SharedSet CharSeq}

/-- The name ends where the scan stops: it has no delimiter, and one follows it in its record or behind it. -/
def EndsAtDelimiter (useAlias : Bool) (inst : ExportedInst) (behind : List UInt8) : Prop :=
  (∀ c ∈ inst.name, isDelimiter c = false) ∧
    ∀ c ∈ (inst.tail useAlias ++ behind).head?, isDelimiter c = true

/-- The bytes of the block from the record on, up to the first delimiter. -/
def leadingText (useAlias : Bool) (inst : ExportedInst) (behind : List UInt8) : List UInt8 :=
  (inst.gsp useAlias ++ behind).takeWhile fun c => !isDelimiter c

instance (inst : ExportedInst) (behind : List UInt8) : Decidable (EndsAtDelimiter useAlias inst behind) :=
  inferInstanceAs (Decidable ((∀ c ∈ inst.name, isDelimiter c = false) ∧
    ∀ c ∈ (inst.tail useAlias ++ behind).head?, isDelimiter c = true))

/-- **A name survives**: it is not empty and ends at a delimiter, and if it is a code of the string index, its text
is the name. A name that does not end at a delimiter only survives if the bytes up to the next delimiter are a
code of it. -/
def Survives (useAlias : Bool) (strIdx : SharedSet CharSeq) (inst : ExportedInst) (behind : List UInt8) : Prop :=
  inst.name ≠ [] ∧
    if EndsAtDelimiter useAlias inst behind then
      inst.name.length ≤ idSize → ∀ seq, kndSharedSetGet strIdx inst.name = .ok seq → seq.val = inst.name
    else (leadingText useAlias inst behind).length ≤ idSize ∧
      ∃ seq, kndSharedSetGet strIdx (leadingText useAlias inst behind) = .ok seq ∧ seq.val = inst.name

/-- The leading text is the name exactly when the name ends at a delimiter. -/
theorem leadingText_eq_name (inst : ExportedInst) (behind : List UInt8) :
    leadingText useAlias inst behind = inst.name ↔ EndsAtDelimiter useAlias inst behind := by
  rw [leadingText, ExportedInst.gsp, List.append_assoc, EndsAtDelimiter]
  have hpos : (∀ c ∈ inst.name, isDelimiter c = false) → ∀ c ∈ inst.name, (!isDelimiter c) = true := by
    intro h c hc
    rw [h c hc]
    rfl
  constructor
  · intro h
    have hclean : ∀ c ∈ inst.name, isDelimiter c = false := by
      intro c hc
      rw [← h] at hc
      exact (Bool.not_eq_true' _).mp (List.mem_takeWhile_imp (p := fun c => !isDelimiter c) hc)
    rw [List.takeWhile_append_of_pos (hpos hclean), List.append_right_eq_self] at h
    refine ⟨hclean, fun c hc => ?_⟩
    cases hrest : inst.tail useAlias ++ behind with
    | nil =>
        rw [hrest] at hc
        cases hc
    | cons d rest =>
        rw [hrest] at h hc
        cases hc
        by_contra hd
        rw [List.takeWhile_cons_of_pos (by rw [Bool.eq_false_iff.mpr hd]; rfl)] at h
        cases h
  · rintro ⟨hclean, hhead⟩
    rw [List.takeWhile_append_of_pos (hpos hclean), List.append_right_eq_self]
    cases hrest : inst.tail useAlias ++ behind with
    | nil => rfl
    | cons d rest =>
        rw [hrest] at hhead
        rw [List.takeWhile_cons_of_neg]
        rw [hhead d rfl]
        simp

/-- The reader scans the leading text. -/
theorem scanName_record (inst : ExportedInst) (behind : List UInt8) :
    scanName (inst.gsp useAlias ++ behind ++ [0]) = .ok (leadingText useAlias inst behind) := by
  rw [scanName_append_nul, leadingText, List.takeWhile_append]
  split_ifs with hlen
  · rw [List.takeWhile_cons_of_neg (by decide), List.append_nil]
    exact congrArg Checked.ok ((List.takeWhile_prefix _).eq_of_length hlen).symm
  · rfl

theorem getElem_nil_ne_ok (set : SharedSet CharSeq) (seq : CharSeq) : kndSharedSetGet set [] ≠ .ok seq := by
  intro h
  obtain ⟨ds, hds, hlookup⟩ := getElem_eq_ok.mp h
  cases ds with
  | nil => cases hlookup
  | cons i ds => cases hds

/-- **A name survives** exactly when the reader gives it back, whatever charseq it finds. -/
theorem survives_iff {inst : ExportedInst} {behind : List UInt8} : Survives useAlias strIdx inst behind ↔
    inst.name ≠ [] ∧ ∃ seq, readName (instEntryName strIdx) (inst.gsp useAlias ++ behind ++ [0])
      = .ok (inst.name, seq) := by
  rw [Survives, readName, scanName_record, ok_bind]
  refine and_congr_right fun hne => ?_
  have hends := @leadingText_eq_name useAlias inst behind
  set text := leadingText useAlias inst behind with htext
  rw [instEntryName]
  by_cases hnil : text = []
  · -- an empty text is neither the name nor a code
    rw [ensure_of_not (by simpa using hnil), if_neg fun h => hne (by rw [← hends.mpr h, hnil]), hnil]
    constructor
    · rintro ⟨-, seq, hget, -⟩
      exact absurd hget (getElem_nil_ne_ok strIdx seq)
    · rintro ⟨seq, h⟩
      cases h
  rw [ensure_of hnil, ok_bind]
  by_cases hshort : text.length ≤ idSize
  · rw [if_pos hshort]
    cases hget : kndSharedSetGet strIdx text with
    | error e =>
        -- the text is no code, so it must be the name itself
        have hself : (∃ seq, (pure (text, none) : GspM (Name × Option CharSeq)) = .ok (inst.name, seq)) ↔
            text = inst.name := by simp
        refine Iff.trans ?_ hself.symm
        rw [hends]
        split_ifs with h
        · refine ⟨fun _ => h, fun _ _ seq hseq => ?_⟩
          rw [← hends.mpr h, hget] at hseq
          cases hseq
        · refine ⟨fun hcode => ?_, fun h' => absurd h' h⟩
          obtain ⟨-, seq, hseq, -⟩ := hcode
          cases hseq
    | ok seq =>
        have hcode : (∃ s, (pure (seq.val, some seq) : GspM (Name × Option CharSeq)) = .ok (inst.name, s)) ↔
            seq.val = inst.name := by simp
        refine Iff.trans ?_ hcode.symm
        split_ifs with h
        · rw [← hends.mpr h]
          refine ⟨fun hall => hall hshort seq hget, fun hval _ seq' hseq' => ?_⟩
          rw [hget] at hseq'
          cases hseq'
          exact hval
        · refine ⟨fun hex => ?_, fun hval => ⟨hshort, seq, rfl, hval⟩⟩
          obtain ⟨-, seq', hseq', hval⟩ := hex
          cases hseq'
          exact hval
  · rw [if_neg hshort]
    have hself : (∃ seq, (pure (text, none) : GspM (Name × Option CharSeq)) = .ok (inst.name, seq)) ↔
        text = inst.name := by simp
    refine Iff.trans ?_ hself.symm
    rw [hends]
    split_ifs with h
    · refine ⟨fun _ => h, fun _ hle => ?_⟩
      rw [← hends.mpr h] at hle
      exact absurd hle hshort
    · exact ⟨fun hcode => absurd hcode.1 hshort, fun h' => absurd h' h⟩

/-! ## (5) The snapshot of a class -/

/-- **Every instance has an entry with its name** after a load. -/
def NamesBack (insts : SharedSet ExportedInst) (load : GspM (SharedSet IdxEntry × EntryLoad)) : Prop :=
  ∃ loaded self, load = .ok (loaded, self) ∧ ∀ id inst, kndSharedSetGet insts id = .ok inst →
    ∃ entry, kndSharedSetGet self.idx id = .ok entry ∧ entry.name = inst.name

/-- No entry is without a name. -/
def Named (self : EntryLoad) : Prop := ∀ id entry, kndSharedSetGet self.idx id = .ok entry → entry.name ≠ []

/-- The callback gives no entry an empty name. -/
theorem ensures_named (hstr : ∀ id seq, kndSharedSetGet strIdx id = .ok seq → seq.val ≠ []) (id mem : List UInt8)
    (n : Nat) (self : EntryLoad) (h : Named self) :
    Ensures Named (kndClassInstEntryUnmarshall strIdx id mem n self) := by
  intro self' hcall
  obtain ⟨p, hread, -, -, hget⟩ := entryUnmarshall_ok hcall
  have hne : p.1 ≠ [] := by
    obtain ⟨name, -, hp⟩ := Checked.bind_eq_ok.mp hread
    rw [instEntryName] at hp
    obtain ⟨_, hname, hp⟩ := Checked.bind_eq_ok.mp hp
    have hname' : name ≠ [] := by
      by_contra hnot
      rw [ensure_of_not (not_not.mpr hnot)] at hname
      cases hname
    split_ifs at hp with hshort
    · split at hp
      · rename_i seq hseq
        cases hp
        exact hstr _ _ hseq
      · cases hp
        exact hname'
    · cases hp
      exact hname'
  intro id' entry hentry
  have hcases := (hget id' entry).mp hentry
  split_ifs at hcases with hid
  · rw [← hcases]
    exact hne
  · exact h id' entry hcases

/-- The names that a list of records gives. -/
theorem exists_names {β : Type} {l : List β} {read : β → GspM (Name × Option CharSeq)} {name : β → Name}
    (h : ∀ r ∈ l, ∃ seq, read r = .ok (name r, seq)) :
    ∃ names : List (Name × Option CharSeq), l.map read = names.map .ok ∧ names.map Prod.fst = l.map name := by
  induction l with
  | nil => exact ⟨[], rfl, rfl⟩
  | cons r l ih =>
      obtain ⟨seq, hr⟩ := h r List.mem_cons_self
      obtain ⟨names, hmap, hfst⟩ := ih fun r hr => h r (List.mem_cons_of_mem _ hr)
      exact ⟨(name r, seq) :: names, by rw [List.map_cons, List.map_cons, hr, hmap], by
        rw [List.map_cons, List.map_cons, hfst]⟩

section Snapshot

variable {self : IdSet ExportedInst}

/-- The records of the stored instances. -/
theorem mem_records {r : List UInt8 × ExportedInst × List UInt8}
    (hr : r ∈ self.idx.records (ExportedInst.gsp useAlias) []) :
    kndSharedSetGet self.toSharedSet r.1 = .ok r.2.1 := by
  refine IdSet.mem_entries.mp ?_
  rw [IdSet.entries, ← ElemIdx.map_records (ExportedInst.gsp useAlias)]
  exact List.mem_map.mpr ⟨r, hr, rfl⟩

theorem exists_record {id : List UInt8} {inst : ExportedInst}
    (h : kndSharedSetGet self.toSharedSet id = .ok inst) :
    ∃ behind, (id, inst, behind) ∈ self.idx.records (ExportedInst.gsp useAlias) [] := by
  have hmem := IdSet.mem_entries.mpr h
  rw [IdSet.entries, ← ElemIdx.map_records (ExportedInst.gsp useAlias)] at hmem
  obtain ⟨⟨id', inst', behind⟩, hr, heq⟩ := List.mem_map.mp hmem
  cases heq
  exact ⟨behind, hr⟩

/-- The calls of the load. -/
def instCalls (useAlias : Bool) (self : IdSet ExportedInst) : Calls :=
  (self.idx.records (ExportedInst.gsp useAlias) []).map fun r =>
    (r.1, ExportedInst.gsp useAlias r.2.1 ++ r.2.2 ++ [0])

theorem map_fst_instCalls : (instCalls useAlias self).map Prod.fst = self.entries.map Prod.fst := by
  rw [IdSet.entries, ← ElemIdx.map_records (ExportedInst.gsp useAlias), instCalls, List.map_map, List.map_map]
  rfl

theorem length_instCalls : (instCalls useAlias self).length = self.entries.length := by
  rw [instCalls, List.length_map, ElemIdx.length_records, IdSet.entries]

theorem names_instCalls : (self.idx.records (ExportedInst.gsp useAlias) []).map (·.2.1.name)
    = self.entries.map (·.2.name) := by
  rw [IdSet.entries, ← ElemIdx.map_records (ExportedInst.gsp useAlias), List.map_map]
  rfl

/-- **The load of a written file** makes one call for each instance. -/
theorem load_eq_runCalls
    (hnul : ∀ id inst, kndSharedSetGet self.toSharedSet id = .ok inst → 0 ∉ inst.gsp useAlias)
    (hne : ∀ id inst, kndSharedSetGet self.toSharedSet id = .ok inst → inst.name ≠ [])
    {out : Output} {disk totalSize : Nat} {task : MarshallTask}
    (h : kndSharedSetMarshall self.toSharedSet (kndClassInstMarshall useAlias) ⟨out, gspHeader, disk⟩
      = .ok (totalSize, task)) (hsize : task.file.length < 2 ^ 31) (s : EntryLoad) :
    ∃ loaded : SharedSet IdxEntry, kndSharedSetUnmarshallFile {} task.file task.file.length
        (kndClassInstEntryUnmarshall strIdx) s
      = runCalls (instEntryName strIdx) (instCalls useAlias self) s >>= fun s' => .ok (loaded, s') := by
  have hcb : ∀ id inst, kndSharedSetGet self.toSharedSet id = .ok inst →
      Marshalls (kndClassInstMarshall useAlias) (ExportedInst.gsp useAlias) inst := by
    intro id inst hget
    refine marshalls_kndClassInstMarshall ?_ (hnul id inst hget)
    exact fun hnil => hne id inst hget (List.append_eq_nil_iff.mp hnil).1
  obtain ⟨hfile, htotal, -⟩ := file_of_kndSharedSetMarshall hcb h
  have hlen : task.file.length = 3 + totalSize := by
    rw [hfile, htotal, List.length_append]
    rfl
  have hrun := unmarshallFile_records hcb h hsize ({} : SharedSet IdxEntry) (kndClassInstEntryUnmarshall strIdx) s
  rw [← hlen] at hrun
  refine ⟨{
    numElems := self.entries.length
    dir := self.idx.dirOf (ExportedInst.gsp useAlias) task.file.length 3 }, hrun.trans ?_⟩
  rw [runCalls, instCalls, List.foldlM_map]
  rfl

end Snapshot

/-- **Names of class instances survive a snapshot** if and only if they are all different and each of them
survives; for every set of instances that is written, every string index whose texts are not empty, and enough
pages to load it. -/
theorem names_survive_iff {self : IdSet ExportedInst}
    (hnul : ∀ id inst, kndSharedSetGet self.toSharedSet id = .ok inst → 0 ∉ inst.gsp useAlias)
    {out : Output} {disk totalSize : Nat} {task : MarshallTask}
    (h : kndSharedSetMarshall self.toSharedSet (kndClassInstMarshall useAlias) ⟨out, gspHeader, disk⟩
      = .ok (totalSize, task)) (hsize : task.file.length < 2 ^ 31)
    (hstr : ∀ id seq, kndSharedSetGet strIdx id = .ok seq → seq.val ≠ [])
    {smallPages tinyPages : Nat} (hpages : self.entries.length ≤ smallPages)
    (hpool : self.entries.length ≤ tinyPages) :
    NamesBack self.toSharedSet (kndSharedSetUnmarshallFile {} task.file task.file.length
        (kndClassInstEntryUnmarshall strIdx) { smallPages, mempool := ⟨tinyPages⟩ }) ↔
      (self.entries.map (·.2.name)).Nodup ∧
        ∀ r ∈ self.idx.records (ExportedInst.gsp useAlias) [], Survives useAlias strIdx r.2.1 r.2.2 := by
  have hids : ((instCalls useAlias self).map Prod.fst).Nodup := by
    rw [map_fst_instCalls]
    exact self.nodup_entries
  constructor
  · rintro ⟨loaded, self', hload, hback⟩
    -- no entry of a load is without a name
    have hnamed : Named self' := ensures_unmarshallFile (P := Named) (ensures_named hstr) {} task.file
      task.file.length (fun id e he => absurd he (kndSharedSetGet_fresh id e)) (loaded, self') hload
    have hne : ∀ id inst, kndSharedSetGet self.toSharedSet id = .ok inst → inst.name ≠ [] := by
      intro id inst hget
      obtain ⟨entry, hentry, hname⟩ := hback id inst hget
      rw [← hname]
      exact hnamed id entry hentry
    obtain ⟨loaded', hrun⟩ := @load_eq_runCalls useAlias strIdx self hnul hne out disk totalSize task h hsize
      { smallPages, mempool := ⟨tinyPages⟩ }
    rw [hrun] at hload
    obtain ⟨self'', hcalls, hself⟩ := Checked.bind_eq_ok.mp hload
    cases hself
    obtain ⟨names, hmap, hnodup, -, -, hentries⟩ := runCalls_ok hcalls hids
    -- each record was read as the name of its instance
    have hread : ∀ r ∈ self.idx.records (ExportedInst.gsp useAlias) [], ∃ seq,
        readName (instEntryName strIdx) (r.2.1.gsp useAlias ++ r.2.2 ++ [0]) = .ok (r.2.1.name, seq) := by
      intro r hr
      obtain ⟨p, hp, hget⟩ := hentries _ (List.mem_map.mpr ⟨r, hr, rfl⟩)
      obtain ⟨entry, hentry, hname⟩ := hback r.1 r.2.1 (mem_records hr)
      obtain rfl := Except.ok.inj (hget.symm.trans hentry)
      exact ⟨p.2, by rw [← hname]; exact hp⟩
    refine ⟨?_, fun r hr => survives_iff.mpr ⟨hne r.1 r.2.1 (mem_records hr), hread r hr⟩⟩
    obtain ⟨names', hmap', hfst⟩ := exists_names hread
    rw [instCalls, List.map_map] at hmap
    have hsame : names = names' :=
      List.map_injective_iff.mpr (fun _ _ heq => Checked.ok.inj heq) (hmap.symm.trans hmap')
    rwa [← @names_instCalls useAlias self, ← hfst, ← hsame]
  · rintro ⟨hnodup, hsurvive⟩
    have hne : ∀ id inst, kndSharedSetGet self.toSharedSet id = .ok inst → inst.name ≠ [] := by
      intro id inst hget
      obtain ⟨behind, hr⟩ := exists_record hget
      exact (hsurvive _ hr).1
    obtain ⟨loaded, hrun⟩ := @load_eq_runCalls useAlias strIdx self hnul hne out disk totalSize task h hsize
      { smallPages, mempool := ⟨tinyPages⟩ }
    have hread : ∀ r ∈ self.idx.records (ExportedInst.gsp useAlias) [], ∃ seq,
        readName (instEntryName strIdx) (r.2.1.gsp useAlias ++ r.2.2 ++ [0]) = .ok (r.2.1.name, seq) :=
      fun r hr => (survives_iff.mp (hsurvive r hr)).2
    obtain ⟨names, hmap, hfst⟩ := exists_names hread
    have hkeys : ∀ c ∈ instCalls useAlias self, ∃ ds : List Digit, ds ≠ [] ∧ c.1 = digitsKey ds := by
      intro c hc
      obtain ⟨r, hr, rfl⟩ := List.mem_map.mp hc
      obtain ⟨ds, hkey, hlookup⟩ := getElem_eq_ok.mp (mem_records hr)
      refine ⟨ds, ?_, hkey⟩
      rintro rfl
      cases hlookup
    have hfresh : ∀ v, ¬(kndSharedDictNew IdxEntry mediumDictSize).Taken v := by
      rintro v ⟨item, hitem, -⟩
      cases hitem
    obtain ⟨self', hcalls⟩ := @runCalls_of (instEntryName strIdx) (instCalls useAlias self)
      { smallPages, mempool := ⟨tinyPages⟩ } (by rwa [length_instCalls]) (by rwa [length_instCalls]) hids hkeys
      (fun c _ e => kndSharedSetGet_fresh c.1 e) names (by rw [instCalls, List.map_map]; exact hmap)
      (by rwa [hfst, names_instCalls]) (fun p _ => hfresh p.1)
    rw [hrun, hcalls]
    refine ⟨loaded, self', rfl, fun id inst hget => ?_⟩
    obtain ⟨-, -, -, -, -, hentries⟩ := runCalls_ok hcalls hids
    obtain ⟨behind, hr⟩ := @exists_record useAlias self id inst hget
    obtain ⟨p, hp, hentry⟩ := hentries _ (List.mem_map.mpr ⟨_, hr, rfl⟩)
    obtain ⟨seq, hname⟩ := hread _ hr
    obtain rfl := Checked.ok.inj (hp.symm.trans hname)
    exact ⟨_, hentry, rfl⟩

/-- A class with one instance `"1"`. -/
def soloInst (inst : ExportedInst) : IdSet ExportedInst := (IdSet.empty.add [49] (by decide) inst).2

/-- An instance with an attribute. -/
def annInst : ExportedInst := { name := [97, 110, 110], attrs := [⟨false, [48], [49]⟩] }

/-- A second instance `"2"`, whose name is a code of itself. -/
def pairInsts : IdSet ExportedInst := ((soloInst annInst).add [50] (by decide) { name := [98, 111, 98] }).2

/-- A string index with the text `"bob"` under the id `"bob"`. -/
def bobIdx : IdSet CharSeq := (IdSet.empty.add [98, 111, 98] (by decide) ⟨0, [98, 111, 98], 0⟩).2

/-- The file of the two instances. -/
def pairFile : List UInt8 := gspHeader ++ [49, 97, 110, 110, 123, 48, 32, 49, 125, 0, 50, 98, 111, 98, 0, 1, 16, 1]

/-- The snapshot of an instance that has an attribute, and of one whose name is a code. -/
theorem names_survive_iff_pair :
    NamesBack pairInsts.toSharedSet (kndSharedSetUnmarshallFile {} pairFile pairFile.length
        (kndClassInstEntryUnmarshall bobIdx.toSharedSet) { smallPages := 2, mempool := ⟨2⟩ }) ↔
      (pairInsts.entries.map (·.2.name)).Nodup ∧
        ∀ r ∈ pairInsts.idx.records (ExportedInst.gsp false) [], Survives false bobIdx.toSharedSet r.2.1 r.2.2 := by
  have hnul : ∀ r ∈ pairInsts.entries, 0 ∉ r.2.gsp false := by decide +kernel
  have hstr : ∀ r ∈ bobIdx.entries, r.2.val ≠ [] := by decide +kernel
  exact @names_survive_iff false bobIdx.toSharedSet pairInsts
    (fun id inst hget => hnul (id, inst) (IdSet.mem_entries.mpr hget)) ⟨[], 1024⟩ 1024 18
    ⟨⟨[16, 1], 1024⟩, pairFile, 1024⟩ (by decide +kernel) (by decide)
    (fun id seq hget => hstr (id, seq) (IdSet.mem_entries.mpr hget)) 2 2 (by decide +kernel) (by decide +kernel)

/-- A string index with the text `"abc"` under the id `"0"`. -/
def abcIdx : SharedSet CharSeq := (kndSharedSetAdd {} [48] ⟨0, [97, 98, 99], 0⟩).2

/-- **An instance with the name `"0"` comes back as `"abc"`**, the text with this id. -/
theorem not_namesBack_zero :
    kndSharedSetMarshall (soloInst { name := [48] }).toSharedSet (kndClassInstMarshall false)
        ⟨⟨[], 1024⟩, gspHeader, 1024⟩
      = .ok (6, ⟨⟨[4, 1], 1024⟩, [71, 83, 80, 49, 48, 0, 1, 4, 1], 1024⟩) ∧
    ¬NamesBack (soloInst { name := [48] }).toSharedSet
      (kndSharedSetUnmarshallFile {} [71, 83, 80, 49, 48, 0, 1, 4, 1] 9 (kndClassInstEntryUnmarshall abcIdx)
        { smallPages := 1, mempool := ⟨1⟩ }) := by
  refine ⟨by decide +kernel, ?_⟩
  rintro ⟨loaded, self, hload, hback⟩
  obtain ⟨entry, hentry, hname⟩ := hback [49] { name := [48] } rfl
  have hval : (kndSharedSetUnmarshallFile {} [71, 83, 80, 49, 48, 0, 1, 4, 1] 9
      (kndClassInstEntryUnmarshall abcIdx) { smallPages := 1, mempool := ⟨1⟩ } >>=
        fun r : SharedSet IdxEntry × EntryLoad =>
          (.ok ((kndSharedSetGet r.2.idx [49]).toOption.map IdxEntry.name) : GspM (Option Name)))
      = .ok (some [97, 98, 99]) := by
    decide +kernel
  rw [hload, ok_bind, hentry, Checked.ok.injEq] at hval
  cases hval.symm.trans (congrArg some hname)

end Knowdy
