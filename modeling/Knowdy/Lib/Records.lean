import Knowdy.Lib.Checked

/-! # Tagged records

A record has a value and fields; a field is a record behind a tag, or an array of records behind a tag.

* `Rec`, `Field` — records and their fields.
* `Rec.parse` — reading a record, one callback after the other. -/

namespace Knowdy.Records

mutual

/-- **A record.** -/
inductive Rec where
  | mk (value : List UInt8) (fields : List Field)

/-- A field of a record. -/
inductive Field where
  | clause (tag : List UInt8) (body : Rec)
  | array (tag : List UInt8) (items : List Rec)

end

instance : Inhabited Rec := ⟨.mk [] []⟩

/-- The tag of a field. -/
def Field.tag : Field → List UInt8
  | .clause tag _ => tag
  | .array tag _ => tag

/-! ## Reading -/

section Parse

variable {m : Type → Type} [Monad m] {α : Type}

/-- **Reading a record**: the callback for the value, if there is one, and then the callback for each field; a record
without a value and fields has a callback of its own. -/
def Rec.parse (implied : α → List UInt8 → m α) (field : α → Field → m α) (empty : α → m α) (a : α) : Rec → m α
  | .mk value fields =>
      if value = [] then
        if fields = [] then empty a else fields.foldlM field a
      else do
        let a ← implied a value
        fields.foldlM field a

variable {implied : α → List UInt8 → m α} {field : α → Field → m α} {empty : α → m α} {a : α}

@[simp] theorem parse_empty : (Rec.mk [] []).parse implied field empty a = empty a := rfl

@[simp] theorem parse_fields (f : Field) (fields : List Field) :
    (Rec.mk [] (f :: fields)).parse implied field empty a = (f :: fields).foldlM field a := rfl

theorem parse_value {value : List UInt8} (h : value ≠ []) (fields : List Field) :
    (Rec.mk value fields).parse implied field empty a = (implied a value >>= fun a => fields.foldlM field a) :=
  if_neg h

end Parse

end Knowdy.Records
