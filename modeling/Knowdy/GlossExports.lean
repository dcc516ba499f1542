import Knowdy.Lib.Loops
import Knowdy.OutputBuffer

/-! # The gloss of a locale

`knd_proc.json.c`, `knd_proc_arg.c` and `knd_text.json.c` each search a list of glosses for the one of the locale of
the task and write it. The loops of procs and of their arguments do not go on to the next gloss when the two locales
differ in length.

* `procGlossRound`, `procArgGlossRound`, `textGlossRound` — a round of each loop.
* `Selects` — a loop ends, and has written the first gloss of a locale.
* `GlossesAgree` — all three do, into any buffer.
* `glossesAgree_iff` — they do, if and only if every gloss before that one has a locale of the same length. -/

namespace Knowdy.GlossExports

open OutputBuffer

/-! ## (1) Glosses -/

/-- **`struct kndText`**, as a gloss. -/
structure KndText where
  /-- `locale`. -/
  locale : List UInt8
  /-- `seq`. -/
  seq : List UInt8
  /-- `abbr`. -/
  abbr : Option (List UInt8) := none
deriving DecidableEq

/-- The bytes of a text. -/
def bytes (s : String) : List UInt8 := s.toList.map fun c => UInt8.ofNat c.toNat

/-- **Writes**, one after the other, up to one that fails. -/
def writeAll (out : OutBuf) : List Op → Except KndErr Unit × OutBuf
  | [] => (.ok (), out)
  | op :: ops =>
      match op.apply out with
      | (.ok _, out') => writeAll out' ops
      | (.error e, out') => (.error e, out')

/-- What one export of a gloss gives: a result, and the buffer after it. -/
abbrev Exported := Except KndErr Unit × OutBuf

/-! ## (2) The loops -/

/-- What the exporters of procs and of their arguments write. -/
def procGlossWrites (separNeeded : Bool) (tr : KndText) : List Op :=
  (if separNeeded then [.write (bytes ",")] else []) ++
    [.write (bytes "\"_gloss\":\""), .write tr.seq, .write (bytes "\"")]

/-- A round of the loop of **`export_gloss_JSON`** in `knd_proc.json.c`. -/
def procGlossRound (locale : List UInt8) (out : OutBuf) (separNeeded : Bool) :
    List KndText → List KndText ⊕ Exported
  | [] => .inr (.ok (), out)
  | tr :: next =>
      -- `continue`, with the same `tr`
      if locale.length ≠ tr.locale.length then .inl (tr :: next)
      else if locale ≠ tr.locale then .inl next
      else .inr (writeAll out (procGlossWrites separNeeded tr))

/-- A round of the loop of **`export_gloss_JSON`** in `knd_proc_arg.c`: the code is the same. -/
def procArgGlossRound : List UInt8 → OutBuf → Bool → List KndText → List KndText ⊕ Exported := procGlossRound

/-- A line break and an offset, where the output is indented: `knd_print_offset`. -/
def offset (indent depth : Nat) : List Op :=
  if indent = 0 then [] else [.write (bytes "\n"), .write (List.replicate (depth * indent % 2 ^ 64) 32)]

/-- A blank, where the output is indented. -/
def blank (indent : Nat) : List Op := if indent = 0 then [] else [.write (bytes " ")]

/-- What the exporter of texts writes. -/
def textGlossWrites (indent depth : Nat) (tr : KndText) : List Op :=
  [.write (bytes ",")] ++ offset indent depth ++ [.write (bytes "\"gloss\":")] ++ blank indent ++
    [.write (bytes "\""), .writeEscaped tr.seq, .write (bytes "\"")] ++
    match tr.abbr with
    | none => []
    | some abbr =>
        [.write (bytes ",")] ++ offset indent depth ++ [.write (bytes "\"abbr\":")] ++ blank indent ++
          [.write (bytes "\""), .write abbr, .write (bytes "\"")]

/-- A round of the loop of **`knd_text_gloss_export_JSON`**. -/
def textGlossRound (locale : List UInt8) (out : OutBuf) (indent depth : Nat) :
    List KndText → List KndText ⊕ Exported
  | [] => .inr (.ok (), out)
  | tr :: next =>
      if locale.length ≠ tr.locale.length then .inl next
      else if locale ≠ tr.locale then .inl next
      else .inr (writeAll out (textGlossWrites indent depth tr))

/-! ## (3) The selection -/

/-- **The gloss of a locale**: the first one. -/
def glossOf (locale : List UInt8) (texts : List KndText) : Option KndText :=
  texts.find? (·.locale = locale)

/-- **A loop ends and has written the gloss of a locale**, or nothing if there is none. -/
def Selects (round : List KndText → List KndText ⊕ Exported) (locale : List UInt8) (out : OutBuf)
    (writes : KndText → List Op) (texts : List KndText) : Prop :=
  Ends round texts
    (match glossOf locale texts with
      | none => (.ok (), out)
      | some tr => writeAll out (writes tr))

/-- **The three exporters agree** on the gloss of a locale, into any buffer. -/
structure GlossesAgree (locale : List UInt8) (texts : List KndText) : Prop where
  /-- Procs. -/
  proc : ∀ out separNeeded,
    Selects (procGlossRound locale out separNeeded) locale out (procGlossWrites separNeeded) texts
  /-- Arguments of procs. -/
  procArg : ∀ out separNeeded,
    Selects (procArgGlossRound locale out separNeeded) locale out (procGlossWrites separNeeded) texts
  /-- Texts. -/
  text : ∀ out indent depth,
    Selects (textGlossRound locale out indent depth) locale out (textGlossWrites indent depth) texts

/-- The glosses before the one of a locale. -/
def before (locale : List UInt8) (texts : List KndText) : List KndText :=
  texts.takeWhile (·.locale ≠ locale)

variable {locale : List UInt8} {out : OutBuf} {writes : KndText → List Op} {tr : KndText} {texts : List KndText}
  {round : List KndText → List KndText ⊕ Exported}

theorem glossOf_cons_of_eq (h : tr.locale = locale) : glossOf locale (tr :: texts) = some tr :=
  List.find?_cons_of_pos (decide_eq_true h)

theorem glossOf_cons_of_ne (h : tr.locale ≠ locale) : glossOf locale (tr :: texts) = glossOf locale texts := by
  apply List.find?_cons_of_neg
  rw [decide_eq_true_eq]
  exact h

theorem before_cons_of_eq (h : tr.locale = locale) : before locale (tr :: texts) = [] := by
  rw [before, List.takeWhile_cons_of_neg]
  simp [h]

theorem before_cons_of_ne (h : tr.locale ≠ locale) : before locale (tr :: texts) = tr :: before locale texts := by
  rw [before, List.takeWhile_cons_of_pos]
  · rfl
  · simp [h]

namespace Selects

/-- There is no gloss left. -/
theorem nil (h : round [] = .inr (.ok (), out)) : Selects round locale out writes [] := .last h

/-- The gloss is found. -/
theorem found (heq : tr.locale = locale) (h : round (tr :: texts) = .inr (writeAll out (writes tr))) :
    Selects round locale out writes (tr :: texts) := by
  rw [Selects, glossOf_cons_of_eq heq]
  exact .last h

/-- A gloss is left aside. -/
theorem skip (hne : tr.locale ≠ locale) (h : round (tr :: texts) = .inl texts)
    (hselects : Selects round locale out writes texts) : Selects round locale out writes (tr :: texts) := by
  rw [Selects, glossOf_cons_of_ne hne]
  exact .next h hselects

end Selects

/-! ### Texts -/

/-- **The loop of texts** passes over every gloss of another locale. -/
theorem selects_textGlossRound (locale : List UInt8) (out : OutBuf) (indent depth : Nat) (texts : List KndText) :
    Selects (textGlossRound locale out indent depth) locale out (textGlossWrites indent depth) texts := by
  induction texts with
  | nil => exact .nil rfl
  | cons tr texts ih =>
      by_cases heq : tr.locale = locale
      · apply Selects.found heq
        rw [textGlossRound, if_neg (by rw [heq, not_not]), if_neg (by rw [heq, not_not])]
      · apply Selects.skip heq _ ih
        rw [textGlossRound, if_pos (Ne.symm heq), ite_self]

/-! ### Procs -/

/-- A locale of another length: the round ends where it began. -/
theorem procGlossRound_of_length_ne {separNeeded : Bool} (h : locale.length ≠ tr.locale.length) :
    procGlossRound locale out separNeeded (tr :: texts) = .inl (tr :: texts) := by
  rw [procGlossRound, if_pos h]

/-- Another locale of the same length. -/
theorem procGlossRound_of_ne {separNeeded : Bool} (hlength : locale.length = tr.locale.length)
    (h : tr.locale ≠ locale) : procGlossRound locale out separNeeded (tr :: texts) = .inl texts := by
  rw [procGlossRound, if_neg (not_not.mpr hlength), if_pos (Ne.symm h)]

/-- The locale. -/
theorem procGlossRound_of_eq {separNeeded : Bool} (h : tr.locale = locale) :
    procGlossRound locale out separNeeded (tr :: texts) = .inr (writeAll out (procGlossWrites separNeeded tr)) := by
  rw [procGlossRound, if_neg (by rw [h, not_not]), if_neg (by rw [h, not_not])]

/-- **The loop of procs** selects the gloss if it does not meet a locale of another length before. -/
theorem selects_procGlossRound (out : OutBuf) (separNeeded : Bool)
    (h : ∀ tr ∈ before locale texts, tr.locale.length = locale.length) :
    Selects (procGlossRound locale out separNeeded) locale out (procGlossWrites separNeeded) texts := by
  induction texts with
  | nil => exact .nil rfl
  | cons tr texts ih =>
      by_cases heq : tr.locale = locale
      · exact .found heq (procGlossRound_of_eq heq)
      · rw [before_cons_of_ne heq] at h
        have hlength := h tr (List.mem_cons_self ..)
        have htexts := ih fun tr' htr' => h tr' (List.mem_cons_of_mem _ htr')
        exact .skip heq (procGlossRound_of_ne hlength.symm heq) htexts

/-- **It hangs** at the first locale of another length. -/
theorem hangs_procGlossRound (out : OutBuf) (separNeeded : Bool)
    (h : ∃ tr ∈ before locale texts, tr.locale.length ≠ locale.length) :
    Hangs (procGlossRound locale out separNeeded) texts := by
  induction texts with
  | nil =>
      obtain ⟨tr, htr, -⟩ := h
      exact absurd htr List.not_mem_nil
  | cons tr texts ih =>
      obtain ⟨tr', htr', hne⟩ := h
      by_cases heq : tr.locale = locale
      · rw [before_cons_of_eq heq] at htr'
        exact absurd htr' List.not_mem_nil
      by_cases hlength : locale.length = tr.locale.length
      · rw [before_cons_of_ne heq] at htr'
        have htexts : tr' ∈ before locale texts := by
          rcases List.mem_cons.mp htr' with rfl | htr'
          · exact absurd hlength.symm hne
          · exact htr'
        exact .next (procGlossRound_of_ne hlength heq) (ih ⟨tr', htexts, hne⟩)
      · exact .of_fixed (procGlossRound_of_length_ne hlength)

/-! ### All three -/

/-- **The three exporters agree** on the gloss of a locale, if and only if no gloss before it has a locale of another
length. -/
theorem glossesAgree_iff (locale : List UInt8) (texts : List KndText) :
    GlossesAgree locale texts ↔ ∀ tr ∈ before locale texts, tr.locale.length = locale.length := by
  constructor
  · intro h
    by_contra hdiffers
    push Not at hdiffers
    have hout : OutBuf := { mem := fun _ => 0, capacity := 0, capacity_lt := by decide }
    exact (hangs_procGlossRound hout false hdiffers).not_ends (h.proc hout false)
  · intro h
    exact
      { proc := fun out separNeeded => selects_procGlossRound out separNeeded h
        procArg := fun out separNeeded => selects_procGlossRound out separNeeded h
        text := fun out indent depth => selects_textGlossRound locale out indent depth texts }

/-- A gloss in `ru-RU` before the one in `en`. -/
theorem not_glossesAgree_longer :
    ¬GlossesAgree (bytes "en")
      [{ locale := bytes "ru-RU", seq := bytes "rod" }, { locale := bytes "en", seq := bytes "kind" }] := by
  intro h
  let out : OutBuf := { mem := fun _ => 0, capacity := 0, capacity_lt := by decide }
  apply Hangs.not_ends _ (h.proc out false)
  apply hangs_procGlossRound
  exact ⟨{ locale := bytes "ru-RU", seq := bytes "rod" }, by decide, by decide⟩

end Knowdy.GlossExports
