import Knowdy.GlossExports
import Knowdy.Lib.Records
import Knowdy.StringCodes
import Knowdy.WalRecords

/-! # Texts in a snapshot

`knd_text_export_GSP` writes a text as a record, and `knd_text_read` reads it when the object with the text is loaded
again. Strings are written by their ids, translations are linked in at the front while they are read.

* `Sentence`, `Par`, `Trn`, `Text` — the data, with clauses and statements of any types.
* `textExport`, `textRead` — the code.
* `Text.Clean` — whether a text has none of what one of the two functions misses.
* `reads_textExport_iff` — a text without statements comes back, with its translations in reverse, exactly if it is
  clean. What is read for a statement depends on those before it. -/

namespace Knowdy.TextGsp

open Records StringCodes
open GlossExports (bytes)
open WalRecords (kndParseNum)

/-! ## (1) Data -/

/-- **`struct kndSentence`.** Its `numid` is its place in the paragraph. -/
structure Sentence (κ σ : Type) where
  /-- `seq`. -/
  seq : Name := []
  /-- `clause`. -/
  clause : Option κ := none
  /-- `stm`. -/
  stm : Option σ := none

/-- **`struct kndPar`.** Its `numid` is its place in the text. -/
structure Par (κ σ : Type) where
  /-- `sents`. -/
  sents : List (Sentence κ σ) := []

/-- A translation, which is a `struct kndText` in the list `trs`. -/
structure Trn where
  /-- `locale`. -/
  locale : Name := []
  /-- `seq`. -/
  seq : Option CharSeq := none

/-- **`struct kndText`.** -/
structure Text (κ σ : Type) where
  /-- `seq`. -/
  seq : Option CharSeq := none
  /-- `locale`. -/
  locale : Name := []
  /-- `trs`. -/
  trs : List Trn := []
  /-- `pars`. -/
  pars : List (Par κ σ) := []
  /-- Is `states` set? -/
  hasState : Bool := false

/-- What texts are read with. -/
structure TextEnv (κ σ : Type) where
  /-- `str_dict` and `str_idx` of the repository. -/
  table : StrRepo
  /-- The record that `stm_export_GSP` writes behind its tag. -/
  stmExport : σ → Checked KndErr Fault Rec
  /-- `parse_clause` or `parse_statement` on a field of a sentence: it is written only for a statement. -/
  parseAnalysis : List UInt8 → Rec → Sentence κ σ → Checked KndErr Fault (Sentence κ σ)
  /-- What `gsl_parse_task` returns for an empty record if no callback is made for it. -/
  parseEmpty : Checked KndErr Fault Unit
  /-- The result `make_gsl_err_external(knd_OK)` of `parse_par`. -/
  emptyPar : Checked KndErr Fault Unit

section Code

variable {κ σ : Type} (env : TextEnv κ σ)

/-! ## (2) Writing -/

/-- **`sent_export_GSP`.** The clause is not written. -/
def sentExport (sent : Sentence κ σ) : Checked KndErr Fault Rec :=
  match sent.stm with
  | none => .ok (.mk sent.seq [])
  | some stm => do
      let body ← env.stmExport stm
      return .mk sent.seq [.clause (bytes "stm") body]

/-- One translation. -/
def trnExport (trn : Trn) : Checked KndErr Fault Rec :=
  match trn.seq with
  | none => .fault .null
  | some seq => do
      let id ← uidOf seq.numid
      return .mk trn.locale [.clause (bytes "t") (.mk id [])]

/-- One paragraph. -/
def parExport (par : Par κ σ) : Checked KndErr Fault Rec := do
  let sents ← par.sents.mapM (sentExport env)
  return .mk [] [.array (bytes "s") sents]

/-- The id of `seq`, if it is set. -/
def seqExport : Option CharSeq → Checked KndErr Fault (List UInt8)
  | none => .ok []
  | some seq => uidOf seq.numid

/-- `locale`, if it is set. -/
def langExport (locale : Name) : List Field :=
  if locale = [] then [] else [.clause (bytes "_lang") (.mk locale [])]

/-- A list, if it is not empty. -/
def listExport {α : Type} (tag : List UInt8) (export' : α → Checked KndErr Fault Rec) (as : List α) :
    Checked KndErr Fault (List Field) :=
  if as = [] then .ok []
  else do
    let items ← as.mapM export'
    return [.array tag items]

/-- **`knd_text_export_GSP`.** -/
def textExport (text : Text κ σ) : Checked KndErr Fault Rec :=
  -- with a state the function returns before it writes anything
  if text.seq.isSome ∧ text.hasState then .ok (.mk [] [])
  else do
    let value ← seqExport text.seq
    let trs ← listExport (bytes "trn") trnExport text.trs
    let pars ← listExport (bytes "p") (parExport env) text.pars
    return .mk value (langExport text.locale ++ trs ++ pars)

/-! ## (3) Reading -/

/-- The value of a clause with a `run` callback. -/
def runValue : Rec → Checked KndErr Fault (List UInt8)
  | .mk value [] => .ok value
  | .mk _ (_ :: _) => .err .format

/-- A field of **`parse_sentence`**. -/
def sentField (sent : Sentence κ σ) : Field → Checked KndErr Fault (Sentence κ σ)
  | .clause tag body =>
      if tag = bytes "clause" ∨ tag = bytes "stm" then env.parseAnalysis tag body sent else .err .noMatch
  | .array _ _ => .err .noMatch

/-- **`parse_sentence`**, with `set_sent_seq`. -/
def parseSentence (rec : Rec) : Checked KndErr Fault (Sentence κ σ) :=
  rec.parse (fun sent val => .ok { sent with seq := val }) (sentField env)
    (fun sent => do
      env.parseEmpty
      return sent) {}

/-- `set_par_numid`; `parse_par` overwrites the number. -/
def setParNumid (par : Par κ σ) (val : List UInt8) : Checked KndErr Fault (Par κ σ) :=
  if val.length ≥ nameSize then .err .fail
  else match kndParseNum val with
    | .error e => .err e
    | .ok _ => .ok par

/-- A field of `parse_par`, with `parse_sent_array`. -/
def parField (par : Par κ σ) : Field → Checked KndErr Fault (Par κ σ)
  | .array tag items =>
      if tag = bytes "s" then do
        let sents ← items.mapM (parseSentence env)
        return { par with sents := par.sents ++ sents }
      else .err .noMatch
  | .clause _ _ => .err .noMatch

/-- **`parse_par`**: the paragraph, if one is linked in. The callback `confirm_valid_par` refuses an empty record. -/
def parsePar (rec : Rec) : Checked KndErr Fault (Option (Par κ σ)) := do
  let par ← rec.parse setParNumid (parField env) (fun _ => .err .format) {}
  if par.sents = [] then do
    env.emptyPar
    return none
  else return some par

/-- `set_gloss_locale`. -/
def setGlossLocale (trn : Trn) (locale : List UInt8) : Checked KndErr Fault Trn :=
  -- `KND_SHORT_NAME_SIZE` is 48
  if locale.length ≥ 48 then .err .limit else .ok { trn with locale }

/-- A field of `parse_translation`, with `set_gloss_value`. -/
def trnField (trn : Trn) : Field → Checked KndErr Fault Trn
  | .clause tag body =>
      if tag = bytes "t" then do
        let val ← runValue body
        if val = [] then .fault .assertion
        else do
          let seq ← decodeSeq env.table val
          return { trn with seq := some seq }
      else .err .noMatch
  | .array _ _ => .err .noMatch

/-- **`parse_translation`.** -/
def parseTranslation (rec : Rec) : Checked KndErr Fault Trn :=
  rec.parse setGlossLocale (trnField env)
    (fun trn => do
      env.parseEmpty
      return trn) {}

/-- A field of `knd_text_read`, with `set_text_lang`, `parse_par_array` and `parse_translation_array`. -/
def textField (text : Text κ σ) : Field → Checked KndErr Fault (Text κ σ)
  | .clause tag body =>
      if tag = bytes "lang" then do
        let locale ← runValue body
        return { text with locale }
      else .err .noMatch
  | .array tag items =>
      if tag = bytes "p" then do
        let pars ← items.mapM (parsePar env)
        return { text with pars := text.pars ++ pars.filterMap id }
      else if tag = bytes "trn" then do
        let trs ← items.mapM (parseTranslation env)
        -- each translation is linked in at the front
        return { text with trs := trs.reverse ++ text.trs }
      else .err .noMatch

/-- `set_text_seq`. -/
def setTextSeq (text : Text κ σ) (val : List UInt8) : Checked KndErr Fault (Text κ σ) := do
  let seq ← decodeSeq env.table val
  return { text with seq := some seq }

/-- **`knd_text_read`** into a new text. -/
def textRead (rec : Rec) : Checked KndErr Fault (Text κ σ) :=
  rec.parse (setTextSeq env) (textField env)
    (fun text => do
      env.parseEmpty
      return text) {}

/-! ## (4) What comes back -/

/-- What a charseq says is its string: when a repository is opened again its charseqs are at other addresses, with
other numbers. -/
def saidSeq (seq : CharSeq) : CharSeq := { addr := 0, val := seq.val }

theorem saidSeq_eq_iff {seq seq' : CharSeq} : saidSeq seq = saidSeq seq' ↔ seq.val = seq'.val := by
  simp [saidSeq]

/-- What a translation says. -/
def Trn.said (trn : Trn) : Trn := { trn with seq := trn.seq.map saidSeq }

/-- **What a text says.** -/
def Text.said (text : Text κ σ) : Text κ σ :=
  { text with seq := text.seq.map saidSeq, trs := text.trs.map Trn.said }

/-- **A text with its translations in reverse.** -/
def Text.mirror (text : Text κ σ) : Text κ σ := { text with trs := text.trs.reverse }

/-- The string of a charseq is found under its id. -/
def Registered (table : StrRepo) (seq : CharSeq) : Prop :=
  ∃ seq', decodeSeq table (kndUidCreate seq.numid) = .ok seq' ∧ seq'.val = seq.val

/-- **A sentence comes back**: it has no clause, and an empty one is an empty record. -/
def Sentence.Clean (sent : Sentence κ σ) : Prop :=
  sent.clause = none ∧ (sent.seq = [] → env.parseEmpty = .ok ())

/-- **A paragraph comes back**: it has sentences, and they come back. -/
def Par.Clean (par : Par κ σ) : Prop := par.sents ≠ [] ∧ ∀ sent ∈ par.sents, sent.Clean env

/-- **A translation comes back**: its locale is short. -/
def Trn.Clean (trn : Trn) : Prop :=
  trn.locale.length < 48 ∧ ∀ seq, trn.seq = some seq → Registered env.table seq

/-- **A text comes back**: it has no state and no locale, and its parts come back. -/
structure Text.Clean (text : Text κ σ) : Prop where
  hasState : text.hasState = false
  locale : text.locale = []
  seq : ∀ seq, text.seq = some seq → Registered env.table seq
  trs : ∀ trn ∈ text.trs, trn.Clean env
  pars : ∀ par ∈ text.pars, par.Clean env
  /-- An empty text is an empty record. -/
  empty : text.seq = none → text.trs = [] → text.pars = [] → env.parseEmpty = .ok ()

/-- The id that is written for a charseq. -/
theorem uidOf_eq_ok {numid : Nat} {id : List UInt8} (h : uidOf numid = .ok id) : id = kndUidCreate numid := by
  unfold uidOf at h
  split_ifs at h
  cases h
  rfl

end Code

/-! ## (5) Texts without statements -/

variable {κ : Type} (env : TextEnv κ Empty)

/-- A sentence without a statement is its string. -/
theorem sentExport_eq (sent : Sentence κ Empty) : sentExport env sent = .ok (.mk sent.seq []) := by
  unfold sentExport
  cases sent.stm with
  | none => rfl
  | some stm => nomatch stm

theorem parseSentence_sentExport {sent : Sentence κ Empty} {rec : Rec} (h : sentExport env sent = .ok rec) :
    parseSentence env rec = .ok sent ↔ sent.Clean env := by
  rw [sentExport_eq] at h
  cases h
  obtain ⟨seq, clause, stm⟩ := sent
  cases stm with
  | none =>
      unfold Sentence.Clean
      by_cases hseq : seq = []
      · subst hseq
        rw [parseSentence, parse_empty]
        cases env.parseEmpty with
        | ok u => simp [eq_comm]
        | err e => simp
        | fault f => simp
      · rw [parseSentence, parse_value hseq]
        simp [hseq, eq_comm]
  | some stm => nomatch stm

theorem parseTranslation_trnExport {trn : Trn} {rec : Rec} (h : trnExport trn = .ok rec) :
    (∃ t, parseTranslation env rec = .ok t ∧ t.said = trn.said) ↔ trn.Clean env := by
  obtain ⟨locale, seq⟩ := trn
  unfold Trn.Clean
  cases seq with
  | none => simp [trnExport] at h
  | some seq =>
      obtain ⟨id, hid, hrec⟩ := Checked.bind_eq_ok.mp h
      cases hrec
      obtain rfl := uidOf_eq_ok hid
      have hread : (∃ t, trnField env { locale } (.clause (bytes "t") (.mk (kndUidCreate seq.numid) [])) = .ok t ∧
          t.said = Trn.said ⟨locale, some seq⟩) ↔ Registered env.table seq := by
        simp only [trnField, if_pos, runValue, Checked.ok_bind, if_neg (kndUidCreate_ne_nil _), Registered]
        cases decodeSeq env.table (kndUidCreate seq.numid) with
        | ok a => simp [Trn.said, saidSeq_eq_iff]
        | err e => simp
        | fault f => simp
      by_cases hlocale : locale = []
      · subst hlocale
        rw [parseTranslation, parse_fields]
        simp only [List.foldlM_cons, List.foldlM_nil, bind_pure, hread]
        simp
      · rw [parseTranslation, parse_value hlocale, setGlossLocale]
        split_ifs with hlong
        · -- too long a locale is refused
          simp only [Checked.err_bind, reduceCtorEq, false_and, exists_false, false_iff]
          exact fun hclean => absurd hclean.1 (by omega)
        · simp only [Checked.ok_bind, List.foldlM_cons, List.foldlM_nil, bind_pure, hread]
          simp [Nat.lt_of_not_le hlong]

theorem parsePar_parExport {par : Par κ Empty} {rec : Rec} (h : parExport env par = .ok rec) :
    parsePar env rec = .ok (some par) ↔ par.Clean env := by
  obtain ⟨items, hitems, hrec⟩ := Checked.bind_eq_ok.mp h
  cases hrec
  obtain ⟨sents⟩ := par
  have hall := Checked.exists_mapM_of_mapM (f := parseSentence env) (R := fun a b => a = b)
    (C := fun sent => sent.Clean env) hitems fun sent _ body hbody => by
      rw [← parseSentence_sentExport env hbody]
      simp
  rw [Par.Clean, ← hall, parsePar, parse_fields]
  simp only [List.foldlM_cons, List.foldlM_nil, parField, if_pos, bind_pure, List.forall₂_eq_eq_eq]
  cases items.mapM (parseSentence env) with
  | err e => simp
  | fault f => simp
  | ok sents' =>
      by_cases hread : sents' = []
      · -- the paragraph is not linked in
        subst hread
        cases env.emptyPar <;> simp
      · simp only [Checked.ok_bind, Checked.pure_eq, List.nil_append, if_neg hread]
        constructor
        · intro heq
          cases heq
          exact ⟨hread, _, rfl, rfl⟩
        · rintro ⟨-, cs, hcs, rfl⟩
          cases hcs
          rfl

/-- A list that is read with nothing left out. -/
theorem filterMap_id_eq_iff {α : Type} {as : List α} {os : List (Option α)} (h : os.length = as.length) :
    os.filterMap id = as ↔ List.Forall₂ (fun a o => o = some a) as os := by
  induction os generalizing as with
  | nil =>
      obtain rfl := List.length_eq_zero_iff.mp h.symm
      simp
  | cons o os ih =>
      obtain ⟨a, as, rfl⟩ := List.exists_cons_of_length_eq_add_one h.symm
      rw [List.length_cons, List.length_cons, Nat.add_right_cancel_iff] at h
      rw [List.forall₂_cons, ← ih h]
      cases o with
      | none =>
          -- too few are left
          have hle := List.length_filterMap_le id os
          simp only [List.filterMap_cons, id, reduceCtorEq, false_and, iff_false]
          intro heq
          have hlen : (os.filterMap id).length = as.length + 1 := congrArg List.length heq
          omega
      | some b => simp

/-- Two lists that are read as the same say the same one by one. -/
theorem map_eq_map_iff {α β γ : Type} {f : β → γ} {g : α → γ} {as : List α} {bs : List β} :
    bs.map f = as.map g ↔ List.Forall₂ (fun a b => f b = g a) as bs := by
  induction as generalizing bs with
  | nil => simp
  | cons a as ih =>
      cases bs with
      | nil => simp
      | cons b bs => rw [List.map_cons, List.map_cons, List.cons.injEq, ih, List.forall₂_cons]

section Fields

variable {env} {text : Text κ Empty} {trs pars : List Field}

/-- The translations of a record are read one after the other. -/
theorem foldlM_trs (h : listExport (bytes "trn") trnExport text.trs = .ok trs) :
    ∃ items, text.trs.mapM trnExport = .ok items ∧ ∀ read : Text κ Empty, trs.foldlM (textField env) read =
      (items.mapM (parseTranslation env) >>= fun ts => .ok { read with trs := ts.reverse ++ read.trs }) := by
  unfold listExport at h
  split_ifs at h with hempty
  · cases h
    exact ⟨[], by rw [hempty]; rfl, fun read => rfl⟩
  · obtain ⟨items, hitems, heq⟩ := Checked.bind_eq_ok.mp h
    cases heq
    have hne : bytes "trn" ≠ bytes "p" := by decide
    exact ⟨items, hitems, fun read => by simp [textField, hne]⟩

/-- So are its paragraphs. -/
theorem foldlM_pars (h : listExport (bytes "p") (parExport env) text.pars = .ok pars) :
    ∃ items, text.pars.mapM (parExport env) = .ok items ∧ ∀ read : Text κ Empty, pars.foldlM (textField env) read =
      (items.mapM (parsePar env) >>= fun ps => .ok { read with pars := read.pars ++ ps.filterMap id }) := by
  unfold listExport at h
  split_ifs at h with hempty
  · cases h
    exact ⟨[], by rw [hempty]; rfl, fun read => by simp⟩
  · obtain ⟨items, hitems, heq⟩ := Checked.bind_eq_ok.mp h
    cases heq
    exact ⟨items, hitems, fun read => by simp [textField]⟩

/-- **The fields of a text** give what the text says if its parts come back. -/
theorem foldlM_textField (htrs : listExport (bytes "trn") trnExport text.trs = .ok trs)
    (hpars : listExport (bytes "p") (parExport env) text.pars = .ok pars) (seq : Option CharSeq) :
    (∃ t, (trs ++ pars).foldlM (textField env) { seq } = .ok t ∧ t.said = text.said.mirror) ↔
      (seq.map saidSeq = text.seq.map saidSeq ∧ text.locale = [] ∧ text.hasState = false) ∧
        (∀ trn ∈ text.trs, trn.Clean env) ∧ ∀ par ∈ text.pars, par.Clean env := by
  obtain ⟨ritems, hritems, hread⟩ := @foldlM_trs κ env text trs htrs
  obtain ⟨pitems, hpitems, hread'⟩ := foldlM_pars hpars
  have hall := Checked.exists_mapM_of_mapM (f := parseTranslation env) (R := fun a b => b.said = a.said)
    (C := fun trn => trn.Clean env) hritems fun trn _ body hbody => parseTranslation_trnExport env hbody
  have hall' := Checked.exists_mapM_of_mapM (f := parsePar env) (R := fun a o => o = some a)
    (C := fun par => par.Clean env) hpitems fun par _ body hbody => by
      rw [← parsePar_parExport env hbody]
      simp
  rw [← hall, ← hall', List.foldlM_append, hread, bind_assoc]
  simp only [Checked.bind_eq_ok, Checked.ok_bind, hread', List.append_nil, List.nil_append]
  constructor
  · rintro ⟨t, ⟨ts, hts, ps, hps, heq⟩, hsaid⟩
    cases heq
    simp only [Text.said, Text.mirror, Text.mk.injEq, List.map_reverse, List.reverse_inj] at hsaid
    obtain ⟨hseq, hlocale, htrs', hpars', hstate⟩ := hsaid
    refine ⟨⟨hseq, hlocale.symm, hstate.symm⟩, ⟨ts, hts, map_eq_map_iff.mp htrs'⟩, ps, hps, ?_⟩
    refine (filterMap_id_eq_iff ?_).mp hpars'
    rw [(Checked.mapM_eq_ok_iff.mp hpitems).length_eq, (Checked.mapM_eq_ok_iff.mp hps).length_eq]
  · rintro ⟨⟨hseq, hlocale, hstate⟩, ⟨ts, hts, htrs'⟩, ps, hps, hpars'⟩
    refine ⟨_, ⟨ts, hts, ps, hps, rfl⟩, ?_⟩
    rw [(filterMap_id_eq_iff hpars'.length_eq.symm).mpr hpars']
    simp only [Text.said, Text.mirror, Text.mk.injEq, List.map_reverse, List.reverse_inj]
    exact ⟨hseq, hlocale.symm, map_eq_map_iff.mpr htrs', trivial, hstate.symm⟩

end Fields

/-- What is written for a list is empty if the list is. -/
theorem listExport_eq_nil {α : Type} {tag : List UInt8} {export' : α → Checked KndErr Fault Rec} {as : List α} :
    listExport tag export' as = .ok [] ↔ as = [] := by
  unfold listExport
  split_ifs with h
  · simp [h]
  · simp only [Checked.bind_eq_ok, Checked.pure_eq, Checked.ok.injEq, reduceCtorEq, and_false, exists_false, h]

theorem Text.clean_iff {text : Text κ Empty} :
    text.Clean env ↔ (text.locale = [] ∧ text.hasState = false) ∧
      ((∀ trn ∈ text.trs, trn.Clean env) ∧ ∀ par ∈ text.pars, par.Clean env) ∧
      (∀ seq, text.seq = some seq → Registered env.table seq) ∧
      (text.seq = none → text.trs = [] → text.pars = [] → env.parseEmpty = .ok ()) :=
  ⟨fun h => ⟨⟨h.locale, h.hasState⟩, ⟨h.trs, h.pars⟩, h.seq, h.empty⟩,
    fun ⟨⟨hlocale, hstate⟩, ⟨htrs, hpars⟩, hseq, hempty⟩ => ⟨hstate, hlocale, hseq, htrs, hpars, hempty⟩⟩

/-- A text without `seq`. -/
theorem textRead_of_seq_eq_none {text : Text κ Empty} {trs pars : List Field}
    (htrs : listExport (bytes "trn") trnExport text.trs = .ok trs)
    (hpars : listExport (bytes "p") (parExport env) text.pars = .ok pars) (hseq : text.seq = none)
    (hlocale : text.locale = []) :
    (∃ t, textRead env (.mk [] (trs ++ pars)) = .ok t ∧ t.said = text.said.mirror) ↔ text.Clean env := by
  have hfields := foldlM_textField htrs hpars none
  rw [Text.clean_iff]
  by_cases hempty : trs ++ pars = []
  · -- the record is empty
    obtain ⟨rfl, rfl⟩ := List.append_eq_nil_iff.mp hempty
    obtain ⟨tseq, tlocale, ttrs, tpars, tstate⟩ := text
    simp only [listExport_eq_nil] at htrs hpars
    subst htrs hpars hseq hlocale
    rw [textRead, List.append_nil, parse_empty]
    cases env.parseEmpty with
    | ok u => simp [Text.said, Text.mirror, eq_comm]
    | err e => simp
    | fault f => simp
  · obtain ⟨f, fs, hcons⟩ := List.exists_cons_of_ne_nil hempty
    rw [textRead, hcons, parse_fields, ← hcons, hfields, hseq]
    have hnot : text.trs = [] → text.pars ≠ [] := by
      intro hnil hnil'
      rw [listExport_eq_nil.mpr hnil] at htrs
      rw [listExport_eq_nil.mpr hnil'] at hpars
      cases htrs
      cases hpars
      exact hempty rfl
    simp only [true_and, reduceCtorEq, false_implies, implies_true, forall_const]
    exact and_congr_right fun _ => (and_iff_left fun htrs' hpars' => absurd hpars' (hnot htrs')).symm

/-- A text with `seq`. -/
theorem textRead_of_seq_eq_some {text : Text κ Empty} {trs pars : List Field}
    (htrs : listExport (bytes "trn") trnExport text.trs = .ok trs)
    (hpars : listExport (bytes "p") (parExport env) text.pars = .ok pars) {seq : CharSeq} (hseq : text.seq = some seq)
    (hlocale : text.locale = []) :
    (∃ t, textRead env (.mk (kndUidCreate seq.numid) (trs ++ pars)) = .ok t ∧ t.said = text.said.mirror) ↔
      text.Clean env := by
  rw [Text.clean_iff, textRead, parse_value (kndUidCreate_ne_nil _), setTextSeq, bind_assoc]
  have hfields := fun a : CharSeq => foldlM_textField htrs hpars (some a)
  simp only [hseq, hlocale, Option.some.injEq, forall_eq', true_and, reduceCtorEq, false_implies, and_true, Registered,
    Option.map_some, saidSeq_eq_iff] at hfields ⊢
  cases decodeSeq env.table (kndUidCreate seq.numid) with
  | err e => simp
  | fault f => simp
  | ok a =>
      simp only [Checked.ok_bind, Checked.pure_eq, hfields, Checked.ok.injEq, exists_eq_left']
      constructor
      · rintro ⟨⟨ha, hstate⟩, hall⟩
        exact ⟨hstate, hall, ha⟩
      · rintro ⟨hstate, hall, ha⟩
        exact ⟨⟨ha, hstate⟩, hall⟩

/-- The reader does not know the tag of the locale. -/
theorem textRead_of_locale {value : List UInt8} {locale : Name} (hlocale : locale ≠ []) (fields : List Field)
    (text : Text κ Empty) : textRead env (.mk value (langExport locale ++ fields)) ≠ .ok text := by
  have hfail : ∀ t : Text κ Empty, (langExport locale ++ fields).foldlM (textField env) t = .err .noMatch := by
    intro t
    have hne : bytes "_lang" ≠ bytes "lang" := by decide
    simp [langExport, hlocale, textField, hne]
  intro hread
  by_cases hvalue : value = []
  · subst hvalue
    have hcons : langExport locale ++ fields = .clause (bytes "_lang") (.mk locale []) :: fields := by
      simp [langExport, hlocale]
    rw [textRead, hcons, parse_fields, ← hcons, hfail] at hread
    cases hread
  · rw [textRead, parse_value hvalue] at hread
    obtain ⟨t, -, ht⟩ := Checked.bind_eq_ok.mp hread
    rw [hfail] at ht
    cases ht

/-- **A text is read back**, with its translations in reverse, exactly if it is clean. -/
theorem textRead_textExport_iff {text : Text κ Empty} {rec : Rec} (h : textExport env text = .ok rec) :
    (∃ t, textRead env rec = .ok t ∧ t.said = text.said.mirror) ↔ text.Clean env := by
  unfold textExport at h
  split_ifs at h with hstate
  · -- nothing is written
    cases h
    rw [textRead, parse_empty]
    constructor
    · rintro ⟨t, heq, hsaid⟩
      obtain ⟨u, -, htext⟩ := Checked.bind_eq_ok.mp heq
      cases htext
      have hnone : none = text.seq.map saidSeq := congrArg Text.seq hsaid
      rw [Option.map_eq_none_iff.mp hnone.symm] at hstate
      simp at hstate
    · intro hclean
      rw [hclean.hasState] at hstate
      simp at hstate
  · obtain ⟨value, hvalue, hrest⟩ := Checked.bind_eq_ok.mp h
    obtain ⟨trs, htrs, hrest⟩ := Checked.bind_eq_ok.mp hrest
    obtain ⟨pars, hpars, hrec⟩ := Checked.bind_eq_ok.mp hrest
    cases hrec
    by_cases hlocale : text.locale = []
    · rw [langExport, if_pos hlocale, List.nil_append]
      cases hseq : text.seq with
      | none =>
          rw [hseq] at hvalue
          cases hvalue
          exact textRead_of_seq_eq_none env htrs hpars hseq hlocale
      | some seq =>
          rw [hseq] at hvalue
          obtain rfl := uidOf_eq_ok hvalue
          exact textRead_of_seq_eq_some env htrs hpars hseq hlocale
    · rw [List.append_assoc]
      refine iff_of_false ?_ fun hclean => hlocale hclean.locale
      rintro ⟨t, hread, -⟩
      exact textRead_of_locale env hlocale _ t hread

/-! ## (6) What can be written -/

/-- A loop returns exactly if each of its rounds does. -/
theorem mapM_returns {α β : Type} {f : α → Checked KndErr Fault β} {as : List α} :
    (∃ bs, as.mapM f = .ok bs) ↔ ∀ a ∈ as, ∃ b, f a = .ok b := by
  induction as with
  | nil => simp
  | cons a as ih =>
      rw [List.forall_mem_cons, ← ih, List.mapM_cons]
      constructor
      · rintro ⟨bs, hbs⟩
        obtain ⟨b, hb, hrest⟩ := Checked.bind_eq_ok.mp hbs
        obtain ⟨bs', hbs', -⟩ := Checked.bind_eq_ok.mp hrest
        exact ⟨⟨b, hb⟩, bs', hbs'⟩
      · rintro ⟨⟨b, hb⟩, bs, hbs⟩
        exact ⟨b :: bs, by rw [hb, Checked.ok_bind, hbs]; rfl⟩

theorem listExport_returns {α : Type} {tag : List UInt8} {export' : α → Checked KndErr Fault Rec} {as : List α} :
    (∃ fields, listExport tag export' as = .ok fields) ↔ ∀ a ∈ as, ∃ rec, export' a = .ok rec := by
  rw [← mapM_returns]
  unfold listExport
  split_ifs with hempty
  · subst hempty
    exact iff_of_true ⟨[], rfl⟩ ⟨[], rfl⟩
  · constructor
    · rintro ⟨fields, hfields⟩
      obtain ⟨items, hitems, -⟩ := Checked.bind_eq_ok.mp hfields
      exact ⟨items, hitems⟩
    · rintro ⟨items, hitems⟩
      exact ⟨[.array tag items], by rw [hitems]; rfl⟩

/-- The number of a string that is found under its id fits the buffer for ids. -/
theorem uidOf_of_registered {table : StrRepo} {seq : CharSeq} (h : Registered table seq) :
    uidOf seq.numid = .ok (kndUidCreate seq.numid) := by
  obtain ⟨seq', hdec, -⟩ := h
  unfold decodeSeq at hdec
  split_ifs at hdec with hlen
  rw [uidOf, if_pos]
  rw [kndUidCreate, kndNumToStr_eq, length_digitsKey, numDigits] at hlen
  split_ifs at hlen with hzero
  · rw [hzero]
    decide
  · rw [List.length_map] at hlen
    exact (Nat.digits_length_le_iff (by decide) _).mp hlen

/-- A translation that comes back is written if it has a string. -/
theorem trnExport_returns {trn : Trn} (h : trn.Clean env) : (∃ rec, trnExport trn = .ok rec) ↔ trn.seq ≠ none := by
  obtain ⟨locale, seq⟩ := trn
  cases seq with
  | none => simp [trnExport]
  | some seq => simp [trnExport, uidOf_of_registered (h.2 seq rfl)]

theorem parExport_returns (par : Par κ Empty) : ∃ rec, parExport env par = .ok rec := by
  obtain ⟨sents, hsents⟩ : ∃ sents, par.sents.mapM (sentExport env) = .ok sents :=
    mapM_returns.mpr fun sent _ => ⟨_, sentExport_eq env sent⟩
  exact ⟨_, by rw [parExport, hsents]; rfl⟩

theorem textExport_returns {text : Text κ Empty} (h : text.Clean env) :
    (∃ rec, textExport env text = .ok rec) ↔ ∀ trn ∈ text.trs, trn.seq ≠ none := by
  have htrs : (∃ trs, listExport (bytes "trn") trnExport text.trs = .ok trs) ↔ ∀ trn ∈ text.trs, trn.seq ≠ none := by
    rw [listExport_returns]
    exact forall₂_congr fun trn htrn => trnExport_returns env (h.trs trn htrn)
  rw [← htrs, textExport, if_neg (by simp [h.hasState])]
  constructor
  · rintro ⟨rec, hrec⟩
    obtain ⟨value, -, hrest⟩ := Checked.bind_eq_ok.mp hrec
    obtain ⟨trs, hfields, -⟩ := Checked.bind_eq_ok.mp hrest
    exact ⟨trs, hfields⟩
  · rintro ⟨trs, hfields⟩
    have hvalue : ∃ value, seqExport text.seq = .ok value := by
      cases hseq : text.seq with
      | none => exact ⟨[], rfl⟩
      | some seq => exact ⟨_, uidOf_of_registered (h.seq seq hseq)⟩
    obtain ⟨value, hvalue⟩ := hvalue
    obtain ⟨pars, hpars⟩ := listExport_returns.mpr fun par _ => parExport_returns env par
    exact ⟨_, by rw [hvalue, Checked.ok_bind, hfields, Checked.ok_bind, hpars]; rfl⟩

/-- **A text is written and read back**, with its translations in reverse, exactly if it is clean and every translation
has a string: a translation without one is a null pointer for the writer. -/
theorem reads_textExport_iff (text : Text κ Empty) :
    (∃ rec, textExport env text = .ok rec ∧ ∃ t, textRead env rec = .ok t ∧ t.said = text.said.mirror) ↔
      text.Clean env ∧ ∀ trn ∈ text.trs, trn.seq ≠ none := by
  constructor
  · rintro ⟨rec, hrec, hread⟩
    have hclean := (textRead_textExport_iff env hrec).mp hread
    exact ⟨hclean, (textExport_returns env hclean).mp ⟨rec, hrec⟩⟩
  · rintro ⟨hclean, hseqs⟩
    obtain ⟨rec, hrec⟩ := (textExport_returns env hclean).mpr hseqs
    exact ⟨rec, hrec, (textRead_textExport_iff env hrec).mpr hclean⟩

end Knowdy.TextGsp
