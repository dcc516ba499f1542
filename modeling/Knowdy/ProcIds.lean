import Knowdy.KndSet
import Knowdy.ProcResolve
import Knowdy.StringIdx

/-! # The ids of procs

`resolve_procs` of `knd_repo.gsl.c` goes through the name index. A proc that is not resolved yet is, and gets the
next number; but resolving it resolves the procs it is based on, which are skipped when their turn comes.

* `ProcRepo`, `resolveProcs` — the memory with the ids, the code; `procs_resolveProcs`: apart from the ids it does
  what `Procs.resolveProcs` does.
* `Inv` — what holds after a part of the name index, by induction on it.
* `HaveIds` — every proc has an id of its own, and `proc_idx` finds it.
* `haveIds_iff` — they have, if and only if no proc of the name index comes after one that is based on it. -/

namespace Knowdy.ProcIds

open Procs Relation

/-! ## (1) The code -/

/-- The procs of a repository. -/
structure ProcRepo where
  /-- The procs. -/
  procs : ProcHeap := {}
  /-- `entry->numid` of each proc. -/
  numid : ProcAddr → Nat := fun _ => 0
  /-- `entry->id`, up to `entry->id_size`. -/
  id : ProcAddr → List UInt8 := fun _ => []
  /-- `proc_id_count`. -/
  procIdCount : Nat := 0
  /-- `proc_idx`. -/
  procIdx : KndSet ProcAddr := {}

/-- What `resolve_procs` can end with other than success. -/
inductive ProcsErr
  /-- A proc was not resolved. -/
  | proc (e : ProcErr)
  /-- The id was not added to `proc_idx`. -/
  | idx (e : KndErr)
  deriving DecidableEq, Repr

/-- A proc gets the next number. -/
def number (self : ProcRepo) (p : ProcAddr) : ProcRepo :=
  { self with
    numid := Function.update self.numid p (self.procIdCount + 1)
    id := Function.update self.id p (kndUidCreate (self.procIdCount + 1))
    procIdCount := self.procIdCount + 1 }

@[simp] theorem procs_number (self : ProcRepo) (p : ProcAddr) : (number self p).procs = self.procs := rfl

@[simp] theorem procIdx_number (self : ProcRepo) (p : ProcAddr) : (number self p).procIdx = self.procIdx := rfl

@[simp] theorem procIdCount_number (self : ProcRepo) (p : ProcAddr) :
    (number self p).procIdCount = self.procIdCount + 1 := rfl

@[simp] theorem numid_number_self (self : ProcRepo) (p : ProcAddr) :
    (number self p).numid p = self.procIdCount + 1 := Function.update_self ..

theorem numid_number_of_ne (self : ProcRepo) {p q : ProcAddr} (h : q ≠ p) :
    (number self p).numid q = self.numid q := Function.update_of_ne h ..

@[simp] theorem id_number_self (self : ProcRepo) (p : ProcAddr) :
    (number self p).id p = kndUidCreate (self.procIdCount + 1) := Function.update_self ..

theorem id_number_of_ne (self : ProcRepo) {p q : ProcAddr} (h : q ≠ p) :
    (number self p).id q = self.id q := Function.update_of_ne h ..

/-- It is added to `proc_idx` under its id. -/
def addId (self : ProcRepo) (p : ProcAddr) : EStateM.Result ProcsErr ProcRepo Unit :=
  match kndSetAdd self.procIdx (self.id p) p with
  | (.error e, procIdx) => .error (.idx e) { self with procIdx }
  | (.ok (), procIdx) => .ok () { self with procIdx }

variable (G : ProcSchema) (depth : Nat)

/-- One round of the loop of `resolve_procs`. -/
def resolveProc (p : ProcAddr) : EStateM ProcsErr ProcRepo Unit := fun self =>
  if (self.procs.cells p).isResolved then .ok () self
  else
    match (kndProcResolve G depth p).run self.procs with
    | .error e procs => .error (.proc e) { self with procs }
    | .ok () procs => addId (number { self with procs } p) p

/-- `resolve_procs`, over the procs in the order of the name index. -/
def resolveProcs (order : List ProcAddr) : EStateM ProcsErr ProcRepo Unit := order.forM (resolveProc G depth)

/-- **Every proc has an id of its own**, and `proc_idx` finds it. -/
structure HaveIds (r : ProcRepo) (names : List ProcAddr) : Prop where
  /-- No id is empty. -/
  nonempty : ∀ p ∈ names, r.id p ≠ []
  /-- No two procs share an id. -/
  unique : ∀ p ∈ names, ∀ q ∈ names, r.id p = r.id q → p = q
  /-- `proc_idx` maps each id to its proc. -/
  found : ∀ p ∈ names, kndSetGet r.procIdx (r.id p) = .ok p

variable {G depth}

/-! ## (2) One round -/

variable {self self' : ProcRepo} {p : ProcAddr}

/-- **A returning round** has skipped a resolved proc, or has resolved it and given it the next number. -/
theorem resolveProc_ok (hrun : (resolveProc G depth p).run self = .ok () self') :
    self.procs.Resolved p ∧ self' = self ∨
      ¬self.procs.Resolved p ∧ ∃ procs procIdx, (kndProcResolve G depth p).run self.procs = .ok () procs ∧
        kndSetAdd self.procIdx (kndUidCreate (self.procIdCount + 1)) p = (.ok (), procIdx) ∧
        self' = { number { self with procs } p with procIdx } := by
  have hrun' : resolveProc G depth p self = .ok () self' := hrun
  unfold resolveProc at hrun'
  split at hrun'
  · rename_i hres
    cases hrun'
    exact .inl ⟨hres, rfl⟩
  · rename_i hres
    split at hrun'
    · cases hrun'
    · rename_i procs hprocs
      unfold addId at hrun'
      split at hrun'
      · cases hrun'
      · rename_i procIdx hadd
        cases hrun'
        refine .inr ⟨hres, procs, procIdx, hprocs, ?_, rfl⟩
        rw [← hadd, id_number_self, procIdx_number]

/-- The relation of a frame condition: procs outside `P` are kept. -/
def KeptOutside (P : ProcAddr → Prop) (s s' : ProcHeap) : Prop := ∀ q, ¬P q → s'.cells q = s.cells q

instance (P : ProcAddr → Prop) : IsPreorder ProcHeap (KeptOutside P) where
  refl _ _ _ := rfl
  trans _ _ _ h h' q hq := (h' q hq).trans (h q hq)

theorem moves_modifyCell {P : ProcAddr → Prop} (hp : P p) (f : ProcHeap → ProcCell → ProcCell) :
    Moves (KeptOutside P) (modify fun s => s.modifyCell p (f s) : PM Unit) := by
  refine Moves.modify fun s q hq => ProcHeap.modifyCell_of_ne _ _ ?_
  rintro rfl
  exact hq hp

/-- **Resolving a proc stays** with what its bases lead to. -/
theorem moves_kndProcResolve (n : Nat) (p : ProcAddr) :
    Moves (KeptOutside (ReflTransGen G.IsBase p)) (kndProcResolve G n p) := by
  induction n generalizing p with
  | zero => exact Moves.throw _
  | succ n ih =>
      have hbase : ∀ b ∈ G.bases p, Moves (KeptOutside (ReflTransGen G.IsBase p))
          (resolveOnce (kndProcResolve G n) b) := by
        intro b hb
        refine Moves.get_bind fun s => ?_
        refine Moves.ite (fun _ => Moves.pure ()) (fun _ => ?_) s
        exact (ih b).mono fun s s' hkept q hq => hkept q fun hpath => hq (hpath.head hb)
      refine Moves.get_bind fun s => ?_
      refine Moves.ite (fun _ => Moves.throw _) (fun _ => ?_) s
      refine Moves.bind (moves_modifyCell .refl fun _ cell => { cell with resolvingInProgress := true })
        fun _ => ?_
      refine Moves.bind (Moves.ite (fun _ => Moves.pure ()) fun _ => ?_) fun _ => ?_
      · refine Moves.get_bind fun s => ?_
        refine Moves.ite (fun _ => Moves.throw _) (fun _ => ?_) s
        refine Moves.ite (fun _ => Moves.throw _) fun _ => ?_
        refine Moves.bind (moves_modifyCell .refl fun _ cell => { cell with baseResolvingInProgress := true })
          fun _ => ?_
        refine Moves.bind (Moves.forM fun b hb => ?_) fun _ =>
          moves_modifyCell .refl fun _ cell => { cell with baseIsResolved := true }
        exact Moves.bind (hbase b hb) fun _ =>
          moves_modifyCell .refl fun s cell => Procs.linkBase cell b (s.cells b).ancestors
      · exact Moves.bind (Moves.forM hbase) fun _ =>
          moves_modifyCell .refl fun _ cell => { cell with isResolved := true }

/-- What a resolved proc leads to is resolved. -/
theorem resolved_of_path {s : ProcHeap} (h : ProcSettled G s) (hp : s.Resolved p) {q : ProcAddr}
    (hpath : ReflTransGen G.IsBase p q) : s.Resolved q := by
  induction hpath with
  | refl => exact hp
  | tail _ hab ih => exact (h.linked _ ih).1 _ hab

/-- **What a returning resolution resolves**: the proc and what its bases lead to. -/
theorem resolved_kndProcResolve_iff {s s' : ProcHeap} (h : ProcSettled G s)
    (hrun : (kndProcResolve G depth p).run s = .ok () s') (q : ProcAddr) :
    s'.Resolved q ↔ s.Resolved q ∨ ReflTransGen G.IsBase p q := by
  obtain ⟨h', hadv, hdone⟩ := kndProcResolve_spec depth s s' p h hrun
  constructor
  · intro hq
    by_contra hno
    obtain ⟨hold, hpath⟩ := not_or.mp hno
    have hkept := (moves_kndProcResolve depth p).of_ok hrun q hpath
    rw [ProcHeap.Resolved, hkept] at hq
    exact hold hq
  · rintro (hq | hpath)
    · exact hadv.resolved hq
    · exact resolved_of_path h' hdone hpath

/-! ## (3) The name index -/

/-- **What holds after the procs `pre`** of the name index. -/
structure Inv (G : ProcSchema) (pre : List ProcAddr) (r : ProcRepo) : Prop where
  /-- The procs are settled. -/
  settled : ProcSettled G r.procs
  /-- They and what they are based on are resolved, and nothing else. -/
  resolved : ∀ q, r.procs.Resolved q ↔ ∃ p ∈ pre, ReflTransGen G.IsBase p q
  /-- `proc_idx` holds the procs with an id. -/
  held : r.procIdx.Holds r.numid fun p => r.id p ≠ []
  /-- An id spells a number that was handed out. -/
  spelled : ∀ p, r.id p ≠ [] → r.id p = kndUidCreate (r.numid p) ∧ r.numid p ≤ r.procIdCount
  /-- Procs with an id had their turn. -/
  visited : ∀ p, r.id p ≠ [] → p ∈ pre
  /-- No two of them have one number. -/
  unique : ∀ p q, r.id p ≠ [] → r.id q ≠ [] → r.numid p = r.numid q → p = q
  /-- **All have ids** if and only if none comes after one that leads to it. -/
  all : (∀ q ∈ pre, r.id q ≠ []) ↔ pre.Pairwise fun p q => ¬ReflTransGen G.IsBase p q

theorem inv_nil : Inv G [] {} where
  settled := ⟨fun _ => rfl, fun _ _ hx => absurd hx List.not_mem_nil, fun _ hp => absurd hp Bool.false_ne_true,
    fun _ _ => rfl⟩
  resolved _ := iff_of_false Bool.false_ne_true fun ⟨_, hmem, _⟩ => List.not_mem_nil hmem
  held := (KndSet.holds_new _).congr fun _ => iff_of_false id fun h => h rfl
  spelled _ h := absurd rfl h
  visited _ h := absurd rfl h
  unique _ _ h := absurd rfl h
  all := iff_of_true (fun _ hmem => absurd hmem List.not_mem_nil) List.Pairwise.nil

variable {pre : List ProcAddr}

/-- What one proc more leads to. -/
theorem exists_path_append {q : ProcAddr} :
    (∃ a ∈ pre ++ [p], ReflTransGen G.IsBase a q) ↔
      (∃ a ∈ pre, ReflTransGen G.IsBase a q) ∨ ReflTransGen G.IsBase p q := by
  simp [or_and_right, exists_or]

/-- **A resolved proc is skipped**, and stays without an id. -/
theorem Inv.skip (h : Inv G pre self) (hnodup : p ∉ pre) (hres : self.procs.Resolved p) :
    Inv G (pre ++ [p]) self := by
  obtain ⟨q, hq, hpath⟩ := (h.resolved p).mp hres
  refine ⟨h.settled, fun r => ?_, h.held, h.spelled, fun r hr => List.mem_append_left _ (h.visited r hr), h.unique,
    iff_of_false (fun hall => ?_) fun hpairwise => ?_⟩
  · rw [h.resolved, exists_path_append]
    refine ⟨.inl, fun hr => hr.elim id fun hpath' => ⟨q, hq, hpath.trans hpath'⟩⟩
  · exact hnodup (h.visited p (hall p (List.mem_append_right _ (List.mem_singleton_self p))))
  · exact (List.pairwise_append.mp hpairwise).2.2 q hq p (List.mem_singleton_self p) hpath

/-- **A proc is resolved and numbered**: nothing before it leads to it. -/
theorem Inv.number (h : Inv G pre self) (hnodup : p ∉ pre) (hres : ¬self.procs.Resolved p) {procs : ProcHeap}
    {procIdx : KndSet ProcAddr} (hrun : (kndProcResolve G depth p).run self.procs = .ok () procs)
    (hadd : kndSetAdd self.procIdx (kndUidCreate (self.procIdCount + 1)) p = (.ok (), procIdx)) :
    Inv G (pre ++ [p]) { number { self with procs } p with procIdx } := by
  have hnew : self.id p = [] := by
    by_contra hid
    exact hnodup (h.visited p hid)
  have hnumid : ∀ q, q ≠ p → (ProcIds.number { self with procs } p).numid q = self.numid q :=
    fun q hq => numid_number_of_ne _ hq
  have hid : ∀ q, q ≠ p → (ProcIds.number { self with procs } p).id q = self.id q :=
    fun q hq => id_number_of_ne _ hq
  have hself : (ProcIds.number { self with procs } p).id p ≠ [] := by
    rw [id_number_self]
    exact kndUidCreate_ne_nil _
  have hheld : self.procIdx.Holds (ProcIds.number { self with procs } p).numid fun q => self.id q ≠ [] := by
    refine h.held.congr_num fun q hq => hnumid q ?_
    rintro rfl
    exact hq hnew
  have hcount : ∀ q, self.id q ≠ [] → self.numid q < (ProcIds.number { self with procs } p).numid p := by
    intro q hq
    rw [numid_number_self]
    exact Nat.lt_succ_of_le (h.spelled q hq).2
  have hcases : ∀ q, (ProcIds.number { self with procs } p).id q ≠ [] ↔ q = p ∨ self.id q ≠ [] := by
    intro q
    by_cases hq : q = p
    · rw [hq]
      exact iff_of_true hself (.inl rfl)
    · rw [hid q hq]
      exact (or_iff_right hq).symm
  refine ⟨(kndProcResolve_spec depth _ _ p h.settled hrun).1, fun q => ?_, ?_, fun q hq => ?_, fun q hq => ?_,
    fun q r hq hr heq => ?_, ?_⟩
  · show procs.Resolved q ↔ _
    rw [resolved_kndProcResolve_iff h.settled hrun, h.resolved, exists_path_append]
  · have hfree : ∀ q, self.id q ≠ [] → (ProcIds.number { self with procs } p).numid q ≠
        (ProcIds.number { self with procs } p).numid p := by
      intro q hq
      have hqp : q ≠ p := by
        rintro rfl
        exact hq hnew
      rw [hnumid q hqp]
      exact Nat.ne_of_lt (hcount q hq)
    obtain ⟨set', hadd', hholds, -⟩ := hheld.kndSetAdd_free hfree
    rw [numid_number_self] at hadd'
    obtain rfl : set' = procIdx := (Prod.mk.inj (hadd'.symm.trans hadd)).2
    exact hholds.congr fun q => (hcases q).symm
  · show (ProcIds.number { self with procs } p).id q = _ ∧ _ ≤ self.procIdCount + 1
    by_cases hqp : q = p
    · rw [hqp, id_number_self]
      refine ⟨congrArg kndUidCreate (numid_number_self _ p).symm, ?_⟩
      rw [numid_number_self]
    · obtain ⟨hspell, hle⟩ := h.spelled q (((hcases q).mp hq).resolve_left hqp)
      rw [hid q hqp]
      refine ⟨hspell.trans (congrArg kndUidCreate (hnumid q hqp).symm), ?_⟩
      rw [hnumid q hqp]
      exact Nat.le_succ_of_le hle
  · rcases (hcases q).mp hq with rfl | hq
    · exact List.mem_append_right _ (List.mem_singleton_self q)
    · exact List.mem_append_left _ (h.visited q hq)
  · -- the new number is above all that were handed out
    have heq : (ProcIds.number { self with procs } p).numid q =
        (ProcIds.number { self with procs } p).numid r := heq
    by_cases hqp : q = p
    · by_cases hrp : r = p
      · rw [hqp, hrp]
      · have hlt := hcount r (((hcases r).mp hr).resolve_left hrp)
        rw [hqp, hnumid r hrp] at heq
        omega
    · have hq := ((hcases q).mp hq).resolve_left hqp
      by_cases hrp : r = p
      · have hlt := hcount q hq
        rw [hrp, hnumid q hqp] at heq
        omega
      · rw [hnumid q hqp, hnumid r hrp] at heq
        exact h.unique q r hq (((hcases r).mp hr).resolve_left hrp) heq
  · have hpre : (∀ q ∈ pre ++ [p], (ProcIds.number { self with procs } p).id q ≠ []) ↔
        ∀ q ∈ pre, self.id q ≠ [] := by
      simp only [hcases, List.mem_append, List.mem_singleton]
      constructor
      · intro hall q hq
        refine (hall q (.inl hq)).resolve_left ?_
        rintro rfl
        exact hnodup hq
      · exact fun hall q hq => hq.elim (fun hq => .inr (hall q hq)) .inl
    refine hpre.trans (h.all.trans ?_)
    rw [List.pairwise_append]
    refine ⟨fun hpairwise => ⟨hpairwise, List.pairwise_singleton _ _, fun q hq r hr hpath => ?_⟩, fun hall => hall.1⟩
    rw [List.mem_singleton.mp hr] at hpath
    exact hres ((h.resolved p).mpr ⟨q, hq, hpath⟩)

/-- **One round** keeps what is known. -/
theorem Inv.resolveProc (h : Inv G pre self) (hnodup : p ∉ pre)
    (hrun : (ProcIds.resolveProc G depth p).run self = .ok () self') : Inv G (pre ++ [p]) self' := by
  rcases resolveProc_ok hrun with ⟨hres, rfl⟩ | ⟨hres, procs, procIdx, hprocs, hadd, rfl⟩
  · exact h.skip hnodup hres
  · exact h.number hnodup hres hprocs hadd

/-- **The loop of `resolve_procs`**, from the procs `pre` on. -/
theorem Inv.resolveProcs (h : Inv G pre self) {order : List ProcAddr} (hnodup : (pre ++ order).Nodup)
    (hrun : (ProcIds.resolveProcs G depth order).run self = .ok () self') : Inv G (pre ++ order) self' := by
  induction order generalizing pre self with
  | nil =>
      cases hrun
      rwa [List.append_nil]
  | cons p order ih =>
      obtain ⟨_, self₁, hround, hrest⟩ := run_bind_eq_ok.mp hrun
      have hp : p ∉ pre := by
        intro hmem
        exact (List.nodup_append.mp hnodup).2.2 p hmem p (List.mem_cons_self ..) rfl
      rw [List.append_cons] at hnodup ⊢
      exact ih (h.resolveProc hp hround) hnodup hrest

/-- The names of the index lead to one another over bases, or are the same. -/
theorem pairwise_iff {order : List ProcAddr} (hnodup : order.Nodup) :
    (order.Pairwise fun p q => ¬ReflTransGen G.IsBase p q) ↔ order.Pairwise fun p q => ¬TransGen G.IsBase p q := by
  refine ⟨fun h => h.imp fun hpath htrans => hpath htrans.to_reflTransGen, fun h => ?_⟩
  refine (h.and hnodup).imp fun {p q} hpq hpath => ?_
  rcases reflTransGen_iff_eq_or_transGen.mp hpath with heq | htrans
  · exact hpq.2 heq.symm
  · exact hpq.1 htrans

/-- **When every proc has an id of its own.** After `resolve_procs` has gone through the name index in any order,
every proc has an id, no two share one and `proc_idx` finds each, if and only if no proc of the index comes after
one that is based on it. -/
theorem haveIds_iff (G : ProcSchema) (hnames : G.names.Nodup) {depth : Nat} {order : List ProcAddr}
    (horder : order.Perm G.names) {r : ProcRepo} (hrun : (resolveProcs G depth order).run {} = .ok () r) :
    HaveIds r G.names ↔ order.Pairwise fun p q => ¬TransGen G.IsBase p q := by
  have hnodup := horder.nodup_iff.mpr hnames
  have hinv : Inv G order r := inv_nil.resolveProcs hnodup hrun
  rw [← pairwise_iff hnodup, ← hinv.all]
  constructor
  · exact fun h p hp => h.nonempty p (horder.mem_iff.mp hp)
  · intro hall
    have hall : ∀ p ∈ G.names, r.id p ≠ [] := fun p hp => hall p (horder.mem_iff.mpr hp)
    refine ⟨hall, fun p hp q hq heq => ?_, fun p hp => ?_⟩
    · rw [(hinv.spelled p (hall p hp)).1, (hinv.spelled q (hall q hq)).1] at heq
      exact hinv.unique p q (hall p hp) (hall q hq) (kndUidCreate_inj.mp heq)
    · rw [(hinv.spelled p (hall p hp)).1]
      exact hinv.held.kndSetGet_eq_ok (hall p hp)

/-! ## (4) The procs themselves -/

/-- **Apart from the ids** the procs are resolved as without them. -/
theorem procs_resolveProcs {order : List ProcAddr} (hrun : (resolveProcs G depth order).run self = .ok () self') :
    (Procs.resolveProcs G depth order).run self.procs = .ok () self'.procs := by
  induction order generalizing self with
  | nil =>
      cases hrun
      rfl
  | cons p order ih =>
      obtain ⟨_, self₁, hround, hrest⟩ := run_bind_eq_ok.mp hrun
      refine run_bind_eq_ok.mpr ⟨(), self₁.procs, ?_, ih hrest⟩
      have hget : (get : PM ProcHeap).run self.procs = .ok self.procs self.procs := rfl
      rw [resolveOnce, run_bind_of_ok hget]
      rcases resolveProc_ok hround with ⟨hres, rfl⟩ | ⟨hres, procs, procIdx, hprocs, -, rfl⟩
      · rw [if_pos (show (self₁.procs.cells p).isResolved = true from hres)]
        rfl
      · rw [if_neg (show ¬(self.procs.cells p).isResolved = true from hres)]
        exact hprocs

/-- Two procs, one after the other, and a third that is based on both. -/
def pipeline : ProcSchema where
  names := [1, 2, 3]
  bases p := if p = 2 then [1] else if p = 3 then [2, 1] else []

/-- The procs come in the order of their bases. -/
theorem haveIds_iff_pipeline :
    HaveIds (finalState (resolveProcs pipeline 4 [1, 2, 3]) {}) pipeline.names ↔
      [1, 2, 3].Pairwise fun p q => ¬TransGen pipeline.IsBase p q := by
  obtain ⟨_, hrun⟩ := returns_iff.mp (by decide +kernel : returns (resolveProcs pipeline 4 [1, 2, 3]) {} = true)
  exact haveIds_iff pipeline (by decide) (List.Perm.refl _) hrun

/-- **A proc that comes after one based on it stays without an id.** -/
theorem not_haveIds_pipeline :
    returns (resolveProcs pipeline 4 [3, 1, 2]) {} = true ∧
      ¬HaveIds (finalState (resolveProcs pipeline 4 [3, 1, 2]) {}) pipeline.names := by
  refine ⟨by decide +kernel, fun h => ?_⟩
  have hid := h.nonempty 1 (by decide)
  revert hid
  decide +kernel

end Knowdy.ProcIds
