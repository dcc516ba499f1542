import Knowdy.Lib.Charges
import Knowdy.SharedDictRace

/-! # Calls on the shared dictionary return

Calls of `knd_shared_dict_get` and `knd_shared_dict_remove` run through the bucket they have loaded and return. A call
of `knd_shared_dict_set` whose exchange fails starts over; it fails only when the bucket has grown since its head was
loaded, or for no reason. Nothing is asked of the other calls.

* `Placed` — pointers of a call are into the bucket of its key, and stay so.
* `Call.cost` — how many accesses a call makes at most, by the items that its bucket holds when it starts and when it
  ends.
* `Stage.due`, `due_step` — what a call still has to do is paid for by its accesses.
* `idle_of_dictAccesses` — **a call that makes so many accesses has returned**. -/

namespace Knowdy

namespace DictRace

variable {α : Type}

/-! ## (1) The pointers of a call -/

/-- The last item of a bucket comes first, and pages are handed out once. -/
structure Stacked (table : Table α) : Prop where
  ordered : ∀ slot, (table.hashArray slot).Pairwise fun a b => b.addr < a.addr
  handedOut : ∀ slot, ∀ item ∈ table.hashArray slot, item.addr < table.nextAddr

/-- **The pointers of a call are into the bucket of its key**, in the order in which they were loaded. -/
def Placed (table : Table α) : Stage α → Prop
  | .scanning key _ origHead item => origHead <:+ table.bucket key ∧ item <:+ origHead
  | .allocated key _ origHead => origHead <:+ table.bucket key
  | .checking key _ origHead head item => head <:+ table.bucket key ∧ item <:+ head ∧ origHead <:+ item
  | .ready key _ origHead head => head <:+ table.bucket key ∧ origHead <:+ head
  | .reading key _ _ item => item <:+ table.bucket key
  | .searching key item => item <:+ table.bucket key
  | _ => True

/-- Buckets have grown at their heads. -/
def Grown (table table' : Table α) : Prop := ∀ key, table.bucket key <:+ table'.bucket key

/-- The pointers of a call stay where they are. -/
theorem Placed.grown {table table' : Table α} {stage : Stage α} (h : Placed table stage)
    (hgrown : Grown table table') : Placed table' stage := by
  cases stage with
  | scanning key data origHead item => exact ⟨h.1.trans (hgrown key), h.2⟩
  | allocated key data origHead => exact List.IsSuffix.trans h (hgrown key)
  | checking key data origHead head item => exact ⟨h.1.trans (hgrown key), h.2⟩
  | ready key data origHead head => exact ⟨h.1.trans (hgrown key), h.2⟩
  | reading key start before item => exact List.IsSuffix.trans h (hgrown key)
  | searching key item => exact List.IsSuffix.trans h (hgrown key)
  | _ => trivial

/-- An item is linked at the head of its bucket. -/
theorem grown_link (table : Table α) (key : Name) (data : α) :
    Grown table (table.link key data (table.bucket key)) := by
  intro key'
  rw [Table.bucket_link]
  split
  · rename_i hs
    rw [Table.bucket_congr hs]
    exact List.suffix_cons _ _
  · exact List.suffix_refl _

/-- A new item has the last page. -/
theorem Stacked.link {table : Table α} (h : Stacked table) (key : Name) (data : α) :
    Stacked (table.link key data (table.bucket key)) where
  ordered slot := by
    rw [Table.hashArray_link]
    split
    · exact List.pairwise_cons.mpr ⟨fun item hmem => h.handedOut _ item hmem, h.ordered _⟩
    · exact h.ordered slot
  handedOut slot item hmem := by
    rcases Table.eq_or_mem_of_mem_link hmem with ⟨rfl, -⟩ | hmem
    · exact Nat.lt_succ_self _
    · exact Nat.lt_succ_of_lt (h.handedOut slot item hmem)

/-- **An access keeps the pointers in their buckets**, and lets buckets grow. -/
theorem placed_advance {table : Table α} (hstacked : Stacked table) {stage : Stage α} (hplaced : Placed table stage)
    (spurious : Bool) :
    Stacked (advance table spurious stage).shared ∧ Grown table (advance table spurious stage).shared ∧
      Placed (advance table spurious stage).shared (advance table spurious stage).stage := by
  have haccess := access_advance table spurious stage
  generalize advance table spurious stage = o at haccess
  have hrefl : Grown table table := fun key => List.suffix_refl _
  cases haccess with
  | move h =>
      refine ⟨hstacked, hrefl, ?_⟩
      cases h with
      | rest stage hidle => exact hplaced
      | loadOrig key data => exact ⟨List.suffix_refl _, List.suffix_refl _⟩
      | scanNext key data origHead => exact ⟨hplaced.1, (List.suffix_cons _ _).trans hplaced.2⟩
      | scanEnd key data origHead => exact hplaced.1
      | scanRemoved key data origHead => exact hplaced.1
      | loadHead key data origHead => exact ⟨List.suffix_refl _, List.suffix_refl _, hplaced⟩
      | checkEnd key data origHead head => exact ⟨hplaced.1, hplaced.2.2.trans hplaced.2.1⟩
      | checkOrig key data origHead head => exact ⟨hplaced.1, hplaced.2.2.trans hplaced.2.1⟩
      | @checkNext key data origHead head item next hsame =>
          refine ⟨hplaced.1, (List.suffix_cons _ _).trans hplaced.2.1, ?_⟩
          -- the item is not the one the first loop has started at
          rcases List.suffix_cons_iff.mp hplaced.2.2 with rfl | horig
          · exact absurd (by simp [samePtr]) hsame
          · exact horig
      | retry key data origHead head => exact hplaced.2.trans hplaced.1
      | loadRead key start before => exact List.suffix_refl _
      | readNext key start before => exact (List.suffix_cons _ _).trans hplaced
      | loadRemove key => exact List.suffix_refl _
      | searchNext key => exact (List.suffix_cons _ _).trans hplaced
      | searchFound key => trivial
  | finish h => exact ⟨hstacked, hrefl, trivial⟩
  | link key data origHead head hsame =>
      obtain rfl := eq_of_samePtr (hstacked.ordered _) hplaced.1 hsame
      exact ⟨hstacked.link key data, grown_link table key data, trivial⟩
  | count key data addr => exact ⟨⟨hstacked.ordered, hstacked.handedOut⟩, hrefl, trivial⟩
  | mark key addr => exact ⟨⟨hstacked.ordered, hstacked.handedOut⟩, hrefl, trivial⟩

/-! ## (2) What is still to be done -/

/-- The key of a call. -/
def Call.key : Call α → Name
  | .set key _ | .get key | .remove key => key

/-- The accesses for one more exchange, when a bucket of `a` items has at most `b` in the end. -/
def retryCost (a b : Nat) : Nat := b - a + 3

/-- **The accesses of a call**, when its bucket holds `a` items when it starts and `b` in the end. -/
def Call.cost (a b : Nat) : Call α → Nat
  | .set _ _ => b + 3 + (b - a + 1) * retryCost a b
  | .get _ => b + 2
  | .remove _ => b + 3

/-- **How many accesses a call still makes** at most, unless an exchange fails for no reason. -/
def Stage.due (a b : Nat) (table : Table α) : Stage α → Nat
  | .idle => 0
  | .setCalled key _ => b + 3 + retryCost a b + (b - (table.bucket key).length) * retryCost a b
  | .scanning key _ _ item =>
      item.length + 2 + retryCost a b + (b - (table.bucket key).length) * retryCost a b
  | .allocated key _ _ => 1 + retryCost a b + (b - (table.bucket key).length) * retryCost a b
  | .checking _ _ origHead head item => item.length - origHead.length + 3 + (b - head.length) * retryCost a b
  | .ready _ _ _ head => 2 + (b - head.length) * retryCost a b
  | .linked _ _ _ => 1
  | .getCalled _ _ _ => b + 2
  | .reading _ _ _ item => item.length + 1
  | .removeCalled _ => b + 3
  | .searching _ item => item.length + 2
  | .found _ _ => 1

/-- A call that has nothing left to do has returned. -/
theorem Stage.idle_of_due {a b : Nat} {table : Table α} {stage : Stage α} (h : stage.due a b table = 0) :
    stage = .idle := by
  cases stage with
  | idle => rfl
  | _ => simp [due] at h

/-- **What is known of a call for a key** whose bucket held `a` items when it was called. -/
def UnderWay (key : Name) (a : Nat) : Stage α → Prop
  | .idle => True
  | .scanning key' _ origHead _ | .allocated key' _ origHead | .checking key' _ origHead _ _
  | .ready key' _ origHead _ => key' = key ∧ a ≤ origHead.length
  | .setCalled key' _ | .linked key' _ _ | .getCalled key' _ _ | .reading key' _ _ _ | .removeCalled key'
  | .searching key' _ | .found key' _ => key' = key

/-- An access keeps it. -/
theorem underWay_advance {table : Table α} {key : Name} {a : Nat} (hlen : a ≤ (table.bucket key).length)
    {stage : Stage α} (h : UnderWay key a stage) (spurious : Bool) :
    UnderWay key a (advance table spurious stage).stage := by
  have haccess := access_advance table spurious stage
  generalize advance table spurious stage = o at haccess
  cases haccess with
  | move hmove =>
      cases hmove with
      | rest stage hidle => exact h
      | loadOrig key' data =>
          obtain rfl : key' = key := h
          exact ⟨rfl, hlen⟩
      | _ => exact h
  | finish => trivial
  | link => exact h.1
  | count => trivial
  | mark => trivial

/-- **The accesses of other calls add nothing**: buckets grow. -/
theorem due_of_grown {table table' : Table α} (hgrown : Grown table table') (a b : Nat) (stage : Stage α) :
    stage.due a b table' ≤ stage.due a b table := by
  have hretry : ∀ key, (b - (table'.bucket key).length) * retryCost a b ≤
      (b - (table.bucket key).length) * retryCost a b :=
    fun key => Nat.mul_le_mul_right _ (Nat.sub_le_sub_left (hgrown key).length_le b)
  cases stage with
  | setCalled key data => exact Nat.add_le_add_left (hretry key) _
  | scanning key data origHead item => exact Nat.add_le_add_left (hretry key) _
  | allocated key data origHead => exact Nat.add_le_add_left (hretry key) _
  | _ => exact Nat.le_refl _

/-- An exchange fails when the bucket has grown since its head was loaded, or for no reason. -/
theorem due_ready {table : Table α} {key : Name} {data : α} {origHead head : List (Item α)}
    (hplaced : Placed table (.ready key data origHead head)) {a b : Nat} (hle : (table.bucket key).length ≤ b)
    (spurious : Bool) :
    (advance table spurious (.ready key data origHead head)).stage.due a b
        (advance table spurious (.ready key data origHead head)).shared + 1 ≤
      (Stage.ready key data origHead head).due a b table + if spurious then retryCost a b else 0 := by
  by_cases hcas : spurious = false ∧ samePtr (table.bucket key) head
  · simp only [advance, if_pos hcas, goto, Stage.due]
    omega
  · have hhead := hplaced.1.length_le
    simp only [advance, if_neg hcas, goto, Stage.due]
    cases spurious with
    | true =>
        have hretry : (b - (table.bucket key).length) * retryCost a b ≤ (b - head.length) * retryCost a b :=
          Nat.mul_le_mul_right _ (Nat.sub_le_sub_left hhead b)
        rw [if_pos rfl]
        omega
    | false =>
        -- the bucket holds an item more than when its head was loaded
        have hne : head.length ≠ (table.bucket key).length := by
          intro heq
          refine hcas ⟨rfl, ?_⟩
          rw [hplaced.1.eq_of_length heq]
          simp [samePtr]
        have hretry : (b - (table.bucket key).length + 1) * retryCost a b ≤ (b - head.length) * retryCost a b :=
          Nat.mul_le_mul_right _ (by omega)
        rw [Nat.succ_mul] at hretry
        omega

/-- **An access of a call leaves less to be done**, up to one exchange more when it fails for no reason. -/
theorem due_advance {table : Table α} (hstacked : Stacked table) {stage : Stage α} (hplaced : Placed table stage)
    {key : Name} {a b : Nat} (hunder : UnderWay key a stage) (hle : (table.bucket key).length ≤ b)
    (hbusy : stage ≠ .idle) (spurious : Bool) :
    (advance table spurious stage).stage.due a b (advance table spurious stage).shared + 1 ≤
      stage.due a b table + if spurious then retryCost a b else 0 := by
  cases stage with
  | idle => exact absurd rfl hbusy
  | ready key' data origHead head =>
      obtain rfl : key' = key := hunder.1
      exact due_ready hplaced hle spurious
  | setCalled key' data =>
      obtain rfl : key' = key := hunder
      simp only [advance, goto, Stage.due]
      omega
  | scanning key' data origHead item =>
      cases item with
      | nil =>
          simp only [advance, goto, Stage.due, List.length_nil]
          omega
      | cons item next =>
          simp only [advance]
          split_ifs
          all_goals
            simp only [finish, goto, Stage.due, List.length_cons]
            omega
  | allocated key' data origHead =>
      obtain ⟨rfl, horig⟩ := hunder
      simp only [advance, goto, Stage.due, retryCost]
      omega
  | checking key' data origHead head item =>
      cases item with
      | nil =>
          simp only [advance, goto, Stage.due, List.length_nil]
          omega
      | cons item next =>
          by_cases hsame : samePtr (item :: next) origHead
          · simp only [advance, if_pos hsame, goto, Stage.due]
            omega
          · by_cases hkey : item.key = key'
            · simp only [advance, if_neg hsame, if_pos hkey, finish, Stage.due]
              omega
            · -- the item the first loop has started at is still ahead
              have hnext := (placed_advance hstacked hplaced spurious).2.2
              simp only [advance, if_neg hsame, if_neg hkey, goto] at hnext ⊢
              have horig := hnext.2.2.length_le
              simp only [Stage.due, List.length_cons]
              omega
  | linked key' data addr =>
      simp only [advance, finish, Stage.due]
      omega
  | getCalled key' start before =>
      obtain rfl : key' = key := hunder
      simp only [advance, goto, Stage.due]
      omega
  | reading key' start before item =>
      cases item with
      | nil =>
          simp only [advance, finish, Stage.due, List.length_nil]
          omega
      | cons item next =>
          simp only [advance]
          split_ifs
          all_goals
            simp only [finish, goto, Stage.due, List.length_cons]
            omega
  | removeCalled key' =>
      obtain rfl : key' = key := hunder
      simp only [advance, goto, Stage.due]
      omega
  | searching key' item =>
      cases item with
      | nil =>
          simp only [advance, finish, Stage.due, List.length_nil]
          omega
      | cons item next =>
          simp only [advance]
          split_ifs
          all_goals
            simp only [goto, Stage.due, List.length_cons]
            omega
  | found key' addr =>
      simp only [advance, finish, Stage.due]
      omega

/-! ## (3) Runs -/

variable {ι : Type} [DecidableEq ι]

/-- The accesses of a thread. -/
def DictEvent.accesses (t : ι) : DictEvent ι α → Nat
  | .call _ _ => 0
  | .access u _ => if u = t then 1 else 0

/-- The accesses of a thread whose exchange fails for no reason. -/
def DictEvent.misses (t : ι) : DictEvent ι α → Nat
  | .call _ _ => 0
  | .access u spurious => if u = t ∧ spurious = true then 1 else 0

/-- What is known of all calls. -/
def Race.Steady (s : Race ι α) : Prop := Stacked s.shared ∧ ∀ t, Placed s.shared (s.stage t)

/-- An event keeps what is known, and lets buckets grow. -/
theorem Race.Steady.step {s : Race ι α} (h : s.Steady) (e : DictEvent ι α) :
    (s.step e).Steady ∧ Grown s.shared (s.step e).shared := by
  have hrefl : Grown s.shared s.shared := fun key => List.suffix_refl _
  cases e with
  | call u call =>
      simp only [Race.step]
      split
      · refine ⟨⟨h.1, fun t => ?_⟩, hrefl⟩
        by_cases hut : t = u
        · subst hut
          rw [Threads.stage_turn_self]
          cases call <;> trivial
        · rw [Threads.stage_turn_of_ne hut]
          exact h.2 t
      · exact ⟨h, hrefl⟩
  | access u spurious =>
      obtain ⟨hstacked, hgrown, hplaced⟩ := placed_advance h.1 (h.2 u) spurious
      refine ⟨⟨hstacked, fun t => ?_⟩, hgrown⟩
      by_cases hut : t = u
      · subst hut
        rw [Race.step, Threads.stage_turn_self]
        exact hplaced
      · rw [Race.step, Threads.stage_turn_of_ne hut]
        exact (h.2 t).grown hgrown

omit [DecidableEq ι] in
theorem steady_start (size : Nat) : (Race.start size : Race ι α).Steady :=
  ⟨⟨fun _ => List.Pairwise.nil, fun _ _ hmem => absurd hmem List.not_mem_nil⟩, fun _ => trivial⟩

/-- What is known while the call of a thread for a key is under way. -/
structure Race.Serving (t : ι) (key : Name) (a : Nat) (s : Race ι α) : Prop where
  steady : s.Steady
  underWay : UnderWay key a (s.stage t)
  le : a ≤ (s.shared.bucket key).length

section Step

variable {t : ι} {key : Name} {a b : Nat} {s : Race ι α} {e : DictEvent ι α}

/-- A turn of the thread, or none. -/
theorem stage_step (s : Race ι α) (he : ∀ call, e ≠ .call t call) :
    ((s.step e).stage t = s.stage t ∧ e.accesses t = 0) ∨
    ∃ spurious, e = .access t spurious ∧ (s.step e).stage t = (advance s.shared spurious (s.stage t)).stage ∧
      (s.step e).shared = (advance s.shared spurious (s.stage t)).shared := by
  cases e with
  | call u call =>
      have hne : t ≠ u := fun h => he call (by rw [h])
      refine .inl ⟨?_, rfl⟩
      simp only [Race.step]
      split
      · exact Threads.stage_turn_of_ne hne
      · rfl
  | access u spurious =>
      by_cases hut : t = u
      · subst hut
        exact .inr ⟨spurious, rfl, Threads.stage_turn_self, rfl⟩
      · exact .inl ⟨Threads.stage_turn_of_ne hut, if_neg (Ne.symm hut)⟩

/-- An event keeps it, and the bucket grows. -/
theorem Race.Serving.step (h : s.Serving t key a) (he : ∀ call, e ≠ .call t call) :
    (s.step e).Serving t key a ∧ (s.shared.bucket key).length ≤ ((s.step e).shared.bucket key).length := by
  obtain ⟨hsteady, hgrown⟩ := h.steady.step e
  have hle := (hgrown key).length_le
  refine ⟨⟨hsteady, ?_, Nat.le_trans h.le hle⟩, hle⟩
  rcases stage_step s he with ⟨hstage, -⟩ | ⟨spurious, -, hstage, -⟩
  · rw [hstage]
    exact h.underWay
  · rw [hstage]
    exact underWay_advance h.le h.underWay spurious

/-- **An event pays** for the accesses of a call. -/
theorem due_step (h : s.Serving t key a) (he : ∀ call, e ≠ .call t call)
    (hend : ((s.step e).shared.bucket key).length ≤ b) (hbusy : s.stage t ≠ .idle) :
    ((s.step e).stage t).due a b (s.step e).shared + e.accesses t ≤
      (s.stage t).due a b s.shared + e.misses t * retryCost a b := by
  have hgrown := (h.steady.step e).2
  rcases stage_step s he with ⟨hstage, haccesses⟩ | ⟨spurious, rfl, hstage, hshared⟩
  · have hdue := due_of_grown hgrown a b (s.stage t)
    rw [hstage, haccesses]
    omega
  · have hadvance := due_advance h.steady.1 (h.steady.2 t) h.underWay
      (Nat.le_trans (hgrown key).length_le hend) hbusy spurious
    rw [hstage, hshared, DictEvent.accesses, DictEvent.misses, if_pos rfl]
    cases spurious with
    | true => simpa using hadvance
    | false => simpa using hadvance

/-- A thread that is in no call stays so. -/
theorem idle_step (he : ∀ call, e ≠ .call t call) (hidle : s.stage t = .idle) : (s.step e).stage t = .idle := by
  rcases stage_step s he with ⟨hstage, -⟩ | ⟨spurious, -, hstage, -⟩
  · rw [hstage, hidle]
  · rw [hstage, hidle]
    rfl

end Step

/-- **A call returns**, whatever the other calls do: when a thread has made the accesses of its call, and for each
exchange that has failed for no reason those for one more, it is in no call any more. -/
theorem idle_of_dictAccesses {size : Nat} {s : Race ι α}
    (hrun : Reaches Race.step (fun _ _ => True) (Race.start size : Race ι α) s) {t : ι} (hidle : s.stage t = .idle)
    (call : Call α) {es : List (DictEvent ι α)} (hes : ∀ e ∈ es, ∀ call, e ≠ .call t call) {s' : Race ι α}
    (hs' : s' = es.foldl Race.step (s.step (.call t call))) {a b : Nat}
    (ha : a = (s.shared.bucket call.key).length) (hb : b = (s'.shared.bucket call.key).length)
    (hmany : call.cost a b + (es.map (DictEvent.misses t)).sum * retryCost a b ≤
      (es.map (DictEvent.accesses t)).sum) : s'.stage t = .idle := by
  have hsteady := hrun.invariant (steady_start size) fun s e h _ => (Race.Steady.step h e).1
  have hcalled : s.step (.call t call) = s.turn t (goto s.shared (called s.shared s.log call)) := by
    simp only [Race.step, hidle]
  have hserving : (s.step (.call t call)).Serving t call.key a := by
    refine ⟨(hsteady.step _).1, ?_, Nat.le_of_eq ?_⟩
    · rw [hcalled, Threads.stage_turn_self]
      cases call <;> rfl
    · rw [ha, hcalled]
      rfl
  have hdue : ((s.step (.call t call)).stage t).due a b (s.step (.call t call)).shared ≤ call.cost a b := by
    rw [hcalled, Threads.stage_turn_self]
    cases call with
    | set key data =>
        simp only [goto, called, Stage.due, Call.cost, Threads.shared_turn, ha, Call.key, Nat.succ_mul]
        omega
    | get key => exact Nat.le_refl _
    | remove key => exact Nat.le_refl _
  have hall : AllAllowed Race.step
      (fun r e => (∀ call, e ≠ .call t call) ∧ ((Race.step r e).shared.bucket call.key).length ≤ b)
      (s.step (.call t call)) es :=
    (allAllowed_of_forall hes _).bounded (I := Race.Serving t call.key a)
      (f := fun r : Race ι α => (r.shared.bucket call.key).length) (fun r e hr he => hr.step he) hserving
      (by rw [hb, hs'])
  have hpays : Pays Race.step
      (fun r e => (∀ call, e ≠ .call t call) ∧ ((Race.step r e).shared.bucket call.key).length ≤ b)
      (Race.Serving t call.key a) (fun r : Race ι α => r.stage t = .idle) (fun r => (r.stage t).due a b r.shared)
      (fun _ => DictEvent.accesses t) (fun _ e => e.misses t * retryCost a b) :=
    { keeps := fun r e hr he => (hr.step he.1).1
      stays := fun r e hr he => idle_step he.1 hr
      pays := fun r e hr he hbusy => due_step hr he.1 he.2 hbusy }
  rw [hs']
  refine hpays.rest_of_total_le (fun r hr => Stage.idle_of_due hr) hserving hall ?_
  rw [total_const, total_const, List.sum_map_mul_right]
  omega

/-- Another call links its item before the exchange of the first one, which starts over. -/
def overtakenOnce : List (DictEvent Bool Nat) :=
  List.replicate 4 (.access true false) ++ [.call false (.set [98] 2)] ++ List.replicate 6 (.access false false) ++
    List.replicate 16 (.access true false)

theorem idle_of_dictAccesses_overtakenOnce :
    (overtakenOnce.foldl Race.step ((Race.start 1 : Race Bool Nat).step (.call true (.set [97] 1)))).stage true =
      .idle := by
  refine idle_of_dictAccesses .refl rfl (.set [97] 1) (fun e he call heq => ?_) rfl rfl rfl (by decide +kernel)
  subst heq
  simp [overtakenOnce] at he

end DictRace

end Knowdy
