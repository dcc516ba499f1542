import Knowdy.Lib.Charges
import Knowdy.MempoolRace

/-! # Calls for a page return

A call of `knd_mempool_page` on a shared pool whose exchange fails starts over. The exchange fails when another call
has taken the page in the meantime, or for no reason, and pages that are taken do not come back: so a call returns,
whatever the other calls do.

* `Stage.due` — how many accesses a call still makes, by whether the page it has loaded is still the head.
* `idle_of_taken` — three accesses more for each page that others take.
* `Listing.total` — each page that is taken is one page less in the list.
* `idle_of_pageAccesses` — **a call returns after `3 · n + 4` accesses**, where `n` is the number of listed pages. -/

namespace Knowdy

namespace Mempool

variable {ι : Type} [DecidableEq ι]

/-! ## (1) What is counted -/

/-- Is the access the one that the call makes next? A thread that is in no call lets its turns pass. -/
def Stage.makes : Stage → Act → Bool
  | .idle, _ | .calling _, .load | .loaded _ _, .readNext | .linked _ _ _, .exchange _ | .popped _ _, .count => true
  | _, _ => false

/-- Does the exchange fail for no reason? -/
def Stage.misses : Stage → Act → Bool
  | .linked _ _ _, .exchange spurious => spurious
  | _, _ => false

/-- Is a page taken from the list of a class? -/
def Stage.takes (memory : Memory) (kind : MemPage) : Stage → Act → Bool
  | .linked kind' page _, .exchange false => kind' = kind ∧ (memory.cls kind).sharedPageList = some page
  | _, _ => false

/-- The accesses of a thread. -/
def accesses (t : ι) (s : Race ι) : RaceEvent ι → Nat
  | .turn u act => if u = t ∧ (s.stage u).makes act then 1 else 0
  | .fill _ _ _ => 0

/-- The exchanges of a thread that fail for no reason. -/
def misses (t : ι) (s : Race ι) : RaceEvent ι → Nat
  | .turn u act => if u = t ∧ (s.stage u).misses act then 1 else 0
  | .fill _ _ _ => 0

/-- The pages of a class that are taken. -/
def taken (kind : MemPage) (s : Race ι) : RaceEvent ι → Nat
  | .turn u act => if (s.stage u).takes s.shared kind act then 1 else 0
  | .fill _ _ _ => 0

/-- The pages of a class that others take. -/
def takenByOthers (t : ι) (kind : MemPage) (s : Race ι) : RaceEvent ι → Nat
  | .turn u act => if u ≠ t ∧ (s.stage u).takes s.shared kind act then 1 else 0
  | .fill _ _ _ => 0

theorem takenByOthers_le (t : ι) (kind : MemPage) (s : Race ι) (e : RaceEvent ι) :
    takenByOthers t kind s e ≤ taken kind s e := by
  cases e with
  | fill kind' page data => exact Nat.le_refl _
  | turn u act =>
      simp only [takenByOthers, taken]
      split_ifs <;> simp_all

/-! ## (2) What is still to be done -/

/-- The class of a call. -/
def Stage.kind : Stage → Option MemPage
  | .idle => none
  | .calling kind | .loaded kind _ | .linked kind _ _ | .popped kind _ => some kind

/-- **How many accesses a call still makes**, unless its exchange fails for no reason. -/
def Stage.due (memory : Memory) : Stage → Nat
  | .idle => 0
  | .calling _ => 4
  | .loaded kind page => if (memory.cls kind).sharedPageList = some page then 3 else 6
  | .linked kind page _ => if (memory.cls kind).sharedPageList = some page then 2 else 5
  | .popped _ _ => 1

/-- A call that has nothing left to do has returned. -/
theorem Stage.idle_of_due {memory : Memory} {stage : Stage} (h : stage.due memory = 0) : stage = .idle := by
  cases stage with
  | idle => rfl
  | loaded kind page =>
      simp only [due] at h
      split_ifs at h
  | linked kind page next =>
      simp only [due] at h
      split_ifs at h
  | _ => simp [due] at h

/-- Another head makes three accesses more at most. -/
theorem due_le (memory memory' : Memory) (stage : Stage) : stage.due memory' ≤ stage.due memory + 3 := by
  cases stage with
  | loaded kind page =>
      simp only [Stage.due]
      split_ifs <;> omega
  | linked kind page next =>
      simp only [Stage.due]
      split_ifs <;> omega
  | _ => exact Nat.le_add_right _ _

/-- The same head makes none. -/
theorem due_congr {memory memory' : Memory} {stage : Stage}
    (h : ∀ kind, stage.kind = some kind → (memory'.cls kind).sharedPageList = (memory.cls kind).sharedPageList) :
    stage.due memory' = stage.due memory := by
  cases stage with
  | loaded kind page => simp only [Stage.due, h kind rfl]
  | linked kind page next => simp only [Stage.due, h kind rfl]
  | _ => rfl

/-- The head of a class stays where no page of it is taken. -/
theorem head_advance {memory : Memory} {stage : Stage} {act : Act} {kind : MemPage}
    (h : stage.takes memory kind act = false) :
    ((advance memory stage act).shared.cls kind).sharedPageList = (memory.cls kind).sharedPageList := by
  cases stage with
  | idle => cases act <;> rfl
  | calling kind' =>
      cases act with
      | load => cases hhead : (memory.cls kind').sharedPageList <;> simp [advance, hhead]
      | _ => rfl
  | loaded kind' page => cases act <;> rfl
  | linked kind' page next =>
      cases act with
      | exchange spurious =>
          by_cases hcas : spurious = false ∧ (memory.cls kind').sharedPageList = some page
          · -- the page is one of another class
            obtain ⟨rfl, hhead⟩ := hcas
            have hne : kind ≠ kind' := by
              rintro rfl
              simp [Stage.takes, hhead] at h
            simp only [advance, hhead, and_self, if_true, exchanged, Memory.cls_setCls_of_ne _ _ hne]
          · simp only [advance, if_neg hcas]
      | _ => rfl
  | popped kind' page =>
      cases act with
      | count =>
          exact memory.cls_setCls_proj kind'
            { memory.cls kind' with sharedPagesUsed := ((memory.cls kind').sharedPagesUsed + 1) % 2 ^ 64 }
            Pages.sharedPageList rfl kind
      | _ => rfl

/-- A call is for one class until it returns. -/
theorem kind_advance {memory : Memory} {stage : Stage} {act : Act} (hcall : ∀ type, act ≠ .call type)
    {kind : MemPage} (h : (advance memory stage act).stage.kind = some kind) : stage.kind = some kind := by
  have haccess := access_advance memory stage act
  cases stage with
  | idle =>
      cases act with
      | call type => exact absurd rfl (hcall type)
      | _ => exact h
  | _ =>
      generalize advance memory _ act = o at haccess h
      cases haccess <;> first | exact h | cases h

/-- **An access of a call leaves less to be done**, up to three accesses more when its exchange fails for no
reason. -/
theorem due_advance {memory : Memory} {stage : Stage} {act : Act} (hbusy : stage ≠ .idle) :
    (advance memory stage act).stage.due (advance memory stage act).shared + (if stage.makes act then 1 else 0) ≤
      stage.due memory + if stage.misses act then 3 else 0 := by
  cases stage with
  | idle => exact absurd rfl hbusy
  | calling kind =>
      cases act with
      | load =>
          cases hhead : (memory.cls kind).sharedPageList with
          | none => simp [advance, hhead, Stage.due, Stage.makes, Stage.misses]
          | some page => simp [advance, hhead, Stage.due, Stage.makes]
      | _ => exact Nat.le_refl _
  | loaded kind page =>
      cases act with
      | readNext =>
          simp only [advance, Stage.due, Stage.makes]
          split_ifs <;> simp_all
      | _ => exact Nat.le_refl _
  | linked kind page next =>
      cases act with
      | exchange spurious =>
          by_cases hhead : (memory.cls kind).sharedPageList = some page
          · cases spurious with
            | true => simp [advance, hhead, Stage.due, Stage.makes, Stage.misses]
            | false => simp [advance, hhead, Stage.due, Stage.makes]
          · simp [advance, hhead, Stage.due, Stage.makes]
      | _ => exact Nat.le_refl _
  | popped kind page =>
      cases act with
      | count => exact Nat.le_refl _
      | _ => exact Nat.le_refl _

/-! ## (3) Runs -/

/-- The owners of pages fill them, and a thread starts no other call. -/
def Race.OwnedBut (t : ι) (s : Race ι) (e : RaceEvent ι) : Prop :=
  s.Owned e ∧ ∀ type, e ≠ .turn t (.call type)

section Step

variable {t : ι} {s : Race ι} {e : RaceEvent ι} {kind : MemPage}

/-- A thread that is in no call stays so. -/
theorem idle_step (he : ∀ type, e ≠ .turn t (.call type)) (hidle : s.stage t = .idle) :
    (s.step e).stage t = .idle := by
  cases e with
  | fill kind page data => exact hidle
  | turn u act =>
      by_cases hut : t = u
      · subst hut
        rw [Race.step, Threads.stage_turn_self, hidle]
        cases act with
        | call type => exact absurd rfl (he type)
        | _ => rfl
      · rw [Race.step, Threads.stage_turn_of_ne hut, hidle]

/-- A call stays a call for its class. -/
theorem kind_step (he : ∀ type, e ≠ .turn t (.call type)) (hkind : ∀ k, (s.stage t).kind = some k → k = kind) :
    ∀ k, ((s.step e).stage t).kind = some k → k = kind := by
  cases e with
  | fill kind page data => exact hkind
  | turn u act =>
      by_cases hut : t = u
      · subst hut
        rw [Race.step, Threads.stage_turn_self]
        exact fun k hk => hkind k (kind_advance (fun type h => he type (by rw [h])) hk)
      · rw [Race.step, Threads.stage_turn_of_ne hut]
        exact hkind

/-- **An event pays** for the accesses of a call. -/
theorem due_step (hbusy : s.stage t ≠ .idle) (hkind : ∀ k, (s.stage t).kind = some k → k = kind) :
    ((s.step e).stage t).due (s.step e).shared + accesses t s e ≤
      (s.stage t).due s.shared + (3 * takenByOthers t kind s e + 3 * misses t s e) := by
  cases e with
  | fill kind' page data =>
      exact Nat.le_of_eq (due_congr fun k _ => rfl)
  | turn u act =>
      by_cases hut : u = t
      · subst hut
        have hadvance : _ + (if (s.stage u).makes act then 1 else 0) ≤ (s.stage u).due s.shared + _ := due_advance hbusy
        rw [Race.step, Threads.stage_turn_self, Threads.shared_turn]
        simp only [accesses, misses, takenByOthers, true_and, ne_eq, not_true_eq_false, false_and, if_false]
        split_ifs at hadvance ⊢ <;> omega
      · rw [Race.step, Threads.stage_turn_of_ne (Ne.symm hut), Threads.shared_turn]
        simp only [accesses, misses, takenByOthers, hut, false_and, if_false, ne_eq, not_false_eq_true, true_and]
        by_cases htakes : (s.stage u).takes s.shared kind act
        · have hdue := due_le s.shared (advance s.shared (s.stage u) act).shared (s.stage t)
          rw [if_pos htakes]
          omega
        · rw [if_neg htakes]
          refine Nat.le_of_eq (due_congr fun k hk => ?_)
          rw [hkind k hk]
          exact head_advance (Bool.not_eq_true _ ▸ htakes)

end Step

/-- **A call returns** after four accesses, and three more for each page that others take and for each exchange that
fails for no reason. -/
theorem idle_of_taken {t : ι} {type : PageType} {s : Race ι} (hidle : s.stage t = .idle) {es : List (RaceEvent ι)}
    (hes : AllAllowed Race.step (Race.OwnedBut t) (s.step (.turn t (.call type))) es)
    (hmany : 4 + 3 * total Race.step (takenByOthers t type.kind) (s.step (.turn t (.call type))) es +
        3 * total Race.step (misses t) (s.step (.turn t (.call type))) es ≤
      total Race.step (accesses t) (s.step (.turn t (.call type))) es) :
    (es.foldl Race.step (s.step (.turn t (.call type)))).stage t = .idle := by
  have hpays : Pays Race.step (Race.OwnedBut t) (fun s : Race ι => ∀ k, (s.stage t).kind = some k → k = type.kind)
      (fun s => s.stage t = .idle) (fun s => (s.stage t).due s.shared) (accesses t)
      (fun s e => 3 * takenByOthers t type.kind s e + 3 * misses t s e) :=
    { keeps := fun s e hs he => kind_step he.2 hs
      stays := fun s e hs he => idle_step he.2 hs
      pays := fun s e hs _ hbusy => due_step hbusy hs }
  have hstage : (s.step (.turn t (.call type))).stage t = .calling type.kind := by
    rw [Race.step, Threads.stage_turn_self, hidle]
    rfl
  refine hpays.rest_of_total_le (fun s hs => Stage.idle_of_due hs) ?_ hes ?_
  · rw [hstage]
    exact fun k hk => (Option.some.inj hk).symm
  · rw [hstage, total_add, total_mul, total_mul]
    simp only [Stage.due]
    omega

/-! ## (4) The pages that are left -/

section Left

variable {s : Race ι} {kind : MemPage} {l : List Nat}

/-- The list of a class where no page of it is taken. -/
theorem listing_advance {memory : Memory} {stage : Stage} {act : Act} (h : stage.takes memory kind act = false) :
    Listing (advance memory stage act).shared kind l ↔ Listing memory kind l := by
  have hnext : (advance memory stage act).shared.next = memory.next := by
    have haccess := access_advance memory stage act
    generalize advance memory stage act = o at haccess
    cases haccess <;> rfl
  rw [Listing, Listing, head_advance h, hnext]

/-- Where a page is taken. -/
theorem exists_of_takes {memory : Memory} {stage : Stage} {act : Act} (h : stage.takes memory kind act) :
    ∃ page next, stage = .linked kind page next ∧ act = .exchange false ∧
      (memory.cls kind).sharedPageList = some page := by
  cases stage with
  | linked kind' page next =>
      cases act with
      | exchange spurious =>
          cases spurious with
          | true => cases h
          | false =>
              obtain ⟨rfl, hhead⟩ := decide_eq_true_eq.mp h
              exact ⟨page, next, rfl, rfl, hhead⟩
      | _ => cases h
  | _ => cases h

/-- **A page that is taken is one page less in the list.** -/
theorem Listing.step (hsure : s.Sure) {e : RaceEvent ι} (howned : s.Owned e) (hl : Listing s.shared kind l) :
    ∃ l', Listing (s.step e).shared kind l' ∧ l'.length + taken kind s e = l.length := by
  have hassigned : Assigned s.shared s.log := hsure.shared
  cases e with
  | fill kind' page data => exact ⟨l, (hassigned.listing_fill (mem_handedOut howned) data).mpr hl, rfl⟩
  | turn u act =>
      by_cases htakes : (s.stage u).takes s.shared kind act
      · obtain ⟨page, next, hstage, rfl, hhead⟩ := exists_of_takes htakes
        have hcall : CallHolds s.shared s.log (.linked kind page next) := hstage ▸ hsure.each u
        obtain ⟨l', hl', hrest, -⟩ := hassigned.tail hhead
        obtain rfl := Linked.unique hl hl'
        refine ⟨l', ?_, by simp [taken, htakes]⟩
        have hadvance : (s.step (.turn u (.exchange false))).shared = exchanged s.shared kind next := by
          simp only [Race.step, Threads.shared_turn, hstage, advance, hhead, and_self, if_true]
        rw [hadvance, listing_exchanged_self, hcall.2 _ hl (List.mem_cons_self ..)]
        exact hrest
      · exact ⟨l, (listing_advance (Bool.not_eq_true _ ▸ htakes)).mpr hl, by simp [taken, htakes]⟩

/-- The pages that are taken in a run were listed. -/
theorem Listing.total_le (hsure : s.Sure ∧ s.Covered) (hl : Listing s.shared kind l) {es : List (RaceEvent ι)}
    (hes : AllAllowed Race.step Race.Owned s es) : total Race.step (taken kind) s es ≤ l.length := by
  induction es generalizing s l with
  | nil => exact Nat.zero_le _
  | cons e es ih =>
      obtain ⟨l', hl', hlen⟩ := hl.step hsure.1 hes.1
      have hrest := ih (Race.sure_step hsure hes.1) hl' hes.2
      rw [total_cons]
      omega

end Left

/-- **A call for a page returns**, whatever the other calls and the owners of pages do: no later than after four
accesses, three more for each page that is listed when it starts, and three more for each of its exchanges that fails
for no reason. -/
theorem idle_of_pageAccesses {settings : MemPage → Setting} {calloc : Calloc settings} {next : Nat → Option Nat}
    {memory : Memory} (halloc : allocCapacity calloc (kndMempoolNew .shared settings) next = .ok memory)
    {s : Race ι} (hrun : Reaches Race.step Race.Owned (Race.start memory) s) {t : ι} (hidle : s.stage t = .idle)
    (type : PageType) {l : List Nat} (hl : Listing s.shared type.kind l) {es : List (RaceEvent ι)}
    (hes : AllAllowed Race.step (Race.OwnedBut t) (s.step (.turn t (.call type))) es)
    (hmany : 4 + 3 * l.length + 3 * total Race.step (misses t) (s.step (.turn t (.call type))) es ≤
      total Race.step (accesses t) (s.step (.turn t (.call type))) es) :
    (es.foldl Race.step (s.step (.turn t (.call type)))).stage t = .idle := by
  obtain ⟨hfresh, htype⟩ := fresh_of_allocCapacity halloc
  have hsure : s.Sure ∧ s.Covered :=
    hrun.invariant (I := fun s => s.Sure ∧ s.Covered) (hfresh.sure htype)
      fun _ _ hinv howned => Race.sure_step hinv howned
  have hcalled : (s.step (.turn t (.call type))).shared = s.shared := by
    simp only [Race.step, Threads.shared_turn, hidle, advance]
  have htaken := Listing.total_le (Race.sure_step hsure (e := .turn t (.call type)) trivial) (hcalled ▸ hl)
    (hes.mono fun s e he => he.1)
  have hothers : total Race.step (takenByOthers t type.kind) (s.step (.turn t (.call type))) es ≤
      total Race.step (taken type.kind) (s.step (.turn t (.call type))) es :=
    total_le_total (takenByOthers_le t type.kind) _ es
  exact idle_of_taken hidle hes (by omega)


/-- Another call takes the page that the first one has loaded, and fills it before the link in it is read. -/
def takenInBetween : List (RaceEvent Bool) :=
  [.turn false .load, .turn true (.call .tiny), .turn true .load, .turn true .readNext,
    .turn true (.exchange false), .turn true .count, .fill .tiny 160 fun _ => some 160, .turn false .readNext,
    .turn false (.exchange false), .turn false .load, .turn false .readNext, .turn false (.exchange false),
    .turn false .count] ++ List.replicate 3 (.turn false .load)

theorem idle_of_pageAccesses_takenInBetween :
    (takenInBetween.foldl Race.step ((Race.start (smallPool .shared)).step (.turn false (.call .tiny)))).stage false =
      .idle := by
  have hlisted : Listing (Race.start (smallPool .shared) : Race Bool).shared PageType.tiny.kind [160, 176] :=
    .cons (.cons .nil)
  have hother : ∀ (s : Race Bool) act, Race.OwnedBut false s (.turn true act) :=
    fun s act => ⟨trivial, fun type heq => by cases heq⟩
  have hload : ∀ s : Race Bool, Race.OwnedBut false s (.turn false .load) :=
    fun s => ⟨trivial, fun type heq => by cases heq⟩
  have hreadNext : ∀ s : Race Bool, Race.OwnedBut false s (.turn false .readNext) :=
    fun s => ⟨trivial, fun type heq => by cases heq⟩
  have hexchange : ∀ s : Race Bool, Race.OwnedBut false s (.turn false (.exchange false)) :=
    fun s => ⟨trivial, fun type heq => by cases heq⟩
  have hcount : ∀ s : Race Bool, Race.OwnedBut false s (.turn false .count) :=
    fun s => ⟨trivial, fun type heq => by cases heq⟩
  refine idle_of_pageAccesses (allocCapacity_smallPool .shared) .refl rfl .tiny hlisted ⟨hload _, hother _ _,
    hother _ _,
    hother _ _, hother _ _, hother _ _, ⟨List.mem_cons_self .., fun type heq => by cases heq⟩, hreadNext _, hexchange _,
    hload _, hreadNext _, hexchange _, hcount _, hload _, hload _, hload _, trivial⟩ (by decide +kernel)

end Mempool

end Knowdy
