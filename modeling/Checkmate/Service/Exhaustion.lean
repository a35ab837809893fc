import Checkmate.Service.Linear

/-!
# Dead-lettered matches stay out of the queue

`exhaustEntry` writes a match to the dead-letter store and then removes it from the queue. A
pass of reconciliation reads the dead-lettered matches once, and does not queue them.

If no match is exhausted during a pass (`Separate`), no match comes into the queue while it is
in the dead-letter store, and no match is in both unless it is being moved
(`deadLettered_not_queued`). A match that is exhausted during a pass is queued again by the
same pass (`exhausted_match_requeued`).
-/

namespace Checkmate.Service

open Contract Disk Poller

/-- The files, the match that is being exhausted, whether a pass of reconciliation is on,
whether the loops have written the temporary file of the queue, and the matches that came into
the queue while they were dead-lettered. -/
structure StoreRecord where
  disk : Disk
  exhausting : Option ℕ := none
  cycling : Bool := false
  staged : Bool := false
  returned : List ℕ := []

namespace StoreRecord

/-- The dead-lettered matches that a rename brings into the queue. -/
def returning (w : StoreRecord) : List ℕ :=
  w.disk.tmpIds.filter fun m => m ∉ w.disk.queuedIds && m ∈ w.disk.deadIds

/-- What is recorded of a command that does not fail. A match is exhausted with the rename of
the queue, a pass is over with the sleep after it. -/
def note (w : StoreRecord) (t : Loop) (c : Cmd) : StoreRecord :=
  match t, c with
  | _, .load .deadLetter (some (.push matchId)) => { w with exhausting := some matchId }
  | .reconcile, .load .deadLetter none => { w with cycling := true }
  | .reconcile, .ask .sleep => { w with cycling := false }
  | _, .write .pending _ => { w with staged := true }
  | .poll, .rename .pending =>
    { w with exhausting := none, returned := w.returned ++ w.returning }
  | .reconcile, .rename .pending => { w with returned := w.returned ++ w.returning }
  | _, _ => w

def answer (t : Loop) (c : Cmd) (o : Outside) (w : StoreRecord) : c.Answer × StoreRecord :=
  let (r, d) := w.disk.answer c o
  (r, { w.note t c with disk := d })

end StoreRecord

/-- The two loops. -/
def storeLoops (cfg : Config) :
    System Loop Cmd.Answer StoreRecord Outside Poller.Task Empty where
  answer := StoreRecord.answer
  task := Poller.prog cfg
  boot t := some t.task
  outside := Empty.elim

/-- No match is exhausted while a pass is on, and no pass begins while one is exhausted. -/
def KeepsSeparate (w : StoreRecord) : Cmd → Prop
  | .load .deadLetter (some (.push _)) => w.cycling = false
  | .load .deadLetter none => w.exhausting = none
  | _ => True

def Separate (s : Threads Loop Cmd.Answer StoreRecord Poller.Task) : LoopMove → Prop
  | .act t _ => (s.prog t).First (KeepsSeparate s.world)
  | .start .. | .outside _ | .restart => True

/-! ## The outline of the proof -/

/-- Only a match that is being exhausted is dead-lettered and in the queue, or in what is about
to be the queue. -/
structure NeverBoth (w : StoreRecord) : Prop where
  separate : w.exhausting.isSome = true → w.cycling = false
  queue : ∀ m ∈ w.disk.deadIds, m ∈ w.disk.queuedIds → w.exhausting = some m
  tmp : w.staged = true → ∀ m ∈ w.disk.deadIds, m ∈ w.disk.tmpIds → w.exhausting = some m
  returned : w.returned = []

/-- What a loop relies on. The poll loop has the dead-letter store for itself, and the queue
while it exhausts a match. During a pass the dead-letter store does not change. -/
def Relies : Loop → StoreRecord → StoreRecord → Prop
  | .poll, w, w' => w'.exhausting = w.exhausting ∧
      w'.disk .deadLetter = w.disk .deadLetter ∧
      (w.exhausting.isSome = true → w'.disk .pending = w.disk .pending) ∧
      (w.staged = true → w'.staged = true)
  | .reconcile, w, w' => w'.cycling = w.cycling ∧
      (w.cycling = true → w'.disk .deadLetter = w.disk .deadLetter) ∧
      (w.staged = true → w'.staged = true)

theorem Relies.refl (t : Loop) (w : StoreRecord) : Relies t w w := by
  cases t with
  | poll => exact ⟨rfl, rfl, fun _ => rfl, id⟩
  | reconcile => exact ⟨rfl, fun _ => rfl, id⟩

theorem Relies.trans {t : Loop} {u v w : StoreRecord} (h : Relies t u v)
    (h' : Relies t v w) : Relies t u w := by
  cases t with
  | poll =>
    exact ⟨h'.1.trans h.1, h'.2.1.trans h.2.1,
      fun hu => (h'.2.2.1 (h.1 ▸ hu)).trans (h.2.2.1 hu), h'.2.2.2 ∘ h.2.2.2⟩
  | reconcile =>
    exact ⟨h'.1.trans h.1, fun hu => (h'.2.1 (h.1.trans hu)).trans (h.2.1 hu),
      h'.2.2 ∘ h.2.2⟩

variable {w' : StoreRecord}

theorem Relies.staged {t : Loop} {w : StoreRecord} (h : Relies t w w')
    (hw : w.staged = true) : w'.staged = true := by
  cases t with
  | poll => exact h.2.2.2 hw
  | reconcile => exact h.2.2 hw

/-- What the tasks of a loop begin with. A page goes on with the dead-lettered matches the pass
has read. -/
def Begins : Loop → Poller.Task → StoreRecord → Prop
  | .poll, task, w => task = .tick true ∧ w.exhausting = none
  | .reconcile, task, w => task = .reconcile true ∨ ∃ ids offset, task = .page true ids offset ∧
      w.cycling = true ∧ ∀ m ∈ w.disk.deadIds, m ∈ ids

def storeOutline (cfg : Config) : Discipline (storeLoops cfg) where
  inv := NeverBoth
  rely := Relies
  rely_refl := Relies.refl
  rely_trans := fun _ => Relies.trans
  allow _ c o w := c.Succeeds o w.disk ∧ KeepsSeparate w c
  pre := Begins
  fresh w := w.exhausting = none
  calm e _ := e.elim

variable {cfg : Config} {t : Loop} {w : StoreRecord}

/-- The queue stays as it is, and only the match that is being exhausted is dead-lettered. -/
theorem NeverBoth.of_queue (h : NeverBoth w) {w' : StoreRecord}
    (hseparate : w'.exhausting.isSome = true → w'.cycling = false)
    (hpending : w'.disk .pending = w.disk .pending)
    (hdead : ∀ m ∈ w'.disk.deadIds, m ∈ w.disk.deadIds ∨ w'.exhausting = some m)
    (he : ∀ m, w.exhausting = some m → w'.exhausting = some m)
    (hstaged : w'.staged = w.staged) (hreturned : w'.returned = w.returned) : NeverBoth w' := by
  refine ⟨hseparate, fun m hm hq => ?_, fun hs m hm hq => ?_, hreturned.trans h.returned⟩
  · rcases hdead m hm with hm | hm
    · exact he m (h.queue m hm (queuedIds_congr (congrArg File.content hpending) ▸ hq))
    · exact hm
  · rcases hdead m hm with hm | hm
    · exact he m (h.tmp (hstaged ▸ hs) m hm
        (tmpIds_congr (congrArg File.tmp hpending) ▸ hq))
    · exact hm

/-- Entries that may be queued are written. -/
theorem NeverBoth.write (h : NeverBoth w) {entries : List PendingEntry}
    (hentries : ∀ m ∈ w.disk.deadIds, m ∈ entries.map (·.matchId) → w.exhausting = some m) :
    NeverBoth { w with disk := w.disk.wrote .pending entries, staged := true } := by
  have hdead : (w.disk.wrote .pending entries).deadIds = w.disk.deadIds :=
    deadIds_congr (by simp)
  have hqueued : (w.disk.wrote .pending entries).queuedIds = w.disk.queuedIds :=
    queuedIds_congr (by simp)
  refine ⟨h.separate, ?_, ?_, h.returned⟩
  · exact fun m hm hq => h.queue m (hdead ▸ hm) (hqueued ▸ hq)
  · intro _ m hm htmp
    exact hentries m (hdead ▸ hm) (by simpa [Disk.tmpIds] using htmp)

/-- Entries that are not dead-lettered are renamed into place. -/
theorem NeverBoth.rename (h : NeverBoth w) {entries : List PendingEntry}
    (htmp : (w.disk .pending).tmp = some entries)
    (hentries : ∀ m ∈ w.disk.deadIds, m ∉ entries.map (·.matchId)) :
    NeverBoth { w with
      disk := w.disk.renamed .pending entries,
      exhausting := none, returned := w.returned ++ w.returning } := by
  have hdead : (w.disk.renamed .pending entries).deadIds = w.disk.deadIds :=
    deadIds_congr (by simp)
  have htmpIds : w.disk.tmpIds = entries.map (·.matchId) := by rw [Disk.tmpIds, htmp]; rfl
  refine ⟨fun he => absurd he (by simp), fun m hm hq => ?_, fun _ m _ hm => ?_, ?_⟩
  · have hm' : m ∈ entries.map (·.matchId) := by
      simpa [Disk.queuedIds, Disk.queued] using hq
    exact absurd hm' (hentries m (hdead ▸ hm))
  · simp [Disk.tmpIds] at hm
  · have hreturning : w.returning = [] := by
      refine List.filter_eq_nil_iff.mpr fun m hm hboth => ?_
      have hm' : m ∈ w.disk.deadIds := by simpa using (Bool.and_eq_true_iff.mp hboth).2
      exact hentries m hm' (htmpIds ▸ hm)
    simp [h.returned, hreturning]

/-- A step that records nothing and leaves the dead-letter store alone is something both loops
rely on, if it leaves the queue alone while a match is exhausted. -/
theorem guar_of_eq (he : w'.exhausting = w.exhausting)
    (hc : w'.cycling = w.cycling) (hdead : w'.disk .deadLetter = w.disk .deadLetter)
    (hpending : w.exhausting.isSome = true → w'.disk .pending = w.disk .pending)
    (hstaged : w.staged = true → w'.staged = true) :
    ((storeOutline cfg).contract t).guar w w' := by
  intro t' _
  cases t' with
  | poll => exact ⟨he, hdead, hpending, hstaged⟩
  | reconcile => exact ⟨hc, fun _ => hdead, hstaged⟩

theorem NeverBoth.not_cycling {id : ℕ} (h : NeverBoth w)
    (he : w.exhausting = some id) : w.cycling = false :=
  h.separate (by simp [he])

/-- The queue changes while no match is exhausted. -/
theorem guar_of_queue (he : w.exhausting = none) (he' : w'.exhausting = none)
    (hc : w'.cycling = w.cycling) (hdead : w'.disk .deadLetter = w.disk .deadLetter)
    (hstaged : w.staged = true → w'.staged = true) :
    ((storeOutline cfg).contract t).guar w w' :=
  guar_of_eq (he'.trans he.symm) hc hdead (fun h => by simp [he] at h) hstaged

namespace StoreRecord

abbrev contract (cfg : Config) (t : Loop) : Contract Cmd.Answer StoreRecord Outside :=
  (storeOutline cfg).contract t

/-! ## Calls on the queue -/

/-- The loop may make calls on the queue : the poll loop is not exhausting a match, the
reconciliation loop is in a pass. The dead-lettered matches are known. -/
def Ready (t : Loop) (dead : List ℕ) (w : StoreRecord) : Prop :=
  (match t with
    | .poll => w.exhausting = none
    | .reconcile => w.cycling = true) ∧ w.disk.deadIds = dead

variable {dead : List ℕ}

theorem Ready.relies {w' : StoreRecord} (h : Ready t dead w)
    (hrely : Relies t w w') : Ready t dead w' := by
  have hids : w'.disk .deadLetter = w.disk .deadLetter → w'.disk.deadIds = dead := fun hd =>
    (deadIds_congr (by rw [hd])).trans h.2
  cases t with
  | poll => exact ⟨hrely.1.trans h.1, hids hrely.2.1⟩
  | reconcile => exact ⟨hrely.1.trans h.1, hids (hrely.2.1 h.1)⟩

theorem ready_stable : (contract cfg t).Stable (Ready t dead) :=
  fun _ _ hrely _ hw => hw.relies hrely

theorem Ready.exhausting (h : Ready t dead w) (hinv : NeverBoth w) :
    w.exhausting = none := by
  cases t with
  | poll => exact h.1
  | reconcile =>
    by_contra hne
    have hsome : w.exhausting.isSome = true := by simpa [Option.isSome_iff_ne_none] using hne
    exact absurd (hinv.separate hsome) (by simp [show w.cycling = true from h.1])

theorem meets_op {α : Type} {c : Cmd} {k : c.Answer → Io α} {Q : α → StoreRecord → Prop}
    (h : ∀ w1, Relies t w w1 → NeverBoth w1 → ∀ o, c.Succeeds o w1.disk → KeepsSeparate w1 c →
      NeverBoth (StoreRecord.answer t c o w1).2 ∧
        (contract cfg t).guar w1 (StoreRecord.answer t c o w1).2 ∧
        (k (StoreRecord.answer t c o w1).1).Meets (contract cfg t) Q
          (StoreRecord.answer t c o w1).2) :
    (Prog.op c k).Meets (contract cfg t) Q w :=
  fun w1 hrely hinv o ho => h w1 hrely hinv o ho.1 ho.2

/-- A command that records nothing, on neither of the stores. -/
theorem quiet_keeps {c : Cmd} (hnote : ∀ w : StoreRecord, w.note t c = w)
    (hpending : c.changes ≠ some .pending) (hdead : c.changes ≠ some .deadLetter) :
    (contract cfg t).Keeps (Ready t dead) (command c) := by
  refine keeps_op ready_stable (fun w o hw hinv _ => ?_)
    fun r => keeps_pure ready_stable r
  have hanswer : (StoreRecord.answer t c o w).2 = { w with disk := (w.disk.answer c o).2 } := by
    simp only [StoreRecord.answer, hnote]
  have hp := answer_frame hpending o w.disk
  have hd := answer_frame hdead o w.disk
  have hids : (w.disk.answer c o).2.deadIds = w.disk.deadIds := deadIds_congr (by rw [hd])
  have hinv' : NeverBoth { w with disk := (w.disk.answer c o).2 } :=
    hinv.of_queue hinv.separate hp (fun m hm => .inl (hids ▸ hm)) (fun _ h => h) rfl rfl
  exact hanswer.symm ▸ ⟨hinv', guar_of_eq rfl rfl hd (fun _ => hp) id, hw.1, hids.trans hw.2⟩

theorem answer_load (o : Outside) (ho : o.fault = none) (call : QueueCall) (w : StoreRecord) :
    StoreRecord.answer t (.load .pending (some (.call call))) o w =
      (.ok ((w.disk .pending).content, o.now), w) := by
  cases t <;> simp only [StoreRecord.answer, Disk.answer, ho, note]

theorem answer_write (o : Outside) (ho : o.fault = none) (entries : List PendingEntry)
    (w : StoreRecord) :
    StoreRecord.answer t (.write .pending entries) o w =
      (.ok (), { w with disk := w.disk.wrote .pending entries, staged := true }) := by
  cases t <;> simp only [StoreRecord.answer, Disk.answer, ho, note]

/-- A rename by a loop that is not exhausting a match, or is done with it. -/
theorem answer_rename (o : Outside) (ho : o.fault = none) (w : StoreRecord)
    {entries : List PendingEntry} (htmp : (w.disk .pending).tmp = some entries)
    (he : t = .poll ∨ w.exhausting = none) :
    StoreRecord.answer t (.rename .pending) o w =
      (.ok (), { w with
        disk := w.disk.renamed .pending entries,
        exhausting := none, returned := w.returned ++ w.returning }) := by
  cases t with
  | poll => simp only [StoreRecord.answer, Disk.answer, ho, htmp, note]
  | reconcile =>
    have he' : w.exhausting = none := by simpa using he
    simp only [StoreRecord.answer, Disk.answer, ho, htmp, note, he']

/-- A save of entries none of which is dead-lettered. The rename may move what the other loop
has written : it is not dead-lettered either. -/
theorem saving_keeps {β : Type} {entries : List PendingEntry} (x : β)
    (hentries : ∀ m ∈ entries.map (·.matchId), m ∉ dead) :
    (contract cfg t).Keeps (Ready t dead) (saving .pending entries x) := by
  refine fun w hw => meets_op fun w1 hrely1 hinv1 o1 ho1 _ => ?_
  have hready1 := hw.relies hrely1
  have he1 := hready1.exhausting hinv1
  rw [answer_write o1 ho1.fault]
  have hwrote : Ready t dead { w1 with disk := w1.disk.wrote .pending entries, staged := true } :=
    ⟨hready1.1, (deadIds_congr (by simp)).trans hready1.2⟩
  refine ⟨hinv1.write fun m hm hq => absurd (hready1.2 ▸ hm) (hentries m hq),
    guar_of_queue he1 he1 rfl (by simp) (fun _ => rfl), ?_⟩
  refine meets_op fun w2 hrely2 hinv2 o2 ho2 _ => ?_
  have hready2 := hwrote.relies hrely2
  have he2 := hready2.exhausting hinv2
  obtain ⟨moved, htmp⟩ := Option.isSome_iff_exists.mp ho2.2
  rw [answer_rename o2 ho2.fault w2 htmp (.inr he2)]
  refine ⟨hinv2.rename htmp fun m hm hmoved => ?_, guar_of_queue he2 rfl rfl (by simp) id, ?_⟩
  · have hexhausting := hinv2.tmp (Relies.staged hrely2 rfl) m hm (by rwa [Disk.tmpIds, htmp])
    cases he2.symm.trans hexhausting
  · refine keeps_pure ready_stable _ _ ⟨?_, ?_⟩
    · cases t with
      | poll => rfl
      | reconcile => exact hready2.1
    · exact (deadIds_congr (by simp)).trans hready2.2

/-- A call on the queue that enqueues no dead-lettered match. -/
theorem call_keeps {β : Type} (call : QueueCall)
    (hnew : ∀ id gameId platform, call = .enqueue id gameId platform →
      id ∉ dead) (kept saved : β) :
    (contract cfg t).Keeps (Ready t dead) (call.prog kept saved) := by
  refine fun w hw => meets_op fun w1 hrely1 hinv1 o1 ho1 _ => ?_
  have hready1 := hw.relies hrely1
  rw [answer_load o1 ho1.fault]
  refine ⟨hinv1, fun t' _ => Relies.refl t' w1, ?_⟩
  change (if QueueOp.saves ⟨call, o1.now⟩ w1.disk.queued then _ else _ : Io _).Meets _ _ _
  split
  · refine saving_keeps saved (fun m hm hdead => ?_) w1 hready1
    rcases QueueOp.of_mem_apply hm with hq | ⟨gameId, platform, hcall⟩
    · have hexhausting := hinv1.queue m (hready1.2.symm ▸ hdead) hq
      exact absurd ((hready1.exhausting hinv1).symm.trans hexhausting) (by simp)
    · exact hnew m gameId platform hcall hdead
  · exact keeps_pure ready_stable _ w1 hready1

/-! ## Exhausting a match -/

/-- What the poll loop does while no pass is on. -/
theorem guar_of_poll {w' : StoreRecord} (hc : w.cycling = false) (hc' : w'.cycling = w.cycling)
    (hstaged : w.staged = true → w'.staged = true) :
    (contract cfg .poll).guar w w' := by
  intro t ht
  cases t with
  | poll => exact absurd rfl ht
  | reconcile => exact ⟨hc', fun h => by simp [hc] at h, hstaged⟩

theorem exhausting_stable {id : ℕ} :
    (contract cfg .poll).Stable (·.exhausting = some id) :=
  fun _ _ hrely _ hw => hrely.1.trans hw

/-- The match that is being exhausted is written to the dead-letter store. -/
theorem savingDead_meets {i : ℕ} {entries : List DeadLetterEntry}
    (he : w.exhausting = some i)
    (hentries : ∀ m ∈ entries.map (·.entry.matchId), m ∈ w.disk.deadIds ∨ m = i) :
    (saving .deadLetter entries ()).Meets (contract cfg .poll)
      (fun _ w' => w'.exhausting = some i) w := by
  refine meets_op fun w1 hrely1 hinv1 o1 ho1 _ => ?_
  have he1 : w1.exhausting = some i := hrely1.1.trans he
  have hids1 : w1.disk.deadIds = w.disk.deadIds := deadIds_congr (by rw [hrely1.2.1])
  have hc1 := NeverBoth.not_cycling hinv1 he1
  have hanswer1 : StoreRecord.answer .poll (.write .deadLetter entries) o1 w1 =
      (.ok (), { w1 with disk := w1.disk.wrote .deadLetter entries }) := by
    simp only [StoreRecord.answer, Disk.answer, ho1.fault, note]
  rw [hanswer1]
  have hwrote : (w1.disk.wrote .deadLetter entries).deadIds = w1.disk.deadIds :=
    deadIds_congr (by simp)
  have hinv1' : NeverBoth { w1 with disk := w1.disk.wrote .deadLetter entries } :=
    hinv1.of_queue hinv1.separate (by simp)
      (fun m hm => .inl (hwrote ▸ hm)) (fun _ h => h) rfl rfl
  refine ⟨hinv1', guar_of_poll hc1 rfl id, ?_⟩
  refine meets_op fun w2 hrely2 hinv2 o2 ho2 _ => ?_
  have he2 : w2.exhausting = some i := hrely2.1.trans he1
  have hc2 := NeverBoth.not_cycling hinv2 he2
  have hdead2 : w2.disk .deadLetter =
      { content := (w1.disk .deadLetter).content, tmp := some entries } :=
    hrely2.2.1.trans (wrote_self ..)
  have hids2 : w2.disk.deadIds = w1.disk.deadIds := deadIds_congr (by rw [hdead2])
  have hanswer : StoreRecord.answer .poll (.rename .deadLetter) o2 w2 =
      (.ok (), { w2 with disk := w2.disk.renamed .deadLetter entries }) := by
    simp only [StoreRecord.answer, Disk.answer, ho2.fault, hdead2, note]
  rw [hanswer]
  have hinv2' : NeverBoth { w2 with disk := w2.disk.renamed .deadLetter entries } := by
    refine hinv2.of_queue hinv2.separate (by simp) (fun m hm => ?_) (fun _ h => h) rfl rfl
    have hm' : m ∈ entries.map (·.entry.matchId) := by
      simpa [Disk.deadIds, Disk.deadLettered] using hm
    rcases hentries m hm' with hm | rfl
    · exact .inl (hids2.trans hids1 ▸ hm)
    · exact .inr he2
  refine ⟨hinv2', guar_of_poll hc2 rfl id, ?_⟩
  exact keeps_pure exhausting_stable _ _ he2

/-- A push begins while no pass is on. -/
theorem push_meets (entry : PendingEntry) (he : w.exhausting = none) :
    (DeadLetterStore.push entry).run.Meets (contract cfg .poll)
      (fun _ w' => w'.exhausting = some entry.matchId) w := by
  rw [push_eq]
  refine meets_op fun w1 hrely1 hinv1 o1 _ _ => ⟨hinv1, fun t' _ => Relies.refl t' w1, ?_⟩
  refine meets_op fun w2 hrely2 hinv2 o2 ho2 hc2 => ?_
  have he2 : w2.exhausting = none := (hrely2.1.trans hrely1.1).trans he
  replace hc2 : w2.cycling = false := hc2
  have hanswer : StoreRecord.answer .poll (.load .deadLetter (some (.push entry.matchId))) o2 w2 =
      (.ok ((w2.disk .deadLetter).content, o2.now),
        { w2 with exhausting := some entry.matchId }) := by
    simp only [StoreRecord.answer, Disk.answer, ho2.fault, note]
  rw [hanswer]
  have hinv2' : NeverBoth { w2 with exhausting := some entry.matchId } :=
    hinv2.of_queue (fun _ => hc2) rfl (fun m hm => .inl hm)
      (fun m hm => absurd (he2.symm.trans hm) (by simp)) rfl rfl
  refine ⟨hinv2', guar_of_poll hc2 rfl id, ?_⟩
  change (if w2.disk.deadLettered.any _ then _ else _ : Io _).Meets _ _ _
  split
  · exact keeps_pure exhausting_stable _ _ rfl
  · refine savingDead_meets rfl fun m hm => ?_
    simpa [Disk.deadIds, Disk.deadLettered, or_comm] using hm

/-- The match that is being exhausted is removed from the queue, and nothing else is done to the
queue meanwhile. -/
theorem remove_meets {i : ℕ} (he : w.exhausting = some i) :
    (PendingQueue.remove i).run.Meets (contract cfg .poll)
      (fun _ w' => w'.exhausting = none) w := by
  rw [remove_eq]
  refine meets_op fun w1 hrely1 hinv1 o1 ho1 _ => ?_
  have he1 : w1.exhausting = some i := hrely1.1.trans he
  rw [answer_load o1 ho1.fault]
  refine ⟨hinv1, fun t' _ => Relies.refl t' w1, ?_⟩
  refine meets_op fun w2 hrely2 hinv2 o2 ho2 _ => ?_
  have he2 : w2.exhausting = some i := hrely2.1.trans he1
  have hpending2 : w2.disk .pending = w1.disk .pending := hrely2.2.2.1 (by simp [he1])
  have hqueued2 : w2.disk.queuedIds = w1.disk.queuedIds :=
    queuedIds_congr (by rw [hpending2])
  have hkept : ∀ m ∈ (w1.disk.queued.filter (·.matchId ≠ i)).map (·.matchId),
      m ∈ w1.disk.queuedIds ∧ m ≠ i := by
    intro m hm
    obtain ⟨e, he, rfl⟩ := List.mem_map.mp hm
    obtain ⟨he, hne⟩ := List.mem_filter.mp he
    exact ⟨List.mem_map_of_mem he, by simpa using hne⟩
  rw [answer_write o2 ho2.fault]
  refine ⟨hinv2.write fun m hm hq => hinv2.queue m hm (hqueued2 ▸ (hkept m hq).1),
    guar_of_poll (hinv2.not_cycling he2) rfl (fun _ => rfl), ?_⟩
  refine meets_op fun w3 hrely3 hinv3 o3 ho3 _ => ?_
  have he3 : w3.exhausting = some i := hrely3.1.trans he2
  have hpending3 : w3.disk .pending =
      ⟨(w2.disk .pending).content, some (w1.disk.queued.filter (·.matchId ≠ i))⟩ :=
    (hrely3.2.2.1 (by simp [he2])).trans (wrote_self ..)
  have hqueued3 : w3.disk.queuedIds = w2.disk.queuedIds :=
    queuedIds_congr (by rw [hpending3])
  rw [answer_rename o3 ho3.fault w3 (congrArg File.tmp hpending3) (.inl rfl)]
  refine ⟨hinv3.rename (congrArg File.tmp hpending3) fun m hm hq => ?_,
    guar_of_poll (hinv3.not_cycling he3) rfl id, fun w' hrely _ => hrely.1⟩
  have hm' := hinv3.queue m hm (hqueued3.trans hqueued2 ▸ (hkept m hq).1)
  exact (hkept m hq).2 (Option.mem_unique hm' he3)

theorem exhaustEntry_keeps (entry : PendingEntry) :
    (contract cfg .poll).Keeps (·.exhausting = none)
      (Poller.exhaustEntry entry) := by
  intro w hw
  refine Prog.Meets.bind (Prog.Meets.bind ((push_meets entry hw).mono fun _ w' he => ?_))
  refine fun w1 hrely _ => Prog.Meets.bind ((remove_meets (hrely.1.trans he)).mono ?_)
  exact fun _ w2 he2 w3 hrely3 _ => hrely3.1.trans he2

/-! ## The loops -/

/-- What is kept with the dead-lettered matches known is kept without. -/
theorem keeps_of_ready {α : Type} {p : Io α}
    (h : ∀ dead, (contract cfg .poll).Keeps (Ready .poll dead) p) :
    (contract cfg .poll).Keeps (·.exhausting = none) p :=
  fun w hw => (h w.disk.deadIds w ⟨hw, rfl⟩).mono fun _ _ hw => hw.1

theorem tick_keeps :
    Poller.TickKeeps cfg (contract cfg .poll) (·.exhausting = none) := by
  have hstable : (contract cfg .poll).Stable (·.exhausting = none) :=
    fun _ _ hrely _ hw => hrely.1.trans hw
  have hask : ∀ q, (contract cfg .poll).Keeps (·.exhausting = none) (ask q) :=
    fun q => keeps_of_ready fun _ => quiet_keeps (fun w => by cases q <;> rfl)
      (fun h => nomatch h) (fun h => nomatch h)
  have hload : (contract cfg .poll).Keeps (·.exhausting = none)
      (PendingQueue.load none).run := by
    have hcommand : (contract cfg .poll).Keeps (·.exhausting = none)
        (command (.load .pending none)) := keeps_of_ready fun _ =>
      quiet_keeps (fun _ => rfl) (fun h => nomatch h) (fun h => nomatch h)
    exact Contract.Keeps.tryBind hstable
      (hcommand.bind fun _ => keeps_pure hstable _) fun _ =>
        keeps_pure hstable _
  have hupdate : ∀ entry, (contract cfg .poll).Keeps (·.exhausting = none)
      (PendingQueue.updateEntry entry).run := by
    intro entry
    rw [updateEntry_eq]
    exact keeps_of_ready fun _ => call_keeps _ (fun _ _ _ h => by cases h) () ()
  have hremove : ∀ id, (contract cfg .poll).Keeps (·.exhausting = none)
      (PendingQueue.remove id).run := by
    intro id
    rw [remove_eq]
    exact keeps_of_ready fun _ => call_keeps _ (fun _ _ _ h => by cases h) () ()
  exact ⟨hstable, fun q _ => hask q, hload, hupdate, exhaustEntry_keeps,
    submitAndComplete_keeps hstable hask hload hremove
      (handleTransient_keeps hstable (hask .clock) hupdate exhaustEntry_keeps)⟩

theorem poll_meets (hw : w.exhausting = none) :
    (Poller.prog cfg (.tick true)).Meets (contract cfg .poll)
      ((storeOutline cfg).Goes .poll) w := by
  refine Prog.Meets.bind ((tick_keeps.tick w hw).mono fun _ w' hw' => ?_)
  refine Prog.Meets.bind ((tick_keeps.ask .sleep rfl w' hw').mono fun _ w2 hw2 => ?_)
  rintro w3 hrely3 - _ ⟨⟩
  exact ⟨rfl, hrely3.1.trans hw2⟩

/-- The sleep ends a pass. -/
theorem rest_meets (hw : Ready .reconcile dead w) :
    (Poller.rest true (.reconcile true)).Meets (contract cfg .reconcile)
      ((storeOutline cfg).Goes .reconcile) w := by
  refine meets_op fun w1 hrely1 hinv1 o1 ho1 _ => ?_
  have he1 := (hw.relies hrely1).exhausting hinv1
  have hinv1' : NeverBoth { w1 with cycling := false } :=
    hinv1.of_queue (fun _ => rfl) rfl (fun _ hm => .inl hm) (fun _ h => h) rfl rfl
  have hguar : (contract cfg .reconcile).guar w1 { w1 with cycling := false } := by
    intro t ht
    cases t with
    | poll => exact ⟨rfl, rfl, fun _ => rfl, id⟩
    | reconcile => exact absurd rfl ht
  refine ⟨hinv1', hguar, ?_⟩
  rintro w2 - - _ ⟨⟩
  exact .inl rfl

theorem page_meets {ids : List ℕ} {offset : ℕ} (hcycling : w.cycling = true)
    (hids : ∀ m ∈ w.disk.deadIds, m ∈ ids) :
    (Poller.prog cfg (.page true ids offset)).Meets (contract cfg .reconcile)
      ((storeOutline cfg).Goes .reconcile) w := by
  have hstable := @ready_stable cfg .reconcile w.disk.deadIds
  have hquiet : ∀ c : Cmd, (∀ w : StoreRecord, w.note .reconcile c = w) →
      c.changes ≠ some .pending → c.changes ≠ some .deadLetter →
      (contract cfg .reconcile).Keeps (Ready .reconcile w.disk.deadIds)
        (command c) := fun _ => quiet_keeps
  have henqueue : ∀ id gameId platform, id ∉ ids →
      (contract cfg .reconcile).Keeps (Ready .reconcile w.disk.deadIds)
        (PendingQueue.enqueue id gameId platform).run := by
    intro id gameId platform hm
    rw [enqueue_eq]
    refine call_keeps _ (fun m _ _ h hdead => ?_) false true
    cases h
    exact hm (hids _ hdead)
  have hsave : ∀ offset, (contract cfg .reconcile).Keeps
      (Ready .reconcile w.disk.deadIds) (ReconciliationCursor.save offset).run := fun offset =>
    Contract.Keeps.tryBind hstable
      ((hquiet (.write .cursor offset) (fun _ => rfl) (by simp [Cmd.changes])
        (by simp [Cmd.changes])).bind fun _ => keeps_pure hstable _) fun _ =>
      (hquiet (.rename .cursor) (fun _ => rfl) (by decide) (by decide)).bind fun _ =>
        keeps_pure hstable _
  have hclear : (contract cfg .reconcile).Keeps
      (Ready .reconcile w.disk.deadIds) ReconciliationCursor.clear :=
    keeps_logged hstable ((hquiet (.removeFile .cursor) (fun _ => rfl) (by decide)
      (by decide)).bind fun _ => keeps_pure hstable _)
  refine reconcilePage_meets hstable
    (hquiet _ (fun _ => rfl) (fun h => nomatch h) (fun h => nomatch h))
    (reconcileMatch_keeps hstable
      (fun _ => hquiet _ (fun _ => rfl) (fun h => nomatch h) (fun h => nomatch h)) henqueue)
    hsave hclear (fun _ hw => rest_meets hw) (fun offset w' hw' => ?_) ⟨hcycling, rfl⟩
  rintro _ ⟨⟩
  exact .inr ⟨ids, offset, rfl, hw'.1, fun m hm => hids m (hw'.2 ▸ hm)⟩

/-- A pass begins with the dead-lettered matches of the moment. -/
theorem reconcile_meets :
    (Poller.prog cfg (.reconcile true)).Meets (contract cfg .reconcile)
      ((storeOutline cfg).Goes .reconcile) w := by
  rw [Poller.prog, reconcile_eq]
  refine meets_op fun w1 hrely1 hinv1 o1 ho1 he1 => ?_
  replace he1 : w1.exhausting = none := he1
  have hanswer : StoreRecord.answer .reconcile (.load .deadLetter none) o1 w1 =
      (.ok ((w1.disk .deadLetter).content, o1.now), { w1 with cycling := true }) := by
    simp only [StoreRecord.answer, Disk.answer, ho1.fault, note]
  rw [hanswer]
  have hinv1' : NeverBoth { w1 with cycling := true } :=
    hinv1.of_queue (fun h => by simp [he1] at h) rfl (fun _ hm => .inl hm)
      (fun _ h => h) rfl rfl
  have hguar : (contract cfg .reconcile).guar w1 { w1 with cycling := true } := by
    intro t ht
    cases t with
    | poll => exact ⟨rfl, rfl, fun _ => rfl, id⟩
    | reconcile => exact absurd rfl ht
  refine ⟨hinv1', hguar, ?_⟩
  have hcursor : (contract cfg .reconcile).Keeps
      (Ready .reconcile w1.disk.deadIds) (command (.load .cursor none)) :=
    quiet_keeps (fun _ => rfl) (by simp [Cmd.changes]) (by simp [Cmd.changes])
  refine Prog.Meets.bind ((hcursor { w1 with cycling := true } ⟨rfl, rfl⟩).mono ?_)
  rintro r w2 hw2 w3 hrely3 hinv3 _ ⟨⟩
  have hw3 := hw2.relies hrely3
  exact .inr ⟨_, _, rfl, hw3.1, fun m hm => (hw3.2 ▸ hm : m ∈ w1.disk.deadIds)⟩

theorem storeOutline_valid : (storeOutline cfg).Valid where
  task t j w _ hpre := by
    cases t with
    | poll =>
      obtain ⟨rfl, he⟩ := hpre
      exact poll_meets he
    | reconcile =>
      obtain rfl | ⟨ids, offset, rfl, hcycling, hids⟩ := hpre
      · exact reconcile_meets
      · exact page_meets hcycling hids
  boot t w _ hfresh := by
    rintro _ ⟨⟩
    cases t with
    | poll => exact ⟨rfl, hfresh⟩
    | reconcile => exact .inl rfl
  outside e := e.elim

end StoreRecord

/-- Two loops of which neither disturbs the other : no match comes into the queue while it is in
the dead-letter store, and while no match is exhausted none is in both. -/
theorem deadLettered_not_queued (cfg : Config) (disk : Disk)
    (hdisk : ∀ m ∈ disk.deadIds, m ∉ disk.queuedIds) (ms : List LoopMove)
    (hms : Along (storeLoops cfg).step (fun s m => NoIoError StoreRecord.disk s m ∧ Separate s m)
      ((storeLoops cfg).start { disk }) ms) :
    let w := (run (storeLoops cfg).step ((storeLoops cfg).start { disk }) ms).world
    w.returned = [] ∧ (w.exhausting = none → ∀ m ∈ w.disk.deadIds, m ∉ w.disk.queuedIds) := by
  have hbegin : NeverBoth { disk } :=
    ⟨(fun h => nomatch h), fun m hm hq => absurd hq (hdisk m hm), (fun h => nomatch h), rfl⟩
  have hallows : Along (storeLoops cfg).step (storeOutline cfg).Allows
      ((storeLoops cfg).start { disk }) ms := by
    refine hms.mono fun s m hm => ?_
    cases m with
    | act => exact Prog.First.and hm.1 hm.2
    | start | outside | restart => exact hm.1.elim
  obtain ⟨hinv, -⟩ := Discipline.run_holds StoreRecord.storeOutline_valid
    (Discipline.start_holds StoreRecord.storeOutline_valid hbegin rfl) hallows
  refine ⟨hinv.returned, fun he m hm hq => ?_⟩
  exact absurd (he.symm.trans (hinv.queue m hm hq)) (by simp)

/-! ## A match that comes back -/

instance KeepsSeparate.decidable (w : StoreRecord) : DecidablePred (KeepsSeparate w) := fun c => by
  unfold KeepsSeparate
  split <;> infer_instance

instance Separate.decidable (s : Threads Loop Cmd.Answer StoreRecord Poller.Task) :
    (m : LoopMove) → Decidable (Separate s m)
  | .act t _ => inferInstanceAs (Decidable ((s.prog t).First (KeepsSeparate s.world)))
  | .start .. | .outside _ | .restart => .isTrue trivial

/-- Match 1 is active, and its platform does not know the game. -/
def match1Unknown : Outside where
  torn _ := none
  now := 0
  ask
    | .activeMatchesPaginated .. => .ok [⟨1, "game0001", .lichess⟩]
    | .fetchResultsBatch gameIds =>
      .results (gameIds.map fun gameId => (gameId, .error (.permanent "game not found")))
    | q => q.plain

/-- Commands of the poll loop while it gives up on match 1. -/
def exhausts : List LoopMove := List.replicate 12 (.act .poll match1Unknown)

/-- A pass of reconciliation with match 1 after it is exhausted. -/
def exhaustedThenScanned : List LoopMove :=
  exhausts ++ List.replicate 9 (.act .reconcile match1Unknown)

theorem deadLettered_not_queued_exhaustedThenScanned :
    let w := (run (storeLoops .plain).step ((storeLoops .plain).start { disk := match1Queued })
      exhaustedThenScanned).world
    w.disk.deadIds = [1] ∧ w.exhausting = none ∧ w.returned = [] ∧ 1 ∉ w.disk.queuedIds := by
  have h := deadLettered_not_queued .plain match1Queued (by decide) exhaustedThenScanned
    (by decide +kernel)
  exact ⟨by decide +kernel, by decide +kernel, h.1,
    h.2 (by decide +kernel) 1 (by decide +kernel)⟩

/-- Match 1 is exhausted during a pass of reconciliation, after the pass has read the
dead-lettered matches : the pass queues it again. -/
def exhaustedWhileScanned : List LoopMove :=
  List.replicate 4 (.act .reconcile match1Unknown) ++ exhausts ++
    List.replicate 3 (.act .reconcile match1Unknown)

theorem exhausted_match_requeued :
    let s := (storeLoops .plain).start { disk := match1Queued }
    let w := (run (storeLoops .plain).step s exhaustedWhileScanned).world
    Along (storeLoops .plain).step (NoIoError StoreRecord.disk) s exhaustedWhileScanned ∧
    w.exhausting = none ∧ w.returned = [1] ∧ w.disk.deadIds = [1] ∧
    w.disk.queuedIds = [1] := by
  decide +kernel

end Checkmate.Service
