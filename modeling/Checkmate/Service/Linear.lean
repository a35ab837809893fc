import Checkmate.Host.Threads
import Checkmate.Service.Poller

/-!
# The queue under two loops

The poll loop and the reconciliation loop share the queue file, and take turns at every
command. A call on the queue is `inside` from its load to its rename. `done` has the calls that
are over, in the order in which they ended.

If no call that saves is loaded while the other loop is inside a call of its own (`Apart`), the
queue is at every moment what the calls that are over make of it one after the other
(`queue_linearizable`). Without the condition a save puts back what was loaded before the other
loop's save (`enqueued_match_lost`).
-/

namespace Checkmate.Service

open Function List

/-- The loops of the service that use the queue. -/
inductive Loop where
  | poll
  | reconcile
deriving DecidableEq, Repr

def Loop.other : Loop → Loop
  | .poll => .reconcile
  | .reconcile => .poll

theorem Loop.eq_other {t t' : Loop} (h : t' ≠ t) : t' = t.other := by
  cases t with
  | poll =>
    cases t' with
    | poll => exact absurd rfl h
    | reconcile => rfl
  | reconcile =>
    cases t' with
    | poll => rfl
    | reconcile => exact absurd rfl h

/-- A call that is over, and whether it saved. -/
structure Completed where
  loop : Loop
  op : QueueOp
  saved : Bool
deriving DecidableEq, Repr

/-! ## One call after the other -/

/-- The entries after the calls, one after the other. -/
def sequentially (entries : List PendingEntry) (calls : List Completed) : List PendingEntry :=
  calls.foldl (fun entries x => x.op.apply entries) entries

/-- Each call saved or not as it does in this order. -/
def AnsweredInOrder (entries : List PendingEntry) : List Completed → Prop
  | [] => True
  | x :: calls => x.saved = x.op.saves entries ∧ AnsweredInOrder (x.op.apply entries) calls

theorem sequentially_snoc (entries : List PendingEntry) (calls : List Completed) (x : Completed) :
    sequentially entries (calls ++ [x]) = x.op.apply (sequentially entries calls) := by
  simp [sequentially]

theorem answeredInOrder_snoc {entries : List PendingEntry} {calls : List Completed}
    {x : Completed} (h : AnsweredInOrder entries calls)
    (hx : x.saved = x.op.saves (sequentially entries calls)) :
    AnsweredInOrder entries (calls ++ [x]) := by
  induction calls generalizing entries with
  | nil => exact ⟨hx, trivial⟩
  | cons y calls ih => exact ⟨h.1, ih h.2 hx⟩

/-- The entry of a match after the calls is what the calls on the match make of it. -/
theorem entryOf_sequentially (id : ℕ) (entries : List PendingEntry) (calls : List Completed) :
    entryOf id (sequentially entries calls) =
      calls.foldl (fun entry x => x.op.onEntry id entry) (entryOf id entries) := by
  induction calls generalizing entries with
  | nil => rfl
  | cons x calls ih => exact (ih _).trans (by rw [QueueOp.entryOf_apply]; rfl)

/-! ## The loops -/

/-- The files, and a record of the calls on the queue. -/
structure QueueRecord where
  disk : Disk
  inside : Loop → Option QueueOp := fun _ => none
  begun : List (Loop × QueueOp) := []
  done : List Completed := []

namespace QueueRecord

/-- A load for a call. A call that does not save is over. -/
def loaded (w : QueueRecord) (t : Loop) (op : QueueOp) : QueueRecord :=
  if op.saves w.disk.queued then
    { w with begun := w.begun ++ [(t, op)], inside := update w.inside t (some op) }
  else { w with begun := w.begun ++ [(t, op)], done := w.done ++ [⟨t, op, false⟩] }

/-- A rename. The call it is made in is over. -/
def renamed (w : QueueRecord) (t : Loop) : QueueRecord :=
  match w.inside t with
  | none => w
  | some op =>
    { w with inside := update w.inside t none, done := w.done ++ [⟨t, op, true⟩] }

/-- What is recorded of a command that does not fail. -/
def note (w : QueueRecord) (t : Loop) (now : ℕ) : Cmd → QueueRecord
  | .load .pending (some (.call call)) => w.loaded t ⟨call, now⟩
  | .rename .pending => w.renamed t
  | _ => w

def answer (t : Loop) (c : Cmd) (o : Outside) (w : QueueRecord) : c.Answer × QueueRecord :=
  let (r, d) := w.disk.answer c o
  (r, { w.note t o.now c with disk := d })

end QueueRecord

/-- What a loop runs, over and over. -/
def Loop.task : Loop → Poller.Task
  | .poll => .tick true
  | .reconcile => .reconcile true

/-- The two loops. -/
def loops (cfg : Config) :
    System Loop Cmd.Answer QueueRecord Outside Poller.Task Empty where
  answer := QueueRecord.answer
  task := Poller.prog cfg
  boot t := some t.task
  outside := Empty.elim

abbrev LoopMove := Move Loop Outside Poller.Task Empty

abbrev LoopState := Threads Loop Cmd.Answer QueueRecord Poller.Task

/-- A step of one of the loops, without an I/O error. -/
def NoIoError {W : Type} (disk : W → Disk) (s : Threads Loop Cmd.Answer W Poller.Task) :
    LoopMove → Prop
  | .act t o => (s.prog t).First fun c => c.Succeeds o (disk s.world)
  | .start .. | .outside _ | .restart => False

/-- A load for a call that saves is made while the other loop is not inside a call. -/
def LoadsAlone (t : Loop) (o : Outside) (c : Cmd) (w : QueueRecord) : Prop :=
  match c with
  | .load .pending (some (.call call)) =>
    QueueOp.saves ⟨call, o.now⟩ w.disk.queued = true → w.inside t.other = none
  | _ => True

def Apart (s : LoopState) : LoopMove → Prop
  | .act t o => (s.prog t).First fun c => LoadsAlone t o c s.world
  | .start .. | .outside _ | .restart => True

/-! ## The outline of the proof -/

/-- The calls of a loop in the order it made them : those that are over, and the one it is
inside of. -/
def OwnOrder (w : QueueRecord) (t : Loop) : Prop :=
  (w.begun.filter (·.1 = t)).map (·.2) =
    (w.done.filter (·.loop = t)).map (·.op) ++ (w.inside t).toList

/-- The queue is what the calls that are over make of `start`, and at most one loop is inside a
call. -/
structure InOrder (start : List PendingEntry) (w : QueueRecord) : Prop where
  contents : w.disk.queued = sequentially start w.done
  answers : AnsweredInOrder start w.done
  nodup : w.disk.queuedIds.Nodup
  own : ∀ t, OwnOrder w t
  alone : ∀ t t', w.inside t ≠ none → w.inside t' ≠ none → t = t'

/-- What a loop relies on : the other loop does not move it, and does not touch the queue file
while it is inside a call. -/
def Undisturbed (t : Loop) (w w' : QueueRecord) : Prop :=
  w'.inside t = w.inside t ∧ (w.inside t ≠ none → w'.disk .pending = w.disk .pending)

theorem Undisturbed.refl (t : Loop) (w : QueueRecord) : Undisturbed t w w :=
  ⟨rfl, fun _ => rfl⟩

theorem Undisturbed.trans {t : Loop} {u v w : QueueRecord} (h : Undisturbed t u v)
    (h' : Undisturbed t v w) : Undisturbed t u w :=
  ⟨h'.1.trans h.1, fun ht => (h'.2 (h.1.symm ▸ ht)).trans (h.2 ht)⟩

def queueOutline (cfg : Config) (start : List PendingEntry) : Discipline (loops cfg) where
  inv := InOrder start
  rely := Undisturbed
  rely_refl := Undisturbed.refl
  rely_trans := fun _ => Undisturbed.trans
  allow t c o w := c.Succeeds o w.disk ∧ LoadsAlone t o c w
  pre t _ w := w.inside t = none
  fresh w := ∀ t, w.inside t = none
  calm e _ := e.elim

variable {cfg : Config} {start : List PendingEntry} {t : Loop} {w : QueueRecord}

/-- Anything but the queue file itself may change. -/
theorem InOrder.of_disk {d : Disk} (h : InOrder start w)
    (hd : (d .pending).content = (w.disk .pending).content) :
    InOrder start { w with disk := d } := by
  have hqueued : d.queued = w.disk.queued := congrArg (·.getD []) hd
  have hids : d.queuedIds = w.disk.queuedIds := congrArg (·.map (·.matchId)) hqueued
  exact ⟨hqueued.trans h.contents, h.answers, hids.symm ▸ h.nodup, h.own, h.alone⟩

/-- A loop begins a call that saves. -/
theorem InOrder.begin (h : InOrder start w) (hfree : w.inside t = none)
    (hothers : ∀ t', t' ≠ t → w.inside t' = none) (op : QueueOp) : InOrder start { w with
      begun := w.begun ++ [(t, op)], inside := update w.inside t (some op) } where
  contents := h.contents
  answers := h.answers
  nodup := h.nodup
  own t' := by
    have hown := h.own t'
    by_cases ht : t' = t
    · subst ht
      simp only [OwnOrder, hfree, Option.toList_none, append_nil] at hown
      simp [OwnOrder, filter_append, hown]
    · simpa [OwnOrder, filter_append, Ne.symm ht, update_of_ne ht] using hown
  alone := by
    have honly : ∀ t', update w.inside t (some op) t' ≠ none → t' = t := by
      intro t' ht'
      by_contra hne
      rw [update_of_ne hne] at ht'
      exact ht' (hothers t' hne)
    exact fun t1 t2 h1 h2 => (honly t1 h1).trans (honly t2 h2).symm

/-- A call that does not save is over with its load. -/
theorem InOrder.keep (h : InOrder start w) (hfree : w.inside t = none) {op : QueueOp}
    (hop : op.saves w.disk.queued = false) : InOrder start { w with
      begun := w.begun ++ [(t, op)], done := w.done ++ [⟨t, op, false⟩] } where
  contents := by
    rw [sequentially_snoc, ← h.contents, QueueOp.apply_of_not_saves hop]
  answers := answeredInOrder_snoc h.answers (by rw [← h.contents, hop])
  nodup := h.nodup
  own t' := by
    have hown := h.own t'
    by_cases ht : t' = t
    · subst ht
      simp only [OwnOrder, hfree, Option.toList_none, append_nil] at hown
      simp [OwnOrder, filter_append, hown, hfree]
    · simpa [OwnOrder, filter_append, Ne.symm ht] using hown
  alone := h.alone

/-- A call that saved is over with its rename. -/
theorem InOrder.finish (h : InOrder start w) {op : QueueOp} (hin : w.inside t = some op)
    (hop : op.saves w.disk.queued = true) {d : Disk} (hd : d.queued = op.apply w.disk.queued) :
    InOrder start { w with
      disk := d, inside := update w.inside t none, done := w.done ++ [⟨t, op, true⟩] }
    where
  contents := by
    rw [sequentially_snoc, ← h.contents]
    exact hd
  answers := answeredInOrder_snoc h.answers (by rw [← h.contents, hop])
  nodup := by
    rw [Disk.queuedIds, hd]
    exact op.nodup_apply h.nodup
  own t' := by
    have hown := h.own t'
    by_cases ht : t' = t
    · subst ht
      simp only [OwnOrder, hin, Option.toList_some] at hown
      simp [OwnOrder, filter_append, hown]
    · simpa [OwnOrder, filter_append, Ne.symm ht, update_of_ne ht] using hown
  alone t1 t2 h1 h2 := by
    have hinside : ∀ {t'}, update w.inside t none t' ≠ none → w.inside t' ≠ none := by
      intro t' ht'
      by_cases ht : t' = t
      · subst ht
        simp at ht'
      · rwa [update_of_ne ht] at ht'
    exact h.alone t1 t2 (hinside h1) (hinside h2)

/-! ## The loops keep to the outline -/

namespace QueueRecord

theorem free_stable : ((queueOutline cfg start).contract t).Stable (·.inside t = none) :=
  fun _ _ h _ hw => h.1.trans hw

theorem note_eq {c : Cmd} (hload : ∀ call, c ≠ .load .pending (some (.call call)))
    (hc : c.changes ≠ some .pending) (w : QueueRecord) (now : ℕ) : w.note t now c = w := by
  cases c with
  | load s purpose =>
    cases s with
    | pending =>
      match purpose with
      | none => rfl
      | some (.push _) => rfl
      | some (.call call) => exact absurd rfl (hload call)
    | deadLetter => rfl
    | cursor => rfl
  | rename s =>
    cases s with
    | pending => exact absurd rfl hc
    | deadLetter => rfl
    | cursor => rfl
  | write | removeFile | ask => rfl

/-- A command that is not part of a call on the queue. -/
theorem keeps_of_changes {c : Cmd} (hload : ∀ call, c ≠ .load .pending (some (.call call)))
    (hc : c.changes ≠ some .pending) :
    ((queueOutline cfg start).contract t).Keeps (·.inside t = none) (command c) := by
  refine Contract.keeps_op free_stable (fun w o hw hinv _ => ?_)
    fun r => Contract.keeps_pure free_stable r
  have hanswer : (QueueRecord.answer t c o w).2 = { w with disk := (w.disk.answer c o).2 } := by
    simp only [QueueRecord.answer, note_eq hload hc]
  have hpending := Disk.answer_frame hc o w.disk
  exact hanswer.symm ▸ ⟨hinv.of_disk (congrArg _ hpending),
    fun t' _ => ⟨rfl, fun _ => hpending⟩, hw⟩

theorem answer_load {o : Outside} (ho : o.fault = none) (call : QueueCall) :
    QueueRecord.answer t (.load .pending (some (.call call))) o w =
      (.ok ((w.disk .pending).content, o.now), w.loaded t ⟨call, o.now⟩) := by
  simp only [QueueRecord.answer, Disk.answer, ho, QueueRecord.note, QueueRecord.loaded]
  split <;> rfl

theorem answer_write {o : Outside} (ho : o.fault = none) (entries : List PendingEntry) :
    QueueRecord.answer t (.write .pending entries) o w =
      (.ok (), { w with disk := w.disk.wrote .pending entries }) := by
  simp only [QueueRecord.answer, Disk.answer, ho, QueueRecord.note]

theorem answer_rename {o : Outside} (ho : o.fault = none) {entries : List PendingEntry}
    (htmp : (w.disk .pending).tmp = some entries) {op : QueueOp} (hin : w.inside t = some op) :
    QueueRecord.answer t (.rename .pending) o w = (.ok (), { w with
        disk := w.disk.renamed .pending entries,
        inside := update w.inside t none, done := w.done ++ [⟨t, op, true⟩] }) := by
  simp only [QueueRecord.answer, Disk.answer, ho, htmp, QueueRecord.note, QueueRecord.renamed, hin]

theorem meets_op {α : Type} {c : Cmd} {k : c.Answer → Io α} {Q : α → QueueRecord → Prop}
    (h : ∀ w1, Undisturbed t w w1 → InOrder start w1 → ∀ o, c.Succeeds o w1.disk →
      LoadsAlone t o c w1 → InOrder start (QueueRecord.answer t c o w1).2 ∧
        ((queueOutline cfg start).contract t).guar w1 (QueueRecord.answer t c o w1).2 ∧
        (k (QueueRecord.answer t c o w1).1).Meets ((queueOutline cfg start).contract t) Q
          (QueueRecord.answer t c o w1).2) :
    (Prog.op c k).Meets ((queueOutline cfg start).contract t) Q w :=
  fun w1 hrely hinv o ho => h w1 hrely hinv o ho.1 ho.2

/-- A loop that is inside a call writes and renames the queue file, and no other loop is inside
a call meanwhile. -/
theorem saving_meets {β : Type} {op : QueueOp} (saved : β) (hin : w.inside t = some op)
    (hop : op.saves w.disk.queued = true) :
    (saving .pending (op.apply w.disk.queued) saved).Meets ((queueOutline cfg start).contract t)
      (fun _ w => w.inside t = none) w := by
  refine meets_op fun w1 hrely1 hinv1 o1 ho1 _ => ?_
  have hin1 : w1.inside t = some op := hrely1.1.trans hin
  have hfile1 : w1.disk .pending = w.disk .pending := hrely1.2 (by simp [hin])
  have hothers1 : ∀ t', t' ≠ t → w1.inside t' = none := fun t' ht' => by
    by_contra hne
    exact ht' (hinv1.alone t' t hne (by simp [hin1]))
  rw [answer_write ho1.fault]
  refine ⟨hinv1.of_disk (by simp), fun t' ht' => ⟨rfl, fun hne => absurd (hothers1 t' ht') hne⟩, ?_⟩
  refine meets_op fun w2 hrely2 hinv2 o2 ho2 _ => ?_
  have hin2 : w2.inside t = some op := hrely2.1.trans hin1
  have hfile2 : w2.disk .pending =
      { content := (w.disk .pending).content, tmp := some (op.apply w.disk.queued) } := by
    have hfile := hrely2.2 (by simp [hin1])
    rw [hfile, ← hfile1]
    exact Disk.wrote_self w1.disk .pending _
  have hqueued2 : w2.disk.queued = w.disk.queued := by rw [Disk.queued, hfile2]; rfl
  rw [answer_rename ho2.fault (by rw [hfile2]) hin2]
  refine ⟨hinv2.finish hin2 (hqueued2 ▸ hop) ?_, fun t' ht' => ⟨?_, fun hne => ?_⟩, ?_⟩
  · rw [hqueued2, Disk.queued, Disk.renamed_self]
    rfl
  · exact update_of_ne ht' ..
  · exact absurd (hinv2.alone t' t hne (by simp [hin2])) ht'
  · exact fun w3 hrely3 _ => hrely3.1.trans (update_self ..)

/-- From its load to its rename a call has the queue file for itself. -/
theorem call_keeps {β : Type} (call : QueueCall) (kept saved : β) :
    ((queueOutline cfg start).contract t).Keeps (·.inside t = none) (call.prog kept saved) := by
  refine fun w hw => meets_op fun w1 hrely1 hinv1 o1 ho1 halone => ?_
  have hfree1 : w1.inside t = none := hrely1.1.trans hw
  rw [answer_load ho1.fault]
  dsimp only
  by_cases hop : QueueOp.saves ⟨call, o1.now⟩ w1.disk.queued = true
  · have hothers1 : ∀ t', t' ≠ t → w1.inside t' = none := fun t' ht' =>
      t.eq_other ht' ▸ halone hop
    have hloaded : w1.loaded t ⟨call, o1.now⟩ = { w1 with
        begun := w1.begun ++ [(t, ⟨call, o1.now⟩)],
        inside := update w1.inside t (some ⟨call, o1.now⟩) } := by
      simp only [QueueRecord.loaded, hop, if_true]
    rw [hloaded]
    refine ⟨hinv1.begin hfree1 hothers1 _, fun t' ht' => ⟨?_, fun _ => rfl⟩, ?_⟩
    · exact update_of_ne ht' ..
    · change (if QueueOp.saves ⟨call, o1.now⟩ w1.disk.queued then _ else _ : Io _).Meets _ _ _
      rw [if_pos hop]
      exact saving_meets saved (update_self ..) hop
  · have hop' : QueueOp.saves ⟨call, o1.now⟩ w1.disk.queued = false := by simpa using hop
    have hloaded : w1.loaded t ⟨call, o1.now⟩ = { w1 with
        begun := w1.begun ++ [(t, ⟨call, o1.now⟩)],
        done := w1.done ++ [⟨t, ⟨call, o1.now⟩, false⟩] } := by
      simp [QueueRecord.loaded, hop']
    rw [hloaded]
    refine ⟨hinv1.keep hfree1 hop', fun t' _ => ⟨rfl, fun _ => rfl⟩, ?_⟩
    change (if QueueOp.saves ⟨call, o1.now⟩ w1.disk.queued then _ else _ : Io _).Meets _ _ _
    rw [if_neg hop]
    exact fun w2 hrely2 _ => hrely2.1.trans hfree1

theorem service_keeps :
    Poller.ServiceKeeps ((queueOutline cfg start).contract t) (·.inside t = none) where
  stable := free_stable
  ask _ := keeps_of_changes (fun _ h => nomatch h) (fun h => nomatch h)
  load _ := keeps_of_changes (fun _ h => nomatch h) (fun h => nomatch h)
  loadPush _ := keeps_of_changes (fun _ h => nomatch h) (fun h => nomatch h)
  call _ := call_keeps
  save s hs _ :=
    have hs' : some s ≠ some Store.pending := fun h => hs (Option.some.inj h)
    keeps_saveFile free_stable (keeps_of_changes (fun _ h => nomatch h) hs')
      (keeps_of_changes (fun _ h => nomatch h) hs')
  clear := keeps_of_changes (fun _ h => nomatch h) (fun h => nomatch h)

theorem queueOutline_valid : (queueOutline cfg start).Valid where
  task _ j w _ hpre := ((service_keeps.tasks cfg).prog j w hpre).mono fun _ _ h _ _ => h
  boot t _ _ hfresh _ _ := hfresh t
  outside e := e.elim

end QueueRecord

/-- Two loops that keep apart : at every moment the queue is what the calls that are over make
of it one after the other, in the order in which they ended. This order has the calls of each
loop in the order in which the loop made them, and every call was answered as in this order.
So the entry of each match is what the calls on the match made of it, and no match has two. -/
theorem queue_linearizable (cfg : Config) (disk : Disk) (hdisk : disk.queuedIds.Nodup)
    (ms : List LoopMove)
    (hms : Along (loops cfg).step (fun s m => NoIoError QueueRecord.disk s m ∧ Apart s m)
      ((loops cfg).start { disk }) ms) :
    let w := (run (loops cfg).step ((loops cfg).start { disk }) ms).world
    w.disk.queued = sequentially disk.queued w.done ∧
    (∀ t, OwnOrder w t) ∧
    AnsweredInOrder disk.queued w.done ∧
    (∀ id, entryOf id w.disk.queued =
      w.done.foldl (fun entry x => x.op.onEntry id entry)
        (entryOf id disk.queued)) ∧
    w.disk.queuedIds.Nodup := by
  have hstart : (queueOutline cfg disk.queued).Holds ((loops cfg).start { disk }) :=
    Discipline.start_holds QueueRecord.queueOutline_valid
      ⟨rfl, trivial, hdisk, fun _ => rfl, fun _ _ h => absurd rfl h⟩ fun _ => rfl
  have hallows : Along (loops cfg).step (queueOutline cfg disk.queued).Allows
      ((loops cfg).start { disk }) ms := by
    refine hms.mono fun s m hm => ?_
    cases m with
    | act => exact Prog.First.and hm.1 hm.2
    | start | outside | restart => exact hm.1.elim
  obtain ⟨hinv, -⟩ := Discipline.run_holds QueueRecord.queueOutline_valid hstart hallows
  refine ⟨hinv.contents, hinv.own, hinv.answers, fun id => ?_, hinv.nodup⟩
  rw [hinv.contents]
  exact entryOf_sequentially ..

/-! ## A lost match -/

instance LoadsAlone.decidable (t : Loop) (o : Outside) (c : Cmd) (w : QueueRecord) :
    Decidable (LoadsAlone t o c w) := by
  unfold LoadsAlone
  split <;> infer_instance

instance NoIoError.decidable {W : Type} (disk : W → Disk)
    (s : Threads Loop Cmd.Answer W Poller.Task) : DecidablePred (NoIoError disk s) := fun m => by
  cases m <;> unfold NoIoError <;> infer_instance

instance Apart.decidable (s : LoopState) : DecidablePred (Apart s) := fun m => by
  cases m <;> unfold Apart <;> infer_instance

/-- Match 2 is active, and everything else goes well. -/
def match2Active : Outside where
  torn _ := none
  now := 0
  ask
    | .activeMatchesPaginated .. => .ok [⟨2, "game0002", .lichess⟩]
    | q => q.plain

/-- Match 1 is queued. -/
def match1Queued : Disk := .ofQueue [.new 0 1 "game0001" .lichess]

/-- Commands of a loop, one after the other. -/
def turns (t : Loop) (n : ℕ) : List LoopMove := List.replicate n (.act t match2Active)

/-- The poll loop settles match 1, then reconciliation queues match 2. -/
def queueSettledThenFound : List LoopMove := turns .poll 14 ++ turns .reconcile 7

theorem queue_linearizable_settledThenFound :
    let w := (run (loops .plain).step ((loops .plain).start { disk := match1Queued })
      queueSettledThenFound).world
    w.disk.queued = sequentially match1Queued.queued w.done ∧ w.disk.queuedIds = [2] :=
  ⟨(queue_linearizable .plain match1Queued (by decide) queueSettledThenFound
    (by decide +kernel)).1, by decide +kernel⟩

/-- Reconciliation queues match 2 while the poll loop removes match 1 : the removal saves the
queue without match 2, which it had loaded before. Both orders of the calls keep match 2. -/
def foundWhileRemoved : List LoopMove :=
  turns .poll 12 ++ turns .reconcile 7 ++ turns .poll 2

theorem enqueued_match_lost :
    let s := (loops .plain).start { disk := match1Queued }
    let w := (run (loops .plain).step s foundWhileRemoved).world
    Along (loops .plain).step (NoIoError QueueRecord.disk) s foundWhileRemoved ∧
    w.done = [⟨.reconcile, ⟨.enqueue 2 "game0002" .lichess, 0⟩, true⟩,
      ⟨.poll, ⟨.remove 1, 0⟩, true⟩] ∧
    w.disk.queuedIds = [] ∧
    (sequentially match1Queued.queued w.done).map (·.matchId) = [2] ∧
    (sequentially match1Queued.queued w.done.reverse).map (·.matchId) = [2] := by
  decide +kernel

end Checkmate.Service
