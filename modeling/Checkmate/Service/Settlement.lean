import Checkmate.Host.Threads
import Checkmate.Service.Poller

/-!
# Settled matches and the dead-letter store

The poll loop alone. A transaction that was sent may succeed on-chain at any later time. Then its
match is settled, and the contract rejects every other submission of the match. All other answers
come from outside.

If a match is settled only while the poller waits for the confirmation, and the poller sees it
(`Confirms`), the match is out of the queue as soon as the poller is done with it, and it never
goes to the dead-letter store (`settled_not_buried`). A rejected submission counts as a failed
attempt : if the confirmation is not seen, the settled match is tried again until it is
dead-lettered (`settled_match_buried`).
-/

namespace Checkmate.Service

open Contract List

/-- The files, the matches with a transaction that was sent, and those that are settled. Then
what the poller is at : the match whose confirmation it waits for, how often it has polled, and
the match whose confirmation it has seen and that it is about to remove from the queue. Last the
matches that came into the dead-letter store when they were settled. -/
structure Settlement where
  disk : Disk
  sent : List ℕ := []
  settled : List ℕ := []
  waiting : Option ℕ := none
  polls : ℕ := 0
  confirmed : Option ℕ := none
  buried : List ℕ := []

namespace Settlement

/-- The contract rejects a submission of a settled match. -/
def reply (w : Settlement) (o : Outside) : (q : Query) → q.Answer
  | .simulateTransaction matchId winner =>
    if matchId ∈ w.settled then .error (.simulateError "InvalidState")
    else o.ask (.simulateTransaction matchId winner)
  | q => o.ask q

/-- The settled matches that a rename brings into the dead-letter store. -/
def burying (w : Settlement) : List ℕ :=
  (((w.disk .deadLetter).tmp.getD []).map (·.entry.matchId)).filter fun m =>
    m ∉ w.disk.deadIds && m ∈ w.settled

/-- The poller has asked for the transaction. -/
def polled (w : Settlement) (matchId : ℕ) : Except OracleServiceError TxStatus → Settlement
  | .ok .success => { w with waiting := none, confirmed := some matchId }
  | .ok .unsettled =>
    if w.polls + 1 < SorobanClient.maxPolls then { w with polls := w.polls + 1 }
    else { w with waiting := none }
  | .ok (.failed _) | .error _ => { w with waiting := none }

def note (w : Settlement) : (c : Cmd) → c.Answer → Settlement
  | .ask (.sendTransaction matchId _), .ok _ =>
    { w with sent := matchId :: w.sent, waiting := some matchId, polls := 0 }
  | .ask (.sendTransaction matchId _), .error _ => { w with sent := matchId :: w.sent }
  | .ask (.getTransaction matchId _), r => w.polled matchId r
  | .rename .pending, .ok _ => { w with confirmed := none }
  | .rename .deadLetter, .ok _ => { w with buried := w.buried ++ w.burying }
  | _, _ => w

def answer (c : Cmd) (o : Outside) (w : Settlement) : c.Answer × Settlement :=
  let (r, d) := w.disk.answer c { o with ask := w.reply o }
  (r, { w.note c r with disk := d })

/-- A transaction for the match succeeds. -/
def settle (matchId : ℕ) (w : Settlement) : Settlement :=
  if matchId ∈ w.sent ∧ matchId ∉ w.settled then { w with settled := matchId :: w.settled }
  else w

end Settlement

/-- The poll loop. -/
def pollLoop (cfg : Config) : System Unit Cmd.Answer Settlement Outside Poller.Task ℕ where
  answer _ := Settlement.answer
  task := Poller.prog cfg
  boot _ := some (.tick true)
  outside := Settlement.settle

abbrev PollMove := Move Unit Outside Poller.Task ℕ

abbrev PollState := Threads Unit Cmd.Answer Settlement Poller.Task

/-- Ticks, and transactions that succeed. -/
def Ticks : PollMove → Prop
  | .act .. | .outside _ => True
  | .start .. | .restart => False

/-- The answer is that the transaction succeeded, or there is another poll. -/
def MaySee (w : Settlement) : Except OracleServiceError TxStatus → Prop
  | .ok .success => True
  | .ok .unsettled => w.polls + 1 < SorobanClient.maxPolls
  | .ok (.failed _) | .error _ => False

/-- The wait for a settled match does not end without its confirmation. -/
def Sees (o : Outside) (w : Settlement) : Cmd → Prop
  | .ask (.getTransaction matchId txHash) =>
    matchId ∈ w.settled → MaySee w (o.ask (.getTransaction matchId txHash))
  | _ => True

/-- A transaction succeeds only while the poller waits for it, the poller sees it, and the
removal from the queue does not fail. -/
def Confirms (s : PollState) : PollMove → Prop
  | .act t o => (s.prog t).First fun c =>
      Sees o s.world c ∧ (s.world.confirmed.isSome = true → o.fault = none)
  | .outside matchId => s.world.waiting = some matchId
  | .start .. | .restart => True

/-! ## The outline of the proof -/

/-- Only a match that the poller is waiting for or about to remove is settled and queued. -/
structure NoneBuried (w : Settlement) : Prop where
  nodup : w.disk.queuedIds.Nodup
  queued : ∀ m ∈ w.settled, m ∈ w.disk.queuedIds → w.waiting = some m ∨ w.confirmed = some m
  buried : w.buried = []

/-- What may happen on-chain between two commands. -/
structure Settles (w w' : Settlement) : Prop where
  disk : w'.disk = w.disk
  waiting : w'.waiting = w.waiting
  polls : w'.polls = w.polls
  confirmed : w'.confirmed = w.confirmed
  settled : ∀ m ∈ w'.settled, m ∈ w.settled ∨ w.waiting = some m

theorem Settles.refl (w : Settlement) : Settles w w :=
  ⟨rfl, rfl, rfl, rfl, fun _ hm => .inl hm⟩

variable {w : Settlement}

theorem Settles.trans {u v : Settlement} (h : Settles u v) (h' : Settles v w) : Settles u w where
  disk := h'.disk.trans h.disk
  waiting := h'.waiting.trans h.waiting
  polls := h'.polls.trans h.polls
  confirmed := h'.confirmed.trans h.confirmed
  settled m hm := (h'.settled m hm).elim (h.settled m) fun hm => .inr (h.waiting ▸ hm)

/-- What the poller is at, with the matches `ids` still to be dealt with : none of them is
settled. -/
structure Stage (awaited seen : Option ℕ) (ids : List ℕ) (w : Settlement) : Prop where
  waiting : w.waiting = awaited
  confirmed : w.confirmed = seen
  nodup : ids.Nodup
  unsettled : ∀ m ∈ ids, m ∉ w.settled ∧ awaited ≠ some m

abbrev Idle := Stage none none

def pollOutline (cfg : Config) : Discipline (pollLoop cfg) where
  inv := NoneBuried
  rely _ := Settles
  rely_refl _ := Settles.refl
  rely_trans _ := Settles.trans
  allow _ c o w := Sees o w c ∧ (w.confirmed.isSome = true → o.fault = none)
  pre _ task w := task = .tick true ∧ Idle [] w
  fresh := Idle []
  calm matchId w := w.waiting = some matchId

theorem Stage.settles {awaited seen : Option ℕ} {ids : List ℕ} {w' : Settlement}
    (h : Stage awaited seen ids w) (hw : Settles w w') : Stage awaited seen ids w' := by
  refine ⟨hw.waiting.trans h.waiting, hw.confirmed.trans h.confirmed, h.nodup, fun m hm => ?_⟩
  obtain ⟨hsettled, hne⟩ := h.unsettled m hm
  refine ⟨fun hm' => ?_, hne⟩
  rcases hw.settled m hm' with hm' | hm'
  · exact hsettled hm'
  · exact hne (h.waiting.symm.trans hm')

theorem Stage.weaken {awaited seen : Option ℕ} {ids ids' : List ℕ}
    (hids : ids'.Subperm ids) (h : Stage awaited seen ids w) : Stage awaited seen ids' w := by
  refine ⟨h.waiting, h.confirmed, ?_, fun m hm => h.unsettled m (hids.subset hm)⟩
  obtain ⟨l, hperm, hsub⟩ := hids
  exact hperm.nodup_iff.mp (hsub.nodup h.nodup)

namespace Settlement

variable {cfg : Config} {w : Settlement} {awaited seen : Option ℕ} {ids : List ℕ} {id : ℕ}
  {β : Type}

abbrev contract (cfg : Config) : Contract Cmd.Answer Settlement Outside :=
  (pollOutline cfg).contract ()

theorem settle_keeps (h : NoneBuried w) (hm : w.waiting = some id) :
    NoneBuried (w.settle id) ∧ Settles w (w.settle id) := by
  rw [settle]
  split
  · refine ⟨⟨h.nodup, fun m hsettled hq => ?_, h.buried⟩, rfl, rfl, rfl, rfl, fun m hsettled => ?_⟩
    · rcases mem_cons.mp hsettled with rfl | hsettled
      · exact .inl hm
      · exact h.queued m hsettled hq
    · rcases mem_cons.mp hsettled with rfl | hsettled
      · exact .inr hm
      · exact .inl hsettled
  · exact ⟨h, Settles.refl w⟩

/-! ## Commands -/

theorem stage_stable : (contract cfg).Stable (Stage awaited seen ids) :=
  fun _ _ hrely _ hw => hw.settles hrely

/-- No other thread relies on the loop, so a command only has to keep the invariant. -/
theorem meets_op {α : Type} {c : Cmd} {k : c.Answer → Io α} {Q : α → Settlement → Prop}
    (hw : Stage awaited seen ids w)
    (h : ∀ w1, Settles w w1 → Stage awaited seen ids w1 → NoneBuried w1 → ∀ o, Sees o w1 c →
      (seen.isSome = true → o.fault = none) → NoneBuried (answer c o w1).2 ∧
        (k (answer c o w1).1).Meets (contract cfg) Q (answer c o w1).2) :
    (Prog.op c k).Meets (contract cfg) Q w := by
  intro w1 hrely hinv o ho
  have hw1 := hw.settles hrely
  obtain ⟨hinv', hk⟩ := h w1 hrely hw1 hinv o ho.1 fun hs => ho.2 (by rwa [hw1.confirmed])
  exact ⟨hinv', fun _ ht => absurd rfl ht, hk⟩

/-- The queue is as it was, and so is what the poller is at. -/
theorem noneBuried_of_eq (h : NoneBuried w) {d : Disk}
    (hd : (d .pending).content = (w.disk .pending).content) : NoneBuried { w with disk := d } := by
  have hids : d.queuedIds = w.disk.queuedIds := Disk.queuedIds_congr hd
  exact ⟨hids ▸ h.nodup, fun m hm hq => h.queued m hm (hids ▸ hq), h.buried⟩

theorem stage_disk (h : Stage awaited seen ids w) (d : Disk) :
    Stage awaited seen ids { w with disk := d } :=
  ⟨h.waiting, h.confirmed, h.nodup, h.unsettled⟩

/-- A command that replaces no file and tells nothing. -/
theorem quiet_keeps {c : Cmd} (hc : c.replaces = none)
    (hnote : ∀ (w : Settlement) r, w.note c r = w) :
    (contract cfg).Keeps (Stage awaited seen ids) (command c) := by
  refine fun w hw => meets_op hw fun w1 _ hw1 hinv1 o _ _ => ?_
  have hanswer : (answer c o w1).2 =
      { w1 with disk := (w1.disk.answer c { o with ask := w1.reply o }).2 } := by
    simp only [answer, hnote]
  rw [hanswer]
  exact ⟨noneBuried_of_eq hinv1 (Disk.answer_content (by simp [hc]) _ _),
    keeps_pure stage_stable _ _ (stage_disk hw1 _)⟩

theorem ask_keeps {q : Query} (hq : q.isLocal = true) :
    (contract cfg).Keeps (Stage awaited seen ids) (ask q) := by
  refine quiet_keeps rfl fun w r => ?_
  cases q <;> first | rfl | nomatch hq

/-- A command that fails is not part of the removal of a confirmed match. -/
theorem seen_eq_none {o : Outside} {e : String} (ho : seen.isSome = true → o.fault = none)
    (hf : o.fault = some e) : seen = none := by
  by_contra hne
  exact absurd (hf.symm.trans (ho (Option.isSome_iff_ne_none.mpr hne))) (by simp)

/-- A save that may fail has nothing to do with a match whose confirmation was seen. One that
does not fail leaves only the rename to look at. -/
theorem saving_meets {s : Store} {content : s.Content} (x : β) (hw : Stage none seen ids w)
    (hrename : ∀ w2 : Settlement, w2.disk s = ⟨(w.disk s).content, some content⟩ →
      Stage none seen ids w2 → NoneBuried w2 →
      let w3 := { w2.note (.rename s) (.ok ()) with disk := w2.disk.renamed s content }
      NoneBuried w3 ∧ Idle ids w3) :
    (saving s content x).Meets (contract cfg) (fun _ => Idle ids) w := by
  refine meets_op hw fun w1 hrely1 hw1 hinv1 o1 _ ho1 => ?_
  cases hf1 : o1.fault with
  | some =>
    simp only [answer, Disk.answer, hf1, note]
    obtain rfl := seen_eq_none ho1 hf1
    exact ⟨noneBuried_of_eq hinv1 (by cases s <;> simp),
      keeps_pure stage_stable _ _ (stage_disk hw1 _)⟩
  | none =>
    simp only [answer, Disk.answer, hf1, note]
    refine ⟨noneBuried_of_eq hinv1 (by cases s <;> simp), ?_⟩
    refine meets_op (stage_disk hw1 _) fun w2 hrely2 hw2 hinv2 o2 _ ho2 => ?_
    have hstore : w2.disk s = ⟨(w.disk s).content, some content⟩ := by
      rw [hrely2.disk, ← hrely1.disk]
      exact Disk.wrote_self ..
    cases hf2 : o2.fault with
    | some =>
      simp only [answer, Disk.answer, hf2, note]
      obtain rfl := seen_eq_none ho2 hf2
      exact ⟨hinv2, keeps_pure stage_stable _ _ hw2⟩
    | none =>
      simp only [answer, Disk.answer, hf2, hstore]
      obtain ⟨hinv3, hidle⟩ := hrename w2 hstore hw2 hinv2
      exact ⟨hinv3, keeps_pure stage_stable _ _ hidle⟩

/-- The queue is saved with some of its matches, without the one whose confirmation was seen.
Then this one is done. -/
theorem savingQueue_meets (x : β) {entries : List PendingEntry}
    (hw : Stage none seen ids w) (hnodup : (entries.map (·.matchId)).Nodup)
    (hentries : ∀ m ∈ entries.map (·.matchId), m ∈ w.disk.queuedIds ∧ seen ≠ some m) :
    (saving .pending entries x).Meets (contract cfg) (fun _ => Idle ids) w := by
  refine saving_meets x hw fun w2 hpending hw2 hinv2 => ?_
  have hqueued : w2.disk.queuedIds = w.disk.queuedIds := Disk.queuedIds_congr (by rw [hpending])
  have hids : (w2.disk.renamed .pending entries).queuedIds = entries.map (·.matchId) := by
    simp [Disk.queuedIds, Disk.queued]
  refine ⟨⟨hids ▸ hnodup, fun m hm hq => ?_, hinv2.buried⟩,
    hw2.waiting, rfl, hw2.nodup, hw2.unsettled⟩
  obtain ⟨hq, hne⟩ := hentries m (hids ▸ hq)
  rcases hinv2.queued m hm (hqueued ▸ hq) with h | h
  · exact .inl h
  · exact absurd (hw2.confirmed.symm.trans h) hne

/-- The poll loop puts no match into the queue. A match whose confirmation was seen is removed. -/
theorem call_meets (call : QueueCall) (kept saved : β)
    (hcall : ∀ id gameId platform, call ≠ .enqueue id gameId platform)
    (hseen : ∀ id, seen = some id → call = .remove id) (hw : Stage none seen ids w) :
    (call.prog kept saved).Meets (contract cfg) (fun _ => Idle ids) w := by
  refine meets_op hw fun w1 hrely1 hw1 hinv1 o1 _ ho1 => ?_
  cases hf1 : o1.fault with
  | some =>
    simp only [answer, Disk.answer, hf1, note]
    obtain rfl := seen_eq_none ho1 hf1
    exact ⟨hinv1, keeps_pure stage_stable _ _ hw1⟩
  | none =>
    simp only [answer, Disk.answer, hf1, note]
    refine ⟨hinv1, ?_⟩
    change (if QueueOp.saves ⟨call, o1.now⟩ w1.disk.queued then _ else _ : Io _).Meets _ _ _
    split
    · refine savingQueue_meets saved hw1 (QueueOp.nodup_apply _ hinv1.nodup) fun m hm => ⟨?_, ?_⟩
      · refine (QueueOp.of_mem_apply hm).resolve_right ?_
        rintro ⟨gameId, platform, h⟩
        exact hcall m gameId platform h
      · rintro rfl
        rw [hseen m rfl, QueueOp.map_matchId_apply] at hm
        simp at hm
    · next hsaves =>
      have hnone : seen = none := by
        by_contra hne
        obtain ⟨m, hm⟩ := Option.ne_none_iff_exists'.mp hne
        exact hsaves (hseen m hm ▸ rfl)
      obtain rfl := hnone
      exact keeps_pure stage_stable _ _ hw1

theorem update_handles (entry : PendingEntry) : Poller.Handles (contract cfg) Idle entry.matchId
      (PendingQueue.updateEntry entry).run := by
  intro ids w hw
  rw [updateEntry_eq]
  exact call_meets _ () () (fun _ _ _ h => nomatch h) (fun _ h => absurd h (by simp))
    (hw.weaken (sublist_cons_self _ _).subperm)

/-- The dead-letter store is saved with one match more, which is not settled. -/
theorem savingDead_meets {entries : List DeadLetterEntry} (hw : Idle (id :: ids) w)
    (hentries : ∀ m ∈ entries.map (·.entry.matchId), m ∈ w.disk.deadIds ∨ m = id) :
    (saving .deadLetter entries ()).Meets (contract cfg) (fun _ => Idle (id :: ids)) w := by
  refine saving_meets () hw fun w2 hdead hw2 hinv2 => ?_
  have hids : w2.disk.deadIds = w.disk.deadIds := Disk.deadIds_congr (by rw [hdead])
  have hburying : w2.burying = [] := by
    refine filter_eq_nil_iff.mpr fun m hm => ?_
    rw [hdead] at hm
    rcases hentries m hm with hm | rfl
    · simp [hids, hm]
    · simp [(hw2.unsettled m mem_cons_self).1]
  have hburied : w2.note (.rename .deadLetter) (.ok ()) = w2 := by
    simp only [note, hburying, append_nil]
  rw [hburied]
  exact ⟨noneBuried_of_eq hinv2 (by simp), stage_disk hw2 _⟩

theorem push_keeps (entry : PendingEntry) : (contract cfg).Keeps (Idle (entry.matchId :: ids))
      (DeadLetterStore.push entry).run := by
  intro w hw
  rw [push_eq]
  refine meets_op hw fun w1 _ hw1 hinv1 o1 _ _ => ⟨hinv1, ?_⟩
  refine meets_op hw1 fun w2 _ hw2 hinv2 o2 _ _ => ?_
  cases hf2 : o2.fault with
  | some =>
    simp only [answer, Disk.answer, hf2, note]
    exact ⟨hinv2, keeps_pure stage_stable _ _ hw2⟩
  | none =>
    simp only [answer, Disk.answer, hf2, note]
    refine ⟨hinv2, ?_⟩
    change (if w2.disk.deadLettered.any _ then _ else _ : Io _).Meets _ _ _
    split
    · exact keeps_pure stage_stable _ _ hw2
    · refine savingDead_meets hw2 fun m hm => ?_
      simpa [Disk.deadIds, Disk.deadLettered, or_comm] using hm

theorem exhaust_handles (entry : PendingEntry) : Poller.Handles (contract cfg) Idle entry.matchId
      (Poller.exhaustEntry entry) := by
  intro ids w hw
  refine Prog.Meets.bind (((keeps_logged stage_stable (push_keeps entry)) w hw).mono ?_)
  intro _ w hw
  rw [logged, remove_eq]
  refine Prog.Meets.bind ((call_meets (.remove entry.matchId) () () (fun _ _ _ h => nomatch h)
    (fun _ h => absurd h (by simp)) (hw.weaken (sublist_cons_self _ _).subperm)).mono ?_)
  exact fun _ w hw => keeps_pure stage_stable () w hw

/-! ## A submission -/

/-- What holds while the poller may poll so many times more. -/
def Awaiting (matchId : ℕ) (ids : List ℕ) : ℕ → Settlement → Prop
  | 0, w => Idle (matchId :: ids) w
  | left + 1, w => Stage (some matchId) none ids w ∧ matchId ∉ ids ∧
      w.polls + (left + 1) = SorobanClient.maxPolls

theorem awaiting_stable {left : ℕ} : (contract cfg).Stable (Awaiting id ids left) := by
  intro w w' hrely hinv hw
  cases left with
  | zero => exact stage_stable w w' hrely hinv hw
  | succ => exact ⟨hw.1.settles hrely, hw.2.1, hrely.polls ▸ hw.2.2⟩

/-- The poller stops waiting. A settled match is one it was waiting for, and then its
confirmation was seen. -/
theorem stops_waiting {confirmed : Option ℕ} (hinv : NoneBuried w)
    (hw : Stage (some id) none ids w) (hseen : id ∈ w.settled → confirmed = some id) :
    NoneBuried { w with waiting := none, confirmed := confirmed } := by
  refine ⟨hinv.nodup, fun m hm hq => ?_, hinv.buried⟩
  rcases hinv.queued m hm hq with h | h
  · obtain rfl := Option.mem_unique hw.waiting h
    exact .inr (hseen hm)
  · cases hw.confirmed.symm.trans h

/-- The wait is over and the match is not settled. -/
theorem idle_of_unseen (hw : Stage (some id) none ids w)
    (hids : id ∉ ids) (hm : id ∉ w.settled) : Idle (id :: ids) { w with waiting := none } := by
  refine ⟨rfl, hw.confirmed, nodup_cons.mpr ⟨hids, hw.nodup⟩, fun m hmem => ⟨?_, by simp⟩⟩
  rcases mem_cons.mp hmem with rfl | hmem
  · exact hm
  · exact (hw.unsettled m hmem).1

theorem poll_meets {left : ℕ} (txHash : String) (hw : Awaiting id ids (left + 1) w) :
    (ask (.getTransaction id txHash)).Meets (contract cfg) (fun r w' => match r with
        | .ok .success => Stage none (some id) ids w'
        | .ok .unsettled => Awaiting id ids left w'
        | .ok (.failed _) | .error _ => Idle (id :: ids) w') w := by
  obtain ⟨hstage, hids, hpolls⟩ := hw
  refine meets_op hstage fun w1 hrely1 hw1 hinv1 o1 hsees _ => ?_
  rw [← hrely1.polls] at hpolls
  -- an answer that ends the wait without a confirmation
  have hend : ∀ (hr : ¬ MaySee w1 (o1.ask (.getTransaction id txHash))),
      NoneBuried { w1 with waiting := none } ∧
        Idle (id :: ids) { w1 with waiting := none } := fun hr =>
    ⟨stops_waiting hinv1 hw1 fun hm => absurd (hsees hm) hr,
      idle_of_unseen hw1 hids fun hm => hr (hsees hm)⟩
  cases hr : o1.ask (.getTransaction id txHash) with
  | error =>
    obtain ⟨hinv, hidle⟩ := hend (by simp [hr, MaySee])
    simp only [answer, Disk.answer, reply, hr, note, polled]
    exact ⟨hinv, fun w2 hrely2 _ => hidle.settles hrely2⟩
  | ok status =>
    simp only [answer, Disk.answer, reply, hr, note, polled]
    cases status with
    | success =>
      refine ⟨stops_waiting hinv1 hw1 fun _ => rfl, fun w2 hrely2 _ => Stage.settles ?_ hrely2⟩
      exact ⟨rfl, rfl, hw1.nodup, fun m hm => ⟨(hw1.unsettled m hm).1, by simp⟩⟩
    | failed =>
      obtain ⟨hinv, hidle⟩ := hend (by simp [hr, MaySee])
      exact ⟨hinv, fun w2 hrely2 _ => hidle.settles hrely2⟩
    | unsettled =>
      by_cases hmore : w1.polls + 1 < SorobanClient.maxPolls
      · simp only [if_pos hmore]
        obtain ⟨left, rfl⟩ : ∃ n, left = n + 1 := ⟨left - 1, by omega⟩
        refine ⟨⟨hinv1.nodup, hinv1.queued, hinv1.buried⟩, fun w2 hrely2 hinv2 => ?_⟩
        refine @awaiting_stable cfg ids id (left + 1) _ w2 hrely2 hinv2 ⟨?_, hids, ?_⟩
        · exact ⟨hw1.waiting, hw1.confirmed, hw1.nodup, hw1.unsettled⟩
        · change w1.polls + 1 + (left + 1) = _
          omega
      · simp only [if_neg hmore]
        obtain rfl : left = 0 := by omega
        obtain ⟨hinv, hidle⟩ := hend (by simpa [hr, MaySee] using hmore)
        exact ⟨hinv, fun w2 hrely2 _ => hidle.settles hrely2⟩

theorem send_meets (winner : Winner) (hw : Idle (id :: ids) w) :
    (ask (.sendTransaction id winner)).Meets (contract cfg)
      (Poller.Ends (Awaiting id ids SorobanClient.maxPolls) (Idle (id :: ids))) w := by
  refine meets_op hw fun w1 _ hw1 hinv1 o1 _ _ => ?_
  obtain ⟨hids, hnodup⟩ := nodup_cons.mp hw1.nodup
  cases hr : o1.ask (.sendTransaction id winner) with
  | error =>
    simp only [answer, Disk.answer, reply, hr, note]
    refine ⟨⟨hinv1.nodup, hinv1.queued, hinv1.buried⟩, fun w2 hrely2 _ => Stage.settles ?_ hrely2⟩
    exact ⟨hw1.waiting, hw1.confirmed, hw1.nodup, hw1.unsettled⟩
  | ok =>
    simp only [answer, Disk.answer, reply, hr, note]
    refine ⟨⟨hinv1.nodup, fun m hm hq => ?_, hinv1.buried⟩, fun w2 hrely2 hinv2 => ?_⟩
    · rcases hinv1.queued m hm hq with h | h
      · cases hw1.waiting.symm.trans h
      · exact .inr h
    · refine @awaiting_stable cfg ids id SorobanClient.maxPolls _ w2 hrely2 hinv2
        ⟨⟨rfl, hw1.confirmed, hnodup, fun m hm => ⟨?_, ?_⟩⟩, hids, rfl⟩
      · exact (hw1.unsettled m (mem_cons_of_mem _ hm)).1
      · exact fun h => hids (Option.some.inj h ▸ hm)

theorem submit_meets (id : ℕ) : Poller.SubmitMeets (contract cfg) id (Idle (id :: ids))
      (Awaiting id ids) (Stage none (some id) ids) where
  stable := stage_stable
  stable_waiting _ := awaiting_stable
  stable_confirmed := stage_stable
  sequence := quiet_keeps rfl fun _ _ => rfl
  simulate _ := quiet_keeps rfl fun _ _ => rfl
  send winner _ hw := send_meets winner hw
  sleep polls w hw := by
    cases polls with
    | zero => exact ask_keeps rfl w hw
    | succ left =>
      refine meets_op hw.1 fun w1 hrely1 _ hinv1 o1 _ _ => ⟨hinv1, ?_⟩
      exact keeps_pure awaiting_stable () w1 (@awaiting_stable cfg ids id (left + 1)
        w w1 hrely1 hinv1 hw)
  poll txHash _ _ hw := poll_meets txHash hw
  last _ hw := hw

/-! ## The poll loop -/

theorem load_keeps (ids : List ℕ) : (contract cfg).Keeps (Idle ids) (PendingQueue.load none).run :=
  keeps_loadQueue stage_stable (quiet_keeps rfl fun _ _ => rfl)

/-- The due entries are in the queue, and none of them is settled. -/
theorem due_meets (hw : Idle [] w) :
    PendingQueue.dueEntries.run.Meets (contract cfg) (fun r w' => match r with
      | .ok due => Idle (due.map (·.matchId)) w'
      | .error _ => Idle [] w') w := by
  rw [dueEntries_eq]
  refine meets_op hw fun w1 _ hw1 hinv1 o1 _ _ => ?_
  cases hf1 : o1.fault with
  | some =>
    simp only [answer, Disk.answer, hf1, note]
    exact ⟨hinv1, fun w2 hrely2 _ => hw1.settles hrely2⟩
  | none =>
    simp only [answer, Disk.answer, hf1, note]
    have hdue : Idle ((w1.disk.queued.filter (·.isDue o1.now)).map (·.matchId)) w1 := by
      have hsub : ((w1.disk.queued.filter (·.isDue o1.now)).map (·.matchId)).Sublist
          w1.disk.queuedIds := List.Sublist.map _ filter_sublist
      refine ⟨hw1.waiting, hw1.confirmed, hinv1.nodup.sublist hsub, fun m hm => ⟨?_, by simp⟩⟩
      intro hsettled
      rcases hinv1.queued m hsettled (hsub.subset hm) with h | h
      · cases hw1.waiting.symm.trans h
      · cases hw1.confirmed.symm.trans h
    exact ⟨hinv1, fun w2 hrely2 _ => hdue.settles hrely2⟩

theorem tick_meets : Poller.TickMeets cfg (contract cfg) Idle where
  stable _ := stage_stable
  weaken hids hw := hw.weaken hids
  ask _ hq _ := ask_keeps hq
  due _ hw := due_meets hw
  load := load_keeps
  update := update_handles
  exhaust := exhaust_handles
  submit entry winner ids w hw := by
    have hremove : ∀ w, Stage none (some entry.matchId) ids w →
        (PendingQueue.remove entry.matchId).run.Meets (contract cfg) (fun _ => Idle ids) w := by
      intro w hw
      rw [remove_eq]
      exact call_meets _ () () (fun _ _ _ h => by cases h) (fun _ h => by cases h; rfl) hw
    exact (submit_meets entry.matchId).complete rfl stage_stable hremove (load_keeps ids)
      (fun _ hq => ask_keeps hq)
      (fun reason w hw => Poller.handleTransient_handles (fun _ => stage_stable)
        (fun _ => ask_keeps rfl) update_handles exhaust_handles entry reason ids w hw)
      winner hw

theorem pollOutline_valid : (pollOutline cfg).Valid where
  task _ j w _ hpre := by
    obtain ⟨rfl, hw⟩ := hpre
    refine Prog.Meets.bind ((tick_meets.tick hw).mono fun _ w hw => ?_)
    refine Prog.Meets.bind ((ask_keeps (q := .sleep) rfl w hw).mono fun _ w hw => ?_)
    rintro w' hrely - _ ⟨⟩
    exact ⟨rfl, hw.settles hrely⟩
  boot _ w _ hfresh := by
    rintro _ ⟨⟩
    exact ⟨rfl, hfresh⟩
  outside id w hinv hm := by
    obtain ⟨hinv', hsettles⟩ := settle_keeps hinv hm
    exact ⟨hinv', fun _ => hsettles⟩

end Settlement

/-- As long as the poller sees every success : no match goes to the dead-letter store once it is
settled, and a settled match is out of the queue unless the poller is waiting for its confirmation
or removing it. -/
theorem settled_not_buried (cfg : Config) (disk : Disk) (hdisk : disk.queuedIds.Nodup)
    (ms : List PollMove) (hms : Along (pollLoop cfg).step (fun s m => Ticks m ∧ Confirms s m)
      ((pollLoop cfg).start { disk }) ms) :
    let w := (run (pollLoop cfg).step ((pollLoop cfg).start { disk }) ms).world
    w.buried = [] ∧
    (w.waiting = none → w.confirmed = none → ∀ m ∈ w.settled, m ∉ w.disk.queuedIds) := by
  have hbegin : NoneBuried { disk } := ⟨hdisk, (fun _ hm => nomatch hm), rfl⟩
  have hidle : Idle [] { disk } := ⟨rfl, rfl, nodup_nil, (fun _ hm => nomatch hm)⟩
  have hallows : Along (pollLoop cfg).step (pollOutline cfg).Allows
      ((pollLoop cfg).start { disk }) ms := by
    refine hms.mono fun s m hm => ?_
    cases m with
    | act => exact hm.2
    | start => exact hm.1.elim
    | outside => exact hm.2
    | restart => exact hm.1.elim
  obtain ⟨hinv, -⟩ := Discipline.run_holds Settlement.pollOutline_valid
    (Discipline.start_holds Settlement.pollOutline_valid hbegin hidle) hallows
  refine ⟨hinv.buried, fun hwaiting hconfirmed m hm hq => ?_⟩
  rcases hinv.queued m hm hq with h | h
  · cases hwaiting.symm.trans h
  · cases hconfirmed.symm.trans h

/-! ## A settled match in the dead-letter store -/

instance Ticks.decidable : DecidablePred Ticks := fun m => by
  cases m <;> unfold Ticks <;> infer_instance

instance MaySee.decidable (w : Settlement) : DecidablePred (MaySee w) := fun r => by
  unfold MaySee
  split <;> infer_instance

instance Sees.decidable (o : Outside) (w : Settlement) : DecidablePred (Sees o w) := fun c => by
  unfold Sees
  split <;> infer_instance

instance Confirms.decidable (s : PollState) : DecidablePred (Confirms s) := fun m => by
  cases m <;> unfold Confirms <;> infer_instance

/-- Everything is answered, at a time. -/
def answersAt (now : ℕ) : Outside where
  torn _ := none
  now := now
  ask
    | .clock => now
    | q => q.plain

/-- The RPC does not answer a poll. -/
def pollLost : Outside where
  torn _ := none
  now := 0
  ask
    | .getTransaction .. => .error (.transport "operation timed out")
    | q => q.plain

/-- Commands of the poll loop at a time, one after the other. -/
def commandsAt (now n : ℕ) : List PollMove := List.replicate n (.act () (answersAt now))

/-- Match 1 is in the queue. -/
def match1Pending : Settlement where
  disk := .ofQueue [.new 0 1 "game0001" .lichess]

/-- The poller sends a transaction for match 1, and it succeeds. -/
def sentAndSettled : List PollMove := commandsAt 0 10 ++ [.outside 1]

theorem settled_not_buried_confirmedAtOnce :
    let w := (run (pollLoop .plain).step ((pollLoop .plain).start match1Pending)
      (sentAndSettled ++ commandsAt 0 7)).world
    w.settled = [1] ∧ w.buried = [] ∧ 1 ∉ w.disk.queuedIds := by
  have h := settled_not_buried .plain (.ofQueue [.new 0 1 "game0001" .lichess]) (by decide)
    (sentAndSettled ++ commandsAt 0 7) (by decide +kernel)
  exact ⟨by decide +kernel, h.1, h.2 (by decide +kernel) (by decide +kernel) 1 (by decide +kernel)⟩

/-- The answer to the first poll is lost, and the tick ends. Ten seconds later everything is
answered : the contract rejects the second submission, which is one failure too many. -/
def confirmationLost : List PollMove :=
  sentAndSettled ++ [.act () pollLost] ++ commandsAt 0 5 ++ commandsAt 10 16

theorem settled_match_buried :
    let s := (pollLoop .plain).start match1Pending
    let settled := (run (pollLoop .plain).step s sentAndSettled).world
    let w := (run (pollLoop .plain).step s confirmationLost).world
    (∀ m ∈ confirmationLost, Ticks m) ∧
    settled.settled = [1] ∧ settled.disk.deadIds = [] ∧
    w.buried = [1] ∧ w.disk.deadIds = [1] ∧ w.disk.queuedIds = [] := by
  decide +kernel

end Checkmate.Service
