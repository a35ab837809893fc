import Checkmate.Host.Threads
import Checkmate.Service.Poller

/-!
# No match is dropped

The tasks of the service and of the operator run one at a time. Any command on a file may fail,
and the process may stop between any two commands.

A match that was once in the queue stays in the queue or in the dead-letter store until its
submission is confirmed, as long as no push to the dead-letter store fails
(`queued_match_kept`). The poller removes an exhausted match from the queue also if the push
failed, and then the match is gone (`failed_push_drops_match`).
-/

namespace Checkmate.Service

/-- The files, the matches that were ever in the queue, those whose submission was confirmed,
and the match that is being pushed to the dead-letter store. -/
structure Custody where
  disk : Disk
  accepted : List ℕ
  confirmed : List ℕ := []
  pushing : Option ℕ := none

namespace Custody

/-- The match is in one of the stores, or it is settled. -/
def Held (w : Custody) (matchId : ℕ) : Prop :=
  matchId ∈ w.disk.queuedIds ∨ matchId ∈ w.disk.deadIds ∨ matchId ∈ w.confirmed

/-- What is known after a command besides the files. -/
def note (w : Custody) : (c : Cmd) → c.Answer → Custody
  | .load .deadLetter purpose, _ =>
    { w with pushing := match purpose with
      | some (.push matchId) => some matchId
      | _ => none }
  | .ask (.getTransaction matchId _), .ok .success =>
    { w with confirmed := matchId :: w.confirmed }
  | _, _ => w

def answer (w : Custody) (c : Cmd) (o : Outside) : c.Answer × Custody :=
  let (r, d) := w.disk.answer c o
  (r, { w.note c r with disk := d, accepted := w.accepted ++ d.queuedIds })

end Custody

/-- The tasks, one at a time. -/
def oneAtATime (cfg : Config) :
    System Unit Cmd.Answer Custody Outside Poller.Task Empty where
  answer _ c o w := w.answer c o
  task := Poller.prog cfg
  boot _ := none
  outside := Empty.elim

abbrev TaskMove := Move Unit Outside Poller.Task Empty

abbrev TaskState := Threads Unit Cmd.Answer Custody Poller.Task

/-- The command is part of a push to the dead-letter store. -/
def Custody.inPush (w : Custody) : Cmd → Bool
  | .load .deadLetter (some (.push _)) => true
  | .write s _ | .rename s => s = .deadLetter && w.pushing.isSome
  | _ => false

/-- The command does not make a push fail. -/
def Pushed (o : Outside) (w : Custody) (c : Cmd) : Prop := w.inPush c = true → o.fault = none

/-- Tasks are begun, commands performed and the process is stopped at will, but no push to the
dead-letter store fails. -/
def PushesSucceed (s : TaskState) : TaskMove → Prop
  | .act t o => (s.prog t).First (Pushed o s.world)
  | .start .. | .outside _ | .restart => True

/-! ## The outline of the proof -/

/-- Every match that was ever in the queue is held. -/
def AllHeld (w : Custody) : Prop := ∀ matchId ∈ w.accepted, w.Held matchId

def custodyOutline (cfg : Config) : Discipline (oneAtATime cfg) where
  inv := AllHeld
  rely _ := Eq
  rely_refl _ := Eq.refl
  rely_trans _ := Eq.trans
  allow _ c o w := Pushed o w c
  pre _ _ _ := True
  fresh _ := True
  calm e _ := e.elim

namespace Custody

variable {cfg : Config} {w w' : Custody} {α : Type} {c : Cmd} {Q : α → Custody → Prop} {id : ℕ}
  {s : Store}

abbrev contract (cfg : Config) : Contract Cmd.Answer Custody Outside :=
  (custodyOutline cfg).contract ()

/-- A command meets the outline if every match that is held stays held. -/
theorem meets_op {k : c.Answer → Io α}
    (h : ∀ o, Pushed o w c → (∀ id, w.Held id → (w.answer c o).2.Held id) ∧
      (k (w.answer c o).1).Meets (contract cfg) Q (w.answer c o).2) :
    (Prog.op c k).Meets (contract cfg) Q w := by
  rintro _ rfl hinv o ho
  obtain ⟨hheld, hk⟩ := h o ho
  refine ⟨fun id hm => ?_, fun _ ht => (ht rfl).elim, hk⟩
  rcases List.mem_append.mp hm with hm | hm
  · exact hheld id (hinv id hm)
  · exact .inl hm

theorem meets_pure {a : α} (h : Q a w) : (Prog.pure a : Io α).Meets (contract cfg) Q w := by
  rintro _ rfl -
  exact h

theorem Held.of_content (h : w.Held id)
    (hpending : (w'.disk .pending).content = (w.disk .pending).content)
    (hdead : (w'.disk .deadLetter).content = (w.disk .deadLetter).content)
    (hconfirmed : ∀ m ∈ w.confirmed, m ∈ w'.confirmed) : w'.Held id := by
  rcases h with h | h | h
  · exact .inl (by rwa [Disk.queuedIds_congr hpending])
  · exact .inr (.inl (by rwa [Disk.deadIds_congr hdead]))
  · exact .inr (.inr (hconfirmed id h))

/-- The files have the same contents, and the same matches are confirmed. -/
structure Unchanged (w w' : Custody) : Prop where
  content : ∀ s, (w'.disk s).content = (w.disk s).content
  confirmed : ∀ matchId ∈ w.confirmed, matchId ∈ w'.confirmed

theorem Unchanged.queued (h : Unchanged w w') : w'.disk.queued = w.disk.queued :=
  congrArg (·.getD []) (h.content .pending)

theorem Unchanged.held (h : Unchanged w w') {id : ℕ} (hm : w.Held id) : w'.Held id :=
  hm.of_content (h.content _) (h.content _) h.confirmed

theorem note_confirmed (c : Cmd) (r : c.Answer) :
    ∀ id ∈ w.confirmed, id ∈ (w.note c r).confirmed := by
  intro id hm
  unfold Custody.note
  split
  · exact hm
  · exact List.mem_cons_of_mem _ hm
  · exact hm

/-- A command that replaces no file. -/
theorem answer_unchanged (hc : c.replaces = none) (o : Outside) : Unchanged w (w.answer c o).2 where
  content s := Disk.answer_content (by simp [hc]) o w.disk
  confirmed := note_confirmed c _

theorem meets_quiet {k : c.Answer → Io α} (hc : c.replaces = none) (h : ∀ o, Pushed o w c →
      (k (w.answer c o).1).Meets (contract cfg) Q (w.answer c o).2) :
    (Prog.op c k).Meets (contract cfg) Q w :=
  meets_op fun o ho => ⟨fun _ hm => (answer_unchanged hc o).held hm, h o ho⟩

/-- One file has new contents. -/
structure Saved (w : Custody) (s : Store) (content : s.Content) (w' : Custody) : Prop where
  saved : (w'.disk s).content = some content
  others : ∀ s', s' ≠ s → (w'.disk s').content = (w.disk s').content
  confirmed : ∀ matchId ∈ w.confirmed, matchId ∈ w'.confirmed

/-- A command of a save that fails is not part of a push. -/
theorem pushing_eq_none {o : Outside} {e : String} (h : Pushed o w c) (ho : o.fault = some e)
    (hc : w.inPush c = (s = .deadLetter && w.pushing.isSome)) (hs : s = .deadLetter) :
    w.pushing = none := by
  by_contra hne
  have hpush : w.inPush c = true := by simp [hc, hs, Option.isSome_iff_ne_none, hne]
  exact absurd (ho.symm.trans (h hpush)) (by simp)

theorem Saved.of_unchanged {content : s.Content} {w1 : Custody}
    (h : Unchanged w w1) (hs : Saved w1 s content w') : Saved w s content w' where
  saved := hs.saved
  others s' hs' := (hs.others s' hs').trans (h.content s')
  confirmed id hm := hs.confirmed id (h.confirmed id hm)

theorem Saved.queuedIds {entries : List PendingEntry}
    (h : Saved w .pending entries w') : w'.disk.queuedIds = entries.map (·.matchId) := by
  rw [Disk.queuedIds, Disk.queued, h.saved]
  rfl

theorem Saved.deadIds {entries : List DeadLetterEntry}
    (h : Saved w .deadLetter entries w') : w'.disk.deadIds = entries.map (·.entry.matchId) := by
  rw [Disk.deadIds, Disk.deadLettered, h.saved]
  rfl

theorem Saved.queuedIds_eq {content : s.Content}
    (h : Saved w s content w') (hs : Store.pending ≠ s) : w'.disk.queuedIds = w.disk.queuedIds :=
  Disk.queuedIds_congr (h.others _ hs)

theorem Saved.deadIds_eq {content : s.Content}
    (h : Saved w s content w') (hs : Store.deadLetter ≠ s) : w'.disk.deadIds = w.disk.deadIds :=
  Disk.deadIds_congr (h.others _ hs)

/-- The queue is saved without matches that are not dead-lettered or confirmed. -/
theorem Saved.held_pending {entries : List PendingEntry} (h : Saved w .pending entries w')
    (hentries : ∀ id ∈ w.disk.queuedIds, id ∈ entries.map (·.matchId) ∨
      id ∈ w.disk.deadIds ∨ id ∈ w.confirmed) {id : ℕ} (hm : w.Held id) : w'.Held id := by
  have hrest : id ∈ w.disk.deadIds ∨ id ∈ w.confirmed → w'.Held id := by
    rintro (hd | hc)
    · exact .inr (.inl (by rwa [h.deadIds_eq (by decide)]))
    · exact .inr (.inr (h.confirmed id hc))
  rcases hm with hq | hm
  · rcases hentries id hq with hq | hm
    · exact .inl (by rwa [h.queuedIds])
    · exact hrest hm
  · exact hrest hm

/-- The dead-letter store is saved without matches that are not queued. -/
theorem Saved.held_dead {entries : List DeadLetterEntry} (h : Saved w .deadLetter entries w')
    (hentries : ∀ id ∈ w.disk.deadIds, id ∈ entries.map (·.entry.matchId) ∨
      id ∈ w.disk.queuedIds) {id : ℕ} (hm : w.Held id) : w'.Held id := by
  have hqueued : id ∈ w.disk.queuedIds → w'.Held id := fun hq =>
    .inl (by rwa [h.queuedIds_eq (by decide)])
  rcases hm with hq | hd | hc
  · exact hqueued hq
  · rcases hentries id hd with hd | hq
    · exact .inr (.inl (by rwa [h.deadIds]))
    · exact hqueued hq
  · exact .inr (.inr (h.confirmed id hc))

theorem Unchanged.trans {w1 : Custody} (h : Unchanged w w1) (h' : Unchanged w1 w') :
    Unchanged w w' where
  content s := (h'.content s).trans (h.content s)
  confirmed id hm := h'.confirmed id (h.confirmed id hm)

section Saving

variable {β : Type} {s : Store} {content : s.Content} {x : β}
  {Q : Except OracleServiceError β → Custody → Prop}

/-- The second command of a save. -/
theorem rename_meets (htmp : (w.disk s).tmp = some content)
    (hheld : ∀ w', Saved w s content w' → ∀ id, w.Held id → w'.Held id)
    (hok : ∀ w', Saved w s content w' → Q (.ok x) w')
    (herr : (s = .deadLetter → w.pushing = none) → ∀ e w', Unchanged w w' → Q (.error e) w') :
    (Prog.op (.rename s) fun
      | .error e => .pure (.error (.queueIo e))
      | .ok _ => .pure (.ok x) : Io (Except OracleServiceError β)).Meets (contract cfg) Q w := by
  refine meets_op fun o ho => ?_
  cases hf : o.fault with
  | some =>
    simp only [Custody.answer, Disk.answer, hf, Custody.note]
    have hunchanged : Unchanged w { w with accepted := w.accepted ++ w.disk.queuedIds } :=
      ⟨fun _ => rfl, fun _ hm => hm⟩
    exact ⟨fun _ hm => hunchanged.held hm,
      meets_pure (herr (pushing_eq_none ho hf rfl) _ _ hunchanged)⟩
  | none =>
    simp only [Custody.answer, Disk.answer, hf, htmp]
    have hsaved : Saved w s content { w.note (.rename s) (.ok ()) with
        disk := w.disk.renamed s content,
        accepted := w.accepted ++ (w.disk.renamed s content).queuedIds } :=
      ⟨by simp, fun s' hs' => by simp [hs'], note_confirmed _ _⟩
    exact ⟨hheld _ hsaved, meets_pure (hok _ hsaved)⟩

/-- A save may fail at both commands, unless it is part of a push. -/
theorem saving_meets (hheld : ∀ w', Saved w s content w' → ∀ id, w.Held id → w'.Held id)
    (hok : ∀ w', Saved w s content w' → Q (.ok x) w')
    (herr : (s = .deadLetter → w.pushing = none) → ∀ e w', Unchanged w w' → Q (.error e) w') :
    (saving s content x).Meets (contract cfg) Q w := by
  refine meets_quiet rfl fun o ho => ?_
  have hwrite : Unchanged w (w.answer (.write s content) o).2 := answer_unchanged rfl o
  cases hf : o.fault with
  | some =>
    simp only [Custody.answer, Disk.answer, hf] at hwrite ⊢
    exact meets_pure (herr (pushing_eq_none ho hf rfl) _ _ hwrite)
  | none =>
    simp only [Custody.answer, Disk.answer, hf] at hwrite ⊢
    have hback := Unchanged.mk (fun s' => (hwrite.content s').symm) fun _ hm => hm
    exact rename_meets (by simp)
      (fun w' hs id hm => hheld w' (hs.of_unchanged hwrite) id (hback.held hm))
      (fun w' hs => hok w' (hs.of_unchanged hwrite))
      fun hpushing e w' hu => herr hpushing e w' (hwrite.trans hu)

end Saving

/-! ## The operations of the stores -/

/-- A call on the queue takes no match from the dead-letter store, and a match it removes has to
be dead-lettered or confirmed before. -/
theorem call_meets {β : Type} (call : QueueCall) (kept saved : β)
    (hremove : ∀ id, call = .remove id → id ∈ w.disk.deadIds ∨ id ∈ w.confirmed) :
    (call.prog kept saved).Meets (contract cfg) (fun r w' =>
      ∀ b, r = .ok b → ∃ now, w'.disk.queued = QueueOp.apply ⟨call, now⟩ w.disk.queued) w := by
  refine meets_quiet rfl fun o _ => ?_
  have hloaded : Unchanged w (w.answer (.load .pending (some (.call call))) o).2 :=
    answer_unchanged rfl o
  cases hf : o.fault with
  | some =>
    simp only [Custody.answer, Disk.answer, hf]
    exact meets_pure fun b hb => absurd hb (by simp)
  | none =>
    simp only [Custody.answer, Disk.answer, hf, Custody.note] at hloaded ⊢
    change (if QueueOp.saves ⟨call, o.now⟩ w.disk.queued then _ else _ : Io _).Meets _ _ _
    split
    · refine saving_meets (fun w' hs id => hs.held_pending fun m hm => ?_)
        (fun w' hs b _ => ⟨o.now, ?_⟩) fun _ e w' _ b hb => absurd hb (by simp)
      · rcases QueueOp.mem_apply ⟨call, o.now⟩ hm with hm | hcall
        · exact .inl hm
        · exact .inr (hremove m hcall)
      · rw [Disk.queued, hs.saved]
        rfl
    · next hsaves =>
      refine meets_pure fun b _ => ⟨o.now, ?_⟩
      rw [QueueOp.apply_of_not_saves (by simpa using hsaves), hloaded.queued]

/-- A push that does not fail leaves the match in the dead-letter store. -/
theorem push_meets (entry : PendingEntry) : (DeadLetterStore.push entry).run.Meets (contract cfg)
      (fun _ w' => entry.matchId ∈ w'.disk.deadIds) w := by
  rw [push_eq]
  refine meets_quiet rfl fun o1 _ => meets_quiet rfl fun o ho => ?_
  generalize (w.answer (.ask .clock) o1).2 = w1 at ho ⊢
  have hf : o.fault = none := ho rfl
  simp only [Custody.answer, Disk.answer, hf, Custody.note]
  change (if w1.disk.deadLettered.any _ then _ else _ : Io _).Meets _ _ _
  split
  · next hany => exact meets_pure (by simpa [Disk.deadIds] using hany)
  · refine saving_meets (fun w' hs id => hs.held_dead fun m hm => ?_)
      (fun w' hs => ?_) fun hpushing => absurd (hpushing rfl) (by simp)
    · exact .inl ((List.map_append ..).symm ▸ List.mem_append_left _ hm)
    · rw [hs.deadIds]
      simp

/-- A match that is removed from the dead-letter store has to be queued before. -/
theorem removeDead_meets (hqueued : id ∈ w.disk.queuedIds) :
    (DeadLetterStore.remove id).run.Meets (contract cfg) (fun _ _ => True) w := by
  rw [removeDead_eq]
  refine meets_quiet rfl fun o _ => ?_
  cases hf : o.fault with
  | some =>
    simp only [Custody.answer, Disk.answer, hf]
    exact meets_pure trivial
  | none =>
    simp only [Custody.answer, Disk.answer, hf, Custody.note]
    refine saving_meets (fun w' hs m => hs.held_dead fun m hm => ?_)
      (fun _ _ => trivial) fun _ _ _ _ => trivial
    by_cases hne : m = id
    · exact .inr (hne ▸ hqueued)
    · obtain ⟨dl, hdl, rfl⟩ := List.mem_map.mp hm
      exact .inl (List.mem_map.mpr ⟨dl, List.mem_filter.mpr ⟨hdl, by simpa using hne⟩, rfl⟩)

/-! ## The tasks -/

open Contract

/-- The program keeps to the outline from every world on. -/
abbrev Retains (cfg : Config) {α : Type} (p : Io α) : Prop :=
  (contract cfg).Keeps (fun _ => True) p

theorem retains_stable : (contract cfg).Stable fun _ => True :=
  fun _ _ _ _ _ => trivial

theorem retains_quiet (hc : c.replaces = none) : Retains cfg (command c) :=
  fun _ _ => meets_quiet hc fun _ _ => meets_pure trivial

theorem retains_saveCursor (offset : ℕ) : Retains cfg (ReconciliationCursor.save offset).run := by
  intro w _
  rw [ReconciliationCursor.save, saveFile_eq]
  exact saving_meets (fun w' hs id hm => hm.of_content (hs.others _ (by decide))
    (hs.others _ (by decide)) hs.confirmed) (fun _ _ => trivial) fun _ _ _ _ => trivial

theorem retains_clearCursor : Retains cfg (command (.removeFile .cursor)) := by
  have hcontent := fun o w s hs => @Disk.answer_content (.removeFile .cursor) s hs o w
  exact fun w _ => meets_op fun o _ => ⟨fun id hm =>
    hm.of_content (hcontent o w.disk _ (by decide)) (hcontent o w.disk _ (by decide))
      (note_confirmed _ _), meets_pure trivial⟩

theorem remove_meets (h : id ∈ w.disk.deadIds ∨ id ∈ w.confirmed) :
    (PendingQueue.remove id).run.Meets (contract cfg) (fun _ _ => True) w := by
  rw [remove_eq]
  exact (call_meets (.remove id) () () fun m hm => by cases hm; exact h).mono fun _ _ _ => trivial

theorem retains_exhaustEntry (entry : PendingEntry) : Retains cfg (Poller.exhaustEntry entry) := by
  intro w _
  refine Prog.Meets.bind (Prog.Meets.bind ((push_meets entry).mono fun _ w' hdead => ?_))
  exact meets_pure (Prog.Meets.bind ((remove_meets (.inl hdead)).mono fun _ _ _ =>
    meets_pure trivial))

/-- A submission that ends without an error is confirmed. -/
theorem submit_meets (id : ℕ) : Poller.SubmitMeets (contract cfg) id (fun _ => True)
      (fun _ _ => True) (fun w => id ∈ w.confirmed) where
  stable := retains_stable
  stable_waiting _ := retains_stable
  stable_confirmed _ _ hrely _ hw := hrely ▸ hw
  sequence := retains_quiet rfl
  simulate _ := retains_quiet rfl
  send _ _ _ := meets_quiet rfl fun _ _ => meets_pure (by unfold Poller.Ends; split <;> trivial)
  sleep _ := retains_quiet rfl
  poll txHash _ _ _ := by
    refine meets_quiet rfl fun o _ => meets_pure ?_
    simp only [Custody.answer, Disk.answer]
    cases o.ask (.getTransaction id txHash) with
    | error => trivial
    | ok status =>
      cases status with
      | success => exact List.mem_cons_self
      | failed => trivial
      | unsettled => trivial
  last _ _ := trivial

theorem retains_loadQueue : Retains cfg (PendingQueue.load none).run :=
  keeps_loadQueue retains_stable (retains_quiet rfl)

theorem retains_updateEntry (entry : PendingEntry) :
    Retains cfg (PendingQueue.updateEntry entry).run := by
  intro w _
  rw [updateEntry_eq]
  exact (call_meets (.updateEntry entry) () () fun _ h => nomatch h).mono fun _ _ _ => trivial

theorem retains_submitAndComplete (entry : PendingEntry) (winner : Winner) :
    Retains cfg (Poller.submitAndComplete cfg entry winner) := fun _ _ =>
  (submit_meets entry.matchId).complete rfl retains_stable (fun _ hw => remove_meets (.inr hw))
    retains_loadQueue (fun _ _ => retains_quiet rfl)
    (Poller.handleTransient_keeps retains_stable (retains_quiet rfl) retains_updateEntry
      retains_exhaustEntry entry) winner trivial

theorem retains_tick : Poller.TickKeeps cfg (contract cfg) fun _ => True where
  stable := retains_stable
  ask _ _ := retains_quiet rfl
  load := retains_loadQueue
  update := retains_updateEntry
  exhaust := retains_exhaustEntry
  submit := retains_submitAndComplete

theorem enqueue_meets (id : ℕ) (gameId : String) (platform : Platform) (w : Custody) :
    (PendingQueue.enqueue id gameId platform).run.Meets (contract cfg)
      (fun r w' => ∀ b, r = .ok b → id ∈ w'.disk.queuedIds) w := by
  rw [enqueue_eq]
  have hcall := @call_meets cfg w _ (.enqueue id gameId platform) false true fun _ h => nomatch h
  refine hcall.mono fun r w' hr b hb => ?_
  obtain ⟨now, hqueued⟩ := hr b hb
  rw [Disk.queuedIds, hqueued]
  exact QueueOp.mem_apply_enqueue ..

/-- A replayed match is in the queue before it leaves the dead-letter store. -/
theorem retains_replayEntry (maxRetries : Option ℕ) (dryRun : Bool) (dl : DeadLetterEntry) :
    Retains cfg (Poller.replayEntry maxRetries dryRun dl) := by
  intro w _
  rw [Poller.replayEntry]
  split
  · exact meets_pure trivial
  · split
    · exact meets_pure trivial
    · refine Prog.Meets.bind ((enqueue_meets _ _ _ w).mono fun r w' hr => ?_)
      cases r with
      | error => exact meets_pure trivial
      | ok added =>
        cases added with
        | false => exact meets_pure trivial
        | true =>
          exact Prog.Meets.bind ((removeDead_meets (hr true rfl)).mono fun _ _ _ =>
            meets_pure trivial)

theorem retains_tasks : Poller.TasksKeep cfg (contract cfg) fun _ => True where
  stable := retains_stable
  ask _ := retains_quiet rfl
  load _ := retains_quiet rfl
  enqueue id gameId platform w _ :=
    (enqueue_meets id gameId platform w).mono fun _ _ _ => trivial
  saveCursor := retains_saveCursor
  clear := retains_clearCursor
  tick := retains_tick.tick
  replay := retains_replayEntry

theorem custodyOutline_valid : (custodyOutline cfg).Valid where
  task _ task w _ _ := (retains_tasks.prog task w trivial).mono fun _ _ _ _ _ => trivial
  boot _ _ _ _ _ _ := trivial
  outside e := e.elim

/-- The files at the beginning, with every match in them. -/
def begin (disk : Disk) : Custody where
  disk := disk
  accepted := disk.queuedIds ++ disk.deadIds

end Custody

/-- As long as no push to the dead-letter store fails : every match that was ever in the queue
is at every moment in the queue or in the dead-letter store, unless its submission is
confirmed. -/
theorem queued_match_kept (cfg : Config) (disk : Disk) (ms : List TaskMove)
    (hms : Along (oneAtATime cfg).step PushesSucceed ((oneAtATime cfg).start (.begin disk)) ms) :
    let w := (run (oneAtATime cfg).step ((oneAtATime cfg).start (.begin disk)) ms).world
    ∀ id ∈ w.accepted, id ∈ w.disk.queuedIds ∨ id ∈ w.disk.deadIds ∨
      id ∈ w.confirmed := by
  have hbegin : AllHeld (.begin disk) := by
    intro id hm
    rcases List.mem_append.mp hm with hm | hm
    · exact .inl hm
    · exact .inr (.inl hm)
  have hallows : Along (oneAtATime cfg).step (custodyOutline cfg).Allows
      ((oneAtATime cfg).start (.begin disk)) ms := by
    refine hms.mono fun s m hm => ?_
    cases m with
    | act => exact hm
    | start => trivial
    | outside e => exact e.elim
    | restart => trivial
  exact (Discipline.run_holds Custody.custodyOutline_valid
    (Discipline.start_holds Custody.custodyOutline_valid hbegin trivial) hallows).1

/-! ## A dropped match -/

instance PushesSucceed.decidable (s : TaskState) : (m : TaskMove) → Decidable (PushesSucceed s m)
  | .act t o => inferInstanceAs (Decidable ((s.prog t).First fun c =>
      s.world.inPush c = true → o.fault = none))
  | .start .. | .outside _ | .restart => .isTrue trivial

/-- A platform does not know any game. -/
def gameUnknown : Outside where
  torn _ := none
  now := 0
  ask
    | .fetchResultsBatch gameIds =>
      .results (gameIds.map fun gameId => (gameId, .error (.permanent "game not found")))
    | q => q.plain

/-- Match 1 waits in the queue. -/
def match1Waiting : Custody := .begin (.ofQueue [.new 0 1 "game0001" .lichess])

/-- A tick that gives up on match 1, up to the push. -/
def givesUp : List TaskMove :=
  .start () (.tick false) :: List.replicate 6 (.act () gameUnknown)

/-- A command on a file fails. -/
def ioError : Outside := { gameUnknown with fault := some "Input/output error" }

/-- The push succeeds, the removal from the queue fails, and the process is stopped. -/
def pushedThenStopped : List TaskMove :=
  givesUp ++ List.replicate 3 (.act () gameUnknown) ++ [.act () ioError, .restart]

theorem queued_match_kept_pushedThenStopped :
    let w := (run (oneAtATime .plain).step ((oneAtATime .plain).start match1Waiting)
      pushedThenStopped).world
    1 ∈ w.accepted ∧ 1 ∈ w.disk.deadIds ∧ (1 ∈ w.disk.queuedIds ∨ 1 ∈ w.disk.deadIds ∨
      1 ∈ w.confirmed) :=
  ⟨by decide +kernel, by decide +kernel,
    queued_match_kept .plain (.ofQueue [.new 0 1 "game0001" .lichess]) pushedThenStopped
      (by decide +kernel) 1 (by decide +kernel)⟩

/-- The dead-letter store cannot be read, and then the match is removed from the queue. -/
def pushFails : List TaskMove :=
  givesUp ++ [.act () ioError] ++ List.replicate 3 (.act () gameUnknown)

theorem failed_push_drops_match :
    let w := (run (oneAtATime .plain).step ((oneAtATime .plain).start match1Waiting)
      pushFails).world
    1 ∈ w.accepted ∧ w.disk.queuedIds = [] ∧ w.disk.deadIds = [] ∧ w.confirmed = [] := by
  decide +kernel

end Checkmate.Service
