import Mathlib.Data.Nat.Basic
import Checkmate.Host.Pages
import Checkmate.Host.Threads
import Checkmate.Service.Poller

/-!
# Reconciliation misses no match

The reconciliation loop alone. Between any two commands matches may become active, leave or get a
result, and the process may stop and start over with the cursor it saved.

A cycle begins with the request of the page at offset 0 and ends when the cursor is cleared. A
match that is active, without a result and not dead-lettered all the time is in the queue in the
end, as long as no match leaves the part of the active matches that the cycle has requested
(`reconciliation_complete`). If one does, the matches behind it move to offsets that were already
read, and the next page skips one (`shifted_match_missed`).
-/

namespace Checkmate.Service

open List Disk

/-- The contracts as reconciliation sees them : the active matches, and those with a result. -/
structure Chain where
  active : List ActiveMatchSummary
  resolved : List ℕ

namespace Chain

def activeIds (c : Chain) : List ℕ := c.active.map (·.matchId)

def page (c : Chain) (offset limit : ℕ) : List ActiveMatchSummary :=
  (c.active.drop offset).take limit

/-- Every question is answered. -/
def reply (c : Chain) : (q : Query) → q.Answer
  | .activeMatchesPaginated offset limit => .ok (c.page offset limit)
  | .hasResult matchId => .ok (decide (matchId ∈ c.resolved))
  | q => q.plain

end Chain

/-- The offset that reconciliation goes on from. -/
def Disk.cursor (d : Disk) : ℕ := (d .cursor).content.getD 0

/-- The files and the contracts, the matches that reconciliation has to find since the cycle
began, how many of the active matches the cycle has requested, and the matches that were not in
the queue when their cycle ended. -/
structure CycleRecord where
  disk : Disk
  chain : Chain
  steady : List ℕ := []
  scanned : ℕ
  missed : List ℕ := []

namespace CycleRecord

/-- A cycle may have been on before. -/
def begin (disk : Disk) (chain : Chain) : CycleRecord where
  disk := disk
  chain := chain
  scanned := disk.cursor

/-- The matches to find in a cycle that begins now. -/
def wanted (w : CycleRecord) : List ℕ :=
  w.chain.activeIds.filter fun m => m ∉ w.chain.resolved && m ∉ w.disk.deadIds

def note (w : CycleRecord) : Cmd → CycleRecord
  | .load .cursor _ => { w with scanned := w.disk.cursor }
  | .ask (.activeMatchesPaginated offset limit) =>
    { w with
      scanned := offset + (w.chain.page offset limit).length
      steady := if offset = 0 then w.wanted else w.steady }
  | .removeFile .cursor =>
    { w with
      scanned := 0
      steady := []
      missed := w.missed ++ w.steady.filter (· ∉ w.disk.queuedIds) }
  | _ => w

def answer (c : Cmd) (o : Outside) (w : CycleRecord) : c.Answer × CycleRecord :=
  let (r, d) := w.disk.answer c { o with ask := w.chain.reply }
  (r, { w.note c with disk := d })

/-- The contracts change. A match that leaves or gets a result need not be found. -/
def change (c : Chain) (w : CycleRecord) : CycleRecord :=
  { w with
    chain := c
    steady := w.steady.filter fun m => m ∈ c.activeIds && m ∉ c.resolved }

end CycleRecord

/-- The reconciliation loop. -/
def reconciliation (cfg : Config) :
    System Unit Cmd.Answer CycleRecord Outside Poller.Task Chain where
  answer _ := CycleRecord.answer
  task := Poller.prog cfg
  boot _ := some (.reconcile true)
  outside := CycleRecord.change

abbrev CycleMove := Move Unit Outside Poller.Task Chain

abbrev CycleState := Threads Unit Cmd.Answer CycleRecord Poller.Task

/-- No file operation fails, and active matches are listed with their ids increasing. -/
def RunsWell (s : CycleState) : CycleMove → Prop
  | .act t o => (s.prog t).First (·.Succeeds o s.world.disk)
  | .outside c => c.activeIds.Pairwise (· < ·)
  | .start .. => False
  | .restart => True

/-- The active matches that the cycle has requested stay active. -/
def ScannedStay (s : CycleState) : CycleMove → Prop
  | .outside c => ∀ m ∈ s.world.chain.activeIds.take s.world.scanned, m ∈ c.activeIds
  | .act .. | .start .. | .restart => True

/-! ## The outline of the proof -/

/-- A match to find is in the queue, or not before the cursor. -/
structure NoneMissed (w : CycleRecord) : Prop where
  sorted : w.chain.activeIds.Pairwise (· < ·)
  steady : ∀ m ∈ w.steady,
    m ∈ w.chain.activeIds ∧ m ∉ w.chain.resolved ∧ m ∉ w.disk.deadIds
  cursor_le : w.disk.cursor ≤ w.scanned
  behind : ∀ m ∈ w.steady,
    m ∈ w.disk.queuedIds ∨ m ∉ w.chain.activeIds.take w.disk.cursor
  missed : w.missed = []

/-- What the contracts may do. Matches that were not requested yet are still ahead. -/
structure Changes (w w' : CycleRecord) : Prop where
  disk : w'.disk = w.disk
  scanned : w'.scanned = w.scanned
  steady : ∀ m ∈ w'.steady, m ∈ w.steady
  ahead : ∀ m ∈ w'.steady, m ∉ w.chain.activeIds.take w.scanned →
    m ∉ w'.chain.activeIds.take w.scanned

theorem Changes.refl (w : CycleRecord) : Changes w w :=
  ⟨rfl, rfl, fun _ hm => hm, fun _ _ h => h⟩

theorem Changes.trans {u v w : CycleRecord} (h : Changes u v) (h' : Changes v w) : Changes u w where
  disk := h'.disk.trans h.disk
  scanned := h'.scanned.trans h.scanned
  steady m hm := h.steady m (h'.steady m hm)
  ahead m hm hu := h.scanned ▸ h'.ahead m hm (h.scanned.symm ▸ h.ahead m (h'.steady m hm) hu)

/-- A page goes on where the cursor is, with the dead-lettered matches. -/
def PageBegins : Poller.Task → CycleRecord → Prop
  | .reconcile again, _ => again = true
  | .page again ids offset, w =>
    again = true ∧ ids = w.disk.deadIds ∧ w.disk.cursor = offset ∧ w.scanned = offset
  | _, _ => False

def cycleOutline (cfg : Config) : Discipline (reconciliation cfg) where
  inv := NoneMissed
  rely _ := Changes
  rely_refl _ := Changes.refl
  rely_trans _ := Changes.trans
  allow _ c o w := c.Succeeds o w.disk
  pre _ := PageBegins
  fresh _ := True
  calm c w := c.activeIds.Pairwise (· < ·) ∧
    ∀ m ∈ w.chain.activeIds.take w.scanned, m ∈ c.activeIds

namespace CycleRecord

variable {cfg : Config} {w : CycleRecord}

/-- The contracts change, and the matches that were requested stay. -/
theorem change_ahead (h : NoneMissed w) {c : Chain} (hc : c.activeIds.Pairwise (· < ·))
    (hkept : ∀ m ∈ w.chain.activeIds.take w.scanned, m ∈ c.activeIds) {n : ℕ}
    (hn : n ≤ w.scanned) {m : ℕ} (hm : m ∈ w.steady) (htake : m ∉ w.chain.activeIds.take n) :
    m ∉ c.activeIds.take n := by
  refine not_mem_take_of_kept (fun _ _ => Nat.lt_asymm) h.sorted hc (fun b hb => hkept b ?_)
    (h.steady m hm).1 htake
  exact (take_subset_take_left _ hn) hb

theorem change_keeps (h : NoneMissed w) {c : Chain} (hc : c.activeIds.Pairwise (· < ·))
    (hkept : ∀ m ∈ w.chain.activeIds.take w.scanned, m ∈ c.activeIds) :
    NoneMissed (w.change c) ∧ Changes w (w.change c) := by
  have hsteady : ∀ m ∈ (w.change c).steady, m ∈ w.steady ∧ m ∈ c.activeIds ∧ m ∉ c.resolved := by
    intro m hm
    simpa [change] using hm
  refine ⟨⟨hc, fun m hm => ?_, h.cursor_le, fun m hm => ?_, h.missed⟩,
    ⟨rfl, rfl, fun m hm => (hsteady m hm).1, fun m hm => ?_⟩⟩
  · obtain ⟨hm, hactive, hresolved⟩ := hsteady m hm
    exact ⟨hactive, hresolved, (h.steady m hm).2.2⟩
  · have hm := (hsteady m hm).1
    exact (h.behind m hm).imp_right (change_ahead h hc hkept h.cursor_le hm)
  · exact change_ahead h hc hkept le_rfl (hsteady m hm).1

/-! ## Commands -/

/-- No other thread relies on the loop, so a command only has to keep the invariant. -/
theorem meets_op {α : Type} {c : Cmd} {k : c.Answer → Io α} {Q : α → CycleRecord → Prop}
    (h : ∀ w1, Changes w w1 → NoneMissed w1 → ∀ o, c.Succeeds o w1.disk →
      NoneMissed (answer c o w1).2 ∧
        (k (answer c o w1).1).Meets ((cycleOutline cfg).contract ()) Q (answer c o w1).2) :
    (Prog.op c k).Meets ((cycleOutline cfg).contract ()) Q w := by
  intro w1 hrely hinv o ho
  obtain ⟨hinv', hk⟩ := h w1 hrely hinv o ho
  exact ⟨hinv', fun _ ht => absurd rfl ht, hk⟩

theorem answer_load (o : Outside) (ho : o.fault = none) (purpose : Option Purpose)
    (w : CycleRecord) :
    answer (.load .pending purpose) o w = (.ok ((w.disk .pending).content, o.now), w) := by
  simp only [answer, Disk.answer, ho, note]

theorem answer_write (o : Outside) (ho : o.fault = none) (s : Store) (content : s.Content)
    (w : CycleRecord) :
    answer (.write s content) o w = (.ok (), { w with disk := w.disk.wrote s content }) := by
  simp only [answer, Disk.answer, ho, note]

theorem answer_rename (o : Outside) (ho : o.fault = none) {s : Store} {content : s.Content}
    (htmp : (w.disk s).tmp = some content) :
    answer (.rename s) o w = (.ok (), { w with disk := w.disk.renamed s content }) := by
  simp only [answer, Disk.answer, ho, htmp, note]

/-- Files with at least the matches in the queue, and nothing else to tell. -/
structure Grows (d d' : Disk) : Prop where
  queued : ∀ m ∈ d.queuedIds, m ∈ d'.queuedIds
  dead : d'.deadIds = d.deadIds
  cursor : d'.cursor = d.cursor

theorem grows_wrote (d : Disk) (s : Store) (content : s.Content) : Grows d (d.wrote s content) := by
  have hcontent : ∀ s', (d.wrote s content s').content = (d s').content := by
    intro s'
    by_cases hs : s' = s
    · subst hs
      simp
    · simp [hs]
  refine ⟨fun m hm => ?_, deadIds_congr (hcontent _), ?_⟩
  · rwa [queuedIds_congr (hcontent _)]
  · rw [Disk.cursor, Disk.cursor, hcontent]

theorem grows_renamed {d : Disk} {entries : List PendingEntry}
    (h : ∀ m ∈ d.queuedIds, m ∈ entries.map (·.matchId)) :
    Grows d (d.renamed .pending entries) := by
  refine ⟨fun m hm => ?_, deadIds_congr (by simp), ?_⟩
  · simpa [Disk.queuedIds, Disk.queued] using h m hm
  · simp [Disk.cursor]

theorem noneMissed_of_grows (h : NoneMissed w) {d : Disk} (hd : Grows w.disk d) :
    NoneMissed { w with disk := d } where
  sorted := h.sorted
  steady m hm := by
    rw [hd.dead]
    exact h.steady m hm
  cursor_le := hd.cursor ▸ h.cursor_le
  behind m hm := by
    rw [hd.cursor]
    exact (h.behind m hm).imp_left (hd.queued m)
  missed := h.missed

/-! ## A page -/

/-- The state of a page with `left` still to do : a match to find is in the queue, on the page,
or further on, if there are more pages. -/
structure Scanning (ids : List ℕ) (n : ℕ) (more : Bool) (left : List ℕ) (w : CycleRecord) :
    Prop where
  dead : w.disk.deadIds = ids
  scanned : w.scanned = n
  found : ∀ m ∈ w.steady, m ∈ w.disk.queuedIds ∨ m ∈ left ∨
    (more = true ∧ m ∉ w.chain.activeIds.take w.scanned)

variable {ids : List ℕ} {n : ℕ} {more : Bool} {left : List ℕ}

namespace Scanning

theorem changes {w' : CycleRecord} (h : Scanning ids n more left w) (hrely : Changes w w') :
    Scanning ids n more left w' := by
  refine ⟨hrely.disk ▸ h.dead, hrely.scanned.trans h.scanned, fun m hm => ?_⟩
  rw [hrely.disk, hrely.scanned]
  exact (h.found m (hrely.steady m hm)).imp_right (Or.imp_right (And.imp_right (hrely.ahead m hm)))

theorem grows (h : Scanning ids n more left w) {d : Disk} (hd : Grows w.disk d) :
    Scanning ids n more left { w with disk := d } :=
  ⟨hd.dead.trans h.dead, h.scanned, fun m hm => (h.found m hm).imp_left (hd.queued m)⟩

/-- One match is done : it need not be found, or is in the queue. -/
theorem done {id : ℕ} (h : Scanning ids n more (id :: left) w)
    (hm : id ∈ w.steady → id ∈ w.disk.queuedIds) : Scanning ids n more left w := by
  refine ⟨h.dead, h.scanned, fun m hsteady => ?_⟩
  rcases h.found m hsteady with hq | hl | hmore
  · exact .inl hq
  · rcases mem_cons.mp hl with rfl | hl
    · exact .inl (hm hsteady)
    · exact .inr (.inl hl)
  · exact .inr (.inr hmore)

theorem pure {α : Type} (a : α) (h : Scanning ids n more left w) :
    (Prog.pure a : Io α).Meets ((cycleOutline cfg).contract ())
      (fun _ => Scanning ids n more left) w :=
  fun _ hrely _ => h.changes hrely

end Scanning

/-- The queue is saved with at least the matches it had. -/
theorem savingQueue_meets {β : Type} (x : β) {entries : List PendingEntry}
    (hkept : ∀ m ∈ w.disk.queuedIds, m ∈ entries.map (·.matchId))
    (hw : Scanning ids n more left w) :
    (saving .pending entries x).Meets ((cycleOutline cfg).contract ())
      (fun _ w' => Scanning ids n more left w' ∧
        w'.disk.queuedIds = entries.map (·.matchId)) w := by
  refine meets_op fun w1 hrely1 hinv1 o1 ho1 => ?_
  have hgrows := grows_wrote w1.disk .pending entries
  rw [answer_write o1 ho1.fault]
  refine ⟨noneMissed_of_grows hinv1 hgrows, ?_⟩
  refine meets_op fun w2 hrely2 hinv2 o2 ho2 => ?_
  have hpending : w2.disk .pending = ⟨(w1.disk .pending).content, some entries⟩ := by
    rw [hrely2.disk]
    exact wrote_self ..
  have hqueued : w2.disk.queuedIds = w.disk.queuedIds := by
    rw [← hrely1.disk]
    exact queuedIds_congr (by rw [hpending])
  have hgrows2 : Grows w2.disk (w2.disk.renamed .pending entries) :=
    grows_renamed fun m hm => hkept m (hqueued ▸ hm)
  rw [answer_rename o2 ho2.fault (congrArg File.tmp hpending)]
  refine ⟨noneMissed_of_grows hinv2 hgrows2, fun w3 hrely3 _ => ⟨?_, ?_⟩⟩
  · exact ((((hw.changes hrely1).grows hgrows).changes hrely2).grows hgrows2).changes hrely3
  · rw [hrely3.disk]
    simp [Disk.queuedIds, Disk.queued]

theorem enqueue_meets {id : ℕ} (gameId : String) (platform : Platform)
    (hw : Scanning ids n more (id :: left) w) :
    (PendingQueue.enqueue id gameId platform).run.Meets ((cycleOutline cfg).contract ())
      (fun _ => Scanning ids n more left) w := by
  rw [enqueue_eq]
  refine meets_op fun w1 hrely1 hinv1 o1 ho1 => ?_
  have hw1 := hw.changes hrely1
  rw [answer_load o1 ho1.fault]
  refine ⟨hinv1, ?_⟩
  have hadded := QueueOp.mem_apply_enqueue id gameId platform o1.now w1.disk.queued
  change (if QueueOp.saves ⟨.enqueue id gameId platform, o1.now⟩ w1.disk.queued
    then _ else _ : Io _).Meets _ _ _
  split
  · refine (savingQueue_meets true (fun m hm => ?_) hw1).mono fun _ w2 hw2 => ?_
    · exact (QueueOp.mem_apply _ hm).resolve_right (by simp)
    · exact hw2.1.done fun _ => hw2.2 ▸ hadded
  · next hkept =>
    rw [QueueOp.apply_of_not_saves (by simpa using hkept)] at hadded
    exact (hw1.done fun _ => hadded).pure _

theorem reconcileMatch_meets (m : ActiveMatchSummary)
    (hw : Scanning ids n more (m.matchId :: left) w) :
    (Poller.reconcileMatch ids m).Meets ((cycleOutline cfg).contract ())
      (fun _ => Scanning ids n more left) w := by
  refine Prog.Meets.bind (meets_op fun w1 hrely1 hinv1 o1 _ => ⟨hinv1, ?_⟩)
  intro w2 hrely2 hinv2
  have hw1 := hw.changes hrely1
  change (if decide (m.matchId ∈ w1.chain.resolved) = true then _
    else if m.matchId ∈ ids then _ else _ : Io Unit).Meets _ _ _
  split
  · next hresolved =>
    -- a match with a result need not be found, nor later on
    have hdone : Scanning ids n more left w1 := hw1.done fun hm =>
      absurd (of_decide_eq_true hresolved) (hinv1.steady _ hm).2.1
    exact (hdone.changes hrely2).pure ()
  · have hw2 := hw1.changes hrely2
    split
    · next hdead =>
      have hdone : Scanning ids n more left w2 := hw2.done fun hm =>
        absurd (hw2.dead ▸ hdead) (hinv2.steady _ hm).2.2
      exact hdone.pure ()
    · exact Prog.Meets.bind ((enqueue_meets m.gameId m.platform hw2).mono fun _ w3 hw3 =>
        hw3.pure ())

theorem forEach_meets (page : List ActiveMatchSummary)
    (hw : Scanning ids n more (page.map (·.matchId)) w) :
    (Prog.forEach (Poller.reconcileMatch ids) page).Meets ((cycleOutline cfg).contract ())
      (fun _ => Scanning ids n more []) w := by
  induction page generalizing w with
  | nil => exact hw.pure ()
  | cons m page ih =>
    exact Prog.Meets.bind ((reconcileMatch_meets m hw).mono fun _ w1 hw1 => ih hw1)

/-- After a page the cursor may go on to where the page ends. -/
theorem saveCursor_meets (hw : Scanning ids n more [] w) :
    (logged (ReconciliationCursor.save n)).Meets ((cycleOutline cfg).contract ())
      (fun _ w' => Scanning ids n more [] w' ∧ w'.disk.cursor = n) w := by
  rw [logged, ReconciliationCursor.save, saveFile_eq]
  refine Prog.Meets.bind (meets_op fun w1 hrely1 hinv1 o1 ho1 => ?_)
  have hgrows := grows_wrote w1.disk .cursor n
  rw [answer_write o1 ho1.fault]
  refine ⟨noneMissed_of_grows hinv1 hgrows, meets_op fun w2 hrely2 hinv2 o2 ho2 => ?_⟩
  have hw2 := ((hw.changes hrely1).grows hgrows).changes hrely2
  have htmp : (w2.disk .cursor).tmp = some n := by
    rw [hrely2.disk]
    exact congrArg File.tmp (wrote_self ..)
  have hcursor : (w2.disk.renamed .cursor n).cursor = n := by simp [Disk.cursor]
  have hqueued : (w2.disk.renamed .cursor n).queuedIds = w2.disk.queuedIds :=
    queuedIds_congr (by simp)
  have hdead : (w2.disk.renamed .cursor n).deadIds = w2.disk.deadIds := deadIds_congr (by simp)
  rw [answer_rename o2 ho2.fault htmp]
  have hinv2' : NoneMissed { w2 with disk := w2.disk.renamed .cursor n } := by
    refine ⟨hinv2.sorted, fun m hm => ?_, ?_, fun m hm => ?_, hinv2.missed⟩
    · rw [hdead]
      exact hinv2.steady m hm
    · exact Nat.le_of_eq (hcursor.trans hw2.scanned.symm)
    · rw [hqueued, hcursor]
      rcases hw2.found m hm with hq | hl | hmore
      · exact .inl hq
      · nomatch hl
      · exact .inr (hw2.scanned ▸ hmore.2)
  have hw2' : Scanning ids n more [] { w2 with disk := w2.disk.renamed .cursor n } :=
    ⟨hdead.trans hw2.dead, hw2.scanned, fun m hm => by rw [hqueued]; exact hw2.found m hm⟩
  refine ⟨hinv2', fun w3 hrely3 _ w4 hrely4 _ => ?_⟩
  have hrely := hrely3.trans hrely4
  exact ⟨hw2'.changes hrely, by rw [hrely.disk]; exact hcursor⟩

/-- A cycle ends with every match to find in the queue. -/
theorem end_meets (hw : Scanning ids n false [] w) :
    (ReconciliationCursor.clear.bind fun _ => Poller.rest true (.reconcile true)).Meets
      ((cycleOutline cfg).contract ()) ((cycleOutline cfg).Goes ()) w := by
  refine meets_op fun w1 hrely1 hinv1 o1 ho1 => ?_
  have hw1 := hw.changes hrely1
  have hfound : w1.steady.filter (· ∉ w1.disk.queuedIds) = [] := by
    refine filter_eq_nil_iff.mpr fun m hm => ?_
    simpa using hw1.found m hm
  have hcursor : (answer (.removeFile .cursor) o1 w1).2.disk.cursor = 0 := by
    simp [answer, Disk.answer, ho1.fault, Disk.cursor]
  have hinv : NoneMissed (answer (.removeFile .cursor) o1 w1).2 := by
    refine ⟨hinv1.sorted, fun _ hm => absurd hm not_mem_nil, ?_,
      fun _ hm => absurd hm not_mem_nil, ?_⟩
    · exact Nat.le_of_eq hcursor
    · exact append_eq_nil_iff.mpr ⟨hinv1.missed, hfound⟩
  refine ⟨hinv, meets_op fun w2 _ hinv2 o2 _ => ⟨hinv2, ?_⟩⟩
  rintro w3 - - _ ⟨⟩
  rfl

/-- The request of a page. At offset 0 a cycle begins. -/
theorem request_scans {offset : ℕ} (hinv : NoneMissed w) (hcursor : w.disk.cursor = offset)
    (o : Outside) :
    let page := w.chain.page offset Poller.pageSize
    let w' := (answer (.ask (.activeMatchesPaginated offset Poller.pageSize)) o w).2
    NoneMissed w' ∧ Scanning w.disk.deadIds (offset + page.length)
      (decide (Poller.pageSize ≤ page.length)) (page.map (·.matchId)) w' := by
  intro page w'
  have hsteady : ∀ m ∈ w'.steady, (m ∈ w.chain.activeIds ∧ m ∉ w.chain.resolved ∧
      m ∉ w.disk.deadIds) ∧
      (m ∈ w.disk.queuedIds ∨ m ∉ w.chain.activeIds.take offset) := by
    intro m hm
    change m ∈ (if offset = 0 then w.wanted else w.steady) at hm
    split at hm
    · next h0 =>
      subst h0
      exact ⟨by simpa [wanted] using hm, .inr (by simp)⟩
    · exact ⟨hinv.steady m hm, hcursor ▸ hinv.behind m hm⟩
  refine ⟨⟨hinv.sorted, fun m hm => (hsteady m hm).1, ?_, fun m hm => ?_, hinv.missed⟩,
    rfl, rfl, fun m hm => ?_⟩
  · exact Nat.le_trans (Nat.le_of_eq hcursor) (Nat.le_add_right _ _)
  · exact hcursor.symm ▸ (hsteady m hm).2
  · obtain ⟨⟨hactive, -⟩, hbehind⟩ := hsteady m hm
    refine hbehind.imp_right fun htake => ?_
    have hpage : ((w.chain.activeIds.drop offset).take Poller.pageSize) = page.map (·.matchId) := by
      simp [page, Chain.page, Chain.activeIds, map_take, map_drop]
    rcases mem_page hactive offset Poller.pageSize with h | h | ⟨hfull, h⟩
    · exact absurd h htake
    · exact .inl (hpage ▸ h)
    · have hlength : page.length = Poller.pageSize := by
        rw [← hfull, hpage, length_map]
      have hscanned : w'.scanned = offset + Poller.pageSize := congrArg (offset + ·) hlength
      rw [hscanned]
      exact .inr ⟨by simp [hlength], h⟩

theorem page_meets {offset : ℕ} (hids : ids = w.disk.deadIds) (hcursor : w.disk.cursor = offset) :
    (Poller.reconcilePage true ids offset).Meets ((cycleOutline cfg).contract ())
      ((cycleOutline cfg).Goes ()) w := by
  refine Prog.Meets.bind (meets_op fun w1 hrely1 hinv1 o1 _ => ?_)
  obtain ⟨hinv, hw⟩ := request_scans hinv1 (hrely1.disk.symm ▸ hcursor) o1
  refine ⟨hinv, fun w2 hrely2 hinv2 => ?_⟩
  have hw2 := hw.changes hrely2
  rw [hrely1.disk, ← hids] at hw2
  have hanswer : (answer (.ask (.activeMatchesPaginated offset Poller.pageSize)) o1 w1).1 =
      .ok (w1.chain.page offset Poller.pageSize) := rfl
  rw [hanswer]
  generalize w1.chain.page offset Poller.pageSize = page at hw2
  cases page with
  | nil => exact end_meets hw2
  | cons m page =>
    refine Prog.Meets.bind ((forEach_meets (m :: page) hw2).mono fun _ w3 hw3 => ?_)
    refine Prog.Meets.bind ((saveCursor_meets hw3).mono fun _ w4 hw4 => ?_)
    split
    · next hlast =>
      have hmore : decide (Poller.pageSize ≤ (m :: page).length) = false := by
        simpa using hlast
      exact end_meets (hmore ▸ hw4.1)
    · rintro w5 hrely5 - _ ⟨⟩
      have hw5 := hw4.1.changes hrely5
      exact ⟨rfl, hw5.dead.symm, hrely5.disk.symm ▸ hw4.2, hw5.scanned⟩

theorem reconcile_meets :
    (Poller.reconcile true).Meets ((cycleOutline cfg).contract ()) ((cycleOutline cfg).Goes ())
      w := by
  rw [Poller.reconcile_eq]
  refine meets_op fun w1 hrely1 hinv1 o1 ho1 => ?_
  have hanswer1 : answer (.load .deadLetter none) o1 w1 =
      (.ok ((w1.disk .deadLetter).content, o1.now), w1) := by
    simp only [answer, Disk.answer, ho1.fault, note]
  rw [hanswer1]
  refine ⟨hinv1, meets_op fun w2 hrely2 hinv2 o2 ho2 => ?_⟩
  have hanswer2 : answer (.load .cursor none) o2 w2 =
      (.ok ((w2.disk .cursor).content, o2.now), { w2 with scanned := w2.disk.cursor }) := by
    simp only [answer, Disk.answer, ho2.fault, note]
  rw [hanswer2]
  refine ⟨⟨hinv2.sorted, hinv2.steady, le_refl _, hinv2.behind, hinv2.missed⟩, ?_⟩
  rintro w3 hrely3 - _ ⟨⟩
  refine ⟨rfl, ?_, ?_, hrely3.scanned⟩
  · rw [hrely3.disk, hrely2.disk]
    rfl
  · rw [hrely3.disk]
    rfl

theorem cycleOutline_valid : (cycleOutline cfg).Valid where
  task _ j w _ hpre := by
    cases j with
    | reconcile again =>
      obtain rfl : again = true := hpre
      exact reconcile_meets
    | page =>
      obtain ⟨rfl, hids, hcursor, -⟩ := hpre
      exact page_meets hids hcursor
    | tick | replayAll | replayMatch => exact hpre.elim
  boot _ w _ _ := by
    rintro _ ⟨⟩
    rfl
  outside c w hinv hc := by
    obtain ⟨hinv', hchanges⟩ := change_keeps hinv hc.1 hc.2
    exact ⟨hinv', fun _ => hchanges⟩

end CycleRecord

/-- As long as the active matches that a cycle has requested stay active : a match that is
active, without a result and not dead-lettered during a whole cycle is in the queue when the cycle
ends, whatever else happens to the contracts and however often the process starts over. -/
theorem reconciliation_complete (cfg : Config) (disk : Disk) (chain : Chain)
    (hchain : chain.activeIds.Pairwise (· < ·)) (ms : List CycleMove)
    (hms : Along (reconciliation cfg).step (fun s m => RunsWell s m ∧ ScannedStay s m)
      ((reconciliation cfg).start (.begin disk chain)) ms) :
    (run (reconciliation cfg).step ((reconciliation cfg).start (.begin disk chain))
      ms).world.missed = [] := by
  have hbegin : NoneMissed (.begin disk chain) :=
    ⟨hchain, (fun _ hm => nomatch hm), le_refl _, (fun _ hm => nomatch hm), rfl⟩
  have hallows : Along (reconciliation cfg).step (cycleOutline cfg).Allows
      ((reconciliation cfg).start (.begin disk chain)) ms := by
    refine hms.mono fun s m hm => ?_
    cases m with
    | act => exact hm.1
    | start => exact hm.1.elim
    | outside => exact ⟨hm.1, hm.2⟩
    | restart => trivial
  exact (Discipline.run_holds CycleRecord.cycleOutline_valid
    (Discipline.start_holds CycleRecord.cycleOutline_valid hbegin trivial) hallows).1.missed

/-! ## A missed match -/

instance RunsWell.decidable (s : CycleState) : DecidablePred (RunsWell s) := fun m => by
  cases m <;> unfold RunsWell <;> infer_instance

instance ScannedStay.decidable (s : CycleState) : DecidablePred (ScannedStay s) := fun m => by
  cases m <;> unfold ScannedStay <;> infer_instance

/-- No file operation fails. -/
def filesWork : Outside where
  torn _ := none
  now := 0
  ask := Query.plain

/-- Commands of the loop, one after the other. -/
def scans (n : ℕ) : List CycleMove := List.replicate n (.act () filesWork)

/-- These matches are active, and those in `resolved` have a result. -/
def activeMatches (matchIds resolved : List ℕ) : Chain where
  active := matchIds.map fun matchId => ⟨matchId, "game0001", .lichess⟩
  resolved := resolved

/-- No file exists. -/
def noFiles : Disk
  | .pending => {}
  | .deadLetter => {}
  | .cursor => {}

/-- During the cycle match 1 becomes active, before the only page is done the process starts
over, and then match 7 leaves. -/
def scannedTwice : List CycleMove :=
  scans 5 ++ [.outside (activeMatches [1, 3, 7] []), .restart] ++ scans 2 ++
    [.outside (activeMatches [1, 3] [])] ++ scans 12

theorem reconciliation_complete_scannedTwice :
    let w := (run (reconciliation .plain).step ((reconciliation .plain).start
      (.begin noFiles (activeMatches [3, 7] []))) scannedTwice).world
    w.missed = [] ∧ w.steady = [] ∧ w.disk.queuedIds = [1, 3] :=
  ⟨reconciliation_complete .plain noFiles (activeMatches [3, 7] []) (by decide) scannedTwice
    (by decide +kernel), by decide +kernel, by decide +kernel⟩

/-- Matches 0 to 50 are active, and those on the first page have a result. When the first page is
done match 0 leaves : the second page begins behind match 50. -/
def leavesBetweenPages : List CycleMove :=
  scans 55 ++ [.outside (activeMatches ((List.range 51).tail) (List.range 50))] ++ scans 2

theorem shifted_match_missed :
    let s := (reconciliation .plain).start
      (.begin noFiles (activeMatches (List.range 51) (List.range 50)))
    let w := (run (reconciliation .plain).step s leavesBetweenPages).world
    Along (reconciliation .plain).step RunsWell s leavesBetweenPages ∧
    w.missed = [50] ∧ w.disk.queuedIds = [] := by
  decide +kernel

end Checkmate.Service
