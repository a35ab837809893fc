import Checkmate.Host.Ring
import Checkmate.Escrow.Writes
import Checkmate.Escrow.Runs

/-!
# Balance history

A player's escrow counter is recorded in a ring of snapshots, which keeps the latest
`maxPlayerSnapshots`. `History` ties the ring to the whole history of the player. Two loops
search the ring backwards, that of `getBalanceAtTimestamp` and that of `voteOnDispute`. Both
answer with the last entry of the history at or before a ledger, as long as the ring keeps it
(`balanceKept`).
-/

namespace Checkmate.Escrow

open Function Option List

variable {env : Env} {w w' : World} {player : Address} {sn sn' : Snapshots} {t : ℕ} {b : ℤ}
  {hist : List PlayerBalanceSnapshot}

/-- What has been recorded for a player, oldest first. -/
inductive History (player : Address) : Snapshots → List PlayerBalanceSnapshot → Prop
  | start {sn : Snapshots} (hcount : sn.playerSnapshotCount player = 0) : History player sn []
  | record {sn : Snapshots} {hist : List PlayerBalanceSnapshot} (h : History player sn hist)
      (env : Env) (balance : ℤ) :
      History player (sn.recordPlayer env player balance)
        (hist ++ [⟨player, sn.playerSnapshotCount player, env.sequence, balance⟩])
  | other {sn sn' : Snapshots} {hist : List PlayerBalanceSnapshot} (h : History player sn hist)
      (hcount : sn'.playerSnapshotCount player = sn.playerSnapshotCount player)
      (hring : ∀ slot, sn'.playerSnapshot (player, slot) = sn.playerSnapshot (player, slot)) :
      History player sn' hist

/-- The last snapshot at or before a ledger, with its place in the history. -/
def LastAt (hist : List PlayerBalanceSnapshot) (t i : ℕ) (snap : PlayerBalanceSnapshot) : Prop :=
  hist[i]? = some snap ∧ snap.ledger ≤ t ∧
    ∀ j later, i < j → hist[j]? = some later → t < later.ledger

/-! ## The contract records such histories -/

theorem History.record_other {other : Address} (h : History player sn hist)
    (hne : other ≠ player) (env : Env) (balance : ℤ) :
    History player (sn.recordPlayer env other balance) hist := by
  refine h.other (update_of_ne hne.symm _ _) fun slot => update_of_ne ?_ _ _
  simp [hne.symm]

theorem History.record_match (h : History player sn hist) (env : Env) (m : Match)
    (reason : SnapshotReason) (balance : ℤ) :
    History player (sn.record env m reason balance) hist := by
  refine h.other ?_ fun slot => ?_
  · simp only [Snapshots.record, Snapshots.cacheTokenSymbol]
    split <;> rfl
  · simp only [Snapshots.record, Snapshots.cacheTokenSymbol]
    split <;> rfl

/-- There is a history of the player. -/
def World.HasHistory (w : World) (player : Address) : Prop :=
  ∃ hist, History player w.snapshots hist

/-- What new snapshots keep of the history. -/
theorem Write.keeps_history {Q : List PlayerBalanceSnapshot → Prop} (k : Write)
    (hQ : ∀ hist snap, snap.ledger = env.sequence → Q hist → Q (hist ++ [snap]))
    (player : Address) :
    k.Keeps env fun w => ∃ hist, History player w.snapshots hist ∧ Q hist := by
  cases k with
  | snapshot =>
    rintro w m reason balance ⟨hist, h, hq⟩
    exact ⟨hist, h.record_match env m reason balance, hq⟩
  | playerSnapshot =>
    rintro w other ⟨hist, h, hq⟩
    by_cases hother : other = player
    · subst hother
      exact ⟨_, h.record env _, hQ _ _ rfl hq⟩
    · exact ⟨hist, h.record_other hother env _, hq⟩
  | rotation | pendingResult => exact fun _ _ _ _ h => h
  | auth | depositGuard | transfer | index | stats | control | matchMap | matchCount | escrow
  | disputes | oracleRecord | consensus =>
    first
    | exact fun _ _ h => h
    | exact fun _ _ _ h => h

theorem step_history {Q : List PlayerBalanceSnapshot → Prop} {e : Event}
    (hQ : ∀ env call, e = .invoke env call →
      ∀ hist snap, snap.ledger = env.sequence → Q hist → Q (hist ++ [snap]))
    (hw : ∃ hist, History player w.snapshots hist ∧ Q hist) :
    ∃ hist, History player (step w e).snapshots hist ∧ Q hist := by
  refine step_keeps (P := fun w => ∃ hist, History player w.snapshots hist ∧ Q hist) hw ?_
    (fun _ => hw) fun _ => hw
  intro env call w' he h
  exact Tx.Maintains.ok (P := fun w => ∃ hist, History player w.snapshots hist ∧ Q hist)
    (Call.exec_maintains fun k _ => k.keeps_history (hQ env call he) player) hw h

theorem Initial.history {w0 : World} (h0 : Initial w0) (player : Address) :
    History player w0.snapshots [] := by
  obtain ⟨oracle, admin, l, -, rfl⟩ := h0.eq_mk
  exact .start rfl

theorem Reachable.hasHistory (hw : Reachable w) (player : Address) : w.HasHistory player := by
  obtain ⟨w0, es, h0, rfl⟩ := hw
  obtain ⟨hist, h, -⟩ := run_inv
    (I := fun w => ∃ hist, History player w.snapshots hist ∧ True) (P := fun _ _ => True)
    (fun w e hw _ => step_history (fun _ _ _ _ _ _ h => h) hw)
    ⟨[], h0.history player, trivial⟩ (along_true w0 es)
  exact ⟨hist, h⟩

theorem Reachable.hasHistory_fresh (hw : Reachable w) (player : Address) :
    w.fresh.HasHistory player := hw.hasHistory player

/-! ## The ring holds the end of the history -/

section

variable (h : History player sn hist)

include h

theorem History.count :
    sn.playerSnapshotCount player = min u64Max hist.length := by
  induction h with
  | start hcount => rw [hcount]; rfl
  | record h env balance ih =>
    simp only [Snapshots.recordPlayer, update_self, saturatingAddU, ih,
      length_append, length_singleton]
    omega
  | other h hcount hring ih => rw [hcount, ih]

theorem History.count_eq (hlen : hist.length ≤ u64Max) :
    sn.playerSnapshotCount player = hist.length := by
  rw [h.count, Nat.min_eq_right hlen]

theorem History.holds (hlen : hist.length ≤ u64Max) :
    RingHolds maxPlayerSnapshots (fun slot => sn.playerSnapshot (player, slot)) hist := by
  induction h with
  | start => exact .nil
  | @record sn hist h env balance ih =>
    rw [length_append, length_singleton] at hlen
    have hcount := h.count_eq (by omega)
    have hring := update_comp_eq_of_injective sn.playerSnapshot
      (Prod.mk_right_injective player) (hist.length % maxPlayerSnapshots)
      (some ⟨player, hist.length, env.sequence, balance⟩)
    simp only [Snapshots.recordPlayer, hcount]
    refine hring.symm.subst (motive := fun slots => RingHolds maxPlayerSnapshots slots _) ?_
    exact (ih (by omega)).push ⟨player, hist.length, env.sequence, balance⟩
  | other h hcount hring ih => simpa only [hring] using ih hlen

/-- A snapshot carries its place in the history. -/
theorem History.index {i : ℕ} {snap : PlayerBalanceSnapshot}
    (hlen : hist.length ≤ u64Max) (hsnap : hist[i]? = some snap) : snap.index = i := by
  induction h with
  | start => simp at hsnap
  | record h env balance ih =>
    rw [length_append, length_singleton] at hlen
    rw [List.getElem?_append] at hsnap
    split at hsnap
    · exact ih (by omega) hsnap
    · rename_i hi
      rw [List.getElem?_singleton] at hsnap
      split at hsnap
      · rename_i hzero
        cases hsnap
        exact (h.count_eq (by omega)).trans (by omega)
      · cases hsnap
  | other h hcount hring ih => exact ih hlen hsnap

end

/-! ## Both searches find the last entry -/

/-- The balance of a snapshot, for ledgers from its own on. -/
def PlayerBalanceSnapshot.balanceAt (snap : PlayerBalanceSnapshot) (t : ℕ) : Option ℤ :=
  if snap.ledger ≤ t then some snap.balance else none

/-- The balance at a ledger, if the ring keeps the snapshot that tells it. -/
def balanceKept (hist : List PlayerBalanceSnapshot) (t : ℕ) : Option ℤ :=
  lastBelow (fun i => hist[i]?.bind (·.balanceAt t)) (hist.length - maxPlayerSnapshots) hist.length

theorem balanceAt_bind_eq_none_iff {i : ℕ} :
    (hist[i]?.bind (·.balanceAt t)) = none ↔ ∀ snap, hist[i]? = some snap → t < snap.ledger := by
  cases hist[i]? with
  | none => simp
  | some => simp [PlayerBalanceSnapshot.balanceAt]

theorem balanceKept_eq_some_iff :
    balanceKept hist t = some b ↔
      ∃ i snap, LastAt hist t i snap ∧ hist.length ≤ i + maxPlayerSnapshots ∧ snap.balance = b := by
  rw [balanceKept, lastBelow_eq_some_iff]
  simp only [balanceAt_bind_eq_none_iff]
  constructor
  · rintro ⟨i, hstart, hlt, hb, hlast⟩
    obtain ⟨snap, hsnap, hb⟩ := bind_eq_some_iff.mp hb
    rw [PlayerBalanceSnapshot.balanceAt] at hb
    split at hb
    · rename_i hledger
      refine ⟨i, snap, ⟨hsnap, hledger, fun j later hj hlater => ?_⟩, by omega, Option.some.inj hb⟩
      exact hlast j hj (List.getElem?_eq_some_iff.mp hlater).1 later hlater
    · cases hb
  · rintro ⟨i, snap, ⟨hsnap, hledger, hlast⟩, hkept, rfl⟩
    refine ⟨i, by omega, (List.getElem?_eq_some_iff.mp hsnap).1, ?_,
      fun j hj _ later hlater => hlast j later hj hlater⟩
    rw [hsnap, bind_some, PlayerBalanceSnapshot.balanceAt, if_pos hledger]

/-- Nothing is known of a short history only if all of it is later. -/
theorem balanceKept_eq_none_iff (hshort : hist.length ≤ maxPlayerSnapshots) :
    balanceKept hist t = none ↔ ∀ snap ∈ hist, t < snap.ledger := by
  rw [balanceKept, lastBelow_eq_none_iff]
  simp only [balanceAt_bind_eq_none_iff]
  constructor
  · intro h snap hsnap
    obtain ⟨i, hi⟩ := mem_iff_getElem?.mp hsnap
    exact h i (by omega) (List.getElem?_eq_some_iff.mp hi).1 snap hi
  · exact fun h i _ _ snap hsnap => h snap (mem_of_getElem? hsnap)

theorem Snapshots.balanceBelow_eq (sn : Snapshots) (player : Address) (t start cursor : ℕ) :
    sn.balanceBelow player t start cursor =
      lastBelow (fun i => (sn.playerSnapshot (player, i % maxPlayerSnapshots)).bind fun snap =>
        if snap.index = i then snap.balanceAt t else none) start cursor := by
  induction cursor with
  | zero => rfl
  | succ cursor ih =>
    rw [Snapshots.balanceBelow, lastBelow, ih]
    split
    · cases hslot : sn.playerSnapshot (player, cursor % maxPlayerSnapshots) with
      | none => simp
      | some snap =>
        by_cases hindex : snap.index = cursor
        · by_cases hledger : snap.ledger ≤ t
          · simp [hindex, hledger, PlayerBalanceSnapshot.balanceAt]
          · simp [hindex, hledger, PlayerBalanceSnapshot.balanceAt]
        · simp [hindex]
    · rfl

theorem History.balanceBelow_eq (h : History player sn hist) (hlen : hist.length ≤ u64Max)
    (t : ℕ) :
    sn.balanceBelow player t (hist.length - maxPlayerSnapshots) hist.length =
      balanceKept hist t := by
  rw [Snapshots.balanceBelow_eq, (h.holds hlen).lastBelow_eq, balanceKept]
  refine lastBelow_congr fun i _ _ => ?_
  cases hsnap : hist[i]? with
  | none => rfl
  | some => rw [bind_some, bind_some, if_pos (h.index hlen hsnap)]

theorem History.getBalanceAtTimestamp_eq (h : History player sn hist)
    (hlen : hist.length ≤ u64Max) (t : ℕ) :
    sn.getBalanceAtTimestamp player t =
      match balanceKept hist t with
      | some balance => .known balance
      | none => if maxPlayerSnapshots < hist.length then .pruned else .noHistory := by
  rw [Snapshots.getBalanceAtTimestamp, h.count_eq hlen]
  have hstart : hist.length - min hist.length maxPlayerSnapshots =
      hist.length - maxPlayerSnapshots := by omega
  simp only [hstart, h.balanceBelow_eq hlen]
  split
  · rename_i hempty
    rw [length_eq_zero_iff.mp hempty]
    rfl
  · cases balanceKept hist t with
    | some => rfl
    | none => simp only [gt_iff_lt, Nat.sub_pos_iff_lt]

/-- The loop of `voteOnDispute` takes no account of the indexes. -/
theorem History.votingWeight_eq {snapshotLedger : ℕ} (h : History player sn hist)
    (hlen : hist.length ≤ u64Max) (hle : t ≤ snapshotLedger) :
    sn.votingWeight player snapshotLedger t = balanceKept hist t := by
  have hloop : sn.votingWeight player snapshotLedger t =
      (List.range (min hist.length maxPlayerSnapshots)).findSome? fun i =>
        (sn.playerSnapshot (player, (hist.length - (i + 1)) % maxPlayerSnapshots)).bind
          (·.balanceAt t) := by
    rw [Snapshots.votingWeight, h.count_eq hlen]
    congr
    funext i
    cases sn.playerSnapshot (player, (hist.length - (i + 1)) % maxPlayerSnapshots) with
    | none => rfl
    | some snap =>
      have hiff : snap.ledger ≤ snapshotLedger ∧ snap.ledger ≤ t ↔ snap.ledger ≤ t := by omega
      simp only [hiff, bind_some, PlayerBalanceSnapshot.balanceAt]
  have hstart : hist.length - min hist.length maxPlayerSnapshots =
      hist.length - maxPlayerSnapshots := by omega
  rw [hloop, findSome?_range_eq (fun i => (sn.playerSnapshot (player, i % maxPlayerSnapshots)).bind
    (·.balanceAt t)) (Nat.min_le_left _ _), hstart, balanceKept]
  exact (h.holds hlen).lastBelow_eq fun _ snap => snap.balanceAt t

/-- The weight of an accepted vote is the recorded balance, and a vote is accepted if it is
positive. -/
theorem voteOnDispute_weight {disputeId : ℕ} {d : Dispute} (vote : Bool)
    (h : History player w.snapshots hist) (hlen : hist.length ≤ u64Max)
    (hopen : PollOpen env w disputeId player d) :
    (∃ w', voteOnDispute disputeId player vote env w = .ok () w' ∧
        w'.disputes.disputeVoteWeight (disputeId, player) = some b) ↔
      balanceKept hist (w.control.heldSince d) = some b ∧ 0 < b := by
  simp only [voteOnDispute_ok_iff]
  have hweight := h.votingWeight_eq hlen (t := w.control.heldSince d)
    (Nat.sub_le d.snapshotLedger _)
  constructor
  · rintro ⟨w', ⟨d', weight, hopen', hweight', hpos, rfl⟩, hb⟩
    obtain rfl : d' = d := mem_unique hopen'.filed hopen.filed
    have hb : weight = b := by simpa [World.polled] using hb
    rw [← hweight, ← hb]
    exact ⟨hweight', hpos⟩
  · rintro ⟨hb, hpos⟩
    exact ⟨_, ⟨d, b, hopen, hweight.trans hb, hpos, rfl⟩, by simp [World.polled]⟩

/-! ## The answers -/

theorem balance_history_exact (h : History player w.snapshots hist)
    (hlen : hist.length ≤ u64Max) :
    (∀ t b, w.snapshots.getBalanceAtTimestamp player t = .known b ↔
      ∃ i snap, LastAt hist t i snap ∧ hist.length ≤ i + maxPlayerSnapshots ∧
        snap.balance = b) ∧
    (∀ t, w.snapshots.getBalanceAtTimestamp player t = .noHistory ↔
      hist.length ≤ maxPlayerSnapshots ∧ ∀ snap ∈ hist, t < snap.ledger) ∧
    (∀ t, w.snapshots.getBalanceAtTimestamp player t = .pruned ↔
      (¬∃ i snap, LastAt hist t i snap ∧ hist.length ≤ i + maxPlayerSnapshots) ∧
        ¬(hist.length ≤ maxPlayerSnapshots ∧ ∀ snap ∈ hist, t < snap.ledger)) ∧
    ∀ env disputeId d vote b, PollOpen env w disputeId player d →
      ((∃ w', voteOnDispute disputeId player vote env w = .ok () w' ∧
          w'.disputes.disputeVoteWeight (disputeId, player) = some b) ↔
        w.snapshots.getBalanceAtTimestamp player (d.snapshotLedger -
            w.control.minimumHoldDuration.getD defaultMinimumHoldDuration) = .known b ∧
          0 < b) := by
  have hknown (t : ℕ) (b : ℤ) : w.snapshots.getBalanceAtTimestamp player t = .known b ↔
      balanceKept hist t = some b := by
    rw [h.getBalanceAtTimestamp_eq hlen]
    cases balanceKept hist t with
    | none => dsimp only; split <;> simp
    | some => simp
  have hnone (t : ℕ) : w.snapshots.getBalanceAtTimestamp player t = .noHistory ↔
      hist.length ≤ maxPlayerSnapshots ∧ ∀ snap ∈ hist, t < snap.ledger := by
    rw [h.getBalanceAtTimestamp_eq hlen]
    by_cases hshort : hist.length ≤ maxPlayerSnapshots
    · rw [← balanceKept_eq_none_iff hshort, if_neg (by omega)]
      cases balanceKept hist t <;> simp [hshort]
    · rw [if_pos (by omega)]
      cases balanceKept hist t <;> simp [hshort]
  refine ⟨fun t b => (hknown t b).trans balanceKept_eq_some_iff, hnone, fun t => ?_, ?_⟩
  · rw [← hnone t]
    have hkept : (∃ i snap, LastAt hist t i snap ∧ hist.length ≤ i + maxPlayerSnapshots) ↔
        ∃ b, w.snapshots.getBalanceAtTimestamp player t = .known b := by
      simp only [hknown, balanceKept_eq_some_iff]
      exact ⟨fun ⟨i, snap, hlast, hi⟩ => ⟨snap.balance, i, snap, hlast, hi, rfl⟩,
        fun ⟨b, i, snap, hlast, hi, _⟩ => ⟨i, snap, hlast, hi⟩⟩
    rw [hkept]
    cases w.snapshots.getBalanceAtTimestamp player t <;> simp
  · intro env disputeId d vote b hopen
    rw [hknown]
    exact voteOnDispute_weight vote h hlen hopen

/-- A win of address 2 in match 0 waits, and address 3 disputes it. -/
def disputedMatch : World :=
  run step .start (fundedMatch ++
    [.invoke (.plain [1] 0 0) (.control (.setDisputePeriod 1)),
      .invoke (.plain [0] 0 0) (.submitResult 0 .player1 (.ext 0)),
      .invoke (.plain [3] 0 0) (.disputeOracleResult 0 (.ext 3) (List.replicate 64 49))])

/-- The deposit of address 3 is on record, and it is the weight of their vote. -/
theorem balance_history_exact_disputedMatch :
    ∃ hist, History (.ext 3) disputedMatch.fresh.snapshots hist ∧
      (∃ i snap, LastAt hist 0 i snap ∧ snap.balance = 100) ∧
      ∃ w', voteOnDispute 0 (.ext 3) true (.plain [3] 1 0) disputedMatch.fresh = .ok () w' ∧
        w'.disputes.disputeVoteWeight (0, .ext 3) = some 100 := by
  have hw : Reachable disputedMatch := ⟨.start, _, World.start_initial, rfl⟩
  obtain ⟨hist, h⟩ := hw.hasHistory_fresh (.ext 3)
  have hcount : disputedMatch.fresh.snapshots.playerSnapshotCount (.ext 3) = 1 := by decide +kernel
  have hlen : hist.length ≤ u64Max := by
    have := h.count
    simp only [hcount, u64Max] at this ⊢
    omega
  have hknown : disputedMatch.fresh.snapshots.getBalanceAtTimestamp (.ext 3) 0 = .known 100 := by
    decide +kernel
  have hfiled : (disputedMatch.disputes.dispute 0).map (fun d => (d.state, d.votingDeadline,
      d.snapshotLedger, d.matchId)) = some (.active, 17280, 0, 0) := by decide +kernel
  obtain ⟨d, hd, hfields⟩ := map_eq_some_iff.mp hfiled
  simp only [Prod.mk.injEq] at hfields
  obtain ⟨hactive, hdeadline, hsnapshot, hmatch⟩ := hfields
  have hstored : (disputedMatch.matchMap 0).isSome = true := by decide +kernel
  have hopen : PollOpen (.plain [3] 1 0) disputedMatch.fresh 0 (.ext 3) d :=
    { auth := by decide
      unused := by decide +kernel
      filed := hd
      active := hactive
      early := by rw [hdeadline]; decide
      unvoted := by decide +kernel
      stored := by rw [hmatch]; exact isSome_iff_exists.mp hstored }
  obtain ⟨hexact, -, -, hvote⟩ := balance_history_exact h hlen
  obtain ⟨i, snap, hlast, -, hbalance⟩ := (hexact 0 100).mp hknown
  refine ⟨hist, h, ⟨i, snap, hlast, hbalance⟩, (hvote _ 0 d true 100 hopen).mpr ⟨?_, by decide⟩⟩
  rw [hsnapshot, Nat.zero_sub]
  exact hknown

end Checkmate.Escrow
