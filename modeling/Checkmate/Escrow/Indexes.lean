import Checkmate.Host.Pages
import Checkmate.Escrow.Register

/-!
# State lists and bracket lists

The ids of the matches in a state are kept in a sorted list, apart from the records, and so
are the ids of the matches of a bracket. Whatever is done to a match, its id ends up in the
list of its new state and in no other (`FileStep.refiled`). So along every run without a batch
of deposits the lists hold exactly the matches they stand for, and the pages of a state
together list each of its matches once, in order (`index_coherent`).
-/

namespace Checkmate.Escrow

open Function List Register

variable {env : Env} {period mid : ℕ} {a : Action} {m m' : Match} {ix ix' : Index}
  {st st' : Stats} {state s : MatchState} {i : ℕ} {l : List ℕ}

/-! ## Sorted lists of ids -/

theorem mem_insertSorted : i ∈ insertSorted mid l ↔ i = mid ∨ i ∈ l := by
  induction l with
  | nil => simp [insertSorted]
  | cons j l ih =>
    unfold insertSorted
    split
    · simp
    · rw [mem_cons, ih, mem_cons]
      tauto

theorem insertSorted_sorted (h : l.Pairwise (· < ·)) (hnew : mid ∉ l) :
    (insertSorted mid l).Pairwise (· < ·) := by
  induction l with
  | nil => simp [insertSorted]
  | cons j l ih =>
    obtain ⟨hj, hl⟩ := pairwise_cons.mp h
    obtain ⟨hne, hnew⟩ := not_or.mp (mt mem_cons.mpr hnew)
    unfold insertSorted
    split
    · rename_i hlt
      refine pairwise_cons.mpr ⟨fun k hk => ?_, h⟩
      rcases mem_cons.mp hk with rfl | hk
      · exact hlt
      · exact hlt.trans (hj k hk)
    · rename_i hlt
      refine pairwise_cons.mpr ⟨fun k hk => ?_, ih hl hnew⟩
      rcases mem_insertSorted.mp hk with rfl | hk
      · omega
      · exact hj k hk

theorem mem_addMatchId : i ∈ addMatchId mid l ↔ i = mid ∨ i ∈ l := by
  unfold addMatchId
  split
  · rename_i hmem
    constructor
    · exact .inr
    · rintro (rfl | h)
      · exact hmem
      · exact h
  · exact mem_insertSorted

theorem addMatchId_sorted (h : l.Pairwise (· < ·)) : (addMatchId mid l).Pairwise (· < ·) := by
  unfold addMatchId
  split
  · exact h
  · exact insertSorted_sorted h ‹_›

/-! ## The lists under a step -/

/-- Moving a match between two state lists. -/
theorem setMatchState_mem (hm : ∀ s, m.id ∈ ix.matchesByState s ↔ s = m.state) :
    i ∈ (ix.setMatchState m state).matchesByState s ↔
      (i ≠ m.id ∧ i ∈ ix.matchesByState s) ∨ (i = m.id ∧ s = state) := by
  unfold Index.setMatchState
  split
  · rename_i hsame
    by_cases hi : i = m.id
    · subst hi
      simp [hm, hsame]
    · simp [hi]
  · rename_i hne
    simp only [Index.addToState, Index.removeFromState, update_apply]
    by_cases hnew : s = state
    · subst hnew
      have hold : s ≠ m.state := fun h => hne h.symm
      have hnot : m.id ∉ ix.matchesByState s := by rw [hm]; exact hold
      simp only [if_true, if_neg hold, mem_addMatchId]
      by_cases hi : i = m.id
      · simp [hi]
      · simp [hi]
    · by_cases hold : s = m.state
      · simp [hold, mem_filter, and_comm, hne]
      · have hnot : m.id ∉ ix.matchesByState s := by rw [hm]; exact hold
        simp only [if_neg hold, hnew, and_false, or_false]
        constructor
        · exact fun h => ⟨fun hi => hnot (hi ▸ h), h⟩
        · exact And.right

theorem setMatchState_sorted (h : ∀ s, (ix.matchesByState s).Pairwise (· < ·)) (s : MatchState) :
    ((ix.setMatchState m state).matchesByState s).Pairwise (· < ·) := by
  unfold Index.setMatchState
  split
  · exact h s
  · have hremoved : ∀ s, ((ix.removeFromState m.state m.id).matchesByState s).Pairwise (· < ·) := by
      intro s
      simp only [Index.removeFromState, update_apply]
      split
      · exact (h _).filter _
      · exact h s
    simp only [Index.addToState, update_apply]
    split
    · exact addMatchId_sorted (hremoved _)
    · exact hremoved s

@[simp] theorem setMatchState_bracketMatches :
    (ix.setMatchState m state).bracketMatches = ix.bracketMatches := by
  unfold Index.setMatchState
  split <;> rfl

/-- The lists of states and brackets, without the active sets. -/
def Index.lists (ix : Index) : (MatchState → List ℕ) × (ℕ → List ℕ) :=
  (ix.matchesByState, ix.bracketMatches)

theorem removeActiveMatchIndexed_lists {player : Address} :
    (ix.removeActiveMatchIndexed player mid).lists = ix.lists := by
  unfold Index.removeActiveMatchIndexed
  split <;> rfl

theorem addActiveMatch_lists {player : Address} (h : ix.addActiveMatch player mid = some ix') :
    ix'.lists = ix.lists := by
  unfold Index.addActiveMatch at h
  split at h
  · exact absurd h (by simp)
  · rw [← Option.some.inj h]
    rfl

theorem setMatchState_lists (h : ix'.lists = ix.lists) :
    (ix'.setMatchState m state).lists = (ix.setMatchState m state).lists := by
  obtain ⟨hstates, hbrackets⟩ := Prod.mk.inj h
  unfold Index.setMatchState
  split
  · exact h
  · simp only [Index.lists, Index.addToState, Index.removeFromState, hstates, hbrackets]

/-- From `ix` to `ix'` an id has moved from the list of state `s` to that of `s'`. -/
structure Refiled (matchId : ℕ) (s s' : MatchState) (ix ix' : Index) : Prop where
  sorted : (∀ t, (ix.matchesByState t).Pairwise (· < ·)) →
    ∀ t, (ix'.matchesByState t).Pairwise (· < ·)
  mem : (∀ t, matchId ∈ ix.matchesByState t ↔ t = s) →
    ∀ t i, i ∈ ix'.matchesByState t ↔
      (i ≠ matchId ∧ i ∈ ix.matchesByState t) ∨ (i = matchId ∧ t = s')
  brackets : ix'.bracketMatches = ix.bracketMatches

theorem Refiled.refl (ix : Index) : Refiled mid s s ix ix where
  sorted h := h
  mem h t i := by
    by_cases hi : i = mid
    · subst hi
      simp [h]
    · simp [hi]
  brackets := rfl

theorem Refiled.trans {s1 s2 s3 : MatchState} {ix1 ix2 ix3 : Index}
    (h : Refiled mid s1 s2 ix1 ix2) (h' : Refiled mid s2 s3 ix2 ix3) :
    Refiled mid s1 s3 ix1 ix3 where
  sorted hs := h'.sorted (h.sorted hs)
  mem hm t i := by
    have hmid : ∀ t, mid ∈ ix2.matchesByState t ↔ t = s2 := by simp [h.mem hm]
    rw [h'.mem hmid, h.mem hm]
    by_cases hi : i = mid <;> simp [hi]
  brackets := h'.brackets.trans h.brackets

theorem Refiled.setMatchState (hid : m.id = mid) :
    Refiled mid m.state state ix (ix.setMatchState m state) where
  sorted := setMatchState_sorted
  mem h t i := by
    subst hid
    exact setMatchState_mem h
  brackets := setMatchState_bracketMatches

theorem Refiled.congr {s' : MatchState} {ix1 : Index} (h : Refiled mid s s' ix ix')
    (hlists : ix1.lists = ix'.lists) : Refiled mid s s' ix ix1 := by
  obtain ⟨hstates, hbrackets⟩ := Prod.mk.inj hlists
  exact ⟨hstates ▸ h.sorted, hstates ▸ h.mem, hbrackets.trans h.brackets⟩

theorem Refiled.retire (hid : m.id = mid) :
    Refiled mid m.state state ix (ix.retire m mid state) := by
  refine (Refiled.setMatchState hid).congr (setMatchState_lists ?_)
  exact removeActiveMatchIndexed_lists.trans removeActiveMatchIndexed_lists

theorem Refiled.activate (hid : m.id = mid) (h : ix.activate m mid = some ix') :
    Refiled mid m.state .active ix ix' := by
  simp only [Index.activate, Option.bind_eq_bind, Option.bind_eq_some_iff] at h
  obtain ⟨ix1, h1, h2⟩ := h
  exact (Refiled.setMatchState hid).congr
    ((addActiveMatch_lists h2).trans (addActiveMatch_lists h1))

/-- Every step moves the match to the list of its new state. -/
theorem FileStep.refiled (h : FileStep env period mid m ix st a m' ix' st')
    (hid : m.id = mid) : Refiled mid m.state m'.state ix ix' := by
  cases h with
  | deposit side =>
    cases side <;> exact .refl ix
  | activate side _ _ _ hix =>
    have hdeposit : (m.withDeposit side env.timestamp).id = mid ∧
        (m.withDeposit side env.timestamp).state = m.state := by
      cases side <;> exact ⟨hid, rfl⟩
    have hmoved := Refiled.activate hdeposit.1 hix
    rw [hdeposit.2] at hmoved
    exact hmoved
  | settleNow | settleHalf | stall | paid => exact .retire hid
  | settleLater winner =>
    have hid' : (m.resulted env winner).id = mid := hid
    exact (Refiled.retire hid).trans (.setMatchState hid')
  | close | pause | resume => exact .setMatchState hid
  | heartbeat => exact .refl ix
  | rollbackVote side => cases side <;> exact .refl ix
  | rollback => exact .retire hid
  | claim side => cases side <;> exact .refl ix

/-! ## Coherence -/

/-- The lists hold exactly the matches they stand for, in order. -/
structure Register.Coherent (r : Register) : Prop where
  state_sorted : ∀ s, (r.index.matchesByState s).Pairwise (· < ·)
  mem_state : ∀ s id, id ∈ r.index.matchesByState s ↔ ∃ m, r.matchMap id = some m ∧ m.state = s
  bracket_sorted : ∀ b, (r.index.bracketMatches b).Pairwise (· < ·)
  mem_bracket : ∀ b id, id ∈ r.index.bracketMatches b ↔
    ∃ m, r.matchMap id = some m ∧ m.bracketId = some b

theorem Register.Coherent.empty : Register.empty.Coherent where
  state_sorted _ := .nil
  mem_state _ _ := by simp [Register.empty]
  bracket_sorted _ := .nil
  mem_bracket _ _ := by simp [Register.empty]

/-- What a stored match satisfies, after one record was written. -/
theorem exists_update_iff {f : ℕ → Option Match} {P : Match → Prop} {id : ℕ} :
    (∃ m1, update f mid (some m) id = some m1 ∧ P m1) ↔
      (id ≠ mid ∧ ∃ m1, f id = some m1 ∧ P m1) ∨ (id = mid ∧ P m) := by
  by_cases hid : id = mid
  · subst hid
    simp
  · simp [hid]

theorem Register.Coherent.moved {r : Register} (hr : r.Coherent)
    (hm : r.matchMap mid = some m) (hrefiled : Refiled mid m.state m'.state r.index ix)
    (hbracket : m'.bracketId = m.bracketId) : (r.moved mid m' ix st).Coherent where
  state_sorted := hrefiled.sorted hr.state_sorted
  mem_state s id := by
    have hin : ∀ t, mid ∈ r.index.matchesByState t ↔ t = m.state := by
      simp [hr.mem_state, hm, eq_comm]
    rw [moved_matchMap, exists_update_iff, ← hr.mem_state, moved_index,
      hrefiled.mem hin, eq_comm (a := s)]
  bracket_sorted := by
    rw [moved_index, hrefiled.brackets]
    exact hr.bracket_sorted
  mem_bracket b id := by
    rw [moved_matchMap, exists_update_iff, moved_index, hrefiled.brackets, hr.mem_bracket, hbracket]
    by_cases hid : id = mid
    · simp [hid, hm]
    · simp [hid]

theorem addMatch_matchesByState (s : MatchState) : (ix.addMatch m).matchesByState s =
      if s = .pending then addMatchId m.id (ix.matchesByState s) else ix.matchesByState s := by
  have hstates : (ix.addMatch m).matchesByState = (ix.addToState .pending m.id).matchesByState := by
    cases hb : m.bracketId <;> simp [Index.addMatch, Index.addToBracket, Index.addToPlayer, hb]
  rw [hstates]
  simp only [Index.addToState, update_apply]
  split
  · rename_i hs
    rw [hs]
  · rfl

theorem addMatch_bracketMatches (b : ℕ) : (ix.addMatch m).bracketMatches b =
      if m.bracketId = some b then addMatchId m.id (ix.bracketMatches b)
      else ix.bracketMatches b := by
  cases hb : m.bracketId with
  | none => simp [Index.addMatch, Index.addToBracket, Index.addToPlayer, Index.addToState, hb]
  | some b' =>
    simp only [Index.addMatch, Index.addToBracket, Index.addToPlayer, Index.addToState, hb,
      update_apply, Option.some.injEq, eq_comm (a := b)]
    split
    · rename_i hb'
      rw [hb']
    · rfl

/-- A new id in one of the lists. -/
theorem mem_ite_addMatchId {c : Prop} [Decidable c] (hnew : mid ∉ l) :
    i ∈ (if c then addMatchId mid l else l) ↔ (i ≠ mid ∧ i ∈ l) ∨ (i = mid ∧ c) := by
  by_cases hi : i = mid
  · subst hi
    by_cases hc : c <;> simp [hc, mem_addMatchId, hnew]
  · by_cases hc : c <;> simp [hc, mem_addMatchId, hi]

theorem ite_addMatchId_sorted {c : Prop} [Decidable c] (h : l.Pairwise (· < ·)) :
    (if c then addMatchId mid l else l).Pairwise (· < ·) := by
  split
  · exact addMatchId_sorted h
  · exact h

theorem Register.Coherent.opened {r : Register} (hr : r.Coherent) (hid : m.id = r.matchCount)
    (hfree : r.matchMap r.matchCount = none) (hstate : m.state = .pending) :
    (r.opened m).Coherent where
  state_sorted s := by
    rw [opened_index, addMatch_matchesByState]
    exact ite_addMatchId_sorted (hr.state_sorted s)
  mem_state s id := by
    have hnew : r.matchCount ∉ r.index.matchesByState s := by simp [hr.mem_state, hfree]
    rw [opened_matchMap, exists_update_iff, ← hr.mem_state, opened_index,
      addMatch_matchesByState, hid, hstate, mem_ite_addMatchId hnew, eq_comm (a := s)]
  bracket_sorted b := by
    rw [opened_index, addMatch_bracketMatches]
    exact ite_addMatchId_sorted (hr.bracket_sorted b)
  mem_bracket b id := by
    have hnew : r.matchCount ∉ r.index.bracketMatches b := by simp [hr.mem_bracket, hfree]
    rw [opened_matchMap, exists_update_iff, ← hr.mem_bracket, opened_index,
      addMatch_bracketMatches, hid, mem_ite_addMatchId hnew]

theorem Register.Coherent.change {r r' : Register} (hr : r.Coherent) (hsound : r.Sound)
    (h : FileChange env period a r r') : r'.Coherent := by
  cases h with
  | opening p rateLedger hp hfree => exact hr.opened rfl hfree rfl
  | moving hm hstep =>
    exact hr.moved hm (hstep.refiled (hsound.id_eq _ _ hm)) hstep.terms.2

/-! ## Pages -/

/-- A page of the matches in a state. The end of the page is a saturating sum, which stops
at a bound that no list of the host exceeds. -/
def World.collectMatchesByStatePaginated (w : World) (state : MatchState) (offset limit : ℕ) :
    List Match :=
  if limit = 0 then []
  else
    let matchIds := w.index.matchesByState state
    let start := min offset matchIds.length
    let finish := min (start + limit) matchIds.length
    ((matchIds.take finish).drop start).filterMap fun matchId =>
      (w.matchMap matchId).filter fun m => m.state = state

def World.getPendingMatchesPaginated (w : World) (offset limit : ℕ) : List Match :=
  w.collectMatchesByStatePaginated .pending offset limit

def World.getActiveMatchesPaginated (w : World) (offset limit : ℕ) : List Match :=
  w.collectMatchesByStatePaginated .active offset limit

def World.getCompletedMatchesPaginated (w : World) (offset limit : ℕ) : List Match :=
  w.collectMatchesByStatePaginated .completed offset limit

def World.getCancelledMatchesPaginated (w : World) (offset limit : ℕ) : List Match :=
  w.collectMatchesByStatePaginated .cancelled offset limit

/-- The matches that a list of ids finds in a state. -/
def World.matchesIn (w : World) (state : MatchState) (matchIds : List ℕ) : List Match :=
  matchIds.filterMap fun matchId => (w.matchMap matchId).filter fun m => m.state = state

theorem drop_take_min (l : List ℕ) (offset limit : ℕ) :
    (l.take (min (min offset l.length + limit) l.length)).drop (min offset l.length) =
      (l.drop offset).take limit := by
  rw [drop_take]
  rcases Nat.le_total offset l.length with h | h
  · rw [Nat.min_eq_left h, take_eq_take_iff, length_drop]
    omega
  · rw [Nat.min_eq_right h, drop_length, drop_eq_nil_of_le h, take_nil, take_nil]

theorem World.collectMatchesByStatePaginated_eq (w : World) {offset limit : ℕ} (h : 0 < limit) :
    w.collectMatchesByStatePaginated state offset limit =
      w.matchesIn state (((w.index.matchesByState state).drop offset).take limit) := by
  rw [World.collectMatchesByStatePaginated, if_neg (by omega), World.matchesIn, ← drop_take_min]

theorem World.flatMap_paginated (w : World) {n : ℕ} (h : 0 < n) (k : ℕ) :
    ((List.range k).flatMap fun j => w.collectMatchesByStatePaginated state (j * n) n) =
      w.matchesIn state ((w.index.matchesByState state).take (k * n)) := by
  simp only [w.collectMatchesByStatePaginated_eq h, ← flatMap_pages, World.matchesIn,
    filterMap_flatMap]

theorem matchesIn_map_id {w : World} {ids : List ℕ}
    (h : ∀ id ∈ ids, ∃ m, w.matchMap id = some m ∧ m.state = state ∧ m.id = id) :
    (w.matchesIn state ids).map Match.id = ids := by
  induction ids with
  | nil => rfl
  | cons id ids ih =>
    obtain ⟨m, hm, hs, hid⟩ := h id mem_cons_self
    have htail := ih fun id hid => h id (mem_cons_of_mem _ hid)
    have hhead : (w.matchMap id).filter (fun m => m.state = state) = some m := by
      simp [hm, hs]
    have hcons : w.matchesIn state (id :: ids) = m :: w.matchesIn state ids := by
      simp only [World.matchesIn, filterMap_cons, hhead]
    rw [hcons, map_cons, hid, htail]

theorem Register.Coherent.mem_matchesIn {w : World} (h : w.register.Coherent) (m : Match) :
    m ∈ w.matchesIn s (w.index.matchesByState s) ↔ ∃ id, w.matchMap id = some m ∧ m.state = s := by
  rw [World.matchesIn, mem_filterMap]
  constructor
  · rintro ⟨id, -, hm⟩
    rw [Option.filter_eq_some_iff] at hm
    exact ⟨id, hm.1, of_decide_eq_true hm.2⟩
  · rintro ⟨id, hm, hs⟩
    exact ⟨id, (h.mem_state s id).mpr ⟨m, hm, hs⟩, by simp [hm, hs]⟩

/-- The register along a run without batches of deposits. -/
theorem run_coherent {w0 : World} {es : List Event} (h0 : Initial w0)
    (hes : ∀ e ∈ es, e.batchesDeposits = false) :
    (run step w0 es).register.Sound ∧ (run step w0 es).register.Coherent :=
  run_register_inv (I := fun r => r.Sound ∧ r.Coherent) ⟨.empty, .empty⟩
    (fun hP _ ha => absurd ha (Event.action_ne_of_not_batchesDeposits hP))
    (fun _ _ _ hr h => ⟨hr.1.change h, hr.2.change hr.1 h⟩) h0 (along_of_forall hes)

/-- Along every run without batches of deposits the lists of states and brackets are sorted
and hold exactly the matches they stand for, and the pages of a state put together are its
matches, each once and by increasing id. -/
theorem index_coherent {w0 : World} {es : List Event} (h0 : Initial w0)
    (hes : ∀ e ∈ es, e.batchesDeposits = false) : (run step w0 es).register.Coherent ∧
    ∀ (s : MatchState) (n : ℕ), 0 < n → ∃ ms : List Match, (ms.map Match.id).Pairwise (· < ·) ∧
      (∀ m, m ∈ ms ↔ ∃ id, (run step w0 es).matchMap id = some m ∧ m.state = s) ∧
      ∀ k, ms.length ≤ k * n → ((List.range k).flatMap fun j =>
          (run step w0 es).collectMatchesByStatePaginated s (j * n) n) = ms := by
  obtain ⟨hsound, hcoherent⟩ := run_coherent h0 hes
  generalize run step w0 es = w at hsound hcoherent
  refine ⟨hcoherent, fun s n hn => ⟨w.matchesIn s (w.index.matchesByState s), ?_, ?_, ?_⟩⟩
  all_goals
    have hids : (w.matchesIn s (w.index.matchesByState s)).map Match.id =
        w.index.matchesByState s := by
      refine matchesIn_map_id fun id hid => ?_
      obtain ⟨m, hm, hs⟩ := (hcoherent.mem_state s id).mp hid
      exact ⟨m, hm, hs, hsound.id_eq id m hm⟩
  · rw [hids]
    exact hcoherent.state_sorted s
  · exact hcoherent.mem_matchesIn
  · intro k hk
    rw [w.flatMap_paginated hn, take_of_length_le]
    rwa [← hids, length_map]

theorem index_coherent_fundedMatch : (∀ e ∈ fundedMatch, e.batchesDeposits = false) ∧
    (run step .start fundedMatch).index.matchesByState .active = [0] ∧
    (run step .start fundedMatch).register.Coherent := by
  have hes : ∀ e ∈ fundedMatch, e.batchesDeposits = false := by decide +kernel
  exact ⟨hes, by decide +kernel, (index_coherent World.start_initial hes).1⟩

end Checkmate.Escrow
