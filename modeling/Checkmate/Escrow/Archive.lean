import Mathlib.Data.List.Sort
import Checkmate.Escrow.Register
import Checkmate.Escrow.Writes

/-!
# The archive of matches

A match is entered under the next id, under its game id and in the lists of its two players.
Only the creation of a match writes these entries, and nothing changes the terms of a match
(`exec_sameEntries`). So the ids in use are those below the count, no two matches have the same
game id, and the list of a player holds exactly their matches, in order
(`Register.Catalogued`).

`getMatchHistory` walks all ids or the list of one player. Both walks come to the same matches
(`archive_consistent`).
-/

namespace Checkmate.Escrow

open Function List Register

variable {env : Env} {w w' : World} {period i : ℕ} {u : Unit} {a : Action} {m m' : Match}
  {ix ix' : Index} {st st' : Stats} {r r' : Register}

/-! ## The history of matches -/

/-- The loop of `get_match_history` over a list of ids. -/
def collectHistory (matchMap : ℕ → Option Match) (limit offset : ℕ) :
    List ℕ → (skipped added : ℕ) → List Match
  | [], _, _ => []
  | matchId :: ids, skipped, added =>
    match matchMap matchId with
    | none => collectHistory matchMap limit offset ids skipped added
    | some m =>
      if m.state ≠ .completed ∧ m.state ≠ .cancelled then
        collectHistory matchMap limit offset ids skipped added
      else if skipped < offset then
        collectHistory matchMap limit offset ids (saturatingAddU u32Max skipped 1) added
      else
        let added := saturatingAddU u32Max added 1
        m :: if added ≥ limit then [] else collectHistory matchMap limit offset ids skipped added

/-- Newest first : the matches of one player, or those of all. -/
def World.getMatchHistory (w : World) (player : Option Address) (limit offset : UInt32) :
    List Match :=
  if limit = 0 then []
  else
    let ids := match player with
      | some p => w.index.playerMatches p
      | none => List.range w.matchCount
    collectHistory w.matchMap limit.toNat offset.toNat ids.reverse 0 0

/-- The matches that ids find, without those that are not over. -/
def overMatches (matchMap : ℕ → Option Match) (ids : List ℕ) : List Match :=
  (ids.filterMap matchMap).filter fun m => m.state.terminal

theorem not_over_iff (m : Match) :
    (m.state ≠ .completed ∧ m.state ≠ .cancelled) ↔ m.state.terminal = false := by
  cases m.state <;> decide

/-- The loop skips as many matches as are left to skip and takes as many as are left to take. -/
theorem collectHistory_eq {matchMap : ℕ → Option Match} {limit offset : ℕ}
    (hlimit : limit ≤ u32Max) (hoffset : offset ≤ u32Max) (ids : List ℕ) {skipped added : ℕ}
    (hskipped : skipped ≤ offset) (hadded : added < limit) :
    collectHistory matchMap limit offset ids skipped added =
      ((overMatches matchMap ids).drop (offset - skipped)).take (limit - added) := by
  induction ids generalizing skipped added with
  | nil => simp [collectHistory, overMatches]
  | cons i ids ih =>
    unfold collectHistory
    cases hm : matchMap i with
    | none =>
      have hskip : overMatches matchMap (i :: ids) = overMatches matchMap ids := by
        simp [overMatches, hm]
      rw [hskip]
      exact ih hskipped hadded
    | some m =>
      simp only [not_over_iff]
      cases hover : m.state.terminal with
      | false =>
        have hskip : overMatches matchMap (i :: ids) = overMatches matchMap ids := by
          simp [overMatches, hm, hover]
        rw [if_pos rfl, hskip]
        exact ih hskipped hadded
      | true =>
        have hcons : overMatches matchMap (i :: ids) = m :: overMatches matchMap ids := by
          simp [overMatches, hm, hover]
        rw [if_neg (by simp), hcons]
        by_cases hleft : skipped < offset
        · have hnext : saturatingAddU u32Max skipped 1 = skipped + 1 := by
            unfold saturatingAddU
            omega
          have hdrop : offset - skipped = offset - (skipped + 1) + 1 := by omega
          rw [if_pos hleft, hnext, ih (by omega) hadded, hdrop, drop_succ_cons]
        · have hnext : saturatingAddU u32Max added 1 = added + 1 := by
            unfold saturatingAddU
            omega
          have hdrop : offset - skipped = 0 := by omega
          have htake : limit - added = limit - (added + 1) + 1 := by omega
          rw [if_neg hleft, hdrop, drop_zero, htake, take_succ_cons, hnext]
          congr 1
          by_cases hfull : added + 1 ≥ limit
          · have hzero : limit - (added + 1) = 0 := by omega
            rw [if_pos hfull, hzero, take_zero]
          · rw [if_neg hfull, ih hskipped (by omega), hdrop, drop_zero]

theorem World.getMatchHistory_eq (w : World) (player : Option Address) (limit offset : UInt32) :
    w.getMatchHistory player limit offset = ((overMatches w.matchMap (match player with
        | some p => w.index.playerMatches p
        | none => List.range w.matchCount).reverse).drop offset.toNat).take limit.toNat := by
  unfold World.getMatchHistory
  by_cases hlimit : limit = 0
  · simp [hlimit]
  · have hpos : 0 < limit.toNat := by
      rw [Nat.pos_iff_ne_zero]
      exact fun hzero => hlimit (UInt32.toNat_inj.mp hzero)
    rw [if_neg hlimit]
    exact collectHistory_eq (toNat_le_u32Max limit) (toNat_le_u32Max offset) _ (Nat.zero_le _) hpos

/-! ## What a call leaves in the archive -/

/-- The game ids in use and the lists of the players. -/
def Index.entries (ix : Index) : (Bytes → Bool) × (Address → List ℕ) :=
  (ix.gameId, ix.playerMatches)

theorem entries_setMatchState (ix : Index) (m : Match) (state : MatchState) :
    (ix.setMatchState m state).entries = ix.entries := by
  unfold Index.setMatchState
  split <;> rfl

theorem entries_addActiveMatch {player : Address}
    (h : ix.addActiveMatch player i = some ix') : ix'.entries = ix.entries := by
  unfold Index.addActiveMatch at h
  split at h
  · exact absurd h (by simp)
  · obtain rfl := Option.some.inj h
    rfl

theorem entries_activate (h : ix.activate m i = some ix') : ix'.entries = ix.entries := by
  obtain ⟨ix1, h1, h2⟩ := Option.bind_eq_some_iff.mp h
  rw [entries_addActiveMatch h2, entries_addActiveMatch h1, entries_setMatchState]

theorem entries_removeActiveMatchIndexed (ix : Index) (player : Address) (i : ℕ) :
    (ix.removeActiveMatchIndexed player i).entries = ix.entries := by
  unfold Index.removeActiveMatchIndexed
  split <;> rfl

theorem entries_retire (ix : Index) (m : Match) (i : ℕ) (state : MatchState) :
    (ix.retire m i state).entries = ix.entries := by
  rw [Index.retire, entries_setMatchState, Index.removeActivePlayers,
    entries_removeActiveMatchIndexed, entries_removeActiveMatchIndexed]

/-- No step of a match touches the entries. -/
theorem FileStep.entries (h : FileStep env period i m ix st a m' ix' st') :
    ix'.entries = ix.entries := by
  cases h with
  | deposit | heartbeat | rollbackVote | claim => rfl
  | activate side _ _ _ hix => exact entries_activate hix
  | settleNow | settleHalf | rollback | stall | paid => exact entries_retire ..
  | settleLater => rw [entries_setMatchState, entries_retire]
  | close | pause | resume => exact entries_setMatchState ..

/-- The same matches on the same terms. -/
structure Register.SameTerms (r r' : Register) : Prop where
  count : r'.matchCount = r.matchCount
  terms : ∀ id, (r'.matchMap id).map Match.terms = (r.matchMap id).map Match.terms

theorem Register.SameTerms.refl (r : Register) : r.SameTerms r := ⟨rfl, fun _ => rfl⟩

theorem Register.SameTerms.trans {r1 r2 r3 : Register} (h : r1.SameTerms r2)
    (h' : r2.SameTerms r3) : r1.SameTerms r3 :=
  ⟨h'.count.trans h.count, fun id => (h'.terms id).trans (h.terms id)⟩

theorem FileChange.sameTerms (h : FileChange env period a r r') (ha : a ≠ .create) :
    r.SameTerms r' := by
  cases h with
  | opening => exact absurd rfl ha
  | @moving _ i m m' _ ix st hm hstep =>
    refine ⟨rfl, fun id => ?_⟩
    by_cases hid : id = i
    · subst hid
      rw [moved_matchMap, update_self, hm, Option.map_some, Option.map_some, hstep.terms.1]
    · rw [moved_matchMap, update_of_ne hid]

theorem FileChange.sameEntries (h : FileChange env period a r r') (ha : a ≠ .create) :
    r'.index.entries = r.index.entries := by
  cases h with
  | opening => exact absurd rfl ha
  | moving hm hstep => exact hstep.entries

theorem deposit_keeps_entries (v : (Bytes → Bool) × (Address → List ℕ)) (i : ℕ) (player : Address) :
    Tx.Maintains env (fun w : World => w.index.entries = v) (deposit i player) := by
  refine deposit_maintains_of (fun k hk hindex => ?_) (fun m state => ?_)
    (fun player i => ?_) i player
  · cases k with
    | index => exact absurd rfl hindex
    | auth | playerSnapshot => exact fun _ _ hw => hw
    | matchMap | escrow | depositGuard | transfer => exact fun _ _ _ hw => hw
    | snapshot => exact fun _ _ _ _ hw => hw
    | _ => exact Bool.noConfusion hk
  · refine Tx.maintains_bind (Tx.maintains_modify fun w hw => ?_) fun _ => Tx.maintains_pure _
    exact (entries_setMatchState ..).trans hw
  · intro w hw
    rw [addActiveMatch, Tx.get_bind]
    cases hadd : w.index.addActiveMatch player i with
    | none => exact hw
    | some => exact (entries_addActiveMatch hadd).trans hw

theorem depositBatch_keeps_entries {entries : List (ℕ × Address)} {os : List (Option Error)}
    (h : depositBatch entries env w = .ok os w') : w'.index.entries = w.index.entries := by
  have hentry (e : ℕ × Address) : Tx.Maintains env
      (fun w' : World => w'.index.entries = w.index.entries) (deposit e.1 e.2) :=
    deposit_keeps_entries _ e.1 e.2
  refine Tx.Maintains.ok (P := fun w' : World => w'.index.entries = w.index.entries) ?_ rfl h
  simp only [depositBatch]
  exact Tx.maintains_bind requireNotPaused_maintains fun _ => Tx.maintains_batch hentry entries

/-- Nothing but the creation of a match changes the terms of the matches or the entries. -/
theorem exec_sameEntries {call : Call} (hw : w.control.oracle.isSome = true)
    (h : call.exec env w = .ok u w') (hcall : call.action ≠ .create) :
    w.register.SameTerms w'.register ∧ w'.index.entries = w.index.entries := by
  by_cases hadmin : call.action = .administer
  · have hreg := (exec_administer h hadmin hw).2
    exact ⟨hreg ▸ .refl _, congrArg (fun r : Register => r.index.entries) hreg⟩
  constructor
  · have hmany := (exec_effects h hadmin).register
    generalize w'.register = r' at hmany
    induction hmany with
    | refl => exact .refl _
    | tail _ hone ih =>
      refine ih.trans ?_
      rcases hone with hone | ⟨-, ix, rfl⟩
      · exact hone.sameTerms hcall
      · exact ⟨rfl, fun _ => rfl⟩
  · by_cases hbatch : call.action = .deposit true
    · cases call with
      | depositBatch =>
        obtain ⟨os, h⟩ := void_ok_iff.mp h
        exact depositBatch_keeps_entries h
      | _ => simp [Call.action] at hbatch
    · have hmany := (exec_effects h hadmin).register
      have hindex : w'.register.index.entries = w.register.index.entries := by
        generalize w'.register = r' at hmany
        induction hmany with
        | refl => rfl
        | tail _ hone ih =>
          rcases hone with hone | ⟨hdeposit, -⟩
          · exact (hone.sameEntries hcall).trans ih
          · exact absurd hdeposit hbatch
      exact hindex

/-! ## The catalogue -/

/-- The ids, the game ids and the lists of the players are those of the stored matches. -/
structure Register.Catalogued (r : Register) : Prop where
  stored : ∀ id, (r.matchMap id).isSome = true ↔ id < r.matchCount
  id_eq : ∀ id m, r.matchMap id = some m → m.id = id
  games_ne : ∀ i j m m', r.matchMap i = some m → r.matchMap j = some m' → m.gameId = m'.gameId →
    i = j
  games : ∀ g, r.index.gameId g = true ↔ ∃ id m, r.matchMap id = some m ∧ m.gameId = g
  sorted : ∀ p, (r.index.playerMatches p).Pairwise (· < ·)
  players : ∀ p id, id ∈ r.index.playerMatches p ↔ ∃ m, r.matchMap id = some m ∧ m.isPlayer p

theorem Register.Catalogued.empty : Register.empty.Catalogued := by
  constructor <;> simp [Register.empty]

/-- A match with the terms of a stored one is stored. -/
theorem Register.SameTerms.stored (h : r.SameTerms r') {id : ℕ} (hm : r'.matchMap id = some m') :
    ∃ m, r.matchMap id = some m ∧ m'.terms = m.terms := by
  have hterms := h.terms id
  rw [hm, Option.map_some] at hterms
  obtain ⟨m, hm, heq⟩ := Option.map_eq_some_iff.mp hterms.symm
  exact ⟨m, hm, heq.symm⟩

theorem Register.SameTerms.symm (h : r.SameTerms r') : r'.SameTerms r :=
  ⟨h.count.symm, fun id => (h.terms id).symm⟩

theorem Register.SameTerms.exists_iff (h : r.SameTerms r') {id : ℕ} {Q : Match → Prop}
    (hQ : ∀ m m' : Match, m'.terms = m.terms → Q m → Q m') :
    (∃ m, r'.matchMap id = some m ∧ Q m) ↔ ∃ m, r.matchMap id = some m ∧ Q m := by
  constructor
  · rintro ⟨m', hm', hq⟩
    obtain ⟨m, hm, hterms⟩ := h.stored hm'
    exact ⟨m, hm, hQ m' m hterms.symm hq⟩
  · rintro ⟨m, hm, hq⟩
    obtain ⟨m', hm', hterms⟩ := h.symm.stored hm
    exact ⟨m', hm', hQ m m' hterms.symm hq⟩

theorem Register.Catalogued.same (h : r.Catalogued) (hterms : r.SameTerms r')
    (hentries : r'.index.entries = r.index.entries) : r'.Catalogued := by
  obtain ⟨hgames, hlists⟩ := Prod.mk.inj hentries
  constructor
  · intro id
    have hsome : (r'.matchMap id).isSome = (r.matchMap id).isSome := by
      rw [← Option.isSome_map (f := Match.terms), hterms.terms id, Option.isSome_map]
    rw [hsome, hterms.count]
    exact h.stored id
  · intro id m' hm'
    obtain ⟨m, hm, heq⟩ := hterms.stored hm'
    exact (congrArg Terms.id heq).trans (h.id_eq id m hm)
  · intro i j m1 m2 hm1 hm2 hgame
    obtain ⟨m, hm, heq⟩ := hterms.stored hm1
    obtain ⟨m', hm', heq'⟩ := hterms.stored hm2
    have hsame : m.gameId = m'.gameId :=
      (congrArg Terms.gameId heq).symm.trans (hgame.trans (congrArg Terms.gameId heq'))
    exact h.games_ne i j m m' hm hm' hsame
  · intro g
    rw [hgames, h.games g]
    refine exists_congr fun id => (hterms.exists_iff fun m m' heq hg => ?_).symm
    exact (congrArg Terms.gameId heq).trans hg
  · intro p
    rw [hlists]
    exact h.sorted p
  · intro p id
    rw [hlists, h.players p id]
    exact (hterms.exists_iff fun m m' heq hp => (isPlayer_of_terms heq).mpr hp).symm

theorem addMatch_playerMatches (ix : Index) (hne : m.player1 ≠ m.player2) (p : Address) :
    (ix.addMatch m).playerMatches p =
      if m.isPlayer p then ix.playerMatches p ++ [m.id] else ix.playerMatches p := by
  have hlists : (ix.addMatch m).playerMatches = update (update ix.playerMatches
      m.player1 (ix.playerMatches m.player1 ++ [m.id])) m.player2
      (ix.playerMatches m.player2 ++ [m.id]) := by
    cases hb : m.bracketId <;>
      simp [Index.addMatch, Index.addToBracket, Index.addToPlayer, Index.addToState, hb,
        update_of_ne hne.symm]
  rw [hlists]
  by_cases h2 : p = m.player2
  · subst h2
    rw [update_self, if_pos (.inr rfl)]
  · rw [update_of_ne h2]
    by_cases h1 : p = m.player1
    · subst h1
      rw [update_self, if_pos (.inl rfl)]
    · have hnot : ¬m.isPlayer p := not_or.mpr ⟨h1, h2⟩
      rw [update_of_ne h1, if_neg hnot]

/-- A new match under the next id and a game id that is not in use. -/
theorem Register.Catalogued.opened (h : r.Catalogued) (hid : m.id = r.matchCount)
    (hne : m.player1 ≠ m.player2) (hnew : r.index.gameId m.gameId = false) :
    (r.opened m).Catalogued := by
  have hlt {id : ℕ} {m' : Match} (hm : r.matchMap id = some m') : id < r.matchCount :=
    (h.stored id).mp (by rw [hm]; rfl)
  have hunused {id : ℕ} {m' : Match} (hm : r.matchMap id = some m') : m'.gameId ≠ m.gameId := by
    intro hgame
    have hused : r.index.gameId m.gameId = true := (h.games _).mpr ⟨id, m', hm, hgame⟩
    cases hused.symm.trans hnew
  constructor
  · intro id
    rw [opened_matchMap, opened_matchCount]
    by_cases heq : id = r.matchCount
    · subst heq
      simp
    · rw [update_of_ne heq, h.stored id]
      omega
  · intro id m' hm'
    rcases eq_some_of_update hm' with ⟨rfl, rfl⟩ | ⟨-, hm'⟩
    · exact hid
    · exact h.id_eq id m' hm'
  · intro i j m1 m2 hm1 hm2 hgame
    rcases eq_some_of_update hm1 with ⟨hi, rfl⟩ | ⟨-, hold1⟩ <;>
      rcases eq_some_of_update hm2 with ⟨hj, rfl⟩ | ⟨-, hold2⟩
    · rw [hi, hj]
    · exact absurd hgame.symm (hunused hold2)
    · exact absurd hgame (hunused hold1)
    · exact h.games_ne i j m1 m2 hold1 hold2 hgame
  · intro g
    rw [opened_index, addMatch_gameId]
    by_cases hg : g = m.gameId
    · subst hg
      rw [update_self]
      exact iff_of_true rfl ⟨r.matchCount, m, update_self .., rfl⟩
    · rw [update_of_ne hg, h.games g]
      refine exists_congr fun id => exists_congr fun m' => and_congr_left fun hgame => ?_
      constructor
      · intro hm'
        rw [opened_matchMap, update_of_ne (hlt hm').ne]
        exact hm'
      · intro hm'
        rcases eq_some_of_update hm' with ⟨-, rfl⟩ | ⟨-, hm'⟩
        · exact absurd hgame.symm hg
        · exact hm'
  · intro p
    rw [opened_index, addMatch_playerMatches _ hne]
    split
    · refine pairwise_append.mpr ⟨h.sorted p, pairwise_singleton .., ?_⟩
      intro id hmem j hj
      obtain ⟨m', hm', -⟩ := (h.players p id).mp hmem
      rw [mem_singleton.mp hj, hid]
      exact hlt hm'
    · exact h.sorted p
  · intro p id
    rw [opened_index, addMatch_playerMatches _ hne, opened_matchMap]
    by_cases heq : id = r.matchCount
    · subst heq
      have hfree : r.matchCount ∉ r.index.playerMatches p := fun hmem => by
        obtain ⟨m', hm', -⟩ := (h.players p _).mp hmem
        exact lt_irrefl _ (hlt hm')
      rw [update_self, ← hid]
      rw [← hid] at hfree
      split <;> simp_all
    · rw [update_of_ne heq, ← h.players p id]
      split
      · rw [mem_append, mem_singleton, hid]
        exact or_iff_left heq
      · exact Iff.rfl

/-! ## Runs -/

theorem createMatchInternal_fresh {p : MatchParams} {n : ℕ}
    (h : createMatchInternal p env w = .ok n w') : w.index.gameId p.gameId = false := by
  simp only [createMatchInternal, Tx.bind_ok_iff, Tx.ask_ok_iff] at h
  obtain ⟨_, _, ⟨rfl, rfl⟩, _, w1, hauth, _, w2, hparams, -⟩ := h
  obtain ⟨-, c, -, rfl⟩ := authorizeCreation_ok hauth
  simp [checkParams] at hparams
  obtain ⟨-, -, -, -, -, -, -, -, -, -, -, -, -, -, hnew⟩ := hparams
  exact hnew

theorem exec_catalogued {call : Call} (hw : w.control.oracle.isSome = true)
    (hcat : w.register.Catalogued) (h : call.exec env w = .ok u w') : w'.register.Catalogued := by
  by_cases hcreate : call.action = .create
  · cases call with
    | createMatch | createMatchTournament | createMatchWithConversion | createMatchWithReferrer =>
      obtain ⟨n, h⟩ := void_ok_iff.mp h
      have hnew := createMatchInternal_fresh h
      obtain ⟨hvalid, -, rateLedger, c, snapshots, -, rfl⟩ := createMatchInternal_ok h
      exact hcat.opened rfl hvalid.players hnew
    | _ => exact Action.noConfusion hcreate
  · obtain ⟨hterms, hentries⟩ := exec_sameEntries hw h hcreate
    exact hcat.same hterms hentries

theorem Reachable.catalogued (hw : Reachable w) : w.register.Catalogued := by
  obtain ⟨w0, es, h0, rfl⟩ := hw
  refine (run_inv (I := fun w : World => w.control.oracle.isSome = true ∧ w.register.Catalogued)
    (P := fun _ _ => True) ?_ ⟨h0.book.1, ?_⟩ (along_true w0 es)).2
  · rintro w e ⟨hw, hcat⟩ -
    refine ⟨step_oracle hw e, ?_⟩
    refine step_keeps (P := fun w => w.register.Catalogued) hcat ?_ (fun _ => hcat) fun _ => hcat
    intro env call w' _ h
    have horacle : w.fresh.control.oracle.isSome = true := hw
    have hnext : w'.register.Catalogued := exec_catalogued horacle hcat h
    exact hnext
  · rw [h0.register]
    exact .empty

/-! ## Both walks of the history -/

/-- All matches that are over, newest first. -/
def World.history (w : World) : List Match :=
  overMatches w.matchMap (List.range w.matchCount).reverse

/-- The list of a player picks their matches out of all ids. -/
theorem Register.Catalogued.playerMatches_eq (h : r.Catalogued) (p : Address) :
    r.index.playerMatches p = (List.range r.matchCount).filter fun id =>
      (r.matchMap id).any fun m => m.isPlayer p := by
  have hsorted : ((List.range r.matchCount).filter fun id =>
      (r.matchMap id).any fun m => m.isPlayer p).Pairwise (· < ·) :=
    pairwise_lt_range.filter _
  refine List.Perm.eq_of_pairwise (fun a b _ _ hab hba => absurd hab hba.asymm) (h.sorted p)
    hsorted ?_
  refine (perm_ext_iff_of_nodup ((h.sorted p).imp ne_of_lt) (hsorted.imp ne_of_lt)).mpr
    fun id => ?_
  rw [h.players p id, mem_filter, mem_range, ← h.stored id]
  cases r.matchMap id <;> simp

theorem filterMap_filter_any {α β : Type} (f : α → Option β) (q : β → Bool) (l : List α) :
    (l.filter fun a => (f a).any q).filterMap f = (l.filterMap f).filter q := by
  induction l with
  | nil => rfl
  | cons a l ih =>
    cases ha : f a with
    | none => simp [ha, ih]
    | some b => cases hq : q b <;> simp [ha, hq, ih]

theorem overMatches_playerMatches (h : w.register.Catalogued) (p : Address) :
    overMatches w.matchMap (w.index.playerMatches p).reverse =
      w.history.filter fun m => m.isPlayer p := by
  have hlist : w.index.playerMatches p = (List.range w.matchCount).filter fun id =>
      (w.matchMap id).any fun m => m.isPlayer p := h.playerMatches_eq p
  rw [World.history, overMatches, overMatches, hlist, ← filter_reverse, filterMap_filter_any,
    filter_filter, filter_filter]
  simp only [Bool.and_comm]

/-- Ids, game ids and lists of players are those of the stored matches, and both walks of the
history come to the same matches. -/
theorem archive_consistent (hw : Reachable w) : w.register.Catalogued ∧
    (∀ m, m ∈ w.history ↔ ∃ id, w.matchMap id = some m ∧ m.state.terminal = true) ∧
    w.history.Pairwise (fun m m' => m'.id < m.id) ∧
    (∀ limit offset, w.getMatchHistory none limit offset =
      (w.history.drop offset.toNat).take limit.toNat) ∧
    (∀ full, w.matchCount ≤ full.toNat → w.getMatchHistory none full 0 = w.history) ∧
    ∀ p limit offset, w.getMatchHistory (some p) limit offset =
      ((w.history.filter fun m => m.isPlayer p).drop offset.toNat).take limit.toNat := by
  have hcat := hw.catalogued
  refine ⟨hcat, fun m => ?_, ?_, fun limit offset => w.getMatchHistory_eq none limit offset,
    fun full hfull => ?_, fun p limit offset => ?_⟩
  · rw [World.history, overMatches, mem_filter, mem_filterMap]
    constructor
    · rintro ⟨⟨id, -, hm⟩, hover⟩
      exact ⟨id, hm, hover⟩
    · rintro ⟨id, hm, hover⟩
      have hlt : id < w.matchCount := hw.lt_matchCount hm
      exact ⟨⟨id, by simpa using hlt, hm⟩, hover⟩
  · refine List.Pairwise.filter _ (pairwise_filterMap.mpr ?_)
    refine (pairwise_reverse.mpr pairwise_lt_range).imp ?_
    intro i j hij m hm m' hm'
    rw [hcat.id_eq i m hm, hcat.id_eq j m' hm']
    exact hij
  · have hlength : w.history.length ≤ w.matchCount :=
      calc w.history.length ≤ ((List.range w.matchCount).reverse.filterMap w.matchMap).length :=
            length_filter_le ..
        _ ≤ (List.range w.matchCount).reverse.length := length_filterMap_le ..
        _ = w.matchCount := by simp
    rw [w.getMatchHistory_eq none full 0]
    exact take_of_length_le (hlength.trans hfull)
  · rw [w.getMatchHistory_eq (some p) limit offset]
    exact congrArg (fun l => (l.drop offset.toNat).take limit.toNat)
      (overMatches_playerMatches hcat p)

/-- Match 0 is settled and match 1 cancelled. -/
def closedMatches : List Event :=
  fundedMatch ++
    [.invoke (.plain [0] 0 0) (.submitResult 0 .player1 (.ext 0)),
      .invoke (.plain [2] 0 0)
        (.createMatch (.ext 2) (.ext 6) 100 (.ext 4) [49, 50, 51, 52, 53, 54, 56] .chessDotCom),
      .invoke (.plain [2] 0 0) (.cancelMatch 1 (.ext 2))]

theorem archive_consistent_closedMatches : Reachable (run step .start closedMatches) ∧
    (run step .start closedMatches).register.Catalogued ∧
    ((run step .start closedMatches).getMatchHistory (some (.ext 2)) 1 1).map Match.id = [0] ∧
    (run step .start closedMatches).history.map Match.id = [1, 0] := by
  have hw : Reachable (run step .start closedMatches) := ⟨_, _, World.start_initial, rfl⟩
  exact ⟨hw, (archive_consistent hw).1, by decide +kernel, by decide +kernel⟩

end Checkmate.Escrow
