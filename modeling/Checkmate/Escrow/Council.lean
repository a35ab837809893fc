import Checkmate.Host.Since
import Checkmate.Host.Tally
import Checkmate.Escrow.Writes
import Checkmate.Escrow.Lifecycle

/-!
# The oracle council

The approved oracles vote on the result of a match. The first vote that is accepted sets the
leading winner and every later one has to agree with it, so that the votes of a match are
unanimous in every reachable state, and the confirmations count them
(`Reachable.unanimous`). A vote that does not agree fails, and the flag it has set on the way is
rolled back with it.
-/

namespace Checkmate.Escrow

open Function Consensus

variable {env : Env} {w w' : World} {u : Unit} {i : ℕ} {m : Match} {winner : Winner}
  {oracle : Address}

/-! ## The approved oracles -/

/-- No oracle is approved twice, and a stored requirement can be met. -/
structure Control.Quorate (c : Control) : Prop where
  nodup : c.getApprovedOracles.Nodup
  required : ∀ r, c.requiredOracleConfirmations = some r →
    1 ≤ r ∧ r ≤ c.getApprovedOracles.length

theorem Control.Quorate.of_council {c c' : Control} (h : c.Quorate)
    (heq : c'.council = c.council) : c'.Quorate := by
  obtain ⟨hlist, hcount⟩ := Prod.mk.inj heq
  have happroved : c'.getApprovedOracles = c.getApprovedOracles := by
    rw [Control.getApprovedOracles, hlist, Control.getApprovedOracles]
  exact ⟨happroved ▸ h.nodup, fun r hr => happroved ▸ h.required r (hcount ▸ hr)⟩

theorem ControlCall.exec_quorate {call : ControlCall} {c c' : Control}
    (h : call.exec env c = .ok u c') (hc : c.Quorate) : c'.Quorate := by
  cases hcall : call.onCouncil with
  | false => exact hc.of_council ((ControlCall.exec_frames_council hcall).ok h)
  | true =>
    cases call with
    | addApprovedOracle oracle =>
      simp [ControlCall.exec, Escrow.addApprovedOracle] at h
      obtain ⟨a, -, -, rfl⟩ := h
      split
      · exact hc.of_council rfl
      · rename_i hnew
        refine ⟨?_, fun r hr => ?_⟩
        · refine List.nodup_append.mpr ⟨hc.nodup, List.nodup_singleton _, fun b hb b' hb' => ?_⟩
          rw [List.mem_singleton.mp hb']
          exact ne_of_mem_of_not_mem hb hnew
        · have hle := hc.required r hr
          exact ⟨hle.1, hle.2.trans (by simp [Control.getApprovedOracles])⟩
    | removeApprovedOracle oracle =>
      simp only [ControlCall.exec, Escrow.removeApprovedOracle, Tx.bind_ok_iff,
        requireAdmin_ok_iff, Tx.get_ok_iff, Tx.reject_ok_iff, Tx.modify_ok_iff] at h
      obtain ⟨a, _, ⟨-, -, -, rfl⟩, _, _, ⟨rfl, rfl⟩, _, _, ⟨hle, rfl⟩, rfl⟩ := h
      refine ⟨hc.nodup.filter _, fun r hr => ?_⟩
      obtain hr : c.requiredOracleConfirmations = some r := hr
      have hrequired : r ≤ c.getApprovedOracles.length - 1 := by
        have hstored : c.getRequiredConfirmations = r := by
          rw [Control.getRequiredConfirmations, hr]
          rfl
        exact hstored ▸ not_lt.mp hle
      have hrest :
          c.getApprovedOracles.filter (· ≠ oracle) = c.getApprovedOracles.erase oracle := by
        rw [hc.nodup.erase_eq_filter]
        simp [bne, beq_eq_decide]
      refine ⟨(hc.required r hr).1, hrequired.trans ?_⟩
      change _ ≤ (c.getApprovedOracles.filter (· ≠ oracle)).length
      rw [hrest]
      exact List.le_length_erase
    | setRequiredConfirmations =>
      simp [ControlCall.exec, Escrow.setRequiredConfirmations] at h
      obtain ⟨a, -, hle, rfl⟩ := h
      refine ⟨hc.nodup, fun r hr => ?_⟩
      obtain rfl := Option.some.inj hr
      exact ⟨by omega, hle.2⟩
    | _ => exact Bool.noConfusion hcall

theorem Reachable.quorate (hw : Reachable w) : w.control.Quorate := by
  refine hw.control_inv (fun h0 => ?_) (fun _ hc => hc.of_council rfl)
    (fun _ _ hc => hc.of_council rfl) (fun _ hc => hc.of_council rfl) ControlCall.exec_quorate
  obtain ⟨oracle, admin, l, -, rfl⟩ := h0.eq_mk
  exact ⟨List.nodup_nil, fun r hr => absurd hr (by simp)⟩

/-! ## The votes of a run -/

/-- What the votes have written. -/
def Consensus.ballots (s : Consensus) : Consensus := { s with oracleRecord := fun _ => none }

/-- Only votes write ballots, and a settlement leaves them alone. -/
theorem Write.keeps_ballots {k : Write} (hk : k ≠ .consensus) {s : Consensus} :
    k.Keeps env fun w => w.consensus.ballots = s := by
  cases k with
  | consensus => exact absurd rfl hk
  | auth | control | matchCount | index | stats | playerSnapshot | disputes =>
    exact fun _ _ hw => hw
  | _ => intro _; intros; assumption

theorem Call.exec_frames_ballots {call : Call}
    (h : ∀ id winner oracle, call ≠ .submitResultConsensus id winner oracle) :
    Tx.Frames (fun w => w.consensus.ballots) call.exec := by
  refine Call.exec_frames fun k hk env s => Write.keeps_ballots ?_
  rintro rfl
  cases call <;> first | exact Bool.noConfusion hk | exact absurd rfl (h _ _ _)

theorem submitResultConsensus_ballots (h : submitResultConsensus i winner oracle env w = .ok u w') :
    ∃ flag : ℕ → Bool, (∀ id ≠ i, flag id = w.consensus.oracleDeadlock id) ∧ w'.consensus.ballots =
        { (w.consensus.cast i winner oracle).ballots with oracleDeadlock := flag } := by
  obtain ⟨m, -, h⟩ := submitResultConsensus_ok_iff.mp h
  rcases Tx.ite_ok_iff.mp h with ⟨-, h⟩ | ⟨-, h⟩
  · refine ⟨w.consensus.oracleDeadlock, fun _ _ => rfl, ?_⟩
    refine Tx.Maintains.ok (settleResult_maintains (fun k hk => Write.keeps_ballots ?_) _ _) rfl h
    rintro rfl
    exact Bool.noConfusion hk
  · rcases checkOracleDeadlock_ok_iff.mp h with ⟨-, rfl⟩ | ⟨-, rfl⟩
    · exact ⟨_, fun id hid => update_of_ne hid .., rfl⟩
    · exact ⟨w.consensus.oracleDeadlock, fun _ _ => rfl, rfl⟩

/-- The event is the vote of an approved oracle that has not voted, and it is recorded. -/
structure CastsVote (matchId : ℕ) (winner : Winner) (oracle : Address) (w : World) (e : Event) :
    Prop where
  call : ∃ env, e = .invoke env (.submitResultConsensus matchId winner oracle)
  approved : oracle ∈ w.control.getApprovedOracles
  unvoted : w.consensus.oracleVote (matchId, oracle) = none
  recorded : (step w e).consensus.oracleVote (matchId, oracle) = some winner

/-- An event leaves the ballots or is a vote that adds to them. -/
theorem step_ballots (w : World) (e : Event) : (step w e).consensus.ballots = w.consensus.ballots ∨
      ∃ i winner oracle flag, CastsVote i winner oracle w e ∧
        (w.consensus.oracleConfirmations i = 0 ∨
          w.consensus.consensusLeadingWinner i = some winner) ∧
        (∀ id ≠ i, flag id = w.consensus.oracleDeadlock id) ∧ (step w e).consensus.ballots =
          { (w.consensus.cast i winner oracle).ballots with oracleDeadlock := flag } := by
  by_cases hvote : ∃ env id winner oracle, e = .invoke env (.submitResultConsensus id winner oracle)
  · obtain ⟨env, id, winner, oracle, rfl⟩ := hvote
    by_cases hc : Commits env (Call.submitResultConsensus id winner oracle).exec w
    case neg => exact .inl (by rw [step, invoke_of_not_commits hc])
    obtain ⟨w', h⟩ := hc
    have hstep : step w (.invoke env (.submitResultConsensus id winner oracle)) = w'.fresh :=
      invoke_of_ok h
    obtain ⟨m, hopen, -⟩ := submitResultConsensus_ok_iff.mp h
    obtain ⟨flag, hflag, hballots⟩ := submitResultConsensus_ballots h
    refine .inr ⟨id, winner, oracle, flag, ⟨⟨env, rfl⟩, hopen.approved, hopen.unvoted, ?_⟩,
      hopen.agrees, hflag, hstep ▸ hballots⟩
    have hvotes := congrArg (fun s => s.oracleVote (id, oracle)) hballots
    rw [hstep]
    exact hvotes.trans (update_self ..)
  · refine .inl (step_keeps (P := fun w' => w'.consensus.ballots = w.consensus.ballots) rfl ?_
      (fun _ => rfl) fun _ => rfl)
    rintro env call w' rfl h
    have hcall (id : ℕ) (winner : Winner) (oracle : Address) :
        call ≠ .submitResultConsensus id winner oracle := by
      rintro rfl
      exact hvote ⟨env, id, winner, oracle, rfl⟩
    have hballots : w'.consensus.ballots = w.fresh.consensus.ballots :=
      (Call.exec_frames_ballots hcall).ok h
    exact hballots

/-- The votes of every match are unanimous, and the confirmations count them. A flagged match
has votes. -/
structure Consensus.Sound (s : Consensus) : Prop where
  unanimous : ∀ matchId, Unanimous (fun a => s.oracleVote (matchId, a))
    (s.consensusLeadingWinner matchId) (s.oracleConfirmations matchId)
  flagged : ∀ matchId, s.oracleDeadlock matchId = true → s.oracleConfirmations matchId ≠ 0

theorem Consensus.Sound.of_ballots {s s' : Consensus} (h : s.Sound)
    (heq : s'.ballots = s.ballots) : s'.Sound := by
  have hballots : s'.ballots.Sound := heq ▸ ⟨h.unanimous, h.flagged⟩
  exact ⟨hballots.unanimous, hballots.flagged⟩

theorem Consensus.Sound.cast {s s' : Consensus} {flag : ℕ → Bool} (h : s.Sound)
    (hunvoted : s.oracleVote (i, oracle) = none) (hagrees : s.oracleConfirmations i = 0 ∨
      s.consensusLeadingWinner i = some winner) (hflag : ∀ id ≠ i, flag id = s.oracleDeadlock id)
    (heq : s'.ballots = { (s.cast i winner oracle).ballots with oracleDeadlock := flag }) :
    s'.Sound := by
  refine of_ballots (s := { s.cast i winner oracle with oracleDeadlock := flag })
    ⟨fun id => ?_, fun id hid => ?_⟩ heq
  · by_cases hne : id = i
    · subst hne
      have hcast := (h.unanimous id).cast hunvoted hagrees
      simp only [cast_oracleVote, cast_consensusLeadingWinner,
        cast_oracleConfirmations, update_self]
      convert hcast using 1
      funext a
      by_cases ha : a = oracle <;> simp [ha]
    · simpa [update_apply, hne] using h.unanimous id
  · by_cases hne : id = i
    · simp [hne]
    · simp only [cast_oracleConfirmations, update_of_ne hne]
      exact h.flagged id (hflag id hne ▸ hid)

theorem step_sound (h : w.consensus.Sound) (e : Event) : (step w e).consensus.Sound := by
  rcases step_ballots w e with heq | ⟨id, winner, oracle, flag, hcasts, hagrees, hflag, heq⟩
  · exact h.of_ballots heq
  · exact h.cast hcasts.unvoted hagrees hflag heq

theorem Initial.consensus {w0 : World} (h0 : Initial w0) : w0.consensus = {} := by
  obtain ⟨oracle, admin, l, -, rfl⟩ := h0.eq_mk
  rfl

theorem Reachable.consensus_sound (hw : Reachable w) : w.consensus.Sound := by
  obtain ⟨w0, es, h0, rfl⟩ := hw
  refine run_inv (I := fun w => w.consensus.Sound) (fun w e hw _ => step_sound hw e) ?_
    (along_true w0 es)
  rw [h0.consensus]
  exact ⟨fun _ => .empty fun _ => rfl, fun _ h => absurd h (by simp)⟩

/-- A vote stands. -/
theorem step_vote {v : Winner} (h : w.consensus.oracleVote (i, oracle) = some v)
    (e : Event) : (step w e).consensus.oracleVote (i, oracle) = some v := by
  rcases step_ballots w e with heq | ⟨id, winner, a, flag, hcasts, -, -, heq⟩
  · exact (congrFun (congrArg Consensus.oracleVote heq) _).trans h
  · have hne : (i, oracle) ≠ (id, a) := by
      intro heq
      rw [heq] at h
      cases hcasts.unvoted.symm.trans h
    have hvote := congrFun (congrArg Consensus.oracleVote heq) (i, oracle)
    exact hvote.trans ((update_of_ne hne ..).trans h)

theorem run_vote {v : Winner} (h : w.consensus.oracleVote (i, oracle) = some v)
    (es : List Event) : (run step w es).consensus.oracleVote (i, oracle) = some v :=
  run_inv (I := fun w => w.consensus.oracleVote (i, oracle) = some v)
    (fun _ e hw _ => step_vote hw e) h (along_true w es)

/-- Whoever has voted was approved at that moment. -/
theorem since_castsVote {w0 : World} (h0 : Initial w0) {es : List Event} {v : Winner}
    (h : (run step w0 es).consensus.oracleVote (i, oracle) = some v) :
    Since step (CastsVote i v oracle) (fun _ _ => True) w0 es := by
  have hal : Along step (fun _ _ => True) w0 es := along_true w0 es
  refine history_inv (I := fun es =>
    (run step w0 es).consensus.oracleVote (i, oracle) = some v →
      Since step (CastsVote i v oracle) (fun _ _ => True) w0 es) ?_ ?_ hal h
  · rw [run_nil, h0.consensus]
    exact fun h => absurd h (by simp)
  · intro es e ih _ h
    rw [run_snoc] at h
    cases hold : (run step w0 es).consensus.oracleVote (i, oracle) with
    | some =>
      obtain rfl := Option.some.inj ((step_vote hold e).symm.trans h)
      exact (ih hold).later trivial
    | none =>
      rcases step_ballots (run step w0 es) e with heq | ⟨id, winner, a, flag, hcasts, -, -, heq⟩
      · have hsame := congrFun (congrArg Consensus.oracleVote heq) (i, oracle)
        exact absurd (hold.symm.trans (hsame.symm.trans h)) (by simp)
      · have hvote := congrFun (congrArg Consensus.oracleVote heq) (i, oracle)
        by_cases hpair : (i, oracle) = (id, a)
        · obtain ⟨rfl, rfl⟩ := Prod.mk.inj hpair
          obtain rfl := Option.mem_unique hcasts.recorded h
          exact .now hcasts
        · have hsame := hvote.trans (update_of_ne hpair ..)
          exact absurd (hold.symm.trans (hsame.symm.trans h)) (by simp)

/-! ## Settlements by vote -/

/-- The event is a vote that takes the match out of play. -/
structure SettlesByVote (matchId : ℕ) (w : World) (e : Event) : Prop where
  call : ∃ env winner oracle, e = .invoke env (.submitResultConsensus matchId winner oracle)
  before : ∃ m, w.matchMap matchId = some m ∧ m.state = .active
  after : ∀ m, (step w e).matchMap matchId = some m → m.state ≠ .active

theorem settleResult_match (h : settleResult i winner env w = .ok u w') :
    ∃ m, w'.matchMap i = some m ∧ m.winner = winner ∧ winner ≠ .none := by
  obtain ⟨m, hopen, ⟨-, -, rfl⟩ | ⟨-, balance, -, -, rfl⟩⟩ := settleResult_ok_iff.mp h
  · exact ⟨_, update_self .., rfl, hopen.winner⟩
  · exact ⟨_, update_self .., rfl, hopen.winner⟩

/-- A vote settles a match when it is the last that is required. -/
theorem SettlesByVote.reached {e : Event} (h : SettlesByVote i w e) :
    ∃ winner oracle m, CastsVote i winner oracle w e ∧
      (step w e).matchMap i = some m ∧ m.winner = winner ∧ winner ≠ .none ∧
      w.control.getRequiredConfirmations ≤ (step w e).consensus.oracleConfirmations i := by
  obtain ⟨⟨env, winner, oracle, rfl⟩, ⟨m, hm, hactive⟩, hafter⟩ := h
  have hc : Commits env (Call.submitResultConsensus i winner oracle).exec w := by
    by_contra hc
    rw [step, invoke_of_not_commits hc] at hafter
    exact hafter m hm hactive
  obtain ⟨w', h⟩ := hc
  have hstep : step w (.invoke env (.submitResultConsensus i winner oracle)) = w'.fresh :=
    invoke_of_ok h
  obtain ⟨flag, -, hballots⟩ := submitResultConsensus_ballots h
  obtain ⟨m1, hopen, hcount⟩ := submitResultConsensus_ok_iff.mp h
  rw [hstep] at hafter ⊢
  rcases Tx.ite_ok_iff.mp hcount with ⟨hreached, hsettle⟩ | ⟨-, hcheck⟩
  · obtain ⟨m', hm', hwinner, hne⟩ := settleResult_match hsettle
    have hvote := congrArg (fun s => s.oracleVote (i, oracle)) hballots
    have hconf := congrArg (fun s => s.oracleConfirmations i) hballots
    refine ⟨winner, oracle, m', ⟨⟨env, rfl⟩, hopen.approved, hopen.unvoted, ?_⟩, hm', hwinner, hne,
      ?_⟩
    · rw [hstep]
      exact hvote.trans (update_self ..)
    · exact hreached.trans_eq (hconf.trans (update_self ..)).symm
  · have hmap : w'.matchMap = w.matchMap := by
      rcases checkOracleDeadlock_ok_iff.mp hcheck with ⟨-, rfl⟩ | ⟨-, rfl⟩ <;> rfl
    exact absurd hactive (hafter m ((congrFun hmap i).trans hm))

/-- In every reachable state no oracle is approved twice, a stored requirement is between one and
the number of approved oracles, and the confirmations of a match count those who have voted on
it, all of them for the leading winner. The winner of a match that a vote has settled is the
vote of as many oracles as were required then, each approved when it voted. -/
theorem council_bookkeeping {w0 : World} (h0 : Initial w0) (es : List Event) :
    (run step w0 es).control.getApprovedOracles.Nodup ∧
    (∀ r, (run step w0 es).control.requiredOracleConfirmations = some r →
      1 ≤ r ∧ r ≤ (run step w0 es).control.getApprovedOracles.length) ∧ (∀ i,
      Set.encard {a | ((run step w0 es).consensus.oracleVote (i, a)).isSome = true} =
        (run step w0 es).consensus.oracleConfirmations i ∧
      ∀ a v, (run step w0 es).consensus.oracleVote (i, a) = some v →
        (run step w0 es).consensus.consensusLeadingWinner i = some v) ∧
    ∀ before e after i, es = before ++ e :: after → SettlesByVote i (run step w0 before) e →
      ∃ m, (run step w0 es).matchMap i = some m ∧ ∃ s : Finset Address,
        (run step w0 before).control.getRequiredConfirmations ≤ s.card ∧
        ∀ a ∈ s, (run step w0 es).consensus.oracleVote (i, a) = some m.winner ∧
          Since step (CastsVote i m.winner a) (fun _ _ => True) w0 (before ++ [e]) := by
  have hw : Reachable (run step w0 es) := ⟨w0, es, h0, rfl⟩
  refine ⟨hw.quorate.nodup, hw.quorate.required, fun id => ?_, ?_⟩
  · exact ⟨(hw.consensus_sound.unanimous id).card, (hw.consensus_sound.unanimous id).leader⟩
  rintro before e after i rfl hsettles
  obtain ⟨winner, oracle, m, hcasts, hm, hwinner, hne, hreached⟩ := hsettles.reached
  have hthen : Reachable (run step w0 (before ++ [e])) := ⟨w0, _, h0, rfl⟩
  have hstep : step (run step w0 before) e = run step w0 (before ++ [e]) := (run_snoc ..).symm
  have hrest :
      run step w0 (before ++ e :: after) = run step (run step w0 (before ++ [e])) after := by
    rw [← run_append, List.append_assoc, List.singleton_append]
  rw [hstep] at hm hreached
  obtain ⟨m', hm', hevolves⟩ := run_evolves hthen hm after
  have hunanimous := hthen.consensus_sound.unanimous i
  obtain ⟨s, hcard, hs⟩ := hunanimous.exists_voters
  refine ⟨m', hrest ▸ hm', s, hcard ▸ hreached, fun a ha => ?_⟩
  obtain ⟨v, hv⟩ := Option.isSome_iff_exists.mp (hs a ha)
  have hlead := hunanimous.leader oracle winner (hstep ▸ hcasts.recorded)
  obtain rfl : v = winner := Option.some.inj ((hunanimous.leader a v hv).symm.trans hlead)
  rw [hevolves.winner (by rwa [hwinner]), hwinner, hrest]
  exact ⟨run_vote hv after, since_castsVote h0 hv⟩

/-- Match 0 is funded, addresses 5 and 6 are approved, and 5 has voted. -/
def halfVotedMatch : List Event :=
  fundedMatch ++
    [.invoke (.plain [1] 0 0) (.control (.addApprovedOracle (.ext 5))),
      .invoke (.plain [1] 0 0) (.control (.addApprovedOracle (.ext 6))),
      .invoke (.plain [1] 0 0) (.control (.setRequiredConfirmations 2)),
      .invoke (.plain [5] 0 0) (.submitResultConsensus 0 .player1 (.ext 5))]

/-- Address 6 agrees. -/
def lastVote : Event := .invoke (.plain [6] 0 0) (.submitResultConsensus 0 .player1 (.ext 6))

theorem council_bookkeeping_halfVotedMatch :
    SettlesByVote 0 (run step .start halfVotedMatch) lastVote ∧
    ∃ m, (run step .start (halfVotedMatch ++ [lastVote])).matchMap 0 = some m ∧
      ∃ s : Finset Address, 2 ≤ s.card ∧ ∀ a ∈ s,
        (run step .start (halfVotedMatch ++ [lastVote])).consensus.oracleVote (0, a) =
          some m.winner ∧ Since step (CastsVote 0 m.winner a) (fun _ _ => True) .start
          (halfVotedMatch ++ [lastVote]) := by
  have hbefore : ((run step .start halfVotedMatch).matchMap 0).map Match.state = some .active := by
    decide +kernel
  have hafter : ((step (run step .start halfVotedMatch) lastVote).matchMap 0).map Match.state =
      some .completed := by
    decide +kernel
  have hrequired : (run step .start halfVotedMatch).control.getRequiredConfirmations = 2 := by
    decide +kernel
  have hsettles : SettlesByVote 0 (run step .start halfVotedMatch) lastVote := by
    refine ⟨⟨_, _, _, rfl⟩, Option.map_eq_some_iff.mp hbefore, fun m hm hactive => ?_⟩
    rw [hm] at hafter
    exact absurd (hactive.symm.trans (Option.some.inj hafter)) (by decide)
  refine ⟨hsettles, ?_⟩
  rw [← hrequired]
  exact (council_bookkeeping World.start_initial (halfVotedMatch ++ [lastVote])).2.2.2
    halfVotedMatch lastVote [] 0 rfl hsettles

end Checkmate.Escrow
