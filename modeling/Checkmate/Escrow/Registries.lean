import Checkmate.Escrow.Runs

/-!
# The registries of tokens and players

The admin keeps three registries : allowed tokens, blacklisted tokens and frozen players. Each has
a key for every member, for lookups, and a list of its members. The allowed tokens have a counter
and a flag besides, which says that the list is enforced. In every reachable state they agree
(`registries_coherent`), so a lookup is a question about membership, in whatever order the members
came and went.
-/

namespace Checkmate.Escrow

open Function Tx

/-- The list has the members of the key set, each once. -/
structure Lists (key : Address → Bool) (l : List Address) : Prop where
  mem_iff : ∀ a, a ∈ l ↔ key a = true
  nodup : l.Nodup

section

variable {key : Address → Bool} {f : Address → Option Bytes} {l : List Address} {a : Address}

theorem Lists.add (h : Lists key l) (hnew : key a = false) :
    Lists (update key a true) (l ++ [a]) := by
  refine ⟨fun b => ?_, ?_⟩
  · by_cases hb : b = a <;> simp [hb, h.mem_iff]
  · refine List.nodup_append.mpr ⟨h.nodup, List.nodup_singleton _, fun b hb b' hb' => ?_⟩
    rw [List.mem_singleton.mp hb']
    rintro rfl
    simp [h.mem_iff, hnew] at hb

theorem Lists.keep (h : Lists key l) (hold : key a = true) : Lists (update key a true) l := by
  rwa [update_eq_self_iff.mpr hold.symm]

theorem Lists.remove (h : Lists key l) : Lists (update key a false) (l.filter (· ≠ a)) := by
  refine ⟨fun b => ?_, h.nodup.filter _⟩
  by_cases hb : b = a <;> simp [hb, h.mem_iff]

theorem Lists.length_remove (h : Lists key l) (hold : key a = true) :
    (l.filter (· ≠ a)).length = l.length - 1 := by
  have herase : l.filter (· ≠ a) = l.erase a := by
    rw [h.nodup.erase_eq_filter]
    simp [bne, beq_eq_decide]
  rw [herase, List.length_erase_of_mem ((h.mem_iff a).mpr hold)]

theorem Lists.remove_absent (h : Lists key l) (hnew : key a = false) : l.filter (· ≠ a) = l := by
  simp only [List.filter_eq_self, decide_eq_true_eq]
  rintro b hb rfl
  simp [h.mem_iff, hnew] at hb

theorem Lists.addReason (h : Lists (Option.isSome ∘ f) l) (reason : Bytes) :
    Lists (Option.isSome ∘ update f a (some reason)) (if f a = none then l ++ [a] else l) := by
  rw [comp_update]
  cases hf : f a with
  | none => exact h.add (by simp [hf])
  | some => exact h.keep (by simp [hf])

theorem Lists.removeReason (h : Lists (Option.isSome ∘ f) l) :
    Lists (Option.isSome ∘ update f a none) (l.filter (· ≠ a)) := by
  rw [comp_update]
  exact h.remove

end

/-- Every registry agrees with itself. -/
structure Registries.Coherent (r : Registries) : Prop where
  allowed : Lists r.allowedToken r.allowedTokens
  count : r.allowedTokenCount = r.allowedTokens.length
  enforced : r.allowlistEnforced = true ↔ r.allowedTokens ≠ []
  blacklisted : Lists (Option.isSome ∘ r.blacklistedToken) r.blacklistedTokens
  frozen : Lists (Option.isSome ∘ r.frozenPlayer) r.frozenPlayers

variable {env : Env} {w : World} {c c' : Control} {u : Unit} {call : ControlCall}

theorem ControlCall.exec_frames_registries (h : call.onRegistries = false) :
    Frames Control.registries call.exec := by
  refine frames_iff.mpr fun env v => exec_maintains_parts
    (fun c c' _ _ hregistries hv => (hregistries h).trans hv) fun k hother _ => ?_
  cases k with
  | other => exact absurd rfl hother
  | _ => intro _; intros; assumption

theorem ControlCall.exec_coherent (h : call.exec env c = .ok u c') (hc : c.registries.Coherent) :
    c'.registries.Coherent := by
  cases hcall : call.onRegistries with
  | false => rwa [(ControlCall.exec_frames_registries hcall).ok h]
  | true =>
    cases call with
    | addAllowedToken token =>
      have hmem : token ∈ c.allowedTokens ↔ c.allowedToken token = true := hc.allowed.mem_iff token
      simp [ControlCall.exec, Escrow.addAllowedToken] at h
      obtain ⟨admin, -, _, ⟨hnew, -, rfl⟩ | ⟨hold, rfl⟩, rfl⟩ := h
      · rw [appendNew, if_neg (by simp [hmem, hnew])]
        refine ⟨hc.allowed.add hnew, ?_, by simp [Control.registries], hc.blacklisted, hc.frozen⟩
        change c.allowedTokenCount + 1 = (c.allowedTokens ++ [token]).length
        rw [List.length_append, show c.allowedTokenCount = _ from hc.count]
        rfl
      · rw [appendNew, if_pos (hmem.mpr hold)]
        have hne : c.allowedTokens ≠ [] := List.ne_nil_of_mem (hmem.mpr hold)
        exact ⟨hc.allowed.keep hold, hc.count, iff_of_true rfl hne, hc.blacklisted, hc.frozen⟩
    | removeAllowedToken token =>
      simp only [ControlCall.exec, Escrow.removeAllowedToken, bind_ok_iff, requireAdmin_ok_iff,
        get_ok_iff, modify_ok_iff, when_ok_iff] at h
      obtain ⟨admin, _, ⟨-, -, -, rfl⟩, _, _, ⟨rfl, rfl⟩, _, _, rfl, _, _, h, rfl⟩ := h
      have hcount : c.allowedTokenCount = c.allowedTokens.length := hc.count
      rcases h with ⟨hold, rfl⟩ | ⟨hnew, rfl⟩
      · have hlength : (c.allowedTokens.filter (· ≠ token)).length = c.allowedTokens.length - 1 :=
          hc.allowed.length_remove hold
        have hone : 1 ≤ c.allowedTokens.length :=
          List.length_pos_of_mem ((hc.allowed.mem_iff token).mpr hold)
        refine ⟨hc.allowed.remove, ?_, ?_, hc.blacklisted, hc.frozen⟩
        · exact (congrArg (· - 1) hcount).trans hlength.symm
        · have henforced : c.allowlistEnforced = true :=
            hc.enforced.mpr (List.length_pos_iff.mp hone)
          change (if c.allowedTokenCount - 1 = 0 then false else c.allowlistEnforced) = true ↔
            c.allowedTokens.filter (· ≠ token) ≠ []
          rw [henforced, ← List.length_pos_iff, hlength, hcount]
          split <;> simp <;> omega
      · have hsame : c.allowedTokens.filter (· ≠ token) = c.allowedTokens :=
          hc.allowed.remove_absent (Bool.eq_false_iff.mpr hnew)
        refine ⟨hc.allowed.remove, ?_, ?_, hc.blacklisted, hc.frozen⟩
        · exact hcount.trans (congrArg List.length hsame.symm)
        · change _ ↔ c.allowedTokens.filter (· ≠ token) ≠ []
          rw [hsame]
          exact hc.enforced
    | addTokenToBlacklist token reason =>
      simp [ControlCall.exec, Escrow.addTokenToBlacklist] at h
      obtain ⟨admin, -, -, rfl⟩ := h
      exact { hc with blacklisted := hc.blacklisted.addReason reason }
    | removeTokenFromBlacklist =>
      simp only [ControlCall.exec, Escrow.removeTokenFromBlacklist, asAdmin, bind_ok_iff,
        requireAdmin_ok_iff, modify_ok_iff] at h
      obtain ⟨admin, _, ⟨-, -, -, rfl⟩, rfl⟩ := h
      split
      · exact { hc with blacklisted := hc.blacklisted.removeReason }
      · exact hc
    | adminFreezePlayer player reason =>
      simp [ControlCall.exec, Escrow.adminFreezePlayer] at h
      obtain ⟨admin, -, -, rfl⟩ := h
      exact { hc with frozen := hc.frozen.addReason reason }
    | adminUnfreezePlayer =>
      simp only [ControlCall.exec, Escrow.adminUnfreezePlayer, asAdmin, bind_ok_iff,
        requireAdmin_ok_iff, modify_ok_iff] at h
      obtain ⟨admin, _, ⟨-, -, -, rfl⟩, rfl⟩ := h
      split
      · exact { hc with frozen := hc.frozen.removeReason }
      · exact hc
    | _ => exact Bool.noConfusion hcall

/-- `createMatch` does not refuse the token. -/
def Control.acceptsToken (c : Control) (token : Address) : Prop :=
  (c.blacklistedToken token).isSome = false ∧
    ¬(c.allowlistEnforced = true ∧ c.allowedToken token = false)

theorem checkParams_accepts {p : MatchParams} {w' : World} (h : checkParams p env w = .ok u w') :
    (∀ token ∈ p.token :: p.tokenB.toList, w.control.acceptsToken token) ∧
      w.control.frozenPlayer p.player1 = none ∧ w.control.frozenPlayer p.player2 = none := by
  simp only [checkParams, bind_ok_iff, onControl_ok_iff, requireNotPaused_ok_iff,
    requirePlayerNotFrozen_ok_iff, get_ok_iff, reject_ok_iff] at h
  obtain ⟨_, _, ⟨_, ⟨-, rfl⟩, rfl⟩, _, _, ⟨_, ⟨h1, rfl⟩, rfl⟩, _, _, ⟨_, ⟨h2, rfl⟩, rfl⟩, _, _,
    ⟨rfl, rfl⟩, _, _, ⟨hblacklist, rfl⟩, _, _, ⟨hallowed, rfl⟩, -⟩ := h
  refine ⟨fun token htoken => ⟨?_, fun hrefused => hallowed ⟨hrefused.1, ?_⟩⟩, h1, h2⟩
  · rw [Bool.eq_false_iff]
    exact fun hkey => hblacklist (List.any_eq_true.mpr ⟨token, htoken, hkey⟩)
  · exact List.any_eq_true.mpr ⟨token, htoken, by simp [hrefused.2]⟩

/-- In every reachable state the registries are coherent. So `createMatch` accepts a token exactly
if it is not on the blacklist, and on the allowlist if there is one, and a player exactly if it is
not on the list of frozen players. -/
theorem registries_coherent (hw : Reachable w) : w.control.registries.Coherent ∧
    (∀ token, w.control.acceptsToken token ↔ token ∉ w.control.blacklistedTokens ∧
      (w.control.allowedTokens = [] ∨ token ∈ w.control.allowedTokens)) ∧
    (∀ player, w.control.frozenPlayer player = none ↔ player ∉ w.control.frozenPlayers) ∧
    ∀ {p env u w'}, checkParams p env w = .ok u w' →
      (∀ token ∈ p.token :: p.tokenB.toList, w.control.acceptsToken token) ∧
      w.control.frozenPlayer p.player1 = none ∧ w.control.frozenPlayer p.player2 = none := by
  have hc : w.control.registries.Coherent := by
    refine hw.control_inv (Q := fun c => c.registries.Coherent) (fun h0 => ?_) (fun _ hc => hc)
      (fun _ _ hc => hc) (fun _ hc => hc) ControlCall.exec_coherent
    obtain ⟨oracle, admin, l, -, rfl⟩ := h0.eq_mk
    refine ⟨⟨?_, List.nodup_nil⟩, rfl, ?_, ⟨?_, List.nodup_nil⟩, ⟨?_, List.nodup_nil⟩⟩ <;>
      simp [Control.registries]
  refine ⟨hc, fun token => ?_, fun player => ?_, checkParams_accepts⟩
  · have hblacklisted := hc.blacklisted.mem_iff token
    have hallowed := hc.allowed.mem_iff token
    have henforced := hc.enforced
    simp only [Control.registries, comp_apply] at hblacklisted hallowed henforced
    rw [Control.acceptsToken, hblacklisted, hallowed, henforced]
    cases w.control.allowedToken token <;> simp [or_iff_not_imp_left]
  · have hfrozen := hc.frozen.mem_iff player
    simp only [Control.registries, comp_apply] at hfrozen
    rw [hfrozen]
    simp

/-- The admin allows token 4. -/
def allowed4 : List Event := [.invoke (.plain [1] 0 0) (.control (.addAllowedToken (.ext 4)))]

theorem registries_coherent_allowed4 :
    (run step .start allowed4).control.allowedTokens = [.ext 4] ∧
      (run step .start allowed4).control.acceptsToken (.ext 4) :=
  ⟨by decide +kernel, ((registries_coherent ⟨_, _, World.start_initial, rfl⟩).2.1 _).mpr
    ⟨by decide +kernel, .inr (by decide +kernel)⟩⟩

end Checkmate.Escrow
