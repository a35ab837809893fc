import Mathlib.Data.List.Nodup
import Checkmate.Oracle.Types

/-!
# Providers of game results

A registry asks its providers in order of precedence. A provider that is unavailable or busy
is passed over, any other answer is final.

`fetchResult` asks for one game, `fetchResultsBatch` for many, one round of all open games per
provider. For one game a round is a step of `GameState` (`batchRound_eq`), so that the batch
answers each game by itself, in the order of the input. It keeps no place for an error that is
final, and reports such a game as a draw : an entry is what `fetchResult` returns unless the
provider that answers for the game answers with an error (`batch_entry_iff`).
-/

namespace Checkmate.Service

open List

/-- The winner of a game, as the oracle contract takes it. -/
abbrev Winner := Oracle.Winner

/-! ## Providers -/

inductive ProviderError where
  | rateLimited (provider : String) (retryAfter : ℕ)
  | unavailable (provider reason : String)
  | concurrencyLimitReached (provider : String)
  | invalidGameId (text : String)
  | gameNotFinished
  | gameNotFound
  | invalidResponse (provider detail : String)
  | allProvidersFailed (count : ℕ) (errors : List ProviderError)

namespace ProviderError

def shouldFailover : ProviderError → Bool
  | .unavailable .. | .concurrencyLimitReached _ => true
  | _ => false

def isRateLimited : ProviderError → Bool
  | .rateLimited .. => true
  | _ => false

def isConcurrencyLimited : ProviderError → Bool
  | .concurrencyLimitReached _ => true
  | _ => false

/-- The error sends the registry on to the next provider. -/
def passesOn (e : ProviderError) : Bool :=
  e.shouldFailover || e.isRateLimited || e.isConcurrencyLimited

end ProviderError

/-- What a provider answers for a game. -/
abbrev Answer := Except ProviderError Winner

/-- A chess platform, by its answers. -/
structure GameProvider where
  name : String
  fetchResult : String → Answer
  fetchResultsBatch : List String → List (String × Answer)

namespace GameProvider

/-- The batch of a platform without a batch endpoint. -/
def defaultBatch (fetchResult : String → Answer) (gameIds : List String) :
    List (String × Answer) :=
  gameIds.map fun gameId => (gameId, fetchResult gameId)

/-- A batch has one entry per id in order, with the answer for that id alone. -/
def Uniform (p : GameProvider) : Prop :=
  ∀ gameIds, p.fetchResultsBatch gameIds = defaultBatch p.fetchResult gameIds

end GameProvider

/-- Providers in order of precedence. -/
structure ProviderRegistry where
  providers : List GameProvider
  nonempty : providers ≠ []

/-! ## One game -/

/-- The loop of `fetch_result`, after some providers were passed over. -/
def fetchResultFrom (gameId : String) : List GameProvider → List ProviderError → Answer
  | [], failoverErrors => .error (.allProvidersFailed failoverErrors.length failoverErrors)
  | p :: ps, failoverErrors =>
    match p.fetchResult gameId with
    | .ok winner => .ok winner
    | .error e =>
      if e.passesOn then fetchResultFrom gameId ps (failoverErrors ++ [e]) else .error e

def ProviderRegistry.fetchResult (reg : ProviderRegistry) (gameId : String) : Answer :=
  fetchResultFrom gameId reg.providers []

/-! ## Many games -/

/-- A game in a batch : its winner, or the errors of the providers that were passed over. -/
inductive GameState where
  | resolved (winner : Winner)
  | failed (errors : List ProviderError)

namespace GameState

def isFailed : GameState → Bool
  | .resolved _ => false
  | .failed _ => true

def answer : GameState → Answer
  | .resolved winner => .ok winner
  | .failed errors => .error (.allProvidersFailed errors.length errors)

end GameState

/-- What stands for an error that is final, in a place that holds a winner. -/
def winnerFromTerminal (_ : ProviderError) : Winner := .draw

/-- The answer in a slot of a batch. A slot that is not there counts as unavailable. -/
def slotAnswer (p : GameProvider) (batch : List (String × Answer)) (slot : ℕ) : Answer :=
  match batch[slot]? with
  | some (_, answer) => answer
  | none => .error (.unavailable p.name "missing batch entry")

/-- Enter an answer for the game at an index. -/
def enterAnswer (states : List GameState) (idx : ℕ) : Answer → List GameState
  | .ok winner => states.set idx (.resolved winner)
  | .error e =>
    if e.passesOn then
      match states[idx]? with
      | some (.failed errors) => states.set idx (.failed (errors ++ [e]))
      | _ => states
    else states.set idx (.resolved (winnerFromTerminal e))

/-- The indices of the games that still need a provider. -/
def pendingIndices (states : List GameState) : List ℕ :=
  (List.range states.length).filter fun i => states[i]?.any GameState.isFailed

/-- One provider is asked for the games that still need one. -/
def batchRound (gameIds : List String) (p : GameProvider) (states : List GameState) :
    List GameState :=
  let pending := pendingIndices states
  let batch := p.fetchResultsBatch (pending.map fun i => gameIds.getD i "")
  pending.zipIdx.foldl (fun states x => enterAnswer states x.1 (slotAnswer p batch x.2)) states

/-- The loop of `fetch_results_batch` over the providers. -/
def batchRounds (gameIds : List String) : List GameProvider → List GameState → List GameState
  | [], states => states
  | p :: ps, states =>
    if pendingIndices states = [] then states
    else batchRounds gameIds ps (batchRound gameIds p states)

def ProviderRegistry.fetchResultsBatch (reg : ProviderRegistry) (gameIds : List String) :
    List (String × Answer) :=
  gameIds.zip
    ((batchRounds gameIds reg.providers (gameIds.map fun _ => .failed [])).map GameState.answer)

/-! ## One round, game by game -/

/-- What an answer does to a game. -/
def GameState.step : GameState → Answer → GameState
  | .resolved winner, _ => .resolved winner
  | .failed _, .ok winner => .resolved winner
  | .failed errors, .error e =>
    if e.passesOn then .failed (errors ++ [e]) else .resolved (winnerFromTerminal e)

theorem enterAnswer_getElem? {states : List GameState} {idx : ℕ} {errors : List ProviderError}
    (h : states[idx]? = some (.failed errors)) (answer : Answer) (i : ℕ) :
    (enterAnswer states idx answer)[i]? =
      if i = idx then some ((GameState.failed errors).step answer) else states[i]? := by
  have hlt : idx < states.length := (List.getElem?_eq_some_iff.mp h).1
  have hset (s : GameState) : (states.set idx s)[i]? = if i = idx then some s else states[i]? := by
    rw [List.getElem?_set]
    by_cases hi : idx = i
    · subst hi
      simp [hlt]
    · simp [hi, Ne.symm hi]
  cases answer with
  | ok => exact hset _
  | error =>
    simp only [enterAnswer, h, GameState.step]
    split <;> exact hset _

/-- Answers for different games do not touch each other. -/
theorem foldl_enterAnswer (answers : List (ℕ × Answer)) (states : List GameState)
    (hnodup : (answers.map Prod.fst).Nodup)
    (hfailed : ∀ x ∈ answers, ∃ errors, states[x.1]? = some (.failed errors)) (i : ℕ) :
    (answers.foldl (fun states x => enterAnswer states x.1 x.2) states)[i]? =
      match answers.lookup i with
      | some answer => states[i]?.map (GameState.step · answer)
      | none => states[i]? := by
  induction answers generalizing states with
  | nil => rfl
  | cons x answers ih =>
    obtain ⟨errors, hx⟩ := hfailed x mem_cons_self
    obtain ⟨hnew, hnodup⟩ := nodup_cons.mp hnodup
    have hother : ∀ y ∈ answers, y.1 ≠ x.1 := fun y hy heq =>
      hnew (heq ▸ mem_map_of_mem hy)
    rw [foldl_cons, ih _ hnodup]
    · rw [enterAnswer_getElem? hx, lookup_cons]
      by_cases hi : i = x.1
      · subst hi
        have hnone : answers.lookup x.1 = none := by
          rw [lookup_eq_none_iff]
          exact fun y hy => by simpa using (hother y hy).symm
        simp [hnone, hx]
      · have hne : (i == x.1) = false := beq_eq_false_iff_ne.mpr hi
        simp only [hne, if_neg hi]
    · intro y hy
      obtain ⟨errors', hy'⟩ := hfailed y (mem_cons_of_mem _ hy)
      exact ⟨errors', by rw [enterAnswer_getElem? hx, if_neg (hother y hy), hy']⟩

theorem mem_pendingIndices {states : List GameState} {i : ℕ} :
    i ∈ pendingIndices states ↔ ∃ errors, states[i]? = some (.failed errors) := by
  rw [pendingIndices, mem_filter, mem_range]
  constructor
  · rintro ⟨hi, hfailed⟩
    rw [List.getElem?_eq_getElem hi] at hfailed ⊢
    cases hs : states[i] with
    | resolved => simp [hs, GameState.isFailed] at hfailed
    | failed errors => exact ⟨errors, rfl⟩
  · rintro ⟨errors, h⟩
    exact ⟨(List.getElem?_eq_some_iff.mp h).1, by simp [h, GameState.isFailed]⟩

theorem lookup_map_self (f : ℕ → Answer) (l : List ℕ) (i : ℕ) :
    (l.map fun j => (j, f j)).lookup i = if i ∈ l then some (f i) else none := by
  induction l with
  | nil => rfl
  | cons j l ih =>
    rw [map_cons, lookup_cons]
    by_cases hi : i = j
    · simp [hi]
    · have hne : (i == j) = false := beq_eq_false_iff_ne.mpr hi
      simp only [hne, ih, mem_cons, hi, false_or]

/-- The answers of a round, each with the index of its game. -/
theorem slotAnswer_zipIdx {gameIds : List String} {p : GameProvider} (hp : p.Uniform)
    (pending : List ℕ) : pending.zipIdx.map (fun x => (x.1, slotAnswer p
        (p.fetchResultsBatch (pending.map fun i => gameIds.getD i "")) x.2)) =
      pending.map fun i => (i, p.fetchResult (gameIds.getD i "")) := by
  refine ext_getElem? fun j => ?_
  rw [hp, List.getElem?_map, List.getElem?_map, List.getElem?_zipIdx]
  cases hj : pending[j]? with
  | none => rfl
  | some => simp [slotAnswer, GameProvider.defaultBatch, hj]

/-- A round takes every game one step, with the provider's answer for it. -/
theorem batchRound_eq {gameIds : List String} {p : GameProvider} (hp : p.Uniform)
    (states : List GameState) (i : ℕ) : (batchRound gameIds p states)[i]? =
      states[i]?.map (GameState.step · (p.fetchResult (gameIds.getD i ""))) := by
  have hfold : batchRound gameIds p states = ((pendingIndices states).map fun i =>
      (i, p.fetchResult (gameIds.getD i ""))).foldl (fun states x => enterAnswer states x.1 x.2)
        states := by
    rw [batchRound, ← slotAnswer_zipIdx hp, foldl_map]
  rw [hfold, foldl_enterAnswer, lookup_map_self]
  · by_cases hi : i ∈ pendingIndices states
    · rw [if_pos hi]
    · rw [if_neg hi]
      -- A game that needs no provider is resolved, or there is no such game.
      cases hs : states[i]? with
      | none => rfl
      | some s =>
        cases s with
        | resolved => rfl
        | failed errors => exact absurd (mem_pendingIndices.mpr ⟨errors, hs⟩) hi
  · rw [map_map]
    have hid : (Prod.fst ∘ fun i => (i, p.fetchResult (gameIds.getD i ""))) = id := rfl
    rw [hid, map_id]
    exact nodup_range.filter _
  · intro x hx
    obtain ⟨j, hj, rfl⟩ := mem_map.mp hx
    exact mem_pendingIndices.mp hj

/-! ## All rounds -/

/-- A game after all providers. -/
def GameState.ask (gameId : String) (providers : List GameProvider) (s : GameState) : GameState :=
  providers.foldl (fun s p => s.step (p.fetchResult gameId)) s

theorem GameState.ask_resolved (gameId : String) (providers : List GameProvider)
    (winner : Winner) : (GameState.resolved winner).ask gameId providers = .resolved winner := by
  induction providers with
  | nil => rfl
  | cons p ps ih => exact ih

/-- The rounds stop early only where no game is left to ask for. -/
theorem batchRounds_eq {gameIds : List String} (providers : List GameProvider)
    (hp : ∀ p ∈ providers, p.Uniform) (states : List GameState) (i : ℕ) :
    (batchRounds gameIds providers states)[i]? =
      states[i]?.map (GameState.ask (gameIds.getD i "") providers) := by
  induction providers generalizing states with
  | nil => exact (Option.map_id' ..).symm
  | cons p ps ih =>
    unfold batchRounds
    split
    · rename_i hnone
      cases hs : states[i]? with
      | none => rfl
      | some s =>
        cases s with
        | resolved => rw [Option.map_some, GameState.ask_resolved]
        | failed errors =>
          have hmem : i ∈ pendingIndices states := mem_pendingIndices.mpr ⟨errors, hs⟩
          exact absurd hmem (by simp [hnone])
    · rw [ih (fun q hq => hp q (mem_cons_of_mem _ hq)),
        batchRound_eq (hp p mem_cons_self), Option.map_map]
      rfl

/-- A batch answers each game by itself, in the order of the input. -/
theorem fetchResultsBatch_eq {reg : ProviderRegistry} (hp : ∀ p ∈ reg.providers, p.Uniform)
    (gameIds : List String) : reg.fetchResultsBatch gameIds = gameIds.map fun gameId =>
      (gameId, ((GameState.failed []).ask gameId reg.providers).answer) := by
  have hrounds : batchRounds gameIds reg.providers (gameIds.map fun _ => .failed []) =
      gameIds.map fun gameId => (GameState.failed []).ask gameId reg.providers := by
    refine ext_getElem? fun i => ?_
    rw [batchRounds_eq _ hp, List.getElem?_map, List.getElem?_map, Option.map_map]
    cases hi : gameIds[i]? with
    | none => rfl
    | some => simp [getD_eq_getElem?_getD, hi]
  rw [ProviderRegistry.fetchResultsBatch, hrounds, map_map]
  have hzip := zip_map' (f := id) (l := gameIds)
    (g := fun gameId => ((GameState.failed []).ask gameId reg.providers).answer)
  rwa [map_id] at hzip

/-! ## The batch against single games -/

/-- The answer settles a game : no further provider is asked. -/
def settles : Answer → Bool
  | .ok _ => true
  | .error e => !e.passesOn

/-- The provider that answers for a game : the first that is not passed over. -/
def ProviderRegistry.answerer (reg : ProviderRegistry) (gameId : String) : Option GameProvider :=
  reg.providers.find? fun p => settles (p.fetchResult gameId)

section

variable {gameId : String} {providers : List GameProvider} {p : GameProvider}

theorem fetchResultFrom_cons_error {q : GameProvider} {e : ProviderError}
    (hq : q.fetchResult gameId = .error e) (errors : List ProviderError) :
    fetchResultFrom gameId (q :: providers) errors =
      if e.passesOn then fetchResultFrom gameId providers (errors ++ [e]) else .error e := by
  rw [fetchResultFrom, hq]

theorem fetchResultFrom_of_find
    (hp : providers.find? (fun p => settles (p.fetchResult gameId)) = some p)
    (errors : List ProviderError) :
    fetchResultFrom gameId providers errors = p.fetchResult gameId := by
  induction providers generalizing errors with
  | nil => exact absurd hp (by simp)
  | cons q qs ih =>
    rw [List.find?_cons] at hp
    cases hq : q.fetchResult gameId with
    | ok =>
      obtain rfl : q = p := by simpa [hq, settles] using hp
      rw [fetchResultFrom, hq]
    | error e =>
      rw [fetchResultFrom_cons_error hq]
      cases hpass : e.passesOn with
      | true =>
        simp only [hq, settles, hpass, Bool.not_true] at hp
        rw [if_pos rfl]
        exact ih hp _
      | false =>
        obtain rfl : q = p := by simpa [hq, settles, hpass] using hp
        exact hq.symm

/-- The answer that the batch makes of the one that settles a game. -/
theorem ask_of_find (hp : providers.find? (fun p => settles (p.fetchResult gameId)) = some p)
    (errors : List ProviderError) : ((GameState.failed errors).ask gameId providers).answer =
      .ok (match p.fetchResult gameId with
        | .ok winner => winner
        | .error e => winnerFromTerminal e) := by
  induction providers generalizing errors with
  | nil => exact absurd hp (by simp)
  | cons q qs ih =>
    rw [List.find?_cons] at hp
    change (((GameState.failed errors).step (q.fetchResult gameId)).ask gameId qs).answer = _
    cases hq : q.fetchResult gameId with
    | ok =>
      obtain rfl : q = p := by simpa [hq, settles] using hp
      rw [GameState.step, GameState.ask_resolved, hq]
      rfl
    | error e =>
      cases hpass : e.passesOn with
      | true =>
        simp only [hq, settles, hpass, Bool.not_true] at hp
        rw [GameState.step, if_pos hpass]
        exact ih hp _
      | false =>
        obtain rfl : q = p := by simpa [hq, settles, hpass] using hp
        rw [GameState.step, hpass, if_neg Bool.false_ne_true, GameState.ask_resolved, hq]
        rfl

/-- Where every provider is passed over, both carry the same errors. -/
theorem ask_of_none (hp : providers.find? (fun p => settles (p.fetchResult gameId)) = none)
    (errors : List ProviderError) : ((GameState.failed errors).ask gameId providers).answer =
      fetchResultFrom gameId providers errors := by
  induction providers generalizing errors with
  | nil => rfl
  | cons q qs ih =>
    rw [List.find?_cons] at hp
    change (((GameState.failed errors).step (q.fetchResult gameId)).ask gameId qs).answer = _
    cases hq : q.fetchResult gameId with
    | ok => simp [hq, settles] at hp
    | error e =>
      rw [fetchResultFrom_cons_error hq]
      cases hpass : e.passesOn with
      | true =>
        simp only [hq, settles, hpass, Bool.not_true] at hp
        rw [GameState.step, if_pos hpass, if_pos rfl]
        exact ih hp _
      | false => simp [hq, settles, hpass] at hp

end

/-- A batch has one entry per game in the order of the input. An entry is what `fetchResult`
returns for the game if and only if the provider that answers for it names a winner, or none
answers. -/
theorem batch_entry_iff {reg : ProviderRegistry} (hp : ∀ p ∈ reg.providers, p.Uniform)
    (gameIds : List String) : (reg.fetchResultsBatch gameIds).map Prod.fst = gameIds ∧
      ∀ (i : ℕ) gameId, gameIds[i]? = some gameId →
        ((reg.fetchResultsBatch gameIds)[i]? = some (gameId, reg.fetchResult gameId) ↔
          ∀ p, reg.answerer gameId = some p → ∃ winner, p.fetchResult gameId = .ok winner) := by
  rw [fetchResultsBatch_eq hp]
  refine ⟨by simp [Function.comp_def], fun i gameId hi => ?_⟩
  rw [List.getElem?_map, hi, Option.map_some, Option.some_inj, Prod.mk.injEq]
  unfold ProviderRegistry.fetchResult ProviderRegistry.answerer
  cases hfind : reg.providers.find? fun p => settles (p.fetchResult gameId) with
  | none =>
    refine iff_of_true ⟨rfl, ask_of_none hfind []⟩ fun p h => absurd h (by simp)
  | some p =>
    rw [ask_of_find hfind, fetchResultFrom_of_find hfind]
    constructor
    · rintro ⟨-, h⟩ q hq
      obtain rfl := Option.some.inj hq
      exact ⟨_, h.symm⟩
    · intro h
      obtain ⟨winner, hwinner⟩ := h p rfl
      exact ⟨rfl, by rw [hwinner]⟩

/-- A provider that is busy, and one that knows how every game ended. -/
def busyThenWon : ProviderRegistry where
  providers :=
    [⟨"first", fun _ => .error (.rateLimited "first" 60),
        GameProvider.defaultBatch fun _ => .error (.rateLimited "first" 60)⟩,
      ⟨"second", fun _ => .ok .player1, GameProvider.defaultBatch fun _ => .ok .player1⟩]
  nonempty := by simp

theorem batch_entry_iff_busyThenWon : (∀ p ∈ busyThenWon.providers, p.Uniform) ∧
    (busyThenWon.fetchResultsBatch ["abcd1234", "abcd1234"])[1]? =
      some ("abcd1234", busyThenWon.fetchResult "abcd1234") ∧
    busyThenWon.fetchResult "abcd1234" = .ok .player1 := by
  have hp : ∀ p ∈ busyThenWon.providers, p.Uniform := by
    intro p hmem gameIds
    simp only [busyThenWon, mem_cons, not_mem_nil, or_false] at hmem
    rcases hmem with rfl | rfl <;> rfl
  refine ⟨hp, ?_, rfl⟩
  refine ((batch_entry_iff hp ["abcd1234", "abcd1234"]).2 1 "abcd1234" rfl).mpr fun p h => ?_
  obtain rfl := Option.some.inj h
  exact ⟨.player1, rfl⟩

/-- A provider on which every game is still being played. -/
def stillPlaying : ProviderRegistry where
  providers := [⟨"lichess", fun _ => .error .gameNotFinished,
    GameProvider.defaultBatch fun _ => .error .gameNotFinished⟩]
  nonempty := by simp

/-- A game that is not over comes out of the batch as a draw. -/
theorem unfinished_game_drawn : (∀ p ∈ stillPlaying.providers, p.Uniform) ∧
    stillPlaying.fetchResult "abcd1234" = .error .gameNotFinished ∧
    stillPlaying.fetchResultsBatch ["abcd1234"] = [("abcd1234", .ok .draw)] := by
  refine ⟨fun p hmem gameIds => ?_, rfl, rfl⟩
  obtain rfl := mem_singleton.mp hmem
  rfl

end Checkmate.Service
