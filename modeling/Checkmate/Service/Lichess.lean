import Mathlib.Data.List.Induction
import Checkmate.Host.Pages
import Checkmate.Service.Providers

/-!
# Lookups on Lichess

The client asks for one game (`fetchResult`), for many games over the export endpoint
(`fetchResultsExport`), or over the status endpoint (`fetchResultsStatus`). The two batches
have the same name in the source.

Where the endpoints report the same games, the export batch gives every id the answer of a
single lookup. The status batch reports invalid ids first, takes each game out of a response
when it is first asked for, and does not look at the status of a game without a winner. It
agrees with single lookups exactly where none of this shows (`lichess_batches_agree_iff`).
-/

namespace Checkmate.Service

open Function List Option

/-! ## Requests -/

inductive LichessError where
  | invalidGameId
  | http (text : String)
  | timeout
  | rateLimited (retryAfter : ℕ)
  | concurrencyLimitReached
  | httpStatus (status : ℕ)
  | gameNotFound
  | gameNotFinished
  | invalidResponse
deriving DecidableEq, Repr

/-- How sending a request fails. -/
inductive SendError where
  | timeout
  | other (text : String)

def SendError.toLichess : SendError → LichessError
  | .timeout => .timeout
  | .other text => .http text

/-- A reply : its status, the seconds of a `Retry-After` header, and the decoded body. -/
structure Reply (α : Type) where
  status : ℕ
  retryAfter : Option ℕ := none
  body : Except String α

def isSuccess (status : ℕ) : Bool := 200 ≤ status && status < 300

/-- Seconds to wait after a 429 without a `Retry-After` header. -/
def defaultRateLimitBackoff : ℕ := 60

/-- The checks on a reply that all requests make. -/
def Reply.check {α : Type} (reply : Reply α) : Except LichessError α :=
  if reply.status = 429 then
    .error (.rateLimited (reply.retryAfter.getD defaultRateLimitBackoff))
  else if isSuccess reply.status = false then .error (.httpStatus reply.status)
  else reply.body.mapError .http

structure LichessGame where
  id : Option String
  status : Option String
  winner : Option String

structure LichessGameStatus where
  id : String
  winner : Option String

structure LichessGameResult where
  winner : Winner
deriving DecidableEq, Repr

/-- What comes of a request for a game. -/
abbrev LichessAnswer := Except LichessError LichessGameResult

/-- The endpoints of Lichess. A line of an export that is no game record is `none`. -/
structure LichessApi where
  exportGame : String → Except SendError (Reply LichessGame)
  exportGames : List String → Except SendError (Reply (List (Option LichessGame)))
  gamesStatus : List String → Except SendError (Reply (List LichessGameStatus))

/-! ## Single lookups -/

/-- A Lichess game id has 8 or 12 alphanumeric characters. -/
def validGameId (gameId : String) : Bool :=
  (gameId.utf8ByteSize = 8 || gameId.utf8ByteSize = 12) && gameId.toList.all Char.isAlphanum

def validateGameId (gameId : String) : Except LichessError Unit :=
  if validGameId gameId then .ok () else .error .invalidGameId

/-- The result in a record. Lichess omits the winner of a draw, and of a game in progress. -/
def gameResult (game : LichessGame) : LichessAnswer :=
  match game.winner, game.status with
  | some "white", _ => .ok ⟨.player1⟩
  | some "black", _ => .ok ⟨.player2⟩
  | some _, _ => .error .invalidResponse
  | none, some "created" => .error .gameNotFinished
  | none, some "started" => .error .gameNotFinished
  | none, _ => .ok ⟨.draw⟩

def LichessApi.fetchResult (api : LichessApi) (gameId : String) : LichessAnswer := do
  validateGameId gameId
  let reply ← (api.exportGame gameId).mapError SendError.toLichess
  if reply.status = 404 then throw .gameNotFound
  let body ← reply.check
  gameResult body

/-! ## The export endpoint -/

/-- Answers by game id. -/
abbrev Answers := String → Option LichessAnswer

def lichessBatchMaxIds : ℕ := 300

/-- Sort one id of the input : already seen, valid, or invalid. -/
def sortId (acc : Answers × List String) (gameId : String) : Answers × List String :=
  if (acc.1 gameId).isSome = true ∨ gameId ∈ acc.2 then acc
  else match validateGameId gameId with
    | .ok _ => (acc.1, acc.2 ++ [gameId])
    | .error e => (update acc.1 gameId (some (.error e)), acc.2)

/-- A map of entries by their key. A later entry replaces an earlier one. -/
def indexBy {α : Type} (key : α → Option String) (entries : List α) : String → Option α :=
  entries.foldl (fun index entry => match key entry with
    | some id => update index id (some entry)
    | none => index) fun _ => none

/-- The lines of an export by game id, if all of them are game records. -/
def indexGames (lines : List (Option LichessGame)) :
    Except LichessError (String → Option LichessGame) :=
  match lines.mapM id with
  | none => .error .invalidResponse
  | some games => .ok (indexBy LichessGame.id games)

def exportChunk (api : LichessApi) (results : Answers) (chunk : List String) :
    Except LichessError Answers := do
  let reply ← (api.exportGames chunk).mapError SendError.toLichess
  let lines ← reply.check
  let games ← indexGames lines
  pure (chunk.foldl (fun results id => update results id
    (some ((games id).elim (.error .gameNotFound) gameResult))) results)

/-- The batch over `POST /api/games/export/_ids`. -/
def LichessApi.fetchResultsExport (api : LichessApi) (gameIds : List String) :
    Except LichessError Answers :=
  let (results, valid) := gameIds.foldl sortId (fun _ => none, [])
  (chunks lichessBatchMaxIds valid).foldlM (exportChunk api) results

/-! ## The status endpoint -/

def lichessBatchSize : ℕ := 50

/-- Sort one id of the input : valid, or reported at once. -/
def splitId (acc : List (String × LichessAnswer) × List String) (gameId : String) :
    List (String × LichessAnswer) × List String :=
  match validateGameId gameId with
  | .ok _ => (acc.1, acc.2 ++ [gameId])
  | .error e => (acc.1 ++ [(gameId, .error e)], acc.2)

def indexStatuses (entries : List LichessGameStatus) : String → Option LichessGameStatus :=
  indexBy (fun entry => some entry.id) entries

/-- The result in an entry of a status response. -/
def statusResult (entry : LichessGameStatus) : LichessAnswer :=
  match entry.winner with
  | some "white" => .ok ⟨.player1⟩
  | some "black" => .ok ⟨.player2⟩
  | none => .ok ⟨.draw⟩
  | _ => .error .invalidResponse

/-- Read the results of a chunk. An entry is taken out of the index when it is read. -/
def readStatuses : (String → Option LichessGameStatus) → List String →
    List (String × LichessAnswer)
  | _, [] => []
  | byId, id :: ids =>
    (id, (byId id).elim (.error .gameNotFound) statusResult) ::
      readStatuses (update byId id none) ids

def statusChunk (api : LichessApi) (results : List (String × LichessAnswer))
    (chunk : List String) : Except LichessError (List (String × LichessAnswer)) := do
  let reply ← (api.gamesStatus chunk).mapError SendError.toLichess
  let entries ← reply.check
  pure (results ++ readStatuses (indexStatuses entries) chunk)

/-- The batch over `/api/games/status`. -/
def LichessApi.fetchResultsStatus (api : LichessApi) (gameIds : List String) :
    Except LichessError (List (String × LichessAnswer)) :=
  let (results, valid) := gameIds.foldl splitId ([], [])
  (chunks lichessBatchSize valid).foldlM (statusChunk api) results

/-! ## Endpoints that report the same games -/

/-- A game on Lichess. -/
structure Game where
  status : Option String
  winner : Option String

/-- The reply to a request that succeeds with a body. -/
def Replies {α : Type} (request : Except SendError (Reply α)) (body : α) : Prop :=
  ∃ reply, request = .ok reply ∧ isSuccess reply.status = true ∧ reply.body = .ok body

/-- No request fails, and all endpoints report the games there are, and no others. -/
structure Truthful (api : LichessApi) (games : String → Option Game) : Prop where
  missing : ∀ id, validGameId id = true → games id = none →
    ∃ reply, api.exportGame id = .ok reply ∧ reply.status = 404
  found : ∀ id game, validGameId id = true → games id = some game →
    ∃ body, Replies (api.exportGame id) body ∧ body.status = game.status ∧
      body.winner = game.winner
  exported : ∀ ids, (∀ id ∈ ids, validGameId id = true) →
    ∃ lines : List LichessGame, Replies (api.exportGames ids) (lines.map some) ∧
      (∀ line ∈ lines, ∀ id, line.id = some id → games id = some ⟨line.status, line.winner⟩) ∧
      ∀ id ∈ ids, (games id).isSome = true → ∃ line ∈ lines, line.id = some id
  statuses : ∀ ids, (∀ id ∈ ids, validGameId id = true) →
    ∃ entries, Replies (api.gamesStatus ids) entries ∧
      (∀ entry ∈ entries, ∃ game, games entry.id = some game ∧ game.winner = entry.winner) ∧
      ∀ id ∈ ids, (games id).isSome = true → ∃ entry ∈ entries, entry.id = id

variable {api : LichessApi} {games : String → Option Game} {ids : List String}

theorem Replies.check {α : Type} {request : Except SendError (Reply α)} {body : α}
    (h : Replies request body) : ∃ reply, request = .ok reply ∧ reply.status ≠ 404 ∧
      reply.check = .ok body := by
  obtain ⟨reply, hreply, hsuccess, hbody⟩ := h
  have hrange : 200 ≤ reply.status ∧ reply.status < 300 := by simpa [isSuccess] using hsuccess
  refine ⟨reply, hreply, by omega, ?_⟩
  rw [Reply.check, if_neg (by omega), if_neg (by simp [hsuccess]), hbody]
  rfl

/-- The answer to a lookup. -/
def lookup (games : String → Option Game) (gameId : String) : LichessAnswer :=
  if validGameId gameId then
    (games gameId).elim (.error .gameNotFound) fun game =>
      gameResult ⟨some gameId, game.status, game.winner⟩
  else .error .invalidGameId

theorem gameResult_congr {g g' : LichessGame} (hstatus : g.status = g'.status)
    (hwinner : g.winner = g'.winner) : gameResult g = gameResult g' := by
  simp only [gameResult, hstatus, hwinner]

theorem Truthful.fetchResult_eq (h : Truthful api games) (gameId : String) :
    api.fetchResult gameId = lookup games gameId := by
  unfold LichessApi.fetchResult validateGameId lookup
  cases hvalid : validGameId gameId with
  | false => rfl
  | true =>
    cases hgame : games gameId with
    | none =>
      obtain ⟨reply, hreply, hstatus⟩ := h.missing gameId hvalid hgame
      rw [hreply]
      simp [hstatus, Except.mapError, bind, Except.bind, throw, throwThe, MonadExceptOf.throw]
    | some game =>
      obtain ⟨body, hbody, hstatus, hwinner⟩ := h.found gameId game hvalid hgame
      obtain ⟨reply, hreply, hne, hcheck⟩ := hbody.check
      rw [hreply]
      simp [hne, hcheck, Except.mapError, bind, Except.bind]
      exact gameResult_congr hstatus hwinner

/-! ## The export batch -/

/-- An index finds the last entry with the key. -/
theorem indexBy_eq {α : Type} (key : α → Option String) (entries : List α) (id : String) :
    indexBy key entries id = entries.reverse.find? fun entry => key entry = some id := by
  unfold indexBy
  induction entries using List.reverseRecOn with
  | nil => rfl
  | append_singleton entries entry ih =>
    rw [foldl_append, foldl_cons, foldl_nil, reverse_append,
      reverse_singleton, singleton_append, List.find?_cons]
    cases hkey : key entry with
    | none => simpa using ih
    | some k =>
      by_cases hk : k = id
      · subst hk
        simp
      · simp only [update_of_ne (Ne.symm hk), some_inj, hk, decide_false]
        exact ih

theorem indexBy_isSome {α : Type} {key : α → Option String} {entries : List α} {id : String} :
    (∃ entry ∈ entries, key entry = some id) → (indexBy key entries id).isSome = true := by
  rintro ⟨entry, hmem, hkey⟩
  rw [indexBy_eq, List.find?_isSome]
  exact ⟨entry, mem_reverse.mpr hmem, by simpa using hkey⟩

theorem indexBy_mem {α : Type} {key : α → Option String} {entries : List α} {id : String}
    {entry : α} (h : indexBy key entries id = some entry) :
    entry ∈ entries ∧ key entry = some id := by
  rw [indexBy_eq] at h
  exact ⟨mem_reverse.mp (mem_of_find?_eq_some h), by simpa using List.find?_some h⟩

theorem mapM_map_some {α : Type} (l : List α) : (l.map some).mapM id = some l := by
  induction l with
  | nil => rfl
  | cons a l ih =>
    rw [map_cons, mapM_cons, ih]
    rfl

theorem foldl_update (f : String → LichessAnswer) (chunk : List String) (results : Answers)
    (id : String) : (chunk.foldl (fun results id => update results id (some (f id))) results) id =
      if id ∈ chunk then some (f id) else results id := by
  induction chunk generalizing results with
  | nil => rfl
  | cons j chunk ih =>
    rw [foldl_cons, ih]
    by_cases hmem : id ∈ chunk
    · simp [hmem]
    · by_cases hid : id = j
      · subst hid
        simp
      · simp [hmem, hid]

theorem exportChunk_eq (h : Truthful api games) {chunk : List String}
    (hvalid : ∀ id ∈ chunk, validGameId id = true) (results : Answers) :
    exportChunk api results chunk =
      .ok fun id => if id ∈ chunk then some (lookup games id) else results id := by
  obtain ⟨lines, hreplies, hsound, hcomplete⟩ := h.exported chunk hvalid
  obtain ⟨reply, hreply, -, hcheck⟩ := hreplies.check
  have hindex : indexGames (lines.map some) = .ok (indexBy LichessGame.id lines) := by
    rw [indexGames, mapM_map_some]
  have hanswer : ∀ id ∈ chunk, (indexBy LichessGame.id lines id).elim (.error .gameNotFound)
      gameResult = lookup games id := by
    intro id hid
    rw [lookup, if_pos (hvalid id hid)]
    cases hline : indexBy LichessGame.id lines id with
    | some line =>
      obtain ⟨hmem, hkey⟩ := indexBy_mem hline
      rw [hsound line hmem id hkey]
      exact gameResult_congr rfl rfl
    | none =>
      have hnone : games id = none := by
        by_contra hne
        have hsome := indexBy_isSome (hcomplete id hid (isSome_iff_ne_none.mpr hne))
        rw [hline] at hsome
        exact Bool.noConfusion hsome
      rw [hnone]
      rfl
  unfold exportChunk
  rw [hreply]
  simp only [Except.mapError, bind, Except.bind, hcheck, hindex, pure, Except.pure]
  congr 1
  funext id
  rw [foldl_update]
  split
  · rw [hanswer id ‹_›]
  · rfl

theorem foldlM_exportChunk (h : Truthful api games) (cs : List (List String))
    (hvalid : ∀ id ∈ cs.flatten, validGameId id = true) (results : Answers) :
    cs.foldlM (exportChunk api) results =
      .ok fun id => if id ∈ cs.flatten then some (lookup games id) else results id := by
  induction cs generalizing results with
  | nil => rfl
  | cons chunk cs ih =>
    rw [flatten_cons, forall_mem_append] at hvalid
    rw [foldlM_cons, exportChunk_eq h hvalid.1]
    refine (ih hvalid.2 _).trans ?_
    congr 1
    funext id
    simp only [flatten_cons, mem_append]
    by_cases hlater : id ∈ cs.flatten <;> by_cases hnow : id ∈ chunk <;> simp [hlater, hnow]

/-- The ids of the input, sorted. -/
theorem foldl_sortId (ids : List String) : (∀ id, (ids.foldl sortId (fun _ => none, [])).1 id =
      if id ∈ ids ∧ validGameId id = false then some (.error .invalidGameId) else none) ∧
    ∀ id, id ∈ (ids.foldl sortId (fun _ => none, [])).2 ↔ id ∈ ids ∧ validGameId id = true := by
  induction ids using List.reverseRecOn with
  | nil => simp
  | append_singleton ids last ih =>
    rw [foldl_append, foldl_cons, foldl_nil]
    generalize ids.foldl sortId (fun _ => none, []) = acc at ih
    obtain ⟨results, valid⟩ := acc
    obtain ⟨hresults, hmem⟩ := ih
    dsimp only at hresults hmem
    unfold sortId validateGameId
    dsimp only
    by_cases hseen : last ∈ ids
    · have hstop : (results last).isSome = true ∨ last ∈ valid := by
        rw [hresults, hmem]
        cases hvalid : validGameId last <;> simp [hseen]
      have hsame : ∀ id, id ∈ ids ++ [last] ↔ id ∈ ids := by
        intro id
        rw [mem_append, mem_singleton]
        exact or_iff_left_of_imp fun hid => hid ▸ hseen
      rw [if_pos hstop]
      simp only [hsame]
      exact ⟨hresults, hmem⟩
    · have hgo : ¬((results last).isSome = true ∨ last ∈ valid) := by
        rw [hresults, hmem]
        simp [hseen]
      rw [if_neg hgo]
      simp only [mem_append, mem_singleton]
      cases hvalid : validGameId last with
      | true =>
        refine ⟨fun id => ?_, fun id => ?_⟩ <;> by_cases hid : id = last
        · simp [hid, hresults, hvalid]
        · simp [hid, hresults]
        · simp [hid, hvalid]
        · simp [hid, hmem]
      | false =>
        refine ⟨fun id => ?_, fun id => ?_⟩ <;> by_cases hid : id = last
        · simp [hid, hvalid]
        · simp [hid, hresults]
        · simp [hid, hmem, hvalid]
        · simp [hid, hmem]

/-- Every id of the input gets the answer of a single lookup, and no other id gets one. -/
theorem Truthful.fetchResultsExport_eq (h : Truthful api games) (ids : List String) :
    api.fetchResultsExport ids =
      .ok fun id => if id ∈ ids then some (lookup games id) else none := by
  obtain ⟨hresults, hmem⟩ := foldl_sortId ids
  unfold LichessApi.fetchResultsExport
  generalize ids.foldl sortId (fun _ => none, []) = acc at hresults hmem
  obtain ⟨results, valid⟩ := acc
  dsimp only at hresults hmem ⊢
  have hflat : (chunks lichessBatchMaxIds valid).flatten = valid := chunks_flatten (by decide) valid
  rw [foldlM_exportChunk h]
  · congr 1
    funext id
    simp only [hflat, hmem, hresults, lookup]
    cases hvalid : validGameId id <;> by_cases hid : id ∈ ids <;> simp [hid]
  · intro id hid
    rw [hflat] at hid
    exact ((hmem id).mp hid).2

/-! ## The status batch -/

/-- What the status batch does not look at does not matter : the game has a winner, or is over. -/
def Game.readable (game : Game) : Prop :=
  game.winner = none → game.status ≠ some "created" ∧ game.status ≠ some "started"

theorem gameResult_ne_notFound (game : LichessGame) : gameResult game ≠ .error .gameNotFound := by
  unfold gameResult
  split <;> simp

/-- A status entry has the result of the record if and only if the status does not matter. -/
theorem statusResult_eq_iff {game : Game} {entry : LichessGameStatus} (id : Option String)
    (hwinner : game.winner = entry.winner) :
    statusResult entry = gameResult ⟨id, game.status, game.winner⟩ ↔ game.readable := by
  unfold statusResult gameResult Game.readable
  rw [hwinner]
  cases hentry : entry.winner with
  | some => split <;> simp_all
  | none =>
    cases hstatus : game.status with
    | none => simp
    | some status =>
      by_cases hcreated : status = "created"
      · subst hcreated
        simp
      · by_cases hstarted : status = "started"
        · subst hstarted
          simp
        · simp [hcreated, hstarted]

theorem readStatuses_fst (byId : String → Option LichessGameStatus) (ids : List String) :
    (readStatuses byId ids).map Prod.fst = ids := by
  induction ids generalizing byId with
  | nil => rfl
  | cons id ids ih => rw [readStatuses, map_cons, ih]

/-- The ids of known games. -/
def known (games : String → Option Game) (ids : List String) : List String :=
  ids.filter fun id => (games id).isSome

theorem mem_known {id : String} : id ∈ known games ids ↔ id ∈ ids ∧ (games id).isSome = true := by
  rw [known, mem_filter]

theorem readStatus_eq_iff {byId : String → Option LichessGameStatus} {id : String}
    (hvalid : validGameId id = true) (hsound : ∀ entry, byId id = some entry →
      ∃ game, games id = some game ∧ game.winner = entry.winner) :
    (byId id).elim (.error .gameNotFound) statusResult = lookup games id ↔
      ∀ game, games id = some game → (byId id).isSome = true ∧ game.readable := by
  rw [lookup, if_pos hvalid]
  cases hentry : byId id with
  | some entry =>
    obtain ⟨game, hgame, hwinner⟩ := hsound entry hentry
    simpa [hgame] using statusResult_eq_iff (some id) hwinner
  | none =>
    cases hgame : games id with
    | none => simp
    | some => simpa using (gameResult_ne_notFound _).symm

/-- A chunk is read right if and only if every game in it is still in the index when it is
asked for, and its status does not matter. -/
theorem readStatuses_eq_iff {byId : String → Option LichessGameStatus} (ids : List String)
    (hvalid : ∀ id ∈ ids, validGameId id = true)
    (hsound : ∀ id ∈ ids, ∀ entry, byId id = some entry →
      ∃ game, games id = some game ∧ game.winner = entry.winner) :
    readStatuses byId ids = ids.map (fun id => (id, lookup games id)) ↔
      (∀ id ∈ ids, ∀ game, games id = some game → (byId id).isSome = true ∧ game.readable) ∧
        (known games ids).Nodup := by
  induction ids generalizing byId with
  | nil => simp [readStatuses, known]
  | cons id ids ih =>
    obtain ⟨hvalidId, hvalid⟩ := forall_mem_cons.mp hvalid
    obtain ⟨hsoundId, hsound⟩ := forall_mem_cons.mp hsound
    have hrest (j : String) : (update byId id none j).isSome = true ↔
        j ≠ id ∧ (byId j).isSome = true := by
      by_cases hj : j = id <;> simp [hj]
    have hsound' : ∀ j ∈ ids, ∀ entry, update byId id none j = some entry →
        ∃ game, games j = some game ∧ game.winner = entry.winner := by
      intro j hj entry hentry
      have hne : j ≠ id := ((hrest j).mp (by rw [hentry]; rfl)).1
      rw [update_of_ne hne] at hentry
      exact hsound j hj entry hentry
    rw [readStatuses, map_cons, cons_eq_cons, Prod.mk.injEq, and_iff_right rfl,
      ih hvalid hsound', readStatus_eq_iff hvalidId hsoundId, forall_mem_cons]
    simp only [hrest]
    cases hgame : games id with
    | none =>
      -- An unknown game does not stand in the way of the others.
      have hknown : known games (id :: ids) = known games ids := by simp [known, hgame]
      have hne : ∀ j ∈ ids, ∀ game, games j = some game → j ≠ id := by
        rintro j - game hj rfl
        cases hgame.symm.trans hj
      rw [hknown, and_assoc]
      refine and_congr_right' (and_congr_left' ?_)
      exact ⟨fun h j hj game hg => ⟨(h j hj game hg).1.2, (h j hj game hg).2⟩,
        fun h j hj game hg => ⟨⟨hne j hj game hg, (h j hj game hg).1⟩, (h j hj game hg).2⟩⟩
    | some g =>
      have hknown : known games (id :: ids) = id :: known games ids := by simp [known, hgame]
      have hnew : id ∉ known games ids ↔ ∀ j ∈ ids, ∀ game, games j = some game → j ≠ id := by
        rw [mem_known, hgame]
        constructor
        · rintro hnew j hj game - rfl
          exact hnew ⟨hj, rfl⟩
        · exact fun h hmem => h id hmem.1 g hgame rfl
      rw [hknown, nodup_cons, hnew]
      constructor
      · rintro ⟨hhead, hall, hnodup⟩
        exact ⟨⟨hhead, fun j hj game hg => ⟨(hall j hj game hg).1.2, (hall j hj game hg).2⟩⟩,
          fun j hj game hg => (hall j hj game hg).1.1, hnodup⟩
      · rintro ⟨⟨hhead, hall⟩, hne, hnodup⟩
        exact ⟨hhead, fun j hj game hg =>
          ⟨⟨hne j hj game hg, (hall j hj game hg).1⟩, (hall j hj game hg).2⟩, hnodup⟩

/-- The answers of the status endpoint for a chunk. -/
def statusOf (api : LichessApi) (chunk : List String) : List (String × LichessAnswer) :=
  ((statusChunk api [] chunk).toOption).getD []

theorem statusChunk_eq (h : Truthful api games) {chunk : List String}
    (hvalid : ∀ id ∈ chunk, validGameId id = true) :
    (∀ results, statusChunk api results chunk = .ok (results ++ statusOf api chunk)) ∧
      (statusOf api chunk).map Prod.fst = chunk ∧
      (statusOf api chunk = chunk.map (fun id => (id, lookup games id)) ↔
        (∀ id ∈ chunk, ∀ game, games id = some game → game.readable) ∧
          (known games chunk).Nodup) := by
  obtain ⟨entries, hreplies, hsound, hcomplete⟩ := h.statuses chunk hvalid
  obtain ⟨reply, hreply, -, hcheck⟩ := hreplies.check
  have hchunk : ∀ results, statusChunk api results chunk =
      .ok (results ++ readStatuses (indexStatuses entries) chunk) := by
    intro results
    unfold statusChunk
    rw [hreply]
    simp only [Except.mapError, bind, Except.bind, hcheck, pure, Except.pure]
  have hstatus : statusOf api chunk = readStatuses (indexStatuses entries) chunk := by
    rw [statusOf, hchunk, nil_append]
    rfl
  rw [hstatus]
  refine ⟨hchunk, readStatuses_fst _ _, ?_⟩
  rw [readStatuses_eq_iff chunk hvalid]
  · refine and_congr_left' (forall₂_congr fun id hid => forall₂_congr fun game hgame => ?_)
    refine and_iff_right (indexBy_isSome ?_)
    obtain ⟨entry, hmem, rfl⟩ := hcomplete id hid (by rw [hgame]; rfl)
    exact ⟨entry, hmem, rfl⟩
  · rintro id - entry hentry
    obtain ⟨hmem, hkey⟩ := indexBy_mem hentry
    obtain rfl := Option.some.inj hkey
    exact hsound entry hmem

theorem foldlM_statusChunk (h : Truthful api games) (cs : List (List String))
    (hvalid : ∀ id ∈ cs.flatten, validGameId id = true) (results : List (String × LichessAnswer)) :
    cs.foldlM (statusChunk api) results = .ok (results ++ cs.flatMap (statusOf api)) := by
  induction cs generalizing results with
  | nil =>
    rw [flatMap_nil, append_nil]
    rfl
  | cons chunk cs ih =>
    rw [flatten_cons, forall_mem_append] at hvalid
    rw [foldlM_cons, (statusChunk_eq h hvalid.1).1, flatMap_cons, ← append_assoc]
    exact ih hvalid.2 _

theorem foldl_splitId (ids : List String) : ids.foldl splitId ([], []) =
      ((ids.filter fun id => !validGameId id).map fun id => (id, .error .invalidGameId),
        ids.filter fun id => validGameId id) := by
  induction ids using List.reverseRecOn with
  | nil => rfl
  | append_singleton ids last ih =>
    rw [foldl_append, ih, foldl_cons, foldl_nil, splitId, validateGameId]
    cases hvalid : validGameId last <;> simp [hvalid]

section

variable {cs : List (List String)}

theorem flatMap_statusOf_fst (h : Truthful api games)
    (hvalid : ∀ id ∈ cs.flatten, validGameId id = true) :
    (cs.flatMap (statusOf api)).map Prod.fst = cs.flatten := by
  induction cs with
  | nil => rfl
  | cons chunk cs ih =>
    rw [flatten_cons, forall_mem_append] at hvalid
    rw [flatMap_cons, map_append, ih hvalid.2, (statusChunk_eq h hvalid.1).2.1, flatten_cons]

theorem flatMap_statusOf_iff (h : Truthful api games)
    (hvalid : ∀ id ∈ cs.flatten, validGameId id = true) :
    cs.flatMap (statusOf api) = cs.flatten.map (fun id => (id, lookup games id)) ↔
      (∀ chunk ∈ cs, (known games chunk).Nodup) ∧
        ∀ id ∈ cs.flatten, ∀ game, games id = some game → game.readable := by
  have hchunk : ∀ chunk ∈ cs, ∀ id ∈ chunk, validGameId id = true := fun chunk hc id hid =>
    hvalid id (mem_flatten_of_mem hc hid)
  have hlength : ∀ chunk ∈ cs, (statusOf api chunk).length =
      (chunk.map fun id => (id, lookup games id)).length := by
    intro chunk hc
    rw [length_map, ← length_map Prod.fst, (statusChunk_eq h (hchunk chunk hc)).2.1]
  rw [map_flatten, ← flatMap_def, flatMap_eq_iff hlength]
  constructor
  · intro hall
    have hright := fun chunk hc => (statusChunk_eq h (hchunk chunk hc)).2.2.mp (hall chunk hc)
    refine ⟨fun chunk hc => (hright chunk hc).2, fun id hid => ?_⟩
    obtain ⟨chunk, hc, hmem⟩ := mem_flatten.mp hid
    exact (hright chunk hc).1 id hmem
  · rintro ⟨hnodup, hread⟩ chunk hc
    refine (statusChunk_eq h (hchunk chunk hc)).2.2.mpr ⟨fun id hid => ?_, hnodup chunk hc⟩
    exact hread id (mem_flatten_of_mem hc hid)

end

/-- Every entry of a status batch is right and in its place if and only if invalid ids come
first, no known game is asked for twice in a chunk, and no status of a game matters. -/
theorem Truthful.fetchResultsStatus_eq_iff (h : Truthful api games) (ids : List String) :
    api.fetchResultsStatus ids = .ok (ids.map fun id => (id, lookup games id)) ↔
      ((ids.filter fun id => !validGameId id) ++ ids.filter fun id => validGameId id) = ids ∧
        (∀ chunk ∈ chunks lichessBatchSize (ids.filter fun id => validGameId id),
          (known games chunk).Nodup) ∧
        ∀ id ∈ ids, validGameId id = true → ∀ game, games id = some game → game.readable := by
  unfold LichessApi.fetchResultsStatus
  rw [foldl_splitId]
  dsimp only
  have hflat := chunks_flatten (n := lichessBatchSize) (by decide)
    (ids.filter fun id => validGameId id)
  have hinvalid : ((ids.filter fun id => !validGameId id).map fun id =>
      ((id, .error .invalidGameId) : String × LichessAnswer)) =
      (ids.filter fun id => !validGameId id).map fun id => (id, lookup games id) := by
    refine map_congr_left fun id hid => ?_
    have hfalse : validGameId id = false := by simpa using (mem_filter.mp hid).2
    rw [lookup, hfalse, if_neg Bool.false_ne_true]
  generalize chunks lichessBatchSize (ids.filter fun id => validGameId id) = cs at hflat ⊢
  have hvalid : ∀ id ∈ cs.flatten, validGameId id = true := by
    rw [hflat]
    exact fun id hid => (mem_filter.mp hid).2
  have hread : (∀ id ∈ cs.flatten, ∀ game, games id = some game → game.readable) ↔
      ∀ id ∈ ids, validGameId id = true → ∀ game, games id = some game → game.readable := by
    simp only [hflat, mem_filter, and_imp]
  rw [foldlM_statusChunk h _ hvalid, hinvalid, Except.ok.injEq, ← hread,
    ← flatMap_statusOf_iff h hvalid, ← hflat]
  constructor
  · intro heq
    have hids : (ids.filter fun id => !validGameId id) ++ cs.flatten = ids := by
      have hfst := congrArg (List.map Prod.fst) heq
      simpa [Function.comp_def, flatMap_statusOf_fst h hvalid] using hfst
    refine ⟨hids, ?_⟩
    nth_rewrite 2 [← hids] at heq
    rw [map_append] at heq
    exact append_cancel_left heq
  · rintro ⟨hids, hrest⟩
    rw [hrest, ← map_append, hids]

/-- The export batch gives every id of the input the answer of a single lookup. The status batch
is a list of these answers in the order of the input if and only if invalid ids come first, no
known game is asked for twice in a chunk of 50, and no game without a winner is in progress. -/
theorem lichess_batches_agree_iff (h : Truthful api games) (ids : List String) :
    (∃ results, api.fetchResultsExport ids = .ok results ∧
      ∀ id, results id = if id ∈ ids then some (api.fetchResult id) else none) ∧
    (api.fetchResultsStatus ids = .ok (ids.map fun id => (id, api.fetchResult id)) ↔
      ((ids.filter fun id => !validGameId id) ++ ids.filter fun id => validGameId id) = ids ∧
        (∀ chunk ∈ chunks lichessBatchSize (ids.filter fun id => validGameId id),
          (known games chunk).Nodup) ∧
        ∀ id ∈ ids, validGameId id = true → ∀ game, games id = some game → game.readable) := by
  simp only [h.fetchResult_eq]
  exact ⟨⟨_, h.fetchResultsExport_eq ids, fun _ => rfl⟩, h.fetchResultsStatus_eq_iff ids⟩

/-- Endpoints that report the games as they are. -/
def reporting (games : String → Option Game) : LichessApi where
  exportGame id := .ok (match games id with
    | none => ⟨404, none, .error "not found"⟩
    | some game => ⟨200, none, .ok ⟨some id, game.status, game.winner⟩⟩)
  exportGames ids := .ok ⟨200, none, .ok (ids.filterMap fun id =>
    (games id).map fun game => some ⟨some id, game.status, game.winner⟩)⟩
  gamesStatus ids := .ok ⟨200, none, .ok (ids.filterMap fun id =>
    (games id).map fun game => ⟨id, game.winner⟩)⟩

theorem reporting_truthful (games : String → Option Game) : Truthful (reporting games) games where
  missing id _ hnone := ⟨⟨404, none, .error "not found"⟩, by simp [reporting, hnone], rfl⟩
  found id game _ hgame := ⟨⟨some id, game.status, game.winner⟩,
    ⟨⟨200, none, .ok ⟨some id, game.status, game.winner⟩⟩, by simp [reporting, hgame], rfl, rfl⟩,
    rfl, rfl⟩
  exported ids _ := by
    refine ⟨ids.filterMap fun id => (games id).map fun game => ⟨some id, game.status, game.winner⟩,
      ⟨_, rfl, rfl, ?_⟩, ?_, ?_⟩
    · simp [map_filterMap, Function.comp_def]
    · simp only [mem_filterMap, map_eq_some_iff]
      rintro line ⟨j, -, game, hgame, rfl⟩ id hid
      obtain rfl := Option.some.inj hid
      exact hgame
    · intro id hid hsome
      obtain ⟨game, hgame⟩ := isSome_iff_exists.mp hsome
      exact ⟨_, mem_filterMap.mpr ⟨id, hid, by rw [hgame]; rfl⟩, rfl⟩
  statuses ids _ := by
    refine ⟨ids.filterMap fun id => (games id).map fun game => ⟨id, game.winner⟩,
      ⟨_, rfl, rfl, rfl⟩, ?_, ?_⟩
    · simp only [mem_filterMap, map_eq_some_iff]
      rintro entry ⟨j, -, game, hgame, rfl⟩
      exact ⟨game, hgame, rfl⟩
    · intro id hid hsome
      obtain ⟨game, hgame⟩ := isSome_iff_exists.mp hsome
      exact ⟨_, mem_filterMap.mpr ⟨id, hid, by rw [hgame]; rfl⟩, rfl⟩

/-- One game won by white and one in progress. -/
def twoGames (gameId : String) : Option Game :=
  if gameId = "abcd1234" then some ⟨some "mate", some "white"⟩
  else if gameId = "wxyz5678" then some ⟨some "started", none⟩
  else none

theorem lichess_batches_agree_iff_twoGames : Truthful (reporting twoGames) twoGames ∧
    (reporting twoGames).fetchResultsStatus ["bad", "abcd1234", "unknown1"] =
      .ok (["bad", "abcd1234", "unknown1"].map fun id =>
        (id, (reporting twoGames).fetchResult id)) := by
  have htruthful := reporting_truthful twoGames
  refine ⟨htruthful, (lichess_batches_agree_iff htruthful _).2.mpr ⟨by decide, ?_, ?_⟩⟩
  · decide
  · intro id hid _ game hgame hnone
    simp only [mem_cons, not_mem_nil, or_false] at hid
    rcases hid with rfl | rfl | rfl <;> simp [twoGames] at hgame
    subst hgame
    exact absurd hnone (by simp)

/-- A game in progress is a draw in the status batch, a game that is asked for twice is not found
the second time, and an invalid id comes first. -/
theorem status_batch_disagrees : Truthful (reporting twoGames) twoGames ∧
    (reporting twoGames).fetchResultsStatus ["wxyz5678"] = .ok [("wxyz5678", .ok ⟨.draw⟩)] ∧
    (reporting twoGames).fetchResult "wxyz5678" = .error .gameNotFinished ∧
    (reporting twoGames).fetchResultsStatus ["abcd1234", "abcd1234"] =
      .ok [("abcd1234", .ok ⟨.player1⟩), ("abcd1234", .error .gameNotFound)] ∧
    (reporting twoGames).fetchResultsStatus ["abcd1234", "bad"] =
      .ok [("bad", .error .invalidGameId), ("abcd1234", .ok ⟨.player1⟩)] := by
  refine ⟨reporting_truthful twoGames, ?_, ?_, ?_, ?_⟩ <;> decide

end Checkmate.Service
