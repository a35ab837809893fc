import Checkmate.Host.Run

/-!
# The heartbeat of the WebSocket server

At an interval the server pings every client that is connected, and terminates those it has seen
nothing of for longer than the timeout. What it takes as a sign of life is a message or a ping of
the client. There is no handler for a pong, so the answer to the server's own ping is none : a
client that answers every ping and sends nothing else is terminated (`answering_client_terminated`),
and one that sends something between any two runs is not (`heartbeat_sound`).
-/

namespace Checkmate.Websocket

open Function

/-- The frames that a client sends. -/
inductive Frame where
  | message
  | ping
  | pong
  deriving DecidableEq

structure ClientState where
  lastSeenAt : ℕ
  /-- The socket is in the state `OPEN`. -/
  isOpen : Bool := true
  /-- The heartbeat terminated the connection : the reason is `heartbeat_timeout`. -/
  timedOut : Bool := false
  /-- A ping of the server has not been answered yet. -/
  unanswered : Bool := false

/-- The clients, and what is recorded of the time since the last heartbeat run. -/
structure ConnectionManager where
  clients : ℕ → Option ClientState := fun _ => none
  /-- The time of the last heartbeat run, or of the start of the timer. -/
  lastRun : ℕ
  /-- The client has connected, or sent a message or a ping, since then. -/
  heard : ℕ → Bool := fun _ => false

inductive Action where
  | connect (clientId : ℕ)
  | frame (clientId : ℕ) (f : Frame)
  | close (clientId : ℕ)
  | heartbeat
  deriving DecidableEq

/-- The client that an action comes from. -/
def Action.client : Action → Option ℕ
  | .connect clientId | .frame clientId _ | .close clientId => some clientId
  | .heartbeat => none

/-- An action and what `Date.now()` returns in it. -/
structure Event where
  now : ℕ
  action : Action

/-- The handlers of a socket : `message` and `ping` have one, `pong` has none. -/
def ClientState.onFrame (now : ℕ) (state : ClientState) : Frame → ClientState
  | .message | .ping => { state with lastSeenAt := now }
  | .pong => { state with unanswered := false }

/-- What a heartbeat run does with one client. -/
def ClientState.beat (timeoutMs now : ℕ) (state : ClientState) : ClientState :=
  if state.isOpen = false then state
  else if now - state.lastSeenAt > timeoutMs then { state with isOpen := false, timedOut := true }
  else { state with unanswered := true }

def handleConnection (m : ConnectionManager) (now clientId : ℕ) : ConnectionManager :=
  { m with
    clients := update m.clients clientId (some ⟨now, true, false, false⟩)
    heard := update m.heard clientId true }

def runHeartbeat (timeoutMs : ℕ) (m : ConnectionManager) (now : ℕ) : ConnectionManager where
  clients clientId := (m.clients clientId).map (·.beat timeoutMs now)
  lastRun := now
  heard _ := false

def step (timeoutMs : ℕ) (m : ConnectionManager) (e : Event) : ConnectionManager :=
  match e.action with
  | .connect clientId => handleConnection m e.now clientId
  | .frame clientId f =>
    { m with
      clients := update m.clients clientId ((m.clients clientId).map (·.onFrame e.now f))
      heard := update m.heard clientId (m.heard clientId || decide (f ≠ .pong)) }
  | .close clientId => { m with clients := update m.clients clientId none }
  | .heartbeat => runHeartbeat timeoutMs m e.now

/-- Heartbeats run at the interval, and everything else happens between them. -/
def OnSchedule (intervalMs : ℕ) (m : ConnectionManager) (e : Event) : Prop :=
  m.lastRun ≤ e.now ∧ e.now ≤ m.lastRun + intervalMs ∧
    (e.action = .heartbeat → e.now = m.lastRun + intervalMs)

instance (intervalMs : ℕ) : DecidableRel (OnSchedule intervalMs) := fun _ _ =>
  inferInstanceAs (Decidable (_ ∧ _ ∧ (_ → _)))

/-- The client is heard of before every heartbeat run. -/
def Talks (clientId : ℕ) (m : ConnectionManager) (e : Event) : Prop :=
  e.action = .heartbeat → (m.clients clientId).isSome → m.heard clientId = true

instance (clientId : ℕ) : DecidableRel (Talks clientId) := fun _ _ =>
  inferInstanceAs (Decidable (_ → _ → _))

/-- A client that was heard of since the last run was seen since then, and none was terminated. -/
structure ConnectionManager.Alive (m : ConnectionManager) (clientId : ℕ) : Prop where
  seen : ∀ state ∈ m.clients clientId, m.heard clientId = true → m.lastRun ≤ state.lastSeenAt
  kept : ∀ state ∈ m.clients clientId, state.isOpen = true ∧ state.timedOut = false

variable {timeoutMs intervalMs clientId : ℕ} {m : ConnectionManager} {e : Event} {es : List Event}

/-- What comes from another client changes nothing for this one. -/
theorem step_of_other {id : ℕ} (hid : e.action.client = some id) (hne : clientId ≠ id) :
    (step timeoutMs m e).clients clientId = m.clients clientId ∧
      (step timeoutMs m e).heard clientId = m.heard clientId ∧
        (step timeoutMs m e).lastRun = m.lastRun := by
  obtain ⟨now, action⟩ := e
  cases action <;> cases hid <;>
    simp [step, handleConnection, update_of_ne hne]

theorem step_alive (hle : intervalMs ≤ timeoutMs) (hm : m.Alive clientId)
    (he : OnSchedule intervalMs m e ∧ Talks clientId m e) :
    (step timeoutMs m e).Alive clientId := by
  obtain ⟨⟨hfrom, -, hbeat⟩, htalks⟩ := he
  cases hid : e.action.client with
  | some id =>
    rcases eq_or_ne clientId id with rfl | hne
    · obtain ⟨now, action⟩ := e
      cases action with
      | heartbeat => cases hid
      | connect =>
        cases hid
        exact ⟨by simpa [step, handleConnection] using hfrom, by simp [step, handleConnection]⟩
      | close =>
        cases hid
        exact ⟨by simp [step], by simp [step]⟩
      | frame id f =>
        cases hid
        refine ⟨?_, by cases f <;> simpa [step, ClientState.onFrame] using hm.kept⟩
        cases f with
        | pong => simpa [step, ClientState.onFrame] using hm.seen
        | message | ping =>
          simp only [step, ClientState.onFrame, update_self, Option.mem_def, Option.map_eq_some_iff]
          rintro _ ⟨_, -, rfl⟩ -
          exact hfrom
    · obtain ⟨hclients, hheard, hlast⟩ := @step_of_other timeoutMs _ m _ _ hid hne
      exact ⟨by rw [hclients, hheard, hlast]; exact hm.seen, by rw [hclients]; exact hm.kept⟩
  | none =>
    obtain ⟨now, action⟩ := e
    cases action <;> cases hid
    refine ⟨by simp [step, runHeartbeat], fun state hstate => ?_⟩
    obtain ⟨before, hbefore, rfl⟩ := Option.map_eq_some_iff.mp hstate
    have hseen := hm.seen before hbefore (htalks rfl (by simp [hbefore]))
    have hnow : now = m.lastRun + intervalMs := hbeat rfl
    obtain ⟨hopen, hkept⟩ := hm.kept before hbefore
    rw [ClientState.beat, if_neg (by simp [hopen]), if_neg (by dsimp only; omega)]
    exact ⟨hopen, hkept⟩

/-- The client is silent since `seenAt`, and still connected or terminated. -/
def ConnectionManager.Silent (m : ConnectionManager) (clientId seenAt : ℕ) : Prop :=
  ∃ state, m.clients clientId = some state ∧ state.lastSeenAt = seenAt ∧
    (state.isOpen = true ∨ state.timedOut = true)

theorem step_silent {seenAt : ℕ} (hm : m.Silent clientId seenAt)
    (he : e.action.client ≠ some clientId) : (step timeoutMs m e).Silent clientId seenAt := by
  obtain ⟨state, hstate, hseen, hend⟩ := hm
  cases hid : e.action.client with
  | some id =>
    have hne : clientId ≠ id := fun h => he (h ▸ hid)
    exact ⟨state, (step_of_other hid hne).1.trans hstate, hseen, hend⟩
  | none =>
    obtain ⟨now, action⟩ := e
    cases action <;> cases hid
    refine ⟨state.beat timeoutMs now, by simp [step, runHeartbeat, hstate], ?_⟩
    unfold ClientState.beat
    split_ifs <;> simp_all

/-- A client that sends something between any two heartbeat runs is never terminated, and one that
sends nothing is terminated by the first run after the timeout. -/
theorem heartbeat_sound (hle : intervalMs ≤ timeoutMs) {start : ℕ}
    (hes : Along (step timeoutMs) (OnSchedule intervalMs) { lastRun := start } es) :
    (∀ clientId, Along (step timeoutMs) (Talks clientId) { lastRun := start } es →
      ∀ state ∈ (run (step timeoutMs) { lastRun := start } es).clients clientId,
        state.isOpen = true ∧ state.timedOut = false) ∧
    ∀ clientId state quiet now,
      (run (step timeoutMs) { lastRun := start } es).clients clientId = some state →
      state.isOpen = true → (∀ e ∈ quiet, e.action.client ≠ some clientId) →
      now - state.lastSeenAt > timeoutMs →
      ∃ state', (run (step timeoutMs) { lastRun := start }
          (es ++ quiet ++ [⟨now, .heartbeat⟩])).clients clientId = some state' ∧
        state'.timedOut = true := by
  refine ⟨fun clientId htalks => ?_, fun clientId state quiet now hstate hopen hquiet hlate => ?_⟩
  · have halive := run_inv (I := (ConnectionManager.Alive · clientId))
      (fun m e hm he => step_alive hle hm he) ⟨by simp, by simp⟩ (hes.and htalks)
    exact halive.kept
  · obtain ⟨state', hstate', hseen, hend⟩ := run_inv
      (I := (ConnectionManager.Silent · clientId state.lastSeenAt))
      (fun m e hm (he : e.action.client ≠ some clientId) => @step_silent timeoutMs _ m e _ hm he)
      ⟨state, hstate, rfl, .inl hopen⟩ (along_of_forall hquiet)
    rw [run_append, run_append]
    refine ⟨state'.beat timeoutMs now, by simp [step, runHeartbeat, hstate'], ?_⟩
    unfold ClientState.beat
    split_ifs <;> simp_all

/-- Client 1 connects and sends the frame after every run. -/
def answering (f : Frame) : List Event :=
  [⟨0, .connect 1⟩, ⟨30, .heartbeat⟩, ⟨31, .frame 1 f⟩, ⟨60, .heartbeat⟩, ⟨61, .frame 1 f⟩,
    ⟨90, .heartbeat⟩]

theorem heartbeat_sound_talking :
    Along (step 40) (OnSchedule 30) { lastRun := 0 } (answering .message) ∧
      ∀ state ∈ (run (step 40) { lastRun := 0 } (answering .message)).clients 1,
        state.isOpen = true ∧ state.timedOut = false :=
  ⟨by decide, (@heartbeat_sound 40 30 _ (by decide) 0 (by decide)).1 1 (by decide)⟩

/-- A client that answers every ping before the next run is terminated. -/
theorem answering_client_terminated :
    Along (step 40) (OnSchedule 30) { lastRun := 0 } (answering .pong) ∧
      Along (step 40) (fun m e => e.action = .heartbeat →
        ∀ state ∈ m.clients 1, state.unanswered = false) { lastRun := 0 } (answering .pong) ∧
      ((run (step 40) { lastRun := 0 } (answering .pong)).clients 1).map ClientState.timedOut =
        some true := by
  decide

end Checkmate.Websocket
