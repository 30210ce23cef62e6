import Aegis.Lib.Run

/-!
# Replay.Sessions

The replay sessions of the background: `START_REPLAY`, `ABORT_REPLAY`, `REPLAY_PROGRESS`,
`REPLAY_CONTEXT`, `REPLAY_COMPLETE`, the alarms, the tab listeners, `cleanupReplaySession`,
`closeRetainedReplayTab` and `recoverReplaySessionOnStartup`.

A step is one segment of a handler between two of its awaits. What a handler still has to do is a
`Job`; any job may go on next, so a run is any interleaving. A call of the browser takes effect in
the segment that makes it. Calls of the storage, the tabs and the alarms succeed.

A session, its task and its tab have one number. The events say what the clock, the address of a tab
and the hop counter make of a check.
-/

namespace Aegis

namespace ReplaySessions

abbrev TaskID := Nat

inductive Status where
  | success | failure | cancelled
deriving DecidableEq

structure Session where
  /-- The alarms `replay_total_` and `replay_idle_`. -/
  total : Bool
  idle : Bool
  /-- The two listeners of the tab are registered. -/
  listening : Bool
  /-- The keys of the payload and of the context. -/
  payload : Bool
  context : Bool
  /-- The tab is open. -/
  tab : Bool
  /-- It was started for a DSL replay. -/
  dsl : Bool
  /-- It has been stored. -/
  begun : Bool
  /-- The statuses of its terminal events, the first one first. -/
  outcomes : List Status
  /-- Its terminal broadcasts, and whether a wizard was connected. -/
  broadcasts : List (Status × Bool)
  /-- The completions of its replay on the server. -/
  completions : List Status
deriving DecidableEq

def Session.none : Session :=
  ⟨false, false, false, false, false, false, false, false, [], [], []⟩

inductive After where
  | nothing
  | start (dsl : Bool)
  | abort

/-- What `cleanupReplaySession` does next. -/
inductive Point where
  | idleAlarm | abortRunner | storage | tab | broadcast
deriving DecidableEq

/-- What waits for `closeRetainedReplayTab` to return. -/
inductive Closing where
  | start (dsl : Bool)
  | abort
  | recover

inductive Job where
  | cleanup (n : TaskID) (status : Status) (closeTab : Bool) (next : Point) (after : After)
  /-- The key of the DSL workflow is read. -/
  | completing (n : TaskID) (status : Status) (read : Option TaskID) (after : After)
  /-- The server has been told, or there was nothing to tell. -/
  | told (after : After)
  /-- `retainSuccessfulReplayTab`, before the cleanup. -/
  | retaining (n : TaskID)
  /-- `closeRetainedReplayTab`, when the key is read, when it is removed, and when the tab is. -/
  | forget (read : Option TaskID) (closing : Closing)
  | release (read : Option TaskID) (closing : Closing)
  | released (closing : Closing)
  /-- `START_REPLAY`, when the tab is created, when the session is stored, when its alarm is. -/
  | created (n : TaskID)
  | stored (n : TaskID)
  | armed (n : TaskID)
  /-- `runReplayBoot`. -/
  | booting (n : TaskID)
  /-- `onTabUpdated`, before its checks, when the session is stored, when the payload is read, and
  when the runner is injected. -/
  | visited (n : TaskID)
  | hopped (n : TaskID)
  | resuming (n : TaskID) (payload : Bool)
  | injected (n : TaskID)
  /-- `onTabRemoved` is to be called. -/
  | removed (n : TaskID)
  /-- An alarm, when the session is read. -/
  | alarm (n : TaskID) (total : Bool) (read : Option TaskID)
  /-- `REPLAY_COMPLETE` to a worker without a session: the keys are read, the tab is retained or
  closed, the session key is removed. -/
  | finishing (n : TaskID) (status : Status) (fits : Bool) (session retained : Option TaskID)
  | finished (n : TaskID) (status : Status)
  | reported (n : TaskID) (status : Status)
  /-- The recovery, when the retained tab is read, when the session is, when its tab is, and when
  its first alarm is set. -/
  | recovering (retained : Option TaskID)
  | recoverSession (read : Option TaskID)
  | recoverTab (n : TaskID)
  | rearmed (n : TaskID)

inductive Verdict where
  | passed | refused | gone
deriving DecidableEq

structure Background where
  sessions : TaskID → Session
  /-- `activeReplay`. -/
  active : Option TaskID
  /-- `oc_replay_session`, `oc_replay_retained_tab` and `oc_dsl_workflow`. -/
  storedKey : Option TaskID
  retainedKey : Option TaskID
  dslKey : Option TaskID
  /-- `currentWizardPort !== null`. -/
  wizard : Bool
  /-- The queue of `serializeStateMutation` is at a `START_REPLAY` or an `ABORT_REPLAY`. -/
  serial : Bool
  recoveryInFlight : Bool
  next : TaskID
  jobs : List Job

inductive Event where
  /-- `START_REPLAY`; for a DSL replay, `START_DSL_REPLAY` comes before it. -/
  | start (dsl : Bool)
  | abort
  | progress (tab : TaskID)
  | context (tab : TaskID)
  /-- `fits` tells whether the task of the message is the one expected. -/
  | complete (tab : TaskID) (status : Status) (fits : Bool)
  | alarm (n : TaskID) (total : Bool)
  | tabUpdated (tab : TaskID)
  | tabClosed (tab : TaskID)
  | wizard (connected : Bool)
  /-- The service worker is stopped, and starts again. -/
  | restart
  /-- `chrome.runtime.onStartup`. -/
  | startup
  /-- The job number `k` goes on. -/
  | resume (k : Nat) (verdict : Verdict)

namespace Background

def init : Background :=
  ⟨fun _ => .none, none, none, none, none, false, false, false, 0, []⟩

/-- The session `n` changes. -/
def modify (b : Background) (n : TaskID) (f : Session → Session) : Background :=
  { b with sessions := Function.update b.sessions n (f (b.sessions n)) }

def spawn (b : Background) (job : Job) : Background := { b with jobs := job :: b.jobs }

/-- `chrome.tabs.remove`: the listener for it is called later. -/
def closeTab (b : Background) (n : TaskID) : Background :=
  if (b.sessions n).tab then
    (b.modify n fun s => { s with tab := false }).spawn (.removed n)
  else b

/-- `START_REPLAY`, up to `chrome.tabs.create`. -/
def createTab (b : Background) (dsl : Bool) : Background :=
  ({ b with next := b.next + 1 }.modify b.next fun s => { s with tab := true, dsl := dsl }).spawn
    (.created b.next)

def proceed (b : Background) : After → Background
  | .nothing => b
  | .start dsl => b.createTab dsl
  | .abort => { b with serial := false }

/-- The first segment of `cleanupReplaySession`, of the session in memory. -/
def cleanupActive (b : Background) (status : Status) (closeTab : Bool) (after : After) : Background :=
  match b.active with
  | none => b.proceed after
  | some n =>
    ({ b with active := none }.modify n fun s =>
      { s with listening := false, total := false }).spawn
        (.cleanup n status closeTab .idleAlarm after)

/-- The first segment of `cleanupReplaySession`, of a session that was read from the storage. -/
def cleanupStored (b : Background) (n : TaskID) (status : Status) : Background :=
  (b.modify n fun s => { s with total := false }).spawn (.cleanup n status true .idleAlarm .nothing)

/-- A terminal event of the session `n`. -/
def note (b : Background) (n : TaskID) (status : Status) : Background :=
  b.modify n fun s => { s with outcomes := s.outcomes ++ [status] }

def endActive (b : Background) (status : Status) (closeTab : Bool) (after : After) : Background :=
  match b.active with
  | none => b.proceed after
  | some n => (b.note n status).cleanupActive status closeTab after

/-- `clearReplayStorage`. -/
def clearStorage (b : Background) (n : TaskID) : Background :=
  { b with storedKey := none }.modify n fun s => { s with payload := false, context := false }

/-- `broadcastReplayComplete`, and what follows up to the next await. -/
def broadcast (b : Background) (n : TaskID) (status : Status) (after : After) : Background :=
  let b' := b.modify n fun s => { s with broadcasts := s.broadcasts ++ [(status, b.wizard)] }
  if b.wizard then b'.proceed after else b'.spawn (.completing n status b.dslKey after)

/-- `onTabUpdated`, up to its first await. -/
def visit (b : Background) (n : TaskID) : Background := b.spawn (.visited n)

/-- `recoverReplaySessionOnStartup`, up to its first await. -/
def recover (b : Background) : Background :=
  if b.recoveryInFlight || b.active.isSome then b
  else { b with recoveryInFlight := true }.spawn (.recovering b.retainedKey)

/-- What comes after `closeRetainedReplayTab`. -/
def proceedClosed (b : Background) : Closing → Background
  | .start dsl =>
    -- a session that is still active is superseded
    b.endActive .failure true (.start dsl)
  | .abort => { b with serial := false }
  | .recover => b.spawn (.recoverSession b.storedKey)

def resume (b : Background) (verdict : Verdict) : Job → Background
  | .cleanup n status closeTab .idleAlarm after =>
    (b.modify n fun s => { s with idle := false }).spawn
      (.cleanup n status closeTab .abortRunner after)
  | .cleanup n status closeTab .abortRunner after =>
    b.spawn (.cleanup n status closeTab .storage after)
  | .cleanup n status closeTab .storage after =>
    (b.clearStorage n).spawn (.cleanup n status closeTab .tab after)
  | .cleanup n status closeTab .tab after =>
    (if closeTab then b.closeTab n else b).spawn (.cleanup n status closeTab .broadcast after)
  | .cleanup n status _ .broadcast after => b.broadcast n status after
  | .completing _ status read after =>
    match read with
    | none => b.proceed after
    | some m =>
      (b.modify m fun s => { s with completions := s.completions ++ [status] }).spawn (.told after)
  | .told after => b.proceed after
  | .retaining _ => b.cleanupActive .success false .nothing
  | .forget read closing => { b with retainedKey := none }.spawn (.release read closing)
  | .release read closing =>
    match read with
    | none => b.proceedClosed closing
    | some n => (b.closeTab n).spawn (.released closing)
  | .released closing => b.proceedClosed closing
  | .created n =>
    ({ b with storedKey := some n }.modify n fun s =>
      { s with payload := true, begun := true }).spawn (.stored n)
  | .stored n =>
    ({ b with active := some n }.modify n fun s =>
      { s with listening := true, total := true }).spawn (.armed n)
  | .armed n =>
    ({ b with serial := false }.modify n fun s => { s with idle := true }).spawn (.booting n)
  | .booting n =>
    if verdict = .refused && b.active == some n then b.endActive .failure true .nothing else b
  | .visited n =>
    match verdict with
    | .gone => b
    | .refused => b.endActive .failure true .nothing
    | .passed => { b with storedKey := some n }.spawn (.hopped n)
  | .hopped n => b.spawn (.resuming n (b.sessions n).payload)
  | .resuming n payload =>
    if payload then b.spawn (.injected n) else b.endActive .failure true .nothing
  | .injected _ => if verdict = .refused then b.endActive .failure true .nothing else b
  | .removed n => if (b.sessions n).listening then b.endActive .failure false .nothing else b
  | .alarm n total read =>
    if read = some n && (total || verdict = .refused) then
      (b.note n .failure).cleanupStored n .failure
    else b
  | .finishing n status fits session retained =>
    if retained = some n then b
    else if session ≠ some n || !fits then b.closeTab n
    else
      let b := b.note n status
      (if status = .success then { b with retainedKey := some n } else b.closeTab n).spawn
        (.finished n status)
  | .finished n status => { b with storedKey := none }.spawn (.reported n status)
  | .reported n status =>
    b.modify n fun s => { s with broadcasts := s.broadcasts ++ [(status, b.wizard)] }
  | .recovering retained =>
    -- a tab that has been retained for too long is released
    if retained.isSome && verdict = .refused then b.spawn (.forget b.retainedKey .recover)
    else b.spawn (.recoverSession b.storedKey)
  | .recoverSession read =>
    match read with
    | none => { b with recoveryInFlight := false }
    | some n =>
      if verdict = .refused then { b.clearStorage n with recoveryInFlight := false }
      else b.spawn (.recoverTab n)
  | .recoverTab n =>
    if !(b.sessions n).tab || verdict = .refused then
      { b.clearStorage n with recoveryInFlight := false }
    else
      ({ b with active := some n }.modify n fun s =>
        { s with listening := true, total := true }).spawn (.rearmed n)
  | .rearmed n =>
    let b := { b with recoveryInFlight := false }.modify n fun s => { s with idle := true }
    if verdict = .passed then b.visit n else b

/-- `START_DSL_REPLAY`, as far as it matters here: the key of the DSL workflow names the replay that
is to run in the next session. -/
def startDSLReplay (b : Background) : Background := { b with dslKey := some b.next }

/-- `START_REPLAY`, up to `closeRetainedReplayTab`. -/
def startReplay (b : Background) (dsl : Bool) : Background :=
  { b with serial := true }.spawn (.forget b.retainedKey (.start dsl))

def step (b : Background) : Event → Background
  | .start dsl =>
    if b.serial then b else (if dsl then b.startDSLReplay else b).startReplay dsl
  | .abort =>
    if b.serial then b
    else match b.active with
      | none => { b with serial := true }.spawn (.forget b.retainedKey .abort)
      | some _ => { b with serial := true }.endActive .cancelled true .abort
  | .progress n => if b.active = some n then { b with storedKey := some n } else b
  | .context n => if b.active = some n then b.modify n fun s => { s with context := true } else b
  | .complete n status fits =>
    match b.active with
    | some m =>
      if n ≠ m then b.closeTab n
      else if !fits then b
      else if status = .success then
        { b.note n .success with retainedKey := some n }.spawn (.retaining n)
      else b.endActive status true .nothing
    | none =>
      if n < b.next then b.spawn (.finishing n status fits b.storedKey b.retainedKey) else b
  | .alarm n total =>
    if total then
      if (b.sessions n).total then
        (b.modify n fun s => { s with total := false }).spawn (.alarm n true b.storedKey)
      else b
    else if (b.sessions n).idle then b.spawn (.alarm n false b.storedKey) else b
  | .tabUpdated n => if (b.sessions n).listening then b.visit n else b
  | .tabClosed n => b.closeTab n
  | .wizard connected => { b with wizard := connected }
  | .restart =>
    { b with
      sessions := fun n => { b.sessions n with listening := false }
      active := none, wizard := false, serial := false, recoveryInFlight := false
      jobs := [] }.recover
  | .startup => b.recover
  | .resume k verdict =>
    match b.jobs[k]? with
    | none => b
    | some job => { b with jobs := b.jobs.eraseIdx k }.resume verdict job

end Background

end ReplaySessions

end Aegis
