import Aegis.Replay.Sessions

/-!
# Replay.Outcome

A replay session ends once.

* `OneOutcome` — a session has at most one broadcast and one completion, with the status of its
  first terminal event, and once it has ended nothing of it is left but the tab of a success.
* `Keeps`      — an event of another session leaves a session its alarms, its keys, its tab and its
  place in memory.
* `sole`       — a segment acts on the session it belongs to, and on none that has ended.
-/

namespace Aegis

namespace ReplaySessions

/-- The end of the session `n` is under way. -/
def Job.ends (n : TaskID) : Job → Bool
  | .cleanup m .. => m == n
  | .completing m .. => m == n
  | .retaining m => m == n
  | _ => false

def Job.cleaning (p : Point → Bool) (n : TaskID) : Job → Bool
  | .cleanup m _ _ next _ => m == n && p next
  | _ => false

namespace Background

variable (b : Background)

def live (n : TaskID) : Bool := (b.sessions n).begun && (b.sessions n).outcomes.isEmpty

def Releasing (n : TaskID) : Prop := ∃ closing, .release (some n) closing ∈ b.jobs

/-- What is left of a session that has ended with the status. -/
structure Settled (n : TaskID) (status : Status) : Prop where
  alarms : (b.sessions n).total = false ∧ (b.sessions n).idle = false
  listeners : (b.sessions n).listening = false
  keys : (b.sessions n).payload = false ∧ (b.sessions n).context = false ∧ b.storedKey ≠ some n
  memory : b.active ≠ some n
  tab : (b.sessions n).tab = true → status = .success ∧ (b.retainedKey = some n ∨ b.Releasing n)
  told : (b.sessions n).dsl = true → ∃ wizard, (b.sessions n).broadcasts = [(status, wizard)] ∧
    (wizard = false → (b.sessions n).completions = [status])

/-- Each session is told at most one outcome, its first, and is settled by it. -/
structure OneOutcome : Prop where
  once : ∀ n, (b.sessions n).broadcasts.length ≤ 1 ∧ (b.sessions n).completions.length ≤ 1
  first : ∀ n status, status ∈ (b.sessions n).broadcasts.map Prod.fst ∨
    status ∈ (b.sessions n).completions → (b.sessions n).outcomes.head? = some status
  settled : ∀ n status, (b.sessions n).outcomes.head? = some status →
    (∀ job ∈ b.jobs, job.ends n = false) → b.Settled n status

def ofJob (n : TaskID) : Job → Bool
  | .cleanup m .. | .retaining m | .booting m | .visited m | .resuming m _ | .injected m
  | .removed m | .alarm m .. | .finishing m .. | .release (some m) _ => m == n
  -- a new session supersedes the one in memory
  | .release none (.start _) | .released (.start _) => b.active == some n
  | _ => false

def owns (n : TaskID) : Event → Bool
  | .abort => b.active == some n
  | .complete m .. => m == n
  | .resume k _ => b.jobs[k]?.any (b.ofJob n)
  | _ => false

structure Kept (e : Event) (b' : Background) (n : TaskID) : Prop where
  key : b.storedKey = some n → b'.storedKey = some n
  memory : e ≠ .restart → b.active = some n → b'.active = some n
  payload : (b.sessions n).payload = true → (b'.sessions n).payload = true
  context : (b.sessions n).context = true → (b'.sessions n).context = true
  idle : (b.sessions n).idle = true → (b'.sessions n).idle = true
  total : e ≠ .alarm n true → (b.sessions n).total = true → (b'.sessions n).total = true
  tab : e ≠ .tabClosed n → (b.sessions n).tab = true → (b'.sessions n).tab = true

/-- Only an event of a session ends it, and closes the tab it has left. -/
structure Keeps (e : Event) (b' : Background) : Prop where
  own : ∀ n, b.live n = true → b'.live n = false → b.owns n e = true
  kept : ∀ n, b.live n = true → b'.live n = true → b.Kept e b' n
  left : ∀ n, e ≠ .tabClosed n → b.owns n e = false → (b.sessions n).tab = true → (b'.sessions n).tab = true

/-- No session but `n` is in memory. -/
def alone (n : TaskID) : Bool := b.active.all (· == n)

def unended : Bool := b.active.all b.live

def mayStore (n : TaskID) : Bool := b.storedKey.all fun m => m == n || !b.live m

def mayClose (n : TaskID) : Bool := !(b.live n && (b.sessions n).tab)

def mayRetain (n : TaskID) : Bool := b.retainedKey.all fun m => m == n || !(b.sessions m).tab

def ahead (p : Point → Bool) (n : TaskID) : Bool :=
  b.live n || b.active == some n || b.jobs.any (Job.cleaning p n)

def mayArm (n : TaskID) : Bool := b.ahead (· == .idleAlarm) n

def mayPersist (n : TaskID) : Bool :=
  b.ahead (fun next => next != .tab && next != .broadcast) n && b.mayStore n

def mayComplete (n : TaskID) : Bool :=
  b.wizard || b.dslKey == some n || (b.dslKey.isNone && !(b.sessions n).dsl)

def mayResume (verdict : Verdict) : Job → Bool
  | .cleanup n _ _ .storage _ => b.mayStore n
  | .cleanup n _ _ .broadcast _ => b.mayComplete n
  | .retaining n => b.alone n
  | .forget read _ => b.retainedKey.all fun m => read == some m || !(b.sessions m).tab
  | .release none (.start _) | .released (.start _) => b.unended
  | .created n => b.mayStore n
  | .stored n => b.active.isNone && b.live n
  | .armed n | .rearmed n => b.mayArm n
  | .booting n => verdict != .refused || b.active != some n || b.live n
  | .visited n =>
    match verdict with
    | .gone => true
    | .refused => b.alone n && b.unended
    | .passed => b.mayPersist n
  | .resuming n payload => payload || b.alone n && b.unended
  | .injected n => verdict != .refused || b.alone n && b.unended
  | .removed n => !(b.sessions n).listening || b.unended
  | .alarm n total read =>
    !(read == some n && (total || verdict == .refused)) || b.live n && b.active != some n
  | .finishing n _ fits session retained =>
    retained == some n || (session != some n || !fits) && b.mayClose n
  | .recoverSession (some n) => verdict != .refused || !b.live n && b.mayStore n
  | .recoverTab n =>
    if !(b.sessions n).tab || verdict == .refused then !b.live n && b.mayStore n
    else b.active.isNone && b.live n
  | _ => true

def losesEnd : Job → Bool
  | .cleanup n status .. =>
    (b.sessions n).idle || (b.sessions n).payload || (b.sessions n).context ||
      b.storedKey == some n || (b.sessions n).tab && status != .success || (b.sessions n).dsl
  | .completing _ _ read _ => read.isSome
  | .retaining n => b.active == some n
  | .release (some n) _ => (b.sessions n).tab
  | _ => false

/-- The segment acts on its own session, which has not ended yet, or on what is left to clear. -/
def sole : Event → Bool
  | .abort => b.serial || b.unended
  | .progress n => b.active != some n || b.mayStore n
  | .complete n status fits =>
    match b.active with
    | none => true
    | some m =>
      if n ≠ m then b.mayClose n
      else !fits || (if status = .success then
        (b.live n || (b.sessions n).outcomes.head? == some .success) && b.mayRetain n
      else b.live n)
  | .restart => !b.jobs.any b.losesEnd
  | .resume k verdict => b.jobs[k]?.all (b.mayResume verdict)
  | _ => true

end Background

end ReplaySessions

end Aegis
