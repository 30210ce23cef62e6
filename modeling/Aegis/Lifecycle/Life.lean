import Mathlib.Logic.Relation
import Aegis.Models

/-!
# Lifecycle.Life

What the task store is for: a task is either at rest, or held by one worker under one attempt.

* `Life`       — the state of one task, with the number of attempts that have ended.
* `Life.Step`  — what one call may do to it. Only `claim` gives a task to a worker, and only a task
                 at rest; every end of an attempt counts it.
* `Life.Reaches` — any number of steps.
-/

namespace Aegis

inductive Phase where
  | leased | running | waiting
deriving DecidableEq

def Phase.task : Phase → TaskStatus
  | leased => .leased
  | running => .running
  | waiting => .waitingHuman

def Phase.attempt : Phase → ExecutionAttemptStatus
  | leased => .leased
  | running => .running
  | waiting => .waitingHuman

/-- One task: not created, at rest after `ended` attempts, or held under an attempt by a worker. -/
inductive Life where
  | absent
  | atRest (status : TaskStatus) (ended : Nat)
  | held (phase : Phase) (attempt : AttemptID) (worker : WorkerID) (ended : Nat)

namespace Life

inductive Step : Life → Life → Prop where
  | stay (l) : Step l l
  | create : Step absent (atRest .pending 0)
  | claim (n a w) : Step (atRest .pending n) (held .leased a w n)
  | start (p a w n) : p ≠ .waiting → Step (held p a w n) (held .running a w n)
  | suspend (p a w n) : p ≠ .waiting → Step (held p a w n) (held .waiting a w n)
  | resume (a w n) : Step (held .waiting a w n) (held .running a w n)
  | finish (p a w n status) : status.isTerminal = true → Step (held p a w n) (atRest status (n + 1))
  | requeue (p a w n) : p ≠ .waiting → Step (held p a w n) (atRest .pending (n + 1))
  | drop (n) : Step (atRest .pending n) (atRest .cancelled n)
  | retry (status n) : status.isRetryable = true → Step (atRest status n) (atRest .pending n)

def Reaches : Life → Life → Prop := Relation.ReflTransGen Step

end Life

end Aegis
