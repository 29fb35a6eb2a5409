import Carquet.Lib.RingBuffer
import Carquet.Lib.CondVar
import Mathlib.Logic.Relation

/-!
# The worker pool

Model of `reader/worker_pool.c:98-300`: `worker_thread_func`, `carquet_worker_pool_submit`, `wait`,
`submit_batch` and `destroy`. A step is what one thread does while it holds the pool's mutex: it takes
the mutex (on entry, or when its condition wait returns), runs to the unlock or to the next condition
wait, and lets the mutex go. A task runs outside the mutex, between two steps of its worker.

A condition wait may return without a signal, and any of the sleepers may be the one a signal wakes.
A second `carquet_worker_pool_destroy` is a use after free and is no step; nothing else asks for
`shutdown` to be unset, as nothing else does in the source.
-/

namespace Carquet

open CondVar

/-- `CARQUET_POOL_QUEUE_CAPACITY`. -/
def poolQueueCapacity : Nat := 512

/-- Where a thread in a condition wait is: not yet signalled, signalled, or woken without a signal. -/
inductive Sleep
  | asleep
  | notified
  | woken
  deriving DecidableEq, Repr

/-- What is left to enqueue in a call that waits for room. -/
inductive Submission (τ : Type)
  | one (task : τ)
  | batch (args : List τ) (h : args ≠ [])

/-- A worker: about to take the mutex at the top of its loop, waiting for work, executing a task, or
out of the loop. -/
inductive Worker (τ : Type)
  | ready
  | waitWork (sleep : Sleep)
  | running (task : τ)
  | exited

/-- A thread that uses the pool: outside its functions, waiting in `submit` or `submit_batch`, in
`wait`, or joining the workers in `destroy`. -/
inductive Client (τ : Type)
  | idle
  | waitNotFull (sleep : Sleep) (call : Submission τ)
  | waitDone (sleep : Sleep)
  | joining

/-- The pool, its threads, and what happened to the tasks so far: `submitted` in the order they were
enqueued, `dequeued` in the order they were taken, `finished` in the order they ended. -/
structure WorkerPool (τ : Type) where
  queue : RingBuffer τ
  activeTasks : Int
  shutdown : Bool
  workers : List (Worker τ)
  clients : List (Client τ)
  submitted : List τ
  dequeued : List τ
  finished : List τ

variable {τ : Type}

/-! ## Condition variables -/

/-- Asleep on `work_available`. -/
def wakeWork : Worker τ → Option (Worker τ)
  | .waitWork .asleep => some (.waitWork .notified)
  | _ => none

/-- Asleep on `queue_not_full`. -/
def wakeNotFull : Client τ → Option (Client τ)
  | .waitNotFull .asleep call => some (.waitNotFull .notified call)
  | _ => none

/-- Asleep on `work_done`. -/
def wakeDone : Client τ → Option (Client τ)
  | .waitDone .asleep => some (.waitDone .notified)
  | _ => none

/-! ## Threads about to take the mutex -/

/-- At the top of the loop, or back from the wait for work. -/
def Worker.TopOfLoop (w : Worker τ) : Prop :=
  w = .ready ∨ w = .waitWork .notified ∨ w = .waitWork .woken

/-- Entering `submit` with a task, or back from the wait for room for it. -/
def Client.Submits (c : Client τ) (task : τ) : Prop :=
  c = .idle ∨ c = .waitNotFull .notified (.one task) ∨ c = .waitNotFull .woken (.one task)

/-- Entering `submit_batch`, or back from the wait for room for what is left of the batch. -/
def Client.SubmitsBatch (c : Client τ) (args : List τ) : Prop :=
  c = .idle ∨ ∃ h, c = .waitNotFull .notified (.batch args h) ∨ c = .waitNotFull .woken (.batch args h)

/-- Entering `wait`, or back from its condition wait. -/
def Client.Waits (c : Client τ) : Prop :=
  c = .idle ∨ c = .waitDone .notified ∨ c = .waitDone .woken

/-! ## Steps -/

/-- The loop of `submit_batch` up to where the queue is full or the batch ends, and what is left. -/
def enqueueBatch (queue : RingBuffer τ) : List τ → RingBuffer τ × List τ
  | [] => (queue, [])
  | task :: args =>
    if poolQueueCapacity ≤ queue.count then (queue, task :: args)
    else enqueueBatch (queue.push poolQueueCapacity task) args

/-- Where `submit_batch` leaves its thread. -/
def afterBatch (rest : List τ) : Client τ :=
  if h : rest = [] then .idle else .waitNotFull .asleep (.batch rest h)

/-- The `queue_count > 0 || active_tasks > 0` of `wait`. -/
def WorkerPool.Busy (s : WorkerPool τ) : Prop := 0 < s.queue.count ∨ 0 < s.activeTasks

/-- A worker whose task ended takes it off the count, and announces an idle pool. -/
def WorkerPool.finishTask (s : WorkerPool τ) (i : Nat) (task : τ) : WorkerPool τ :=
  { s with
    activeTasks := s.activeTasks - 1
    workers := s.workers.set i .ready
    clients := if s.activeTasks - 1 = 0 ∧ s.queue.count = 0 then broadcast wakeDone s.clients
      else s.clients
    finished := s.finished ++ [task] }

/-- One section under the mutex, a condition wait that returns by itself included. -/
inductive WorkerPool.Step (s : WorkerPool τ) : WorkerPool τ → Prop
  /-- A worker finds no work and waits. -/
  | workerWaits {i : Nat} {w : Worker τ} (hw : s.workers[i]? = some w) (htop : w.TopOfLoop)
      (hempty : s.queue.count = 0) (hshutdown : s.shutdown = false) :
      Step s { s with workers := s.workers.set i (.waitWork .asleep) }
  /-- A worker finds no work after the shutdown and leaves its loop. -/
  | workerExits {i : Nat} {w : Worker τ} (hw : s.workers[i]? = some w) (htop : w.TopOfLoop)
      (hempty : s.queue.count = 0) (hshutdown : s.shutdown = true) :
      Step s { s with workers := s.workers.set i .exited }
  /-- A worker takes the task at the head and signals `queue_not_full`. -/
  | workerTakes {i : Nat} {w : Worker τ} {clients : List (Client τ)}
      (hw : s.workers[i]? = some w) (htop : w.TopOfLoop) (hne : s.queue.count ≠ 0)
      (hsignal : Signal wakeNotFull s.clients clients) :
      Step s { s with
        queue := s.queue.pop poolQueueCapacity
        activeTasks := s.activeTasks + 1
        workers := s.workers.set i (.running s.queue.front)
        clients := clients
        dequeued := s.dequeued ++ [s.queue.front] }
  /-- A worker is through with its task. -/
  | workerFinishes {i : Nat} {task : τ} (hw : s.workers[i]? = some (.running task)) :
      Step s (s.finishTask i task)
  /-- `submit` finds the queue full and waits. -/
  | submitWaits {i : Nat} {c : Client τ} {task : τ} (hc : s.clients[i]? = some c)
      (hcall : c.Submits task) (hfull : poolQueueCapacity ≤ s.queue.count) :
      Step s { s with clients := s.clients.set i (.waitNotFull .asleep (.one task)) }
  /-- `submit` enqueues its task, signals `work_available` and returns. -/
  | submits {i : Nat} {c : Client τ} {task : τ} {workers : List (Worker τ)}
      (hc : s.clients[i]? = some c) (hcall : c.Submits task)
      (hroom : ¬ poolQueueCapacity ≤ s.queue.count)
      (hsignal : Signal wakeWork s.workers workers) :
      Step s { s with
        queue := s.queue.push poolQueueCapacity task
        workers := workers
        clients := s.clients.set i .idle
        submitted := s.submitted ++ [task] }
  /-- `submit_batch` enqueues what fits, wakes all workers, and waits for room or returns. -/
  | submitsBatch {i : Nat} {c : Client τ} {args : List τ} (hc : s.clients[i]? = some c)
      (hcall : c.SubmitsBatch args) :
      Step s { s with
        queue := (enqueueBatch s.queue args).1
        workers := broadcast wakeWork s.workers
        clients := s.clients.set i (afterBatch (enqueueBatch s.queue args).2)
        submitted := s.submitted ++
          args.take (args.length - (enqueueBatch s.queue args).2.length) }
  /-- `wait` finds the pool busy and waits. -/
  | waitWaits {i : Nat} {c : Client τ} (hc : s.clients[i]? = some c) (hcall : c.Waits)
      (hbusy : s.Busy) : Step s { s with clients := s.clients.set i (.waitDone .asleep) }
  /-- `wait` finds the pool idle and returns. -/
  | waitReturns {i : Nat} {c : Client τ} (hc : s.clients[i]? = some c) (hcall : c.Waits)
      (hidle : ¬ s.Busy) : Step s { s with clients := s.clients.set i .idle }
  /-- `destroy` asks for the shutdown, wakes all workers and goes on to join them. -/
  | destroys {i : Nat} (hc : s.clients[i]? = some .idle) (hshutdown : s.shutdown = false) :
      Step s { s with
        shutdown := true
        workers := broadcast wakeWork s.workers
        clients := s.clients.set i .joining }
  /-- A wait for work returns without a signal. -/
  | workerWakes {i : Nat} (hw : s.workers[i]? = some (.waitWork .asleep)) :
      Step s { s with workers := s.workers.set i (.waitWork .woken) }
  /-- A wait for room returns without a signal. -/
  | submitWakes {i : Nat} {call : Submission τ}
      (hc : s.clients[i]? = some (.waitNotFull .asleep call)) :
      Step s { s with clients := s.clients.set i (.waitNotFull .woken call) }
  /-- A wait for the end of the work returns without a signal. -/
  | waitWakes {i : Nat} (hc : s.clients[i]? = some (.waitDone .asleep)) :
      Step s { s with clients := s.clients.set i (.waitDone .woken) }

/-- `carquet_worker_pool_create`: no pool without a worker. The memory of the queue is zeroed, here
filled with `zero`; `numClients` threads use the pool. -/
def workerPoolCreate (zero : τ) (numThreads : Int) (numClients : Nat) : Option (WorkerPool τ) :=
  if numThreads < 1 then none
  else some
    { queue := .empty fun _ => zero
      activeTasks := 0
      shutdown := false
      workers := List.replicate numThreads.toNat .ready
      clients := List.replicate numClients .idle
      submitted := []
      dequeued := []
      finished := [] }

/-- Any number of steps, of any threads in any order. -/
def WorkerPool.Reaches : WorkerPool τ → WorkerPool τ → Prop :=
  Relation.ReflTransGen WorkerPool.Step

end Carquet
