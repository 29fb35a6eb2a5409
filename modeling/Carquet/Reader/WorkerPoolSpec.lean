import Carquet.Reader.WorkerPool

/-!
# What holds between the steps of the worker pool

`WorkerPool.Inv` is kept by every step (`Inv.step`), so it holds in every state the pool reaches. The
queue is a well-formed ring whose contents follow what was dequeued in the order of submission; what
was dequeued has ended or is being executed by one worker.

The wake-ups rest on what a signal leaves behind. Work: a worker that sleeps found the queue empty,
and whoever fills it wakes one. Room: as long as a submitter sleeps, every free slot has a notified
submitter coming for it (`Inv.room`), since a slot is freed by a worker that signals and taken by a
submitter that was notified or was not asleep. Idle: only the end of the last task makes the pool
idle, and that wakes every waiter.
-/

namespace Carquet

open CondVar RingBuffer

variable {τ : Type} {s s' : WorkerPool τ}

/-! ## The queue -/

theorem enqueueBatch_spec {queue : RingBuffer τ} (h : WellFormed poolQueueCapacity queue)
    (args : List τ) :
    ∃ put, args = put ++ (enqueueBatch queue args).2 ∧
      WellFormed poolQueueCapacity (enqueueBatch queue args).1 ∧
      contents poolQueueCapacity (enqueueBatch queue args).1 =
        contents poolQueueCapacity queue ++ put ∧
      ((enqueueBatch queue args).2 ≠ [] →
        poolQueueCapacity ≤ (enqueueBatch queue args).1.count) := by
  induction args generalizing queue with
  | nil => exact ⟨[], rfl, h, (List.append_nil _).symm, fun hne => absurd rfl hne⟩
  | cons task args ih =>
    by_cases hfull : poolQueueCapacity ≤ queue.count
    · rw [enqueueBatch, if_pos hfull]
      exact ⟨[], rfl, h, (List.append_nil _).symm, fun _ => hfull⟩
    · rw [enqueueBatch, if_neg hfull]
      have hroom : queue.count < poolQueueCapacity := Nat.lt_of_not_le hfull
      obtain ⟨put, hargs, hqueue, hcontents, hleft⟩ := ih (h.push hroom task)
      refine ⟨task :: put, congrArg (task :: ·) hargs, hqueue, ?_, hleft⟩
      rw [hcontents, contents_push h hroom, List.append_assoc]
      rfl

/-- The tasks that a batch enqueued are those it no longer has. -/
theorem take_enqueued {args put rest : List τ} (h : args = put ++ rest) :
    args.take (args.length - rest.length) = put := by
  rw [h, List.length_append, Nat.add_sub_cancel, List.take_left]

/-! ## The invariant -/

/-- The task a worker executes. -/
def Worker.task : Worker τ → Option τ
  | .running task => some task
  | _ => none

/-- A submitter that was signalled and has not taken the mutex yet. -/
def Client.isNotified : Client τ → Bool
  | .waitNotFull .notified _ => true
  | _ => false

/-- The tasks being executed. -/
def WorkerPool.running (s : WorkerPool τ) : List τ := s.workers.filterMap Worker.task

/-- What every step keeps. -/
structure WorkerPool.Inv (s : WorkerPool τ) : Prop where
  queue : WellFormed poolQueueCapacity s.queue
  order : s.submitted = s.dequeued ++ contents poolQueueCapacity s.queue
  once : s.dequeued.Perm (s.finished ++ s.running)
  active : s.activeTasks = s.running.length
  work : s.queue.count ≠ 0 → ∃ w ∈ s.workers, w ≠ .waitWork .asleep
  room : (∃ call, .waitNotFull .asleep call ∈ s.clients) →
    poolQueueCapacity ≤ s.queue.count + s.clients.countP Client.isNotified
  done : ¬ s.Busy → .waitDone .asleep ∉ s.clients
  exited : .exited ∈ s.workers → s.shutdown = true

/-! ## Signals -/

theorem wakeWork_eq_some {w w' : Worker τ} (h : wakeWork w = some w') :
    w = .waitWork .asleep ∧ w' = .waitWork .notified := by
  unfold wakeWork at h
  split at h
  · exact ⟨rfl, (Option.some.inj h).symm⟩
  · cases h

theorem wakeNotFull_eq_some {c c' : Client τ} (h : wakeNotFull c = some c') :
    ∃ call, c = .waitNotFull .asleep call ∧ c' = .waitNotFull .notified call := by
  unfold wakeNotFull at h
  split at h
  · exact ⟨_, rfl, (Option.some.inj h).symm⟩
  · cases h

theorem wakeDone_eq_some {c c' : Client τ} (h : wakeDone c = some c') :
    c = .waitDone .asleep ∧ c' = .waitDone .notified := by
  unfold wakeDone at h
  split at h
  · exact ⟨rfl, (Option.some.inj h).symm⟩
  · cases h

theorem task_of_wakeWork {w w' : Worker τ} (h : wakeWork w = some w') : w.task = w'.task := by
  obtain ⟨rfl, rfl⟩ := wakeWork_eq_some h
  rfl

theorem isNotified_of_wakeNotFull {c c' : Client τ} (h : wakeNotFull c = some c') :
    c.isNotified = false ∧ c'.isNotified = true := by
  obtain ⟨call, rfl, rfl⟩ := wakeNotFull_eq_some h
  exact ⟨rfl, rfl⟩

theorem isNotified_of_wakeDone {c c' : Client τ} (h : wakeDone c = some c') :
    c.isNotified = c'.isNotified := by
  obtain ⟨rfl, rfl⟩ := wakeDone_eq_some h
  rfl

/-- A worker that a signal leaves asleep slept before. -/
theorem exists_awake_of_signal {ts ts' : List (Worker τ)} (hne : ts ≠ [])
    (h : Signal wakeWork ts ts') : ∃ w ∈ ts', w ≠ .waitWork .asleep := by
  cases h with
  | wakes hx hy =>
    obtain ⟨hi, -⟩ := List.getElem?_eq_some_iff.1 hx
    obtain ⟨-, rfl⟩ := wakeWork_eq_some hy
    exact ⟨_, List.mem_set hi _, by simp⟩
  | lost hnone =>
    obtain ⟨w, hw⟩ := List.exists_mem_of_ne_nil ts hne
    refine ⟨w, hw, ?_⟩
    rintro rfl
    cases hnone _ hw

theorem exists_awake_of_broadcast {ts : List (Worker τ)} (hne : ts ≠ []) :
    ∃ w ∈ broadcast wakeWork ts, w ≠ .waitWork .asleep := by
  obtain ⟨w, hw⟩ := List.exists_mem_of_ne_nil ts hne
  refine ⟨_, List.mem_map_of_mem hw, ?_⟩
  intro hasleep
  rcases mem_broadcast (List.mem_map_of_mem hw) with ⟨-, hnone⟩ | ⟨x, -, hx⟩
  · rw [hasleep] at hnone
    cases hnone
  · rw [hasleep] at hx
    cases (wakeWork_eq_some hx).2

/-! ## Steps -/

/-- A worker at the top of its loop executes nothing. -/
theorem Worker.TopOfLoop.task_eq {w : Worker τ} (h : w.TopOfLoop) : w.task = none := by
  rcases h with rfl | rfl | rfl <;> rfl

/-- The queue and the order of the tasks. -/
theorem WorkerPool.Inv.order_step (h : s.Inv) (hstep : s.Step s') :
    WellFormed poolQueueCapacity s'.queue ∧
      s'.submitted = s'.dequeued ++ contents poolQueueCapacity s'.queue := by
  cases hstep with
  | workerTakes hw htop hne hsignal =>
    refine ⟨h.queue.pop hne, ?_⟩
    show s.submitted = s.dequeued ++ [s.queue.front] ++ _
    rw [h.order, contents_eq_cons h.queue hne, List.append_assoc]
    rfl
  | submits hc hcall hroom hsignal =>
    have hlt : s.queue.count < poolQueueCapacity := Nat.lt_of_not_le hroom
    refine ⟨h.queue.push hlt _, ?_⟩
    show s.submitted ++ _ = s.dequeued ++ contents _ (s.queue.push _ _)
    rw [contents_push h.queue hlt, h.order, List.append_assoc]
  | @submitsBatch i c args hc hcall =>
    obtain ⟨put, hargs, hqueue, hcontents, -⟩ := enqueueBatch_spec h.queue args
    refine ⟨hqueue, ?_⟩
    show s.submitted ++ _ = s.dequeued ++ contents _ (enqueueBatch s.queue args).1
    rw [take_enqueued hargs, hcontents, h.order, List.append_assoc]
  | workerWaits | workerExits | workerFinishes | submitWaits | waitWaits | waitReturns | destroys
  | workerWakes | submitWakes | waitWakes => exact ⟨h.queue, h.order⟩

/-- The tasks being executed after a step that changes one worker. -/
theorem running_set {ts : List (Worker τ)} {i : Nat} {w : Worker τ} (hw : ts[i]? = some w)
    {w' : Worker τ} (htask : w.task = w'.task) :
    ((ts.set i w').filterMap Worker.task).Perm (ts.filterMap Worker.task) := by
  obtain ⟨held, hold, hnew⟩ := filterMap_set hw w' Worker.task
  rw [htask] at hold
  exact hnew.trans hold.symm

/-- What was dequeued, and the count of active tasks. -/
theorem WorkerPool.Inv.once_step (h : s.Inv) (hstep : s.Step s') :
    s'.dequeued.Perm (s'.finished ++ s'.running) ∧ s'.activeTasks = s'.running.length := by
  -- a step that leaves the executed tasks as they are, up to order
  have hsame : ∀ {ts : List (Worker τ)}, (ts.filterMap Worker.task).Perm s.running →
      s.dequeued.Perm (s.finished ++ ts.filterMap Worker.task) ∧
        s.activeTasks = (ts.filterMap Worker.task).length := by
    intro ts hperm
    exact ⟨h.once.trans (hperm.symm.append_left _), by rw [h.active, hperm.length_eq]⟩
  cases hstep with
  | workerWaits hw htop => exact hsame (running_set hw htop.task_eq)
  | workerExits hw htop => exact hsame (running_set hw htop.task_eq)
  | @workerTakes i w clients hw htop hne hsignal =>
    obtain ⟨held, hold, hnew⟩ := filterMap_set hw (.running s.queue.front) Worker.task
    rw [htop.task_eq] at hold
    have hnew : (WorkerPool.running { s with workers := s.workers.set i (.running s.queue.front) }).Perm
        (s.queue.front :: s.running) := hnew.trans (hold.symm.cons _)
    constructor
    · show (s.dequeued ++ [s.queue.front]).Perm (s.finished ++ _)
      refine (h.once.append_right _).trans ?_
      rw [List.append_assoc]
      exact ((List.perm_append_singleton _ _).trans hnew.symm).append_left _
    · show s.activeTasks + 1 = _
      rw [h.active]
      have := hnew.length_eq
      simp only [WorkerPool.running, List.length_cons] at this ⊢
      omega
  | @workerFinishes i task hw =>
    obtain ⟨held, hold, hnew⟩ := filterMap_set hw .ready Worker.task
    have hold : s.running.Perm (task :: held) := hold
    have hnew : (s.finishTask i task).running.Perm held := hnew
    constructor
    · show s.dequeued.Perm (s.finished ++ [task] ++ _)
      rw [List.append_assoc]
      exact h.once.trans ((hold.trans (hnew.symm.cons _)).append_left _)
    · show s.activeTasks - 1 = _
      rw [h.active, hold.length_eq, hnew.length_eq, List.length_cons]
      omega
  | submits hc hcall hroom hsignal =>
    exact hsame (hsignal.filterMap_perm fun _ _ => task_of_wakeWork)
  | submitsBatch =>
    refine hsame ?_
    rw [filterMap_broadcast fun _ _ => task_of_wakeWork]
    exact .refl _
  | destroys =>
    refine hsame ?_
    rw [filterMap_broadcast fun _ _ => task_of_wakeWork]
    exact .refl _
  | workerWakes hw => exact hsame (running_set hw rfl)
  | submitWaits | waitWaits | waitReturns | submitWakes | waitWakes => exact hsame (.refl _)

/-- **No wake-up of the workers is lost.** -/
theorem WorkerPool.Inv.work_step (h : s.Inv) (hstep : s.Step s') (hne : s.workers ≠ [])
    (hcount : s'.queue.count ≠ 0) : ∃ w ∈ s'.workers, w ≠ .waitWork .asleep := by
  -- a worker that takes a step is awake after it
  have hset : ∀ {i : Nat} {w w' : Worker τ}, s.workers[i]? = some w → w' ≠ .waitWork .asleep →
      ∃ w ∈ s.workers.set i w', w ≠ .waitWork .asleep := by
    intro i w w' hw hawake
    exact ⟨w', List.mem_set (List.getElem?_eq_some_iff.1 hw).1 _, hawake⟩
  cases hstep with
  | workerWaits hw htop hempty => exact absurd hempty hcount
  | workerExits hw htop hempty => exact absurd hempty hcount
  | workerTakes hw => exact hset hw (by simp)
  | workerFinishes hw => exact hset hw (by simp)
  | submits hc hcall hroom hsignal => exact exists_awake_of_signal hne hsignal
  | submitsBatch => exact exists_awake_of_broadcast hne
  | destroys => exact exists_awake_of_broadcast hne
  | workerWakes hw => exact hset hw (by simp)
  | submitWaits | waitWaits | waitReturns | submitWakes | waitWakes => exact h.work hcount

theorem mem_of_mem_set {α : Type} {ts : List α} {i : Nat} {x y : α} (h : x ∈ ts.set i y)
    (hne : x ≠ y) : x ∈ ts := (List.mem_or_eq_of_mem_set h).resolve_right hne

/-- A submitter that changes its state without going to sleep. -/
theorem WorkerPool.Inv.room_set (h : s.Inv) {i : Nat} {c c' : Client τ} {count : Nat}
    (hc : s.clients[i]? = some c) (hawake : ∀ call, .waitNotFull .asleep call ≠ c')
    (hcount : s.queue.count + (if c.isNotified then 1 else 0) ≤
      count + (if c'.isNotified then 1 else 0))
    (hsleeps : ∃ call, .waitNotFull .asleep call ∈ s.clients.set i c') :
    poolQueueCapacity ≤ count + (s.clients.set i c').countP Client.isNotified := by
  obtain ⟨call, hmem⟩ := hsleeps
  have hroom := h.room ⟨call, mem_of_mem_set hmem (hawake call)⟩
  have hset := countP_set hc c' Client.isNotified
  omega

theorem Client.isNotified_le (c : Client τ) : (if c.isNotified then 1 else 0) ≤ 1 := by
  split <;> omega

theorem Client.Waits.isNotified_eq {c : Client τ} (h : c.Waits) : c.isNotified = false := by
  rcases h with rfl | rfl | rfl <;> rfl

/-- **No wake-up of the submitters is lost**: the free slots do not outnumber the notified. -/
theorem WorkerPool.Inv.room_step (h : s.Inv) (hstep : s.Step s')
    (hsleeps : ∃ call, .waitNotFull .asleep call ∈ s'.clients) :
    poolQueueCapacity ≤ s'.queue.count + s'.clients.countP Client.isNotified := by
  cases hstep with
  | workerWaits | workerExits | workerWakes => exact h.room hsleeps
  | @workerTakes i w clients hw htop hne hsignal =>
    obtain ⟨call, hmem⟩ := hsleeps
    have hold : .waitNotFull .asleep call ∈ s.clients := by
      rcases hsignal.mem hmem with hold | ⟨x, -, hx⟩
      · exact hold
      · obtain ⟨_, -, heq⟩ := wakeNotFull_eq_some hx
        cases heq
    have hroom := h.room ⟨call, hold⟩
    -- somebody still sleeps, so the signal has woken one more
    rcases hsignal.countP_succ fun _ _ => isNotified_of_wakeNotFull with hsucc | hnone
    · show _ ≤ s.queue.count - 1 + clients.countP _
      omega
    · cases hnone _ hmem
  | @workerFinishes i task hw =>
    have hcount : (s.finishTask i task).clients.countP Client.isNotified =
        s.clients.countP Client.isNotified := by
      unfold WorkerPool.finishTask
      split
      · exact countP_broadcast fun _ _ => isNotified_of_wakeDone
      · rfl
    rw [hcount]
    obtain ⟨call, hmem⟩ := hsleeps
    refine h.room ⟨call, ?_⟩
    unfold WorkerPool.finishTask at hmem
    split at hmem
    · rcases mem_broadcast hmem with ⟨hold, -⟩ | ⟨x, -, hx⟩
      · exact hold
      · cases (wakeDone_eq_some hx).2
    · exact hmem
  | submitWaits hc hcall hfull => exact Nat.le_trans hfull (Nat.le_add_right _ _)
  | @submits i c task workers hc =>
    exact h.room_set hc (by simp)
      (Nat.le_trans (Nat.add_le_add_left c.isNotified_le _) (Nat.le_add_right _ _)) hsleeps
  | @submitsBatch i c args hc hcall =>
    obtain ⟨put, hargs, -, hcontents, hleft⟩ := enqueueBatch_spec h.queue args
    by_cases hrest : (enqueueBatch s.queue args).2 = []
    · have hcount : (enqueueBatch s.queue args).1.count = s.queue.count + put.length := by
        rw [← length_contents, hcontents, List.length_append, length_contents]
      have hafter : afterBatch (enqueueBatch s.queue args).2 = .idle := dif_pos hrest
      rw [hrest, List.append_nil] at hargs
      rw [hafter] at hsleeps ⊢
      refine h.room_set hc (by simp) ?_ hsleeps
      -- a submitter that was woken has at least one task left
      rcases hcall with rfl | ⟨hargsNe, rfl | rfl⟩
      · simp [Client.isNotified, hcount]
      · have := List.length_pos_of_ne_nil hargsNe
        rw [hargs] at this
        simp [Client.isNotified, hcount]
        omega
      · simp [Client.isNotified, hcount]
    · exact Nat.le_trans (hleft hrest) (Nat.le_add_right _ _)
  | waitWaits hc hcall =>
    exact h.room_set hc (by simp) (by simp [hcall.isNotified_eq]) hsleeps
  | waitReturns hc hcall =>
    exact h.room_set hc (by simp) (by simp [hcall.isNotified_eq]) hsleeps
  | destroys hc => exact h.room_set hc (by simp) (by simp [Client.isNotified]) hsleeps
  | submitWakes hc => exact h.room_set hc (by simp) (by simp [Client.isNotified]) hsleeps
  | waitWakes hc => exact h.room_set hc (by simp) (by simp [Client.isNotified]) hsleeps

/-- **No wake-up of the waiters is lost.** -/
theorem WorkerPool.Inv.done_step (h : s.Inv) (hstep : s.Step s') (hidle : ¬ s'.Busy) :
    .waitDone .asleep ∉ s'.clients := by
  -- a thread that does not fall asleep leaves nobody asleep in an idle pool
  have hset : ∀ {i : Nat} {c : Client τ}, ¬ s.Busy → .waitDone .asleep ≠ c →
      .waitDone .asleep ∉ s.clients.set i c := by
    intro i c hidle hne hmem
    exact h.done hidle (mem_of_mem_set hmem hne)
  have hactive : 0 ≤ s.activeTasks := by
    rw [h.active]
    exact Int.natCast_nonneg _
  cases hstep with
  | workerWaits | workerExits | workerWakes => exact h.done hidle
  | workerTakes =>
    refine absurd (.inr ?_) hidle
    show 0 < s.activeTasks + 1
    omega
  | @workerFinishes i task hw =>
    obtain ⟨held, hold, -⟩ := filterMap_set hw .ready Worker.task
    have hpos : 0 < s.activeTasks := by
      have hrunning : s.running.length = held.length + 1 := hold.length_eq
      rw [h.active, hrunning]
      omega
    have hlast : s.activeTasks - 1 = 0 ∧ s.queue.count = 0 := by
      have hcount : ¬ 0 < s.queue.count := fun hc => hidle (.inl hc)
      have hrest : ¬ 0 < s.activeTasks - 1 := fun ha => hidle (.inr ha)
      omega
    intro hmem
    have hmem : .waitDone .asleep ∈ broadcast wakeDone s.clients := by
      rw [WorkerPool.finishTask, if_pos hlast] at hmem
      exact hmem
    rcases mem_broadcast hmem with ⟨-, hnone⟩ | ⟨x, -, hx⟩
    · cases hnone
    · cases (wakeDone_eq_some hx).2
  | submitWaits hc hcall hfull => exact hset hidle (by simp)
  | submits => exact absurd (.inl (Nat.succ_pos _)) hidle
  | @submitsBatch i c args hc hcall =>
    obtain ⟨put, -, -, hcontents, -⟩ := enqueueBatch_spec h.queue args
    have hcount : (enqueueBatch s.queue args).1.count = s.queue.count + put.length := by
      rw [← length_contents, hcontents, List.length_append, length_contents]
    refine hset (fun hbusy => hidle ?_) ?_
    · rcases hbusy with hc | ha
      · exact .inl (by rw [hcount]; omega)
      · exact .inr ha
    · unfold afterBatch
      split <;> simp
  | waitWaits hc hcall hbusy => exact absurd hbusy hidle
  | waitReturns => exact hset hidle (by simp)
  | destroys => exact hset hidle (by simp)
  | submitWakes => exact hset hidle (by simp)
  | waitWakes => exact hset hidle (by simp)

/-- Workers leave their loop after the shutdown only. -/
theorem WorkerPool.Inv.exited_step (h : s.Inv) (hstep : s.Step s') (hexited : .exited ∈ s'.workers) :
    s'.shutdown = true := by
  cases hstep with
  | workerExits hw htop hempty hshutdown => exact hshutdown
  | workerWaits | workerTakes | workerFinishes | workerWakes =>
    exact h.exited (mem_of_mem_set hexited (by simp))
  | submits hc hcall hroom hsignal =>
    rcases hsignal.mem hexited with hold | ⟨x, -, hx⟩
    · exact h.exited hold
    · cases (wakeWork_eq_some hx).2
  | submitsBatch =>
    rcases mem_broadcast hexited with ⟨hold, -⟩ | ⟨x, -, hx⟩
    · exact h.exited hold
    · cases (wakeWork_eq_some hx).2
  | destroys => rfl
  | submitWaits | waitWaits | waitReturns | submitWakes | waitWakes => exact h.exited hexited

theorem WorkerPool.Step.workers_ne_nil (hstep : s.Step s') (h : s.workers ≠ []) :
    s'.workers ≠ [] := by
  rw [← List.length_pos_iff] at h ⊢
  cases hstep with
  | workerWaits | workerExits | workerTakes | workerFinishes | workerWakes =>
    simpa [WorkerPool.finishTask] using h
  | submits hc hcall hroom hsignal => exact hsignal.length_eq ▸ h
  | submitsBatch | destroys => simpa [broadcast] using h
  | submitWaits | waitWaits | waitReturns | submitWakes | waitWakes => exact h

theorem WorkerPool.Inv.step (h : s.Inv) (hne : s.workers ≠ []) (hstep : s.Step s') : s'.Inv where
  queue := (h.order_step hstep).1
  order := (h.order_step hstep).2
  once := (h.once_step hstep).1
  active := (h.once_step hstep).2
  work := h.work_step hstep hne
  room := h.room_step hstep
  done := h.done_step hstep
  exited := h.exited_step hstep

/-! ## Runs -/

theorem WorkerPool.inv_create {zero : τ} {numThreads : Int} {numClients : Nat}
    (h : workerPoolCreate zero numThreads numClients = some s) : s.Inv ∧ s.workers ≠ [] := by
  unfold workerPoolCreate at h
  split at h
  · cases h
  · rename_i hthreads
    obtain rfl := Option.some.inj h
    have hrunning : (List.replicate numThreads.toNat (.ready : Worker τ)).filterMap Worker.task = [] :=
      List.filterMap_eq_nil_iff.2 fun w hw => by
        obtain rfl := List.eq_of_mem_replicate hw
        rfl
    have hclient : ∀ {c : Client τ}, c ∈ List.replicate numClients (.idle : Client τ) → c = .idle :=
      fun hmem => List.eq_of_mem_replicate hmem
    refine ⟨⟨wellFormed_empty _ (by decide), rfl, ?_, ?_, fun hne => absurd rfl hne, ?_, ?_, ?_⟩, ?_⟩
    · rw [WorkerPool.running, hrunning]
      exact .refl _
    · rw [WorkerPool.running, hrunning]
      rfl
    · rintro ⟨call, hmem⟩
      cases hclient hmem
    · intro _ hmem
      cases hclient hmem
    · intro hmem
      cases List.eq_of_mem_replicate hmem
    · exact List.ne_nil_of_length_pos (by rw [List.length_replicate]; omega)

theorem WorkerPool.Inv.run (h : s.Inv) (hne : s.workers ≠ []) (hrun : s.Reaches s') :
    s'.Inv ∧ s'.workers ≠ [] := by
  induction hrun with
  | refl => exact ⟨h, hne⟩
  | tail _ hstep ih => exact ⟨ih.1.step ih.2 hstep, hstep.workers_ne_nil ih.2⟩

/-- Nothing that was submitted or dequeued is forgotten. -/
theorem WorkerPool.Step.history (hstep : s.Step s') :
    s.submitted <+: s'.submitted ∧ s.dequeued <+: s'.dequeued := by
  cases hstep with
  | workerTakes => exact ⟨List.prefix_rfl, List.prefix_append _ _⟩
  | submits | submitsBatch => exact ⟨List.prefix_append _ _, List.prefix_rfl⟩
  | workerWaits | workerExits | workerFinishes | submitWaits | waitWaits | waitReturns | destroys
  | workerWakes | submitWakes | waitWakes => exact ⟨List.prefix_rfl, List.prefix_rfl⟩

theorem WorkerPool.Reaches.submitted_prefix (hrun : s.Reaches s') : s.submitted <+: s'.submitted := by
  induction hrun with
  | refl => exact List.prefix_rfl
  | tail _ hstep ih => exact ih.trans hstep.history.1

/-- With an empty queue every task was dequeued. -/
theorem WorkerPool.Inv.dequeued_eq (h : s.Inv) (hempty : s.queue.count = 0) :
    s.dequeued = s.submitted := by
  have hnil : contents poolQueueCapacity s.queue = [] :=
    List.eq_nil_of_length_eq_zero (length_contents.trans hempty)
  rw [h.order, hnil, List.append_nil]

/-- A worker that leaves its loop leaves no task of before the shutdown behind. -/
theorem WorkerPool.Inv.drained (h : s.Inv) (hne : s.workers ≠ []) (hshutdown : s.shutdown = false)
    (hrun : s.Reaches s') (hexited : .exited ∈ s'.workers) : s.submitted <+: s'.dequeued := by
  induction hrun with
  | refl =>
    rw [h.exited hexited] at hshutdown
    cases hshutdown
  | @tail s₁ s₂ hrun hstep ih =>
    have hinv := (h.run hne hrun).1
    by_cases hold : .exited ∈ s₁.workers
    · exact (ih hold).trans hstep.history.2
    · cases hstep with
      | workerExits hw htop hempty =>
        show _ <+: s₁.dequeued
        rw [hinv.dequeued_eq hempty]
        exact WorkerPool.Reaches.submitted_prefix hrun
      | workerWaits | workerTakes | workerFinishes | workerWakes =>
        exact absurd (mem_of_mem_set hexited (by simp)) hold
      | submits hc hcall hroom hsignal =>
        rcases hsignal.mem hexited with hmem | ⟨x, -, hx⟩
        · exact absurd hmem hold
        · cases (wakeWork_eq_some hx).2
      | submitsBatch | destroys =>
        rcases mem_broadcast hexited with ⟨hmem, -⟩ | ⟨x, -, hx⟩
        · exact absurd hmem hold
        · cases (wakeWork_eq_some hx).2
      | submitWaits | waitWaits | waitReturns | submitWakes | waitWakes => exact absurd hexited hold

/-! ## The pool -/

/-- What is asked of a state of the pool. -/
structure WorkerPool.Sound (s : WorkerPool τ) : Prop where
  /-- The queue is within its bounds, and its counters are in step. -/
  bounds : s.queue.count ≤ poolQueueCapacity ∧ s.queue.head < poolQueueCapacity ∧
    s.queue.tail = (s.queue.head + s.queue.count) % poolQueueCapacity
  /-- Tasks leave in the order they came, and what has not left is in the queue. -/
  order : s.submitted = s.dequeued ++ contents poolQueueCapacity s.queue
  /-- A task that left has ended, or one worker executes it. -/
  once : s.dequeued.Perm (s.finished ++ s.running)
  /-- A queue with tasks does not find all workers asleep. -/
  work : s.queue.count ≠ 0 → ∃ w ∈ s.workers, w ≠ .waitWork .asleep
  /-- A queue with room does not leave a submitter asleep, unless another one is on its way. -/
  room : s.queue.count < poolQueueCapacity → (∃ call, .waitNotFull .asleep call ∈ s.clients) →
    ∃ call, .waitNotFull .notified call ∈ s.clients
  /-- An idle pool does not leave a waiter asleep. -/
  done : s.queue.count = 0 → s.activeTasks = 0 → .waitDone .asleep ∉ s.clients

theorem WorkerPool.Inv.sound (h : s.Inv) : s.Sound where
  bounds := ⟨h.queue.count_le, h.queue.head_lt, h.queue.tail_eq⟩
  order := h.order
  once := h.once
  work := h.work
  room := by
    intro hroom hsleeps
    have hpos : 0 < s.clients.countP Client.isNotified := by
      have := h.room hsleeps
      omega
    obtain ⟨c, hmem, hc⟩ := List.countP_pos_iff.1 hpos
    unfold Client.isNotified at hc
    split at hc
    · exact ⟨_, hmem⟩
    · cases hc
  done := by
    intro hempty hactive
    exact h.done fun hbusy => by rcases hbusy with hc | ha <;> omega

/-- Thread `i` is in `wait`, has the mutex and finds the pool idle. -/
def WorkerPool.WaitReturns (s : WorkerPool τ) (i : Nat) : Prop :=
  ∃ c, s.clients[i]? = some c ∧ c.Waits ∧ ¬ s.Busy

/-- Every worker has left its loop: the joins of `destroy` return. -/
def WorkerPool.Joined (s : WorkerPool τ) : Prop := ∀ w ∈ s.workers, w = .exited

theorem WorkerPool.Inv.finished_of_idle (h : s.Inv) (hidle : ¬ s.Busy) :
    s.submitted.Perm s.finished := by
  have hempty : s.queue.count = 0 := by
    have : ¬ 0 < s.queue.count := fun hc => hidle (.inl hc)
    omega
  have hrunning : s.running = [] := by
    have : ¬ 0 < s.activeTasks := fun ha => hidle (.inr ha)
    rw [h.active] at this
    exact List.eq_nil_of_length_eq_zero (by omega)
  have honce := h.once
  rwa [hrunning, List.append_nil, h.dequeued_eq hempty] at honce

theorem WorkerPool.Inv.finished_of_joined (h : s.Inv) (hjoined : s.Joined) :
    s.dequeued.Perm s.finished := by
  have hrunning : s.running = [] := List.filterMap_eq_nil_iff.2 fun w hw => by
    rw [hjoined w hw]
    rfl
  have honce := h.once
  rwa [hrunning, List.append_nil] at honce

/-- **The worker pool, for every interleaving.** In every state it reaches the queue, the order of the
tasks and the wake-ups are sound; `wait` returns only when all that was submitted before has ended;
and when `destroy` has joined the workers, all that was submitted before the shutdown has ended. -/
theorem workerPool_sound {zero : τ} {numThreads : Int} {numClients : Nat} {s₀ s₁ s : WorkerPool τ}
    (hcreate : workerPoolCreate zero numThreads numClients = some s₀) (hrun₁ : s₀.Reaches s₁)
    (hrun : s₁.Reaches s) :
    s.Sound ∧
      (∀ i, s.WaitReturns i → s₁.submitted.Subperm s.finished) ∧
      (s₁.shutdown = false → s.Joined → s₁.submitted.Subperm s.finished) := by
  obtain ⟨hinv₀, hne₀⟩ := WorkerPool.inv_create hcreate
  obtain ⟨hinv₁, hne₁⟩ := hinv₀.run hne₀ hrun₁
  obtain ⟨hinv, hne⟩ := hinv₁.run hne₁ hrun
  refine ⟨hinv.sound, ?_, ?_⟩
  · rintro i ⟨c, -, -, hidle⟩
    exact (WorkerPool.Reaches.submitted_prefix hrun).sublist.subperm.trans
      (hinv.finished_of_idle hidle).subperm
  · intro hshutdown hjoined
    obtain ⟨w, hw⟩ := List.exists_mem_of_ne_nil _ hne
    have hdrained := hinv₁.drained hne₁ hshutdown hrun (hjoined w hw ▸ hw)
    exact hdrained.sublist.subperm.trans (hinv.finished_of_joined hjoined).subperm

/-- One worker and one client: a task is submitted, taken and finished, `wait` can return, and after
`destroy` the worker leaves its loop. -/
theorem oneTask_run : ∃ s₀ s₁ s s' : WorkerPool Nat, workerPoolCreate 0 1 1 = some s₀ ∧
    s₀.Reaches s₁ ∧ s₁.submitted = [7] ∧ s₁.shutdown = false ∧ s₁.Reaches s ∧ s.WaitReturns 0 ∧
    s₁.Reaches s' ∧ s'.Joined := by
  refine ⟨_, _, _, _, rfl,
    .single (@WorkerPool.Step.submits _ _ 0 .idle 7 _ rfl (.inl rfl) (by decide) (.lost ?_)), rfl, rfl,
    .tail (.single (@WorkerPool.Step.workerTakes _ _ 0 .ready _ rfl (.inl rfl) (by decide)
      (.lost ?_))) (@WorkerPool.Step.workerFinishes _ _ 0 7 rfl), ⟨.idle, rfl, .inl rfl, ?_⟩,
    .tail (.tail (.tail (.single (@WorkerPool.Step.workerTakes _ _ 0 .ready _ rfl (.inl rfl)
      (by decide) (.lost ?_))) (@WorkerPool.Step.workerFinishes _ _ 0 7 rfl))
      (@WorkerPool.Step.destroys _ _ 0 rfl rfl)) (@WorkerPool.Step.workerExits _ _ 0 .ready rfl
        (.inl rfl) rfl rfl), ?_⟩
  · intro w hw
    obtain rfl := List.mem_singleton.1 hw
    rfl
  · intro c hc
    obtain rfl := List.mem_singleton.1 hc
    rfl
  · rintro (hc | ha)
    · exact absurd hc (by decide)
    · exact absurd ha (by decide)
  · intro c hc
    obtain rfl := List.mem_singleton.1 hc
    rfl
  · intro w hw
    exact List.mem_singleton.1 hw

theorem oneTask_sound : ∃ s₁ s s' : WorkerPool Nat, s₁.submitted = [7] ∧ s.WaitReturns 0 ∧
    s'.Joined ∧ s.Sound ∧ s₁.submitted.Subperm s.finished ∧ s₁.submitted.Subperm s'.finished := by
  obtain ⟨s₀, s₁, s, s', hcreate, hrun₁, htask, hshutdown, hrun, hwait, hrun', hjoined⟩ := oneTask_run
  have hs := workerPool_sound hcreate hrun₁ hrun
  have hs' := workerPool_sound hcreate hrun₁ hrun'
  exact ⟨s₁, s, s', htask, hwait, hjoined, hs.1, hs.2.1 0 hwait, hs'.2.2 hshutdown hjoined⟩

end Carquet
