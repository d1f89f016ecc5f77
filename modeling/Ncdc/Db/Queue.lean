import Ncdc.Base32

/-!
The write-behind queue of `db.c`, whose pushes, timer firings and pool-thread steps
interleave arbitrarily. Closing flushes every statement in push order; but a timer that fires
while a task waits leaves `db_queue_needflush` set, and later pushes wait for the close.
-/

namespace Ncdc

/-! ### State and events -/

/-- An argument of a queued statement, by its `DBQ_*` tag. -/
inductive DbArg
  | null
  | int (v : Int)
  | int64 (v : Int)
  | text (s : List Char)
  | blob (b : List UInt8)
  deriving DecidableEq, Repr

/-- A statement as `db_queue_create` packs it: the SQL text and its arguments. -/
structure DbQuery where
  sql : List Char
  args : List DbArg
  deriving DecidableEq, Repr

/-- The queue machinery: `db_queue`, `db_queue_needflush`, the pending flush timers, the tasks the
pool holds, the open transaction of a running `db_queue_process` and the committed transactions. -/
structure DbQueue where
  queue : List DbQuery
  needflush : Bool
  timers : Nat
  tasks : Nat
  running : Option (List DbQuery)
  committed : List (List DbQuery)
  deriving DecidableEq, Repr

/-- `db_queue_init`: an empty queue and an idle pool. -/
def DbQueue.init : DbQueue := ⟨[], false, 0, 0, none, []⟩

/-- The events of the queue machinery. -/
inductive DbEvent
  /-- Statements pushed at once, then `db_queue_flush`: one by `db_queue_push`, or a group
  pushed between `db_queue_lock` and `db_queue_unlock`. -/
  | push (qs : List DbQuery)
  /-- A `db_queue_doflush` timer fires. -/
  | fire
  /-- One step of the pool thread. -/
  | work
  /-- The SQLite call of the pool thread's next step fails. -/
  | fail
  deriving DecidableEq, Repr

/-! ### The functions of `db.c` -/

/-- `db_queue_flush()`: the compare-and-set of `db_queue_needflush` from 0 to 1 arms the
timer. -/
def DbQueue.flush (s : DbQueue) : DbQueue :=
  if s.needflush then s else { s with needflush := true, timers := s.timers + 1 }

/-- `db_queue_doflush()`: a task for the pool when the queue holds statements and no task
is unprocessed, and only then is `db_queue_needflush` cleared. -/
def DbQueue.doflush (s : DbQueue) : DbQueue :=
  if s.queue ≠ [] ∧ s.tasks = 0 then { s with tasks := s.tasks + 1, needflush := false } else s

/-- One step of the pool thread: `db_begin` when it takes a task, one round of the loop of
`db_queue_process` while the queue holds a statement, and `db_commit` once
`g_async_queue_try_pop` finds it empty; `none` when it has nothing to do. -/
def DbQueue.work (s : DbQueue) : Option DbQueue :=
  match s.running, s.queue with
  | some tr, q :: rest => some { s with queue := rest, running := some (tr ++ [q]) }
  | some tr, [] => some { s with running := none, committed := s.committed ++ [tr] }
  | none, _ => if 0 < s.tasks then some { s with tasks := s.tasks - 1, running := some [] }
      else none

/-- `db_err` in `db_queue_process`: the failing `BEGIN` ends the task, a failing statement
is dropped, and the open transaction is rolled back. -/
def DbQueue.failStep (s : DbQueue) : DbQueue :=
  match s.running, s.queue with
  | some _, _ :: rest => { s with queue := rest, running := none }
  | some _, [] => { s with running := none }
  | none, _ => if 0 < s.tasks then { s with tasks := s.tasks - 1 } else s

/-- One event. -/
def dbStep (s : DbQueue) : DbEvent → DbQueue
  | .push qs => { s with queue := s.queue ++ qs }.flush
  | .fire => if 0 < s.timers then { s with timers := s.timers - 1 }.doflush else s
  | .work => s.work.getD s
  | .fail => s.failStep

/-- A sequence of events, from the first. -/
def dbRun (s : DbQueue) (es : List DbEvent) : DbQueue := es.foldl dbStep s

theorem dbRun_append (s : DbQueue) (l₁ l₂ : List DbEvent) :
    dbRun s (l₁ ++ l₂) = dbRun (dbRun s l₁) l₂ := List.foldl_append _ _ _ _

/-- What a pool thread still has to do: a step per queued statement, two per waiting task
and one to commit an open transaction. -/
def DbQueue.pending (s : DbQueue) : Nat :=
  s.queue.length + 2 * s.tasks + if s.running.isSome then 1 else 0

theorem DbQueue.work_pending {s s' : DbQueue} (h : s.work = some s') : s'.pending < s.pending := by
  unfold DbQueue.work at h
  split at h
  · cases h; simp [DbQueue.pending, *]
  · cases h; simp [DbQueue.pending, *]
  · split_ifs at h with ht; cases h; simp [DbQueue.pending, *]; omega

/-- `g_thread_pool_free(db_queue_pool, FALSE, TRUE)`: the pool thread runs until it has
nothing left to do. -/
def DbQueue.drain (s : DbQueue) : DbQueue :=
  match _hw : s.work with
  | some s' => s'.drain
  | none => s
termination_by s.pending
decreasing_by exact DbQueue.work_pending _hw

/-- `db_queue_close()` -/
def dbQueueClose (s : DbQueue) : DbQueue := s.doflush.drain

/-- The statements an event pushes, as the group it pushes them in. -/
def DbEvent.pushed : DbEvent → List (List DbQuery)
  | .push qs => [qs]
  | _ => []

/-- `db_dl_rm(tth)`: both deletes under the queue's lock. -/
def dbDlRm (tth : Tth) : DbEvent :=
  let hash := base32Encode tth.bytes
  .push [⟨"DELETE FROM dl_users WHERE tth = ?".toList, [.text hash]⟩,
    ⟨"DELETE FROM dl WHERE tth = ?".toList, [.text hash]⟩]

/-! ### Order -/

/-- The groups pushed so far, in order, are split into the committed transactions, each
the statements of consecutive groups, and the groups whose statements the open
transaction executed or the queue still holds. -/
def InOrder (blocks : List (List DbQuery)) (s : DbQueue) : Prop :=
  ∃ (groups : List (List (List DbQuery))) (cur : List (List DbQuery)),
    blocks = groups.flatten ++ cur ∧ s.committed = groups.map List.flatten ∧
    s.running.getD [] ++ s.queue = cur.flatten

theorem InOrder.flush {blocks : List (List DbQuery)} {s : DbQueue} (h : InOrder blocks s) :
    InOrder blocks s.flush := by
  unfold DbQueue.flush; split_ifs <;> exact h

theorem InOrder.doflush {blocks : List (List DbQuery)} {s : DbQueue} (h : InOrder blocks s) :
    InOrder blocks s.doflush := by
  unfold DbQueue.doflush; split_ifs <;> exact h

theorem InOrder.work {blocks : List (List DbQuery)} {s s' : DbQueue} (h : InOrder blocks s)
    (hw : s.work = some s') : InOrder blocks s' := by
  obtain ⟨groups, cur, hb, hc, hq⟩ := h
  unfold DbQueue.work at hw
  split at hw
  · next tr q rest hr hq' =>
      cases hw
      exact ⟨groups, cur, hb, hc, by simpa [hr, hq'] using hq⟩
  · next tr hr hq' =>
      cases hw
      simp only [hr, hq', Option.getD_some, List.append_nil] at hq
      exact ⟨groups ++ [cur], [], by simp [hb], by simp [hc, hq], by simp [hq']⟩
  · split_ifs at hw; cases hw
    exact ⟨groups, cur, hb, hc, by simpa [*] using hq⟩

theorem InOrder.step {blocks : List (List DbQuery)} {s : DbQueue} (h : InOrder blocks s)
    {e : DbEvent} (he : e ≠ .fail) : InOrder (blocks ++ e.pushed) (dbStep s e) := by
  cases e with
  | push qs =>
      obtain ⟨groups, cur, hb, hc, hq⟩ := h
      exact InOrder.flush ⟨groups, cur ++ [qs], by simp [hb, DbEvent.pushed], hc,
        by simp [← List.append_assoc, hq]⟩
  | fire =>
      simp only [dbStep, DbEvent.pushed, List.append_nil]
      split_ifs
      · exact InOrder.doflush h
      · exact h
  | work =>
      simp only [dbStep, DbEvent.pushed, List.append_nil]
      cases hw : s.work with
      | none => exact h
      | some s' => exact h.work hw
  | fail => exact absurd rfl he

theorem InOrder.run : ∀ (es : List DbEvent) {blocks : List (List DbQuery)} {s : DbQueue},
    InOrder blocks s → (∀ e ∈ es, e ≠ .fail) →
      InOrder (blocks ++ es.flatMap DbEvent.pushed) (dbRun s es)
  | [], _, _, h, _ => by simpa [dbRun] using h
  | e :: es, blocks, s, h, hes => by
      have := InOrder.run es (h.step (hes e (List.mem_cons_self e es)))
        (fun e' he' => hes e' (List.mem_cons_of_mem e he'))
      simpa [dbRun, List.append_assoc] using this

theorem InOrder.drain {blocks : List (List DbQuery)} (s : DbQueue) (h : InOrder blocks s) :
    InOrder blocks s.drain := by
  induction s using DbQueue.drain.induct with
  | case1 s s' hw ih => rw [DbQueue.drain, hw]; exact ih (h.work hw)
  | case2 s hw => rw [DbQueue.drain, hw]; exact h

/-! ### Closing -/

/-- The queue is empty, or a task waits, or the pool thread is running. -/
def Flushing (s : DbQueue) : Prop := s.queue = [] ∨ 0 < s.tasks ∨ s.running.isSome

theorem flushing_doflush (s : DbQueue) : Flushing s.doflush := by
  unfold DbQueue.doflush Flushing
  split_ifs with h
  · simp
  · rcases not_and_or.1 h with h | h
    · exact .inl (not_not.1 h)
    · exact .inr (.inl (Nat.pos_of_ne_zero h))

theorem flushing_work {s s' : DbQueue} (hw : s.work = some s') : Flushing s' := by
  unfold DbQueue.work at hw
  split at hw
  · cases hw; simp [Flushing]
  · cases hw; simp [Flushing, *]
  · split_ifs at hw; cases hw; simp [Flushing]

theorem DbQueue.work_eq_none {s : DbQueue} :
    s.work = none ↔ s.running = none ∧ s.tasks = 0 := by
  unfold DbQueue.work
  split <;> simp_all

theorem Flushing.drain (s : DbQueue) (h : Flushing s) :
    s.drain.queue = [] ∧ s.drain.running = none ∧ s.drain.tasks = 0 := by
  induction s using DbQueue.drain.induct with
  | case1 s s' hw ih => rw [DbQueue.drain, hw]; exact ih (flushing_work hw)
  | case2 s hw =>
      rw [DbQueue.drain, hw]
      obtain ⟨hr, ht⟩ := DbQueue.work_eq_none.1 hw
      refine ⟨?_, hr, ht⟩
      rcases h with h | h | h
      · exact h
      · omega
      · simp [hr] at h

theorem InOrder.done {blocks : List (List DbQuery)} {s : DbQueue} (h : InOrder blocks s)
    (hq : s.queue = []) (hr : s.running = none) :
    s.committed.flatten = blocks.flatten ∧
      ∀ b ∈ blocks, b ≠ [] → ∃ tx ∈ s.committed, b <:+: tx := by
  obtain ⟨groups, cur, hb, hc, hcur⟩ := h
  have hcur0 : cur.flatten = [] := by simpa [hr, hq] using hcur.symm
  have hcur' : ∀ b ∈ cur, b = [] := fun b hb => List.eq_nil_of_subset_nil
    (fun x hx => hcur0 ▸ List.mem_flatten.2 ⟨b, hb, hx⟩)
  refine ⟨by rw [hb, hc, List.flatten_append, hcur0, List.append_nil, List.flatten_flatten],
    fun b hbm hne => ?_⟩
  rw [hb, List.mem_append] at hbm
  rcases hbm with hbm | hbm
  · obtain ⟨g, hg, hbg⟩ := List.mem_flatten.1 hbm
    exact ⟨g.flatten, hc ▸ List.mem_map_of_mem _ hg, List.infix_of_mem_flatten hbg⟩
  · exact absurd (hcur' b hbm) hne

/-- With no push after `db_queue_close` starts and no statement failing, closing leaves the queue
empty and the pool idle, with every pushed statement committed once, in push order, and each locked
group inside one transaction. -/
theorem db_queue_close_commits (es : List DbEvent) (hes : ∀ e ∈ es, e ≠ .fail) :
    let s := dbQueueClose (dbRun DbQueue.init es)
    s.queue = [] ∧ s.running = none ∧ s.tasks = 0 ∧
      s.committed.flatten = (es.flatMap DbEvent.pushed).flatten ∧
      ∀ b ∈ es.flatMap DbEvent.pushed, b ≠ [] → ∃ tx ∈ s.committed, b <:+: tx := by
  intro s
  have hrun := @InOrder.run es [] DbQueue.init ⟨[], [], rfl, rfl, rfl⟩ hes
  have hord := (hrun.doflush).drain
  obtain ⟨hq, hr, ht⟩ := Flushing.drain _ (flushing_doflush (dbRun DbQueue.init es))
  simp only [List.nil_append] at hord
  exact ⟨hq, hr, ht, hord.done hq hr⟩

theorem dl_rm_flushed_on_close :
    (dbQueueClose (dbRun DbQueue.init [dbDlRm Tth.zero, .fire, .work])).queue = [] :=
  (db_queue_close_commits [dbDlRm Tth.zero, .fire, .work] (by decide)).1

/-! ### A failing statement -/

/-- The queue with the transactions `C` committed before those it records. -/
def DbQueue.afterCommitted (C : List (List DbQuery)) (s : DbQueue) : DbQueue :=
  { s with committed := C ++ s.committed }

section AfterCommitted

variable (C : List (List DbQuery))

theorem DbQueue.work_afterCommitted (s : DbQueue) :
    (s.afterCommitted C).work = s.work.map (DbQueue.afterCommitted C) := by
  unfold DbQueue.work DbQueue.afterCommitted
  split <;> simp_all

theorem dbStep_afterCommitted (s : DbQueue) (e : DbEvent) :
    dbStep (s.afterCommitted C) e = (dbStep s e).afterCommitted C := by
  cases e with
  | push qs => simp only [dbStep, DbQueue.flush, DbQueue.afterCommitted]; split_ifs <;> rfl
  | fire =>
      simp only [dbStep, DbQueue.doflush, DbQueue.afterCommitted]
      split_ifs <;> rfl
  | work =>
      simp only [dbStep, DbQueue.work_afterCommitted]
      cases s.work <;> rfl
  | fail =>
      simp only [dbStep, DbQueue.failStep, DbQueue.afterCommitted]
      split <;> (try split_ifs) <;> simp_all

theorem dbRun_afterCommitted : ∀ (es : List DbEvent) (s : DbQueue),
    dbRun (s.afterCommitted C) es = (dbRun s es).afterCommitted C
  | [], _ => rfl
  | e :: es, s => by
      simp only [dbRun, List.foldl_cons] at *
      rw [dbStep_afterCommitted]
      exact dbRun_afterCommitted es _

theorem dbQueueClose_afterCommitted (s : DbQueue) :
    dbQueueClose (s.afterCommitted C) = (dbQueueClose s).afterCommitted C := by
  have hdrain : ∀ s : DbQueue, (s.afterCommitted C).drain = s.drain.afterCommitted C := by
    intro s
    induction s using DbQueue.drain.induct with
    | case1 s s' hw ih =>
        have e₁ : (s.afterCommitted C).drain = (s'.afterCommitted C).drain := by
          rw [DbQueue.drain, DbQueue.work_afterCommitted, hw]; rfl
        have e₂ : s.drain = s'.drain := by rw [DbQueue.drain, hw]
        rw [e₁, e₂, ih]
    | case2 s hw =>
        have e₁ : (s.afterCommitted C).drain = s.afterCommitted C := by
          rw [DbQueue.drain, DbQueue.work_afterCommitted, hw]; rfl
        have e₂ : s.drain = s := by rw [DbQueue.drain, hw]
        rw [e₁, e₂]
  have hdo : (s.afterCommitted C).doflush = s.doflush.afterCommitted C := by
    unfold DbQueue.doflush DbQueue.afterCommitted; split_ifs <;> rfl
  rw [dbQueueClose, hdo, hdrain, dbQueueClose]

end AfterCommitted

/-- A statement that fails while the pool thread runs a transaction loses its batch for good: the
rolled-back `tr` and the popped `q` are neither retried nor queued again. Of the pushed `P ++ tr ++
q :: R`, closing commits `P ++ R`. -/
theorem db_error_drops_batch (es₀ es : List DbEvent) (h₀ : ∀ e ∈ es₀, e ≠ .fail)
    (h : ∀ e ∈ es, e ≠ .fail) {tr : List DbQuery} {q : DbQuery} {rest : List DbQuery}
    (hr : (dbRun DbQueue.init es₀).running = some tr)
    (hq : (dbRun DbQueue.init es₀).queue = q :: rest) :
    ∃ P R, ((es₀ ++ es).flatMap DbEvent.pushed).flatten = P ++ tr ++ q :: R ∧
      (dbQueueClose (dbRun (dbStep (dbRun DbQueue.init es₀) .fail) es)).committed.flatten =
        P ++ R := by
  set s₀ := dbRun DbQueue.init es₀
  obtain ⟨groups, cur, hb, hc, hcur⟩ := @InOrder.run es₀ [] DbQueue.init ⟨[], [], rfl, rfl, rfl⟩ h₀
  rw [hr, hq, Option.getD_some] at hcur
  let t₁ : DbQueue := { s₀ with queue := rest, running := none, committed := [] }
  have hfail : dbStep s₀ .fail = t₁.afterCommitted s₀.committed := by
    simp only [dbStep, DbQueue.failStep, hr, hq, DbQueue.afterCommitted, t₁, List.append_nil]
  have hord := ((InOrder.run es (s := t₁) ⟨[], [rest], rfl, rfl, by simp [t₁]⟩ h).doflush).drain
  obtain ⟨hq', hr', -⟩ := Flushing.drain _ (flushing_doflush (dbRun t₁ es))
  have hdone := (hord.done hq' hr').1
  refine ⟨groups.flatten.flatten, rest ++ (es.flatMap DbEvent.pushed).flatten, ?_, ?_⟩
  · simp only [List.nil_append] at hb
    rw [List.flatMap_append, hb, List.flatten_append, List.flatten_append, ← hcur]
    simp
  · rw [hfail, dbRun_afterCommitted, dbQueueClose_afterCommitted]
    simp only [DbQueue.afterCommitted, List.flatten_append, hc, List.flatten_flatten,
      dbQueueClose, hdone]
    simp [s₀, hc]

/-- Two inserts pushed at once: the first runs, the second fails, and closing commits
neither. -/
theorem insert_pair_lost_on_error :
    let a : DbQuery := ⟨"INSERT INTO a VALUES (1)".toList, []⟩
    let b : DbQuery := ⟨"INSERT INTO b VALUES (2)".toList, []⟩
    let es₀ := [DbEvent.push [a, b], .fire, .work, .work]
    (dbRun DbQueue.init es₀).running = some [a] ∧ (dbRun DbQueue.init es₀).queue = [b] ∧
      (dbQueueClose (dbRun (dbStep (dbRun DbQueue.init es₀) .fail) [])).committed.flatten = [] := by
  intro a b es₀
  obtain ⟨P, R, h₁, h₂⟩ := db_error_drops_batch es₀ [] (by decide) (by decide) rfl rfl
  have hl := congrArg List.length h₁
  simp only [es₀, List.append_nil, List.flatMap_cons, List.flatMap_nil, DbEvent.pushed,
    List.flatten_cons, List.flatten_nil, List.length_append, List.length_cons,
    List.length_nil] at hl
  obtain ⟨rfl, rfl⟩ : P = [] ∧ R = [] :=
    ⟨List.eq_nil_of_length_eq_zero (by omega), List.eq_nil_of_length_eq_zero (by omega)⟩
  exact ⟨rfl, rfl, h₂⟩

/-! ### A stuck flag -/

/-- No timer pending, no task waiting, the pool thread idle and `db_queue_needflush` set:
nothing but `db_queue_close` executes the queue any more. -/
def Stalled (s : DbQueue) : Prop :=
  s.needflush = true ∧ s.timers = 0 ∧ s.tasks = 0 ∧ s.running = none

theorem Stalled.step {s : DbQueue} (h : Stalled s) (e : DbEvent) :
    Stalled (dbStep s e) ∧ (dbStep s e).queue = s.queue ++ (e.pushed).flatten := by
  obtain ⟨hn, htm, hts, hr⟩ := h
  have hw : s.work = none := DbQueue.work_eq_none.2 ⟨hr, hts⟩
  cases e with
  | push qs => simp [dbStep, DbQueue.flush, hn, Stalled, htm, hts, hr, DbEvent.pushed]
  | fire => simp [dbStep, htm, Stalled, hn, hts, hr, DbEvent.pushed]
  | work => simp [dbStep, hw, Stalled, hn, htm, hts, hr, DbEvent.pushed]
  | fail => simp [dbStep, DbQueue.failStep, hr, hts, Stalled, hn, htm, DbEvent.pushed]

theorem Stalled.run : ∀ (es : List DbEvent) {s : DbQueue}, Stalled s →
    Stalled (dbRun s es) ∧ (dbRun s es).queue = s.queue ++ (es.flatMap DbEvent.pushed).flatten
  | [], s, h => by simpa [dbRun] using h
  | e :: es, s, h => by
      obtain ⟨h₁, hq₁⟩ := h.step e
      obtain ⟨h₂, hq₂⟩ := Stalled.run es h₁
      exact ⟨h₂, by simp [dbRun, List.foldl_cons] at hq₂ ⊢; simp [hq₂, hq₁]⟩

/-- A timer that fires while the first task still waits leaves `db_queue_needflush` set;
once the pool thread has drained the queue, a push arms no timer, and that statement and
every later one wait for `db_queue_close`. -/
theorem db_flush_stalls (a b c : DbQuery) (es : List DbEvent) :
    let s := dbRun DbQueue.init
      ([.push [a], .fire, .push [b], .fire, .work, .work, .work, .work, .push [c]] ++ es)
    s.queue = c :: (es.flatMap DbEvent.pushed).flatten ∧ s.timers = 0 ∧ s.tasks = 0 ∧
      s.running = none := by
  have hs : dbRun DbQueue.init [.push [a], .fire, .push [b], .fire, .work, .work, .work, .work,
      .push [c]] = ⟨[c], true, 0, 0, none, [[a, b]]⟩ := by
    simp [dbRun, dbStep, DbQueue.init, DbQueue.flush, DbQueue.doflush, DbQueue.work]
  obtain ⟨⟨-, htm, hts, hr⟩, hq⟩ :=
    Stalled.run es (s := ⟨[c], true, 0, 0, none, [[a, b]]⟩) ⟨rfl, rfl, rfl, rfl⟩
  dsimp only
  rw [dbRun_append, hs]
  exact ⟨hq, htm, hts, hr⟩

end Ncdc
