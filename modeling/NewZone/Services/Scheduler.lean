import NewZone.Js.Json
import NewZone.Lib.Registry
import NewZone.Lib.Runs

/-!
# The scheduler

`services/scheduler/index.js`.  A tick goes through the tasks and posts to the
callbacks of those whose interval has passed since they ran last.  A task has
never run at first, which the source writes as time `0`, so its first tick posts.

Two things are asked of the posts.  They must not come too early
(`posts_spaced`), and a task that is there must not be forgotten
(`posts_in_time`).

The id that `Math.random` makes and the clock are arguments.  An interval is a
number.  Nothing waits for the promise of a post: the answer is not observed, and
a callback that cannot be reached ends the process, so that a run here is one up
to then.
-/

namespace NewZone.Services.Scheduler

open NewZone.Js NewZone.Registry NewZone.Runs

def MAX_TASKS : ℕ := 200

structure Task where
  id : JsString
  interval_ms : ℚ
  callback_url : JsString
  payload : Json
  last_run : ℕ

/-- The new task, and the tasks with it. -/
def addTask (TASKS : List Task) (id : JsString) (interval_ms : ℚ)
    (callback_url : JsString) (payload : Json) : Task × List Task :=
  let task : Task := { id, interval_ms, callback_url, payload, last_run := 0 }
  let TASKS := TASKS ++ [task]
  (task, if TASKS.length > MAX_TASKS then TASKS.tail else TASKS)

def removeTask (TASKS : List Task) (id : JsString) : List Task :=
  TASKS.eraseP fun t => t.id = id

/-- What is posted for a task. -/
structure Post where
  task : Task
  ts : ℕ

/-- `{ ts: now, task_id: task.id, payload: task.payload }` -/
def Post.body (p : Post) : Json :=
  .obj [(js "ts", .num (.ofNat p.ts)), (js "task_id", .str p.task.id),
    (js "payload", p.task.payload)]

/-- `now - task.last_run >= task.interval_ms` -/
def Task.due (task : Task) (now : ℕ) : Bool :=
  task.interval_ms ≤ (now : ℚ) - task.last_run

/-- The loop of one tick, and what it posts. -/
def tick (now : ℕ) : List Task → List Task × List Post
  | [] => ([], [])
  | task :: rest =>
    let (TASKS, posts) := tick now rest
    if task.due now then
      ({ task with last_run := now } :: TASKS, { task := task, ts := now } :: posts)
    else (task :: TASKS, posts)

/-! ## Runs -/

inductive Call where
  | add (id : JsString) (interval_ms : ℚ) (callback_url : JsString) (payload : Json)
  | remove (id : JsString)
  | tick (now : ℕ)

/-- A call with what it posts. -/
structure Label where
  call : Call
  posts : List Post

def after (TASKS : List Task) : Call → List Task × List Post
  | .add id interval_ms callback_url payload =>
    ((addTask TASKS id interval_ms callback_url payload).2, [])
  | .remove id => (removeTask TASKS id, [])
  | .tick now => tick now TASKS

def Step (TASKS : List Task) (l : Label) (TASKS' : List Task) : Prop :=
  after TASKS l.call = (TASKS', l.posts)

/-- The id of a task that is added. -/
def Label.added (l : Label) : Option JsString :=
  match l.call with
  | .add id _ _ _ => some id
  | _ => none

/-- The time of a tick. -/
def Label.time (l : Label) : Option ℕ :=
  match l.call with
  | .tick now => some now
  | _ => none

/-- No id is given twice. -/
def FreshIds (history : List Label) : Prop := (history.filterMap Label.added).Nodup

/-- The clock does not go back. -/
def Clock (history : List Label) : Prop :=
  (history.filterMap Label.time).Pairwise (· ≤ ·)

instance (history : List Label) : Decidable (FreshIds history) :=
  inferInstanceAs (Decidable (List.Nodup _))

instance (history : List Label) : Decidable (Clock history) :=
  inferInstanceAs (Decidable (List.Pairwise _ _))

/-! ## One tick -/

/-- A task after a tick. -/
def Task.ticked (now : ℕ) (task : Task) : Task :=
  if task.due now then { task with last_run := now } else task

/-- A tick posts for the tasks that are due. -/
theorem tick_eq (now : ℕ) (TASKS : List Task) :
    tick now TASKS = (TASKS.map (Task.ticked now),
      (TASKS.filter fun t => t.due now).map fun t => { task := t, ts := now }) := by
  induction TASKS with
  | nil => rfl
  | cons task rest ih =>
    rw [tick, ih]
    cases hdue : task.due now <;> simp [hdue, Task.ticked]

@[simp] theorem Task.id_ticked (now : ℕ) (task : Task) : (task.ticked now).id = task.id := by
  unfold Task.ticked
  split <;> rfl

@[simp] theorem Task.interval_ticked (now : ℕ) (task : Task) :
    (task.ticked now).interval_ms = task.interval_ms := by
  unfold Task.ticked
  split <;> rfl

theorem mem_posts_tick {now : ℕ} {TASKS : List Task} {p : Post} :
    p ∈ (tick now TASKS).2 ↔ p.task ∈ TASKS ∧ p.task.due now = true ∧ p.ts = now := by
  rw [tick_eq, List.mem_map]
  constructor
  · rintro ⟨task, htask, rfl⟩
    obtain ⟨hmem, hdue⟩ := List.mem_filter.mp htask
    exact ⟨hmem, hdue, rfl⟩
  · rintro ⟨hmem, hdue, hts⟩
    exact ⟨p.task, List.mem_filter.mpr ⟨hmem, hdue⟩, by rw [← hts]⟩

/-- At most the oldest task makes room for the new one. -/
theorem addTask_sublist {TASKS : List Task} {id callback_url : JsString} {interval_ms : ℚ}
    {payload : Json} :
    (addTask TASKS id interval_ms callback_url payload).2.Sublist
      (TASKS ++ [{ id, interval_ms, callback_url, payload, last_run := 0 }]) := by
  unfold addTask
  dsimp only
  split
  · exact List.tail_sublist _
  · exact List.Sublist.refl _

theorem length_addTask_le {TASKS : List Task} {id callback_url : JsString} {interval_ms : ℚ}
    {payload : Json} (h : TASKS.length ≤ MAX_TASKS) :
    (addTask TASKS id interval_ms callback_url payload).2.length ≤ MAX_TASKS := by
  unfold addTask
  dsimp only
  split
  · simp only [List.length_tail, List.length_append, List.length_singleton]
    omega
  · omega

/-! ## What the tasks remember -/

/-- The posts of a history. -/
def posted (history : List Label) : List Post := history.flatMap Label.posts

theorem posted_append (history later : List Label) :
    posted (history ++ later) = posted history ++ posted later :=
  List.flatMap_append

theorem posted_concat (history : List Label) (l : Label) :
    posted (history ++ [l]) = posted history ++ l.posts := by
  simp [posted]

/-- The task remembers the last of its posts. -/
structure Remembers (history : List Label) (task : Task) : Prop where
  added : task.id ∈ history.filterMap Label.added
  last : ∀ p ∈ posted history, p.task.id = task.id →
    p.ts ≤ task.last_run ∧ p.task.interval_ms = task.interval_ms
  ran : task.last_run = 0 ∨
    ∃ p ∈ posted history, p.task.id = task.id ∧ p.ts = task.last_run

structure Tracked (history : List Label) (TASKS : List Task) : Prop where
  keyed : Keyed Task.id TASKS
  bounded : TASKS.length ≤ MAX_TASKS
  remembers : ∀ task ∈ TASKS, Remembers history task
  known : ∀ p ∈ posted history, p.task.id ∈ history.filterMap Label.added ∧
    p.ts ∈ history.filterMap Label.time

theorem tracked_nil : Tracked [] [] where
  keyed := keyed_nil
  bounded := Nat.zero_le _
  remembers := by simp
  known := by simp [posted]

/-- A call that posts nothing lets the tasks remember what they did. -/
theorem Remembers.silent {history : List Label} {task : Task} (h : Remembers history task)
    {l : Label} (hl : l.posts = []) : Remembers (history ++ [l]) task := by
  have hposted : posted (history ++ [l]) = posted history := by
    rw [posted_concat, hl, List.append_nil]
  refine ⟨?_, by rw [hposted]; exact h.last, by rw [hposted]; exact h.ran⟩
  rw [List.filterMap_append]
  exact List.mem_append_left _ h.added

section Steps

variable {history : List Label} {TASKS TASKS' : List Task}

theorem Tracked.add (h : Tracked history TASKS) {id : JsString} {interval_ms : ℚ}
    {callback_url : JsString} {payload : Json}
    (hfresh : id ∉ history.filterMap Label.added) :
    Tracked (history ++ [⟨.add id interval_ms callback_url payload, []⟩])
      (addTask TASKS id interval_ms callback_url payload).2 := by
  let l : Label := ⟨.add id interval_ms callback_url payload, []⟩
  let task : Task := { id, interval_ms, callback_url, payload, last_run := 0 }
  have hadded : (history ++ [l]).filterMap Label.added
      = history.filterMap Label.added ++ [id] := by
    rw [List.filterMap_append]
    rfl
  have hposted : posted (history ++ [l]) = posted history := by
    rw [posted_concat, List.append_nil]
  have hsub : (addTask TASKS id interval_ms callback_url payload).2.Sublist
      (TASKS ++ [task]) := addTask_sublist
  have hnew : Remembers (history ++ [l]) task := by
    refine ⟨by rw [hadded]; exact List.mem_append_right _ List.mem_cons_self, ?_, .inl rfl⟩
    intro p hp hid
    rw [hposted] at hp
    have hknown := (h.known p hp).1
    rw [hid] at hknown
    exact absurd hknown hfresh
  refine ⟨?_, ?_, ?_, ?_⟩
  · refine Keyed.of_sublist (h.keyed.concat (a := task) fun t ht hid => ?_) hsub
    have hadded := (h.remembers t ht).added
    rw [hid] at hadded
    exact hfresh hadded
  · exact length_addTask_le h.bounded
  · intro t ht
    rcases List.mem_append.mp (hsub.mem ht) with ht | ht
    · exact (h.remembers t ht).silent rfl
    · rw [List.mem_singleton.mp ht]
      exact hnew
  · intro p hp
    rw [hposted] at hp
    obtain ⟨hid, hts⟩ := h.known p hp
    rw [hadded, List.filterMap_append]
    exact ⟨List.mem_append_left _ hid, List.mem_append_left _ hts⟩

theorem Tracked.remove (h : Tracked history TASKS) (id : JsString) :
    Tracked (history ++ [⟨.remove id, []⟩]) (removeTask TASKS id) := by
  have hsub : (removeTask TASKS id).Sublist TASKS := List.eraseP_sublist
  have hposted : posted (history ++ [⟨.remove id, []⟩]) = posted history := by
    rw [posted_concat, List.append_nil]
  refine ⟨h.keyed.of_sublist hsub, hsub.length_le.trans h.bounded,
    fun t ht => (h.remembers t (hsub.mem ht)).silent rfl, fun p hp => ?_⟩
  rw [hposted] at hp
  obtain ⟨hid, hts⟩ := h.known p hp
  rw [List.filterMap_append, List.filterMap_append]
  exact ⟨List.mem_append_left _ hid, List.mem_append_left _ hts⟩

/-- A tick posts a task that is due, and the task remembers that post. -/
theorem Remembers.tick (h : Tracked history TASKS) {now : ℕ}
    (hclock : ∀ t ∈ history.filterMap Label.time, t ≤ now) {t : Task} (ht : t ∈ TASKS) :
    Remembers (history ++ [⟨.tick now, (Scheduler.tick now TASKS).2⟩]) (t.ticked now) := by
  have hr := h.remembers t ht
  refine ⟨?_, ?_, ?_⟩
  · rw [List.filterMap_append, Task.id_ticked]
    exact List.mem_append_left _ hr.added
  · intro p hp hid
    rw [Task.id_ticked] at hid
    rw [Task.interval_ticked]
    rw [posted_concat] at hp
    rcases List.mem_append.mp hp with hp | hp
    · obtain ⟨hle, hinterval⟩ := hr.last p hp hid
      refine ⟨?_, hinterval⟩
      unfold Task.ticked
      split
      · exact hclock _ (h.known p hp).2
      · exact hle
    · obtain ⟨hmem, hdue, hts⟩ := mem_posts_tick.mp hp
      have heq := h.keyed.eq_of_key hmem ht hid
      rw [heq] at hdue ⊢
      refine ⟨?_, rfl⟩
      rw [hts, Task.ticked, if_pos hdue]
  · rw [posted_concat, Task.id_ticked]
    by_cases hdue : t.due now = true
    · refine .inr ⟨{ task := t, ts := now }, List.mem_append_right _
        (mem_posts_tick.mpr ⟨ht, hdue, rfl⟩), rfl, ?_⟩
      rw [Task.ticked, if_pos hdue]
    · rw [Task.ticked, if_neg hdue]
      refine hr.ran.imp_right fun h => ?_
      obtain ⟨p, hp, hpost⟩ := h
      exact ⟨p, List.mem_append_left _ hp, hpost⟩

theorem Tracked.tick (h : Tracked history TASKS) {now : ℕ}
    (hclock : ∀ t ∈ history.filterMap Label.time, t ≤ now) :
    Tracked (history ++ [⟨.tick now, (tick now TASKS).2⟩]) (tick now TASKS).1 := by
  have hmap : (Scheduler.tick now TASKS).1 = TASKS.map (Task.ticked now) := by
    rw [tick_eq]
  refine ⟨?_, ?_, ?_, ?_⟩
  · have hids : Task.id ∘ Task.ticked now = Task.id := funext fun t => t.id_ticked now
    rw [hmap, Keyed, List.map_map, hids]
    exact h.keyed
  · rw [hmap, List.length_map]
    exact h.bounded
  · rw [hmap]
    intro t' ht'
    obtain ⟨t, ht, rfl⟩ := List.mem_map.mp ht'
    exact Remembers.tick h hclock ht
  · intro p hp
    rw [posted_concat] at hp
    rw [List.filterMap_append, List.filterMap_append]
    rcases List.mem_append.mp hp with hp | hp
    · obtain ⟨hid, hts⟩ := h.known p hp
      exact ⟨List.mem_append_left _ hid, List.mem_append_left _ hts⟩
    · obtain ⟨hmem, -, hts⟩ := mem_posts_tick.mp hp
      refine ⟨List.mem_append_left _ (h.remembers _ hmem).added, List.mem_append_right _ ?_⟩
      rw [hts]
      exact List.mem_singleton_self now

/-- Whatever the call, if it gives no id again and its clock is not behind. -/
theorem Tracked.step (h : Tracked history TASKS) {l : Label}
    (hstep : Step TASKS l TASKS') (hfresh : FreshIds (history ++ [l]))
    (hclock : Clock (history ++ [l])) : Tracked (history ++ [l]) TASKS' := by
  obtain ⟨call, posts⟩ := l
  cases call with
  | add id interval_ms callback_url payload =>
    obtain ⟨rfl, rfl⟩ := Prod.mk.inj hstep
    refine h.add fun hid => ?_
    rw [FreshIds, List.filterMap_append] at hfresh
    exact (List.nodup_append.mp hfresh).2.2 id hid id List.mem_cons_self rfl
  | remove id =>
    obtain ⟨rfl, rfl⟩ := Prod.mk.inj hstep
    exact h.remove id
  | tick now =>
    obtain ⟨htasks, hposts⟩ := Prod.mk.inj hstep
    rw [Clock, List.filterMap_append, List.pairwise_append] at hclock
    obtain rfl : (Scheduler.tick now TASKS).2 = posts := hposts
    rw [← htasks]
    exact h.tick fun t ht => hclock.2.2 t ht now List.mem_cons_self

end Steps

theorem FreshIds.of_prefix {history later : List Label} (h : FreshIds later)
    (hpre : history <+: later) : FreshIds history :=
  List.Nodup.sublist (hpre.sublist.filterMap _) h

theorem Clock.of_prefix {history later : List Label} (h : Clock later)
    (hpre : history <+: later) : Clock history :=
  List.Pairwise.sublist (hpre.sublist.filterMap _) h

theorem tracked_of_run {history : List Label} {TASKS : List Task}
    (hrun : Run Step [] history TASKS) (hfresh : FreshIds history)
    (hclock : Clock history) : Tracked history TASKS :=
  hrun.history tracked_nil fun _ _ _ _ hpre h hstep =>
    h.step hstep (hfresh.of_prefix hpre) (hclock.of_prefix hpre)

/-! ## Not too early -/

/-- The second post is for the same task as the first, and its interval has
passed in between. -/
def Spaced (p p' : Post) : Prop :=
  p.task.id = p'.task.id →
    p.task.interval_ms = p'.task.interval_ms ∧
      p'.task.interval_ms ≤ (p'.ts : ℚ) - p.ts

/-- What a tick posts is due since the last post. -/
theorem spaced_tick {history : List Label} {TASKS : List Task}
    (h : Tracked history TASKS) {now : ℕ} {p p' : Post} (hp : p ∈ posted history)
    (hp' : p' ∈ (tick now TASKS).2) : Spaced p p' := by
  intro hid
  obtain ⟨hmem, hdue, hts⟩ := mem_posts_tick.mp hp'
  obtain ⟨hle, hinterval⟩ := (h.remembers _ hmem).last p hp hid
  refine ⟨hinterval, ?_⟩
  have hpassed : p'.task.interval_ms ≤ (now : ℚ) - p'.task.last_run := of_decide_eq_true hdue
  have hle' : (p.ts : ℚ) ≤ p'.task.last_run := by exact_mod_cast hle
  rw [hts]
  exact hpassed.trans (sub_le_sub_left hle' _)

/-- A tick posts once for each task. -/
theorem pairwise_tick {history : List Label} {TASKS : List Task}
    (h : Tracked history TASKS) (now : ℕ) : (tick now TASKS).2.Pairwise Spaced := by
  rw [tick_eq, List.pairwise_map]
  have hids : TASKS.Pairwise fun t u => t.id ≠ u.id := List.pairwise_map.mp h.keyed
  exact (hids.filter _).imp fun hne hid => absurd hid hne

/-- **Posts do not come early.**  In every run, of two posts for one id the second
comes at least the interval of the task after the first, and there are never
more than two hundred tasks. -/
theorem posts_spaced {history : List Label} {TASKS : List Task}
    (hrun : Run Step [] history TASKS) (hfresh : FreshIds history)
    (hclock : Clock history) :
    (posted history).Pairwise Spaced ∧ TASKS.length ≤ MAX_TASKS := by
  have hboth : Tracked history TASKS ∧ (posted history).Pairwise Spaced := by
    refine hrun.history (P := fun history TASKS =>
      Tracked history TASKS ∧ (posted history).Pairwise Spaced)
      ⟨tracked_nil, List.Pairwise.nil⟩ ?_
    intro es t l u hpre h hstep
    refine ⟨h.1.step hstep (hfresh.of_prefix hpre) (hclock.of_prefix hpre), ?_⟩
    rw [posted_concat, List.pairwise_append]
    obtain ⟨call, posts⟩ := l
    cases call with
    | add id interval_ms callback_url payload =>
      obtain ⟨-, rfl⟩ := Prod.mk.inj hstep
      exact ⟨h.2, .nil, by simp⟩
    | remove id =>
      obtain ⟨-, rfl⟩ := Prod.mk.inj hstep
      exact ⟨h.2, .nil, by simp⟩
    | tick now =>
      obtain ⟨-, hposts⟩ := Prod.mk.inj hstep
      rw [← hposts]
      exact ⟨h.2, pairwise_tick h.1 now, fun p hp p' hp' => spaced_tick h.1 hp hp'⟩
  exact ⟨hboth.2, hboth.1.bounded⟩

/-- A task that should run every second, and two ticks a second and a half apart. -/
def knownTask : Task where
  id := js "task-1"
  interval_ms := 1000
  callback_url := js "http://localhost:3000/run"
  payload := .null
  last_run := 0

def knownAdd : Label :=
  ⟨.add knownTask.id knownTask.interval_ms knownTask.callback_url knownTask.payload, []⟩

def knownTick : Label := ⟨.tick 5000, [{ task := knownTask, ts := 5000 }]⟩

def knownLate : Label :=
  ⟨.tick 6500, [{ task := { knownTask with last_run := 5000 }, ts := 6500 }]⟩

theorem run_known : Run Step [] [knownAdd, knownTick, knownLate]
    [{ knownTask with last_run := 6500 }] := by
  have hfirst : knownTask.due 5000 = true := by
    rw [Task.due, knownTask]
    norm_num
  have hsecond : Task.due { knownTask with last_run := 5000 } 6500 = true := by
    rw [Task.due, knownTask]
    norm_num
  have hadd : Step [] knownAdd [knownTask] := rfl
  have htick : Step [knownTask] knownTick [{ knownTask with last_run := 5000 }] := by
    simp [Step, after, knownTick, tick, hfirst]
  have hlate : Step [{ knownTask with last_run := 5000 }] knownLate
      [{ knownTask with last_run := 6500 }] := by
    simp [Step, after, knownLate, tick, hsecond]
  exact .cons hadd (.cons htick (.single hlate))

theorem posts_spaced_known :
    (posted [knownAdd, knownTick, knownLate]).Pairwise Spaced ∧ 1 ≤ MAX_TASKS :=
  posts_spaced run_known (by decide) (by decide)

/-! ## Not forgotten -/

/-- The task stays where nothing removes it and there is room behind it. -/
theorem there_after {pre post TASKS' : List Task} {task : Task} {l : Label}
    (hstep : Step (pre ++ task :: post) l TASKS')
    (hremove : l.call ≠ .remove task.id)
    (hroom : post.length + l.added.toList.length < MAX_TASKS) :
    ∃ pre' post' task', TASKS' = pre' ++ task' :: post' ∧ task'.id = task.id ∧
      task'.interval_ms = task.interval_ms ∧
      post'.length ≤ post.length + l.added.toList.length := by
  obtain ⟨call, posts⟩ := l
  cases call with
  | add id interval_ms callback_url payload =>
    obtain ⟨rfl, -⟩ := Prod.mk.inj hstep
    have hlength : ∀ new : Task, (pre ++ task :: post ++ [new])
        = pre ++ task :: (post ++ [new]) := by simp
    unfold addTask
    dsimp only
    rw [hlength]
    split
    · rename_i hfull
      cases pre with
      | nil =>
        simp only [List.nil_append, List.length_cons, List.length_append, List.length_nil,
          Label.added, Option.toList_some] at hfull hroom
        omega
      | cons first pre =>
        exact ⟨pre, _, task, rfl, rfl, rfl, by simp [Label.added]⟩
    · exact ⟨pre, _, task, rfl, rfl, rfl, by simp [Label.added]⟩
  | remove id =>
    obtain ⟨rfl, -⟩ := Prod.mk.inj hstep
    have hne : ¬decide (task.id = id) = true := by
      intro h
      exact hremove (congrArg Call.remove (of_decide_eq_true h).symm)
    have hcons : (task :: post).eraseP (fun t => t.id = id)
        = task :: post.eraseP (fun t => t.id = id) := List.eraseP_cons_of_neg hne
    rw [removeTask, List.eraseP_append, hcons]
    split
    · exact ⟨_, post, task, rfl, rfl, rfl, by simp [Label.added]⟩
    · exact ⟨pre, _, task, rfl, rfl, rfl, by
        simpa [Label.added] using List.length_eraseP_le⟩
  | tick now =>
    obtain ⟨htasks, -⟩ := Prod.mk.inj hstep
    rw [tick_eq, List.map_append, List.map_cons] at htasks
    exact ⟨_, _, task.ticked now, htasks.symm, by simp, by simp, by simp [Label.added]⟩

theorem there_of_run {pre post TASKS' : List Task} {task : Task} {mid : List Label}
    (hrun : Run Step (pre ++ task :: post) mid TASKS')
    (hremove : ∀ l ∈ mid, l.call ≠ .remove task.id)
    (hroom : post.length + (mid.filterMap Label.added).length < MAX_TASKS) :
    ∃ task' ∈ TASKS', task'.id = task.id ∧ task'.interval_ms = task.interval_ms := by
  induction mid generalizing pre post task with
  | nil =>
    obtain rfl := hrun.eq_of_nil rfl
    exact ⟨task, by simp, rfl, rfl⟩
  | cons l mid ih =>
    obtain ⟨t, hstep, hrest⟩ := hrun.of_cons
    have hsplit : ((l :: mid).filterMap Label.added).length
        = l.added.toList.length + (mid.filterMap Label.added).length := by
      rw [List.filterMap_cons]
      cases l.added with
      | none => simp
      | some id =>
        simp only [List.length_cons, Option.toList_some, List.length_nil]
        omega
    rw [hsplit] at hroom
    obtain ⟨pre', post', task', rfl, hid, hinterval, hlength⟩ :=
      there_after hstep (hremove l List.mem_cons_self) (by omega)
    obtain ⟨task'', hmem, hid', hinterval'⟩ := ih hrest
      (fun l' hl' => by rw [hid]; exact hremove l' (List.mem_cons_of_mem _ hl'))
      (by omega)
    exact ⟨task'', hmem, hid'.trans hid, hinterval'.trans hinterval⟩

/-- A task that is added is the last one. -/
theorem addTask_last (TASKS : List Task) (id : JsString) (interval_ms : ℚ)
    (callback_url : JsString) (payload : Json) :
    ∃ pre, (addTask TASKS id interval_ms callback_url payload).2
      = pre ++ [(addTask TASKS id interval_ms callback_url payload).1] := by
  unfold addTask
  dsimp only
  split
  · rename_i hfull
    cases TASKS with
    | nil =>
      rw [List.nil_append, List.length_singleton] at hfull
      exact absurd hfull (by decide)
    | cons first rest => exact ⟨rest, rfl⟩
  · exact ⟨TASKS, rfl⟩

/-- No post for an id comes before the id is given. -/
theorem not_posted {pre later : List Label} {TASKS : List Task} {id : JsString}
    {interval_ms : ℚ} {callback_url : JsString} {payload : Json} {silent : List Post}
    (hrun : Run Step [] pre TASKS)
    (hfresh : FreshIds (pre ++ ⟨.add id interval_ms callback_url payload, silent⟩ :: later))
    (hclock : Clock pre) {p : Post} (hp : p ∈ posted pre) : p.task.id ≠ id := by
  intro hid
  have hknown := ((tracked_of_run hrun
    (hfresh.of_prefix (List.prefix_append _ _)) hclock).known p hp).1
  rw [hid] at hknown
  rw [FreshIds, List.filterMap_append] at hfresh
  exact (List.nodup_append.mp hfresh).2.2 id hknown id List.mem_cons_self rfl

/-- **No task is forgotten.**  After a task has been added, and as long as it is
not removed and fewer than two hundred others are added, every tick leaves it
with a post no longer ago than its interval, or at the tick itself.  An interval
that is longer than the time since 1970 is the exception. -/
theorem posts_in_time {pre mid : List Label} {TASKS : List Task} {id : JsString}
    {interval_ms : ℚ} {callback_url : JsString} {payload : Json} {silent posts : List Post}
    {now : ℕ}
    (hrun : Run Step [] (pre ++ ⟨.add id interval_ms callback_url payload, silent⟩ ::
      mid ++ [⟨.tick now, posts⟩]) TASKS)
    (hfresh : FreshIds (pre ++ ⟨.add id interval_ms callback_url payload, silent⟩ ::
      mid ++ [⟨.tick now, posts⟩]))
    (hclock : Clock (pre ++ ⟨.add id interval_ms callback_url payload, silent⟩ ::
      mid ++ [⟨.tick now, posts⟩]))
    (hremove : ∀ l ∈ mid, l.call ≠ .remove id)
    (hroom : (mid.filterMap Label.added).length < MAX_TASKS) :
    (now : ℚ) < interval_ms ∨
      ∃ p ∈ posted (mid ++ [⟨.tick now, posts⟩]), p.task.id = id ∧
        ((now : ℚ) - p.ts < interval_ms ∨ p.ts = now) := by
  obtain ⟨s, hbefore, htick⟩ := hrun.of_snoc
  have htracked := tracked_of_run hbefore (hfresh.of_prefix (List.prefix_append _ _))
    (hclock.of_prefix (List.prefix_append _ _))
  obtain ⟨t, hpre, hrest⟩ := hbefore.split
  obtain ⟨u, hadd, hmid⟩ := hrest.of_cons
  obtain ⟨rfl, rfl⟩ := Prod.mk.inj hadd
  obtain ⟨front, hfront⟩ := addTask_last t id interval_ms callback_url payload
  rw [hfront] at hmid
  obtain ⟨task, hmem, hid, hinterval⟩ := there_of_run hmid hremove (by simpa using hroom)
  obtain ⟨-, hposts⟩ := Prod.mk.inj htick
  dsimp only [addTask] at hid hinterval
  rw [← hinterval]
  by_cases hdue : task.due now = true
  · -- the tick posts
    refine .inr ⟨{ task := task, ts := now }, ?_, hid, .inr rfl⟩
    rw [posted_concat, ← hposts]
    exact List.mem_append_right _ (mem_posts_tick.mpr ⟨hmem, hdue, rfl⟩)
  · have hpassed : (now : ℚ) - task.last_run < task.interval_ms := by
      simpa [Task.due] using hdue
    rcases (htracked.remembers task hmem).ran with hzero | ⟨p, hp, hpid, hts⟩
    · rw [hzero, Nat.cast_zero, sub_zero] at hpassed
      exact .inl hpassed
    · -- no post for the id comes before it is given
      have hlate : p ∈ posted mid := by
        rw [posted_append] at hp
        refine (List.mem_append.mp hp).resolve_left fun hp => ?_
        rw [List.append_assoc] at hfresh hclock
        exact not_posted hpre hfresh (hclock.of_prefix (List.prefix_append _ _)) hp
          (hpid.trans hid)
      refine .inr ⟨p, ?_, hpid.trans hid, .inl (by rw [hts]; exact hpassed)⟩
      rw [posted_concat]
      exact List.mem_append_left _ hlate

theorem posts_in_time_known :
    (6500 : ℚ) < 1000 ∨
      ∃ p ∈ posted ([knownTick] ++ [knownLate]), p.task.id = knownTask.id ∧
        ((6500 : ℚ) - p.ts < 1000 ∨ p.ts = 6500) :=
  @posts_in_time [] [knownTick] _ _ _ _ _ _ _ 6500 run_known (by decide) (by decide)
    (by simp [knownTick]) (by decide)

end NewZone.Services.Scheduler
