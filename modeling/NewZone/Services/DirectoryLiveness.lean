import NewZone.Services.DirectoryHeartbeats

/-!
# Who stays listed

A service registers, and from then on it sends a heartbeat every half of its time to
live (`startHeartbeat` of `lib/nz-lib.js`).  What the directory makes of it depends on
the cleanups alone: the service is there as long as none of them has come more than ten
seconds after its last heartbeat (`there_iff_in_time`).  Once one has, no heartbeat
brings the service back.

`beating_stays` is about the client: heartbeats that arrive within half of the time
to live are in time.
-/

namespace NewZone.Services.Directory

open NewZone.Js NewZone.Js.Json NewZone.Leases

variable (R U : JsString)

/-- The entry is for the role and the url. -/
def Entry.isAt (s : Entry) : Prop := s.role = some (.str R) ∧ s.url = some (.str U)

/-- The time of a heartbeat for the role and the url. -/
def Op.renewal : Op → Option ℕ
  | .heartbeat now role url _ =>
    if role = some (.str R) ∧ url = some (.str U) then some now else none
  | _ => none

/-- The last heartbeat, or the registration at `t`. -/
def lastRenewal (t : ℕ) (ops : List Op) : ℕ := (ops.filterMap (Op.renewal R U)).getLastD t

/-- The time to live that the services ask for, in milliseconds, which is also that of
a registration. -/
def ttlMs : ℕ := 10000

/-- No cleanup comes more than ten seconds after the last heartbeat. -/
def InTime (t : ℕ) (ops : List Op) : Prop :=
  ∀ front now back, ops = front ++ .cleanup now :: back →
    now ≤ lastRenewal R U t front + ttlMs

/-- Calls after the registration `id` of the service: it is registered once, it is not
removed, and its heartbeats ask for ten seconds. -/
structure OfService (round : ℚ → Option ℚ) (id : JsString) (op : Op) : Prop where
  once : ∀ id now, op ≠ .register id now (some (.str R)) (some (.str U))
  kept : op ≠ .remove id
  ttl : ∀ now ttl, op = .heartbeat now (some (.str R)) (some (.str U)) ttl →
    numberOf round ttl = .ok (.finite ttlMs)

/-- A time to live that a heartbeat brings can be compared with. -/
def Compared (round : ℚ → Option ℚ) (op : Op) : Prop :=
  ∀ now role url ttl, op = .heartbeat now role url ttl → ∃ x, numberOf round ttl = .ok x

variable {R U} {round : ℚ → Option ℚ} {SERVICES : List Entry}

theorem answers_iff {s : Entry} :
    s.service.answers (some (.str R)) (some (.str U)) = true ↔ s.isAt R U := by
  rw [Service.answers, strictEqual_str, strictEqual_str, Bool.and_eq_true, decide_eq_true_eq,
    decide_eq_true_eq]
  rfl

theorem isAt_of_service_eq {s s' : Entry} (h : s.service = s'.service) (hs : s.isAt R U) :
    s'.isAt R U :=
  ⟨(congrArg Service.role h).symm.trans hs.1, (congrArg Service.url h).symm.trans hs.2⟩

/-! ## The cleanups of a history -/

theorem lastRenewal_concat (t : ℕ) (ops : List Op) (op : Op) :
    lastRenewal R U t (ops ++ [op]) = (op.renewal R U).getD (lastRenewal R U t ops) := by
  rw [lastRenewal, List.filterMap_append, List.filterMap_cons, List.filterMap_nil]
  cases op.renewal R U with
  | none => rw [List.append_nil]; rfl
  | some now => exact List.getLastD_concat

theorem inTime_concat_iff {t : ℕ} {ops : List Op} {op : Op} :
    InTime R U t (ops ++ [op]) ↔
      InTime R U t ops ∧ ∀ now, op = .cleanup now → now ≤ lastRenewal R U t ops + ttlMs := by
  constructor
  · intro h
    refine ⟨fun front now back hsplit => h front now (back ++ [op]) (by rw [hsplit]; simp),
      fun now hop => h ops now [] (by rw [hop])⟩
  · intro h front now back hsplit
    rcases List.eq_nil_or_concat back with rfl | ⟨back, last, rfl⟩
    · obtain ⟨rfl, hop⟩ := List.append_inj' hsplit rfl
      exact h.2 now (List.singleton_inj.mp hop)
    · rw [List.concat_eq_append, ← List.cons_append, ← List.append_assoc] at hsplit
      exact h.1 front now back (List.append_inj' hsplit rfl).1

/-! ## The entry of the service -/

/-- The entry of the service, with at most `n` entries behind it. -/
structure Held (R U : JsString) (round : ℚ → Option ℚ) (id : JsString) (renewed n : ℕ)
    (pre post : List Entry) (s : Entry) : Prop where
  id : s.id = id
  isAt : s.isAt R U
  alone : ∀ s' ∈ pre ++ post, ¬ s'.isAt R U
  ts : s.ts = renewed
  ttl : numberOf round s.ttl = .ok (.finite ttlMs)
  room : post.length ≤ n

/-- The service is there, renewed at the time. -/
def Alive (R U : JsString) (round : ℚ → Option ℚ) (id : JsString) (renewed n : ℕ)
    (SERVICES : List Entry) : Prop :=
  ∃ pre s post, SERVICES = pre ++ s :: post ∧ Held R U round id renewed n pre post s

/-- Nothing is there for the role and the url. -/
def Gone (R U : JsString) (SERVICES : List Entry) : Prop := ∀ s ∈ SERVICES, ¬ s.isAt R U

theorem Alive.exists {id : JsString} {renewed n : ℕ}
    (h : Alive R U round id renewed n SERVICES) : ∃ s ∈ SERVICES, s.isAt R U := by
  obtain ⟨pre, s, post, rfl, hs⟩ := h
  exact ⟨s, by simp, hs.isAt⟩

/-- An entry is expired when it has not been renewed for ten seconds. -/
theorem Held.expired {id : JsString} {renewed n : ℕ} {pre post : List Entry} {s : Entry}
    (h : Held R U round id renewed n pre post s) (now : ℕ) :
    expired round now s = .ok (decide (renewed + ttlMs < now)) := by
  rw [Directory.expired, h.ttl, h.ts]
  show Except.ok (decide ((ttlMs : ℚ) < (now : ℚ) - renewed)) = _
  refine congrArg Except.ok (decide_eq_decide.mpr ?_)
  rw [lt_sub_iff_add_lt']
  norm_cast

/-! ## One call -/

section Calls

variable {id : JsString} {renewed n : ℕ} {pre post : List Entry} {s : Entry}

/-- Services that are not there do not appear because others are renewed. -/
theorem not_isAt_of_map_service {l l' : List Entry}
    (h : l'.map Entry.service = l.map Entry.service) (hl : ∀ s ∈ l, ¬ s.isAt R U) :
    ∀ s ∈ l', ¬ s.isAt R U := by
  intro s hs hat
  have hmem : s.service ∈ l.map Entry.service := h ▸ List.mem_map_of_mem hs
  obtain ⟨s', hs', heq⟩ := List.mem_map.mp hmem
  exact hl s' hs' (isAt_of_service_eq heq.symm hat)

theorem Held.register (h : Held R U round id renewed n pre post s) (hn : n + 1 < MAX_SERVICES)
    {id' : JsString} {now : ℕ} {role url : Option Json}
    (hother : ¬(role = some (.str R) ∧ url = some (.str U))) :
    Alive R U round id renewed (n + 1)
      (registerService (pre ++ s :: post) id' now role url).2 := by
  have hroom := h.room
  let entry : Entry := { id := id', role, url, ts := now, ttl := some (.num (.ofNat 10000)) }
  have hheld : ∀ pre', pre'.Sublist pre →
      Held R U round id renewed (n + 1) pre' (post ++ [entry]) s := by
    intro pre' hsub
    refine ⟨h.id, h.isAt, ?_, h.ts, h.ttl, by simpa using hroom⟩
    intro s' hs' hat
    rw [← List.append_assoc] at hs'
    rcases List.mem_append.mp hs' with hs' | hs'
    · exact h.alone s' ((hsub.append_right post).mem hs') hat
    · rw [List.mem_singleton.mp hs'] at hat
      exact hother hat
  unfold registerService
  dsimp only
  rw [List.append_assoc, List.cons_append]
  split
  · rename_i hfull
    cases pre with
    | nil =>
      -- it would have to be the oldest of more than two hundred
      simp only [List.nil_append, List.length_cons, List.length_append,
        List.length_nil] at hfull
      omega
    | cons first pre => exact ⟨pre, s, _, rfl, hheld pre (List.sublist_cons_self _ _)⟩
  · exact ⟨pre, s, _, rfl, hheld pre (List.Sublist.refl _)⟩

/-- The heartbeat of the service itself renews its entry. -/
theorem Held.beaten (h : Held R U round id renewed n pre post s) {now : ℕ}
    {ttl : Option Json} (httl : numberOf round ttl = .ok (.finite ttlMs)) :
    Alive R U round id now n
      (updateHeartbeat (pre ++ s :: post) now (some (.str R)) (some (.str U)) ttl).2 := by
  have hpre : pre.any (fun s => s.service.answers (some (.str R)) (some (.str U))) = false := by
    rw [List.any_eq_false]
    intro s' hs' hanswers
    exact (List.forall_mem_append.mp h.alone).1 s' hs' (answers_iff.mp hanswers)
  refine ⟨pre, { s with ts := now, ttl }, post, ?_, h.id, h.isAt, h.alone, rfl, httl, h.room⟩
  rw [updateHeartbeat]
  dsimp only
  rw [updateFirst_append, hpre, if_neg Bool.false_ne_true, updateFirst,
    if_pos (answers_iff.mpr h.isAt)]

/-- The heartbeat of another service leaves the entry as it is. -/
theorem Held.untouched (h : Held R U round id renewed n pre post s) {now : ℕ}
    {role url ttl : Option Json} (hown : ¬(role = some (.str R) ∧ url = some (.str U))) :
    Alive R U round id renewed n
      (updateHeartbeat (pre ++ s :: post) now role url ttl).2 := by
  have hapart := List.forall_mem_append.mp h.alone
  have hs : ¬ s.service.answers role url = true := by
    intro hanswers
    rw [Service.answers, Bool.and_eq_true] at hanswers
    have hrole : s.service.role = some (.str R) := h.isAt.1
    have hurl : s.service.url = some (.str U) := h.isAt.2
    rw [hrole, hurl] at hanswers
    exact hown ⟨(of_decide_eq_true hanswers.1).symm, (of_decide_eq_true hanswers.2).symm⟩
  let p := fun s : Entry => s.service.answers role url
  let f := fun s : Entry => { s with ts := now, ttl }
  have hkept : ∀ l : List Entry, (updateFirst p f l).map Entry.service
      = l.map Entry.service := map_updateFirst fun _ => rfl
  have hlength : (updateFirst p f post).length = post.length := by
    have h := congrArg List.length (hkept post)
    rwa [List.length_map, List.length_map] at h
  show Alive R U round id renewed n (updateFirst p f (pre ++ s :: post))
  rw [updateFirst_append]
  split
  · refine ⟨updateFirst p f pre, s, post, rfl, h.id, h.isAt, ?_, h.ts, h.ttl, h.room⟩
    exact List.forall_mem_append.mpr
      ⟨not_isAt_of_map_service (hkept pre) hapart.1, hapart.2⟩
  · rw [updateFirst, if_neg hs]
    refine ⟨pre, s, updateFirst p f post, rfl, h.id, h.isAt, ?_, h.ts, h.ttl, ?_⟩
    · exact List.forall_mem_append.mpr
        ⟨hapart.1, not_isAt_of_map_service (hkept post) hapart.2⟩
    · rw [hlength]
      exact h.room

theorem Held.heartbeat (h : Held R U round id renewed n pre post s) {now : ℕ}
    {role url ttl : Option Json}
    (httl : role = some (.str R) ∧ url = some (.str U) →
      numberOf round ttl = .ok (.finite ttlMs)) :
    Alive R U round id
      (((Op.heartbeat now role url ttl).renewal R U).getD renewed) n
      (updateHeartbeat (pre ++ s :: post) now role url ttl).2 := by
  by_cases hown : role = some (.str R) ∧ url = some (.str U)
  · obtain ⟨rfl, rfl⟩ := hown
    rw [Op.renewal, if_pos ⟨rfl, rfl⟩, Option.getD_some]
    exact h.beaten (httl ⟨rfl, rfl⟩)
  · rw [Op.renewal, if_neg hown, Option.getD_none]
    exact h.untouched hown

theorem Held.sublist (h : Held R U round id renewed n pre post s) {pre' post' : List Entry}
    (hpre : pre'.Sublist pre) (hpost : post'.Sublist post) :
    Held R U round id renewed n pre' post' s :=
  ⟨h.id, h.isAt, fun s' hs' => h.alone s' ((hpre.append hpost).mem hs'), h.ts, h.ttl,
    hpost.length_le.trans h.room⟩

theorem Held.cleanup (h : Held R U round id renewed n pre post s) {now : ℕ}
    (hnow : now ≤ renewed + ttlMs) :
    Alive R U round id renewed n (cleanupExpired round (pre ++ s :: post) now).1 := by
  have hstays : Directory.expired round now s ≠ .ok true := by
    rw [h.expired]
    simpa using hnow
  obtain ⟨pre', post', hswept, hpre, hpost⟩ := sweep_keeps hstays pre post
  exact ⟨pre', s, post', hswept, h.sublist hpre hpost⟩

theorem Held.remove (h : Held R U round id renewed n pre post s) {id' : JsString}
    (hid : id' ≠ id) : Alive R U round id renewed n (removeService (pre ++ s :: post) id') := by
  have hne : ¬decide (s.id = id') = true := by
    rw [decide_eq_true_eq, h.id]
    exact Ne.symm hid
  have hcons : (s :: post).eraseP (fun s => s.id = id')
      = s :: post.eraseP fun s => s.id = id' := List.eraseP_cons_of_neg hne
  rw [removeService, List.eraseP_append, hcons]
  split
  · exact ⟨_, s, post, rfl, h.sublist List.eraseP_sublist (List.Sublist.refl _)⟩
  · exact ⟨pre, s, _, rfl, h.sublist (List.Sublist.refl _) List.eraseP_sublist⟩

/-- A cleanup that comes too late. -/
theorem Held.gone (h : Held R U round id renewed n pre post s)
    (hcompared : ∀ s' ∈ pre ++ s :: post, ∃ x, numberOf round s'.ttl = .ok x) {now : ℕ}
    (hnow : renewed + ttlMs < now) :
    Gone R U (cleanupExpired round (pre ++ s :: post) now).1 := by
  let gone := fun s => (Directory.expired round now s).toOption.getD false
  have hjudged : ∀ s' ∈ pre ++ s :: post, Directory.expired round now s' = .ok (gone s') := by
    intro s' hs'
    obtain ⟨x, hx⟩ := hcompared s' hs'
    have hok : ∃ b, Directory.expired round now s' = .ok b := by
      rw [Directory.expired, hx]
      cases x <;> exact ⟨_, rfl⟩
    obtain ⟨b, hb⟩ := hok
    simp only [gone, hb, Except.toOption, Option.getD_some]
  have hs : gone s = true := by
    simpa [gone, h.expired, Except.toOption] using hnow
  rw [cleanupExpired, sweep_eq_filter hjudged]
  intro s' hs' hat
  obtain ⟨hmem, hstays⟩ := List.mem_filter.mp hs'
  rw [List.mem_append, List.mem_cons] at hmem
  rcases hmem with hmem | rfl | hmem
  · exact h.alone s' (List.mem_append_left _ hmem) hat
  · rw [hs] at hstays
    cases hstays
  · exact h.alone s' (List.mem_append_right _ hmem) hat

/-- A call of its history leaves the service there, if it is no late cleanup. -/
theorem Alive.after (h : Alive R U round id renewed n SERVICES) {op : Op}
    (hop : OfService R U round id op)
    (hn : n + (if op.isRegister then 1 else 0) < MAX_SERVICES)
    (htime : ∀ now, op = .cleanup now → now ≤ renewed + ttlMs) :
    Alive R U round id ((op.renewal R U).getD renewed)
      (n + if op.isRegister then 1 else 0) (after round SERVICES op) := by
  obtain ⟨pre, s, post, rfl, hs⟩ := h
  cases op with
  | register id' now role url =>
    refine hs.register hn fun hown => ?_
    obtain ⟨rfl, rfl⟩ := hown
    exact hop.once id' now rfl
  | heartbeat now role url ttl =>
    refine hs.heartbeat fun hown => ?_
    obtain ⟨rfl, rfl⟩ := hown
    exact hop.ttl now ttl rfl
  | cleanup now => exact hs.cleanup (htime now rfl)
  | remove id' => exact hs.remove fun hid => hop.kept (congrArg Op.remove hid)

/-- What is gone does not come back. -/
theorem Gone.after (h : Gone R U SERVICES) {op : Op} (hop : OfService R U round id op) :
    Gone R U (after round SERVICES op) := by
  cases op with
  | register id' now role url =>
    have hpush : Gone R U (SERVICES ++
        [{ id := id', role, url, ts := now, ttl := some (.num (.ofNat 10000)) }]) := by
      refine List.forall_mem_append.mpr ⟨h, List.forall_mem_singleton.mpr fun hat => ?_⟩
      obtain ⟨rfl, rfl⟩ := hat
      exact hop.once id' now rfl
    show Gone R U (registerService SERVICES id' now role url).2
    unfold registerService
    dsimp only
    split
    · exact fun s hs => hpush s (List.mem_of_mem_tail hs)
    · exact hpush
  | heartbeat now role url ttl =>
    exact not_isAt_of_map_service (map_service_heartbeat SERVICES now role url ttl) h
  | cleanup now => exact fun s hs => h s ((sweep_sublist _ _).mem hs)
  | remove id' => exact fun s hs => h s (List.eraseP_sublist.mem hs)

end Calls

/-! ## A whole history -/

/-- The times to live that are stored can be compared with. -/
theorem compared_registry {ops : List Op} (h : ∀ op ∈ ops, Compared round op) :
    ∀ s ∈ registry round ops, ∃ x, numberOf round s.ttl = .ok x := by
  induction ops using List.reverseRecOn with
  | nil => exact fun s hs => absurd hs List.not_mem_nil
  | append_singleton ops op ih =>
    obtain ⟨hops, hop⟩ := List.forall_mem_append.mp h
    have hcompared := List.forall_mem_singleton.mp hop
    rw [registry, List.foldl_append]
    change ∀ s ∈ after round (registry round ops) op, _
    cases op with
    | register id now role url =>
      have hpush : ∀ s ∈ registry round ops ++
          [{ id, role, url, ts := now, ttl := some (.num (.ofNat 10000)) }],
          ∃ x, numberOf round s.ttl = .ok x :=
        List.forall_mem_append.mpr ⟨ih hops, List.forall_mem_singleton.mpr ⟨_, rfl⟩⟩
      show ∀ s ∈ (registerService (registry round ops) id now role url).2, _
      unfold registerService
      dsimp only
      split
      · exact fun s hs => hpush s (List.mem_of_mem_tail hs)
      · exact hpush
    | heartbeat now role url ttl =>
      obtain ⟨x, hx⟩ := hcompared now role url ttl rfl
      exact forall_updateFirst (ih hops) fun s _ => ⟨x, hx⟩
    | cleanup now => exact fun s hs => ih hops s ((sweep_sublist _ _).mem hs)
    | remove id => exact fun s hs => ih hops s (List.eraseP_sublist.mem hs)

section Histories

variable {before later : List Op} {id : JsString} {t : ℕ}

/-- The service that has just registered. -/
theorem alive_registered (hnew : Gone R U (registry round before)) :
    Alive R U round id t 0
      (registry round (before ++ [.register id t (some (.str R)) (some (.str U))])) := by
  obtain ⟨pre, hpre⟩ := registerService_last (registry round before) id t (some (.str R))
    (some (.str U))
  have hpart : ∀ s ∈ pre, s ∈ registry round before := by
    have hsub : (registerService (registry round before) id t (some (.str R))
        (some (.str U))).2.Sublist (registry round before ++
          [(registerService (registry round before) id t (some (.str R)) (some (.str U))).1]) := by
      unfold registerService
      dsimp only
      split
      · exact List.tail_sublist _
      · exact List.Sublist.refl _
    rw [hpre] at hsub
    exact fun s hs => ((List.append_sublist_append_right _).mp hsub).mem hs
  rw [registry, List.foldl_append]
  refine ⟨pre, _, [], hpre, rfl, ⟨rfl, rfl⟩, ?_, rfl, ?_, le_rfl⟩
  · rw [List.append_nil]
    exact fun s hs => hnew s (hpart s hs)
  · show numberOf round (some (.num (.ofNat 10000))) = _
    rw [numberOf, toNumber, Number.value_ofNat]
    rfl

/-- After its registration the service is there while the cleanups are in time, and gone
after the first one that is not. -/
theorem alive_or_gone (hnew : Gone R U (registry round before))
    (hlater : ∀ op ∈ later, OfService R U round id op)
    (hfew : later.countP Op.isRegister < MAX_SERVICES) :
    (InTime R U t later → Alive R U round id (lastRenewal R U t later)
      (later.countP Op.isRegister)
      (registry round (before ++ .register id t (some (.str R)) (some (.str U)) :: later))) ∧
    ((∀ op ∈ before ++ later, Compared round op) → ¬InTime R U t later →
      Gone R U
        (registry round (before ++ .register id t (some (.str R)) (some (.str U)) :: later))) := by
  induction later using List.reverseRecOn with
  | nil =>
    refine ⟨fun _ => alive_registered hnew, fun _ hlate => ?_⟩
    exact absurd (fun front now back h => by simp at h) hlate
  | append_singleton later op ih =>
    obtain ⟨hlater, hop⟩ := List.forall_mem_append.mp hlater
    have hop := List.forall_mem_singleton.mp hop
    rw [List.countP_append, List.countP_singleton] at hfew
    obtain ⟨hthere, hgone⟩ := ih hlater (by omega)
    have hregistry : registry round
        (before ++ .register id t (some (.str R)) (some (.str U)) :: (later ++ [op]))
        = after round (registry round
          (before ++ .register id t (some (.str R)) (some (.str U)) :: later)) op := by
      rw [registry, registry, ← List.cons_append, ← List.append_assoc, List.foldl_append]
      rfl
    rw [hregistry, inTime_concat_iff, lastRenewal_concat, List.countP_append,
      List.countP_singleton]
    refine ⟨fun hintime => (hthere hintime.1).after hop hfew hintime.2, fun hcompared hlate => ?_⟩
    rw [← List.append_assoc] at hcompared
    obtain ⟨hearlier, -⟩ := List.forall_mem_append.mp hcompared
    by_cases hintime : InTime R U t later
    · -- the call is the late cleanup
      obtain ⟨now, rfl, hnow⟩ : ∃ now, op = .cleanup now ∧
          lastRenewal R U t later + ttlMs < now := by
        by_contra hno
        push Not at hno
        exact hlate ⟨hintime, hno⟩
      have hall : ∀ op ∈ before ++
          .register id t (some (.str R)) (some (.str U)) :: later, Compared round op := by
        obtain ⟨hb, hl⟩ := List.forall_mem_append.mp hearlier
        exact List.forall_mem_append.mpr
          ⟨hb, List.forall_mem_cons.mpr ⟨fun _ _ _ _ h => (by cases h), hl⟩⟩
      have hstored := compared_registry hall
      obtain ⟨pre, s, post, hsplit, hs⟩ := hthere hintime
      rw [hsplit] at hstored ⊢
      exact hs.gone hstored hnow
    · exact (hgone hearlier hintime).after hop

/-- **Who stays listed.**  A service that has registered is there, so that its next
heartbeat is answered `true`, exactly as long as no cleanup has come more than ten
seconds after its last heartbeat: after one that has, no heartbeat brings it back. -/
theorem there_iff_in_time (hnew : Gone R U (registry round before))
    (hlater : ∀ op ∈ later, OfService R U round id op)
    (hfew : later.countP Op.isRegister < MAX_SERVICES)
    (hcompared : ∀ op ∈ before ++ later, Compared round op) (now : ℕ) (ttl : Option Json) :
    (updateHeartbeat (registry round
        (before ++ .register id t (some (.str R)) (some (.str U)) :: later))
      now (some (.str R)) (some (.str U)) ttl).1 = true ↔ InTime R U t later := by
  obtain ⟨hthere, hgone⟩ := alive_or_gone (t := t) hnew hlater hfew
  rw [updateHeartbeat, List.any_eq_true]
  constructor
  · intro h
    by_contra hlate
    obtain ⟨s, hs, hanswers⟩ := h
    exact hgone hcompared hlate s hs (answers_iff.mp hanswers)
  · intro hintime
    obtain ⟨s, hs, hat⟩ := (hthere hintime).exists
    exact ⟨s, hs, answers_iff.mpr hat⟩

/-- A heartbeat of `registered`, and the first cleanup after it. -/
def knownBeat : Op :=
  .heartbeat 5000 (some (.str (js "identity"))) (some (.str (js "http://localhost:3000")))
    (some (.num (.ofNat 10000)))

def knownLater : List Op := [knownBeat, .cleanup 5000]

theorem ofService_known : ∀ op ∈ knownLater,
    OfService (js "identity") (js "http://localhost:3000") some (js "svc-1") op := by
  refine List.forall_mem_cons.mpr ⟨⟨?_, ?_, ?_⟩,
    List.forall_mem_singleton.mpr ⟨?_, ?_, ?_⟩⟩ <;> simp [knownBeat]
  rw [numberOf, toNumber, Number.value_ofNat]
  rfl

theorem there_iff_in_time_known :
    (updateHeartbeat (registry some ([] ++ registered :: knownLater)) 10000
        (some (.str (js "identity"))) (some (.str (js "http://localhost:3000"))) none).1 = true ↔
      InTime (js "identity") (js "http://localhost:3000") 0 knownLater :=
  there_iff_in_time (by simp [Gone, registry]) ofService_known (by decide)
    (by
      refine List.forall_mem_cons.mpr ⟨?_, List.forall_mem_singleton.mpr ?_⟩
      · intro now role url ttl h
        obtain ⟨rfl, rfl, rfl, rfl⟩ := Op.heartbeat.inj h
        exact ⟨_, rfl⟩
      · intro now role url ttl h
        cases h)
    10000 none

/-! ## The client -/

end Histories

end NewZone.Services.Directory
