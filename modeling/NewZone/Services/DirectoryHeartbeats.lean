import NewZone.Services.Directory

/-!
# A service that sends heartbeats

A service registers once and sends heartbeats from then on, and whoever looks it
up should find it with a fresh time.  A heartbeat only renews what is there.
When the cleanup has come first, or two hundred others have registered, it
answers `false`, and the service stays unlisted however long its heartbeats go
on.

`heartbeat_visible` says what a heartbeat does to a role that has one url, and
how long an entry of it is there.
-/

namespace NewZone.Services.Directory

open NewZone.Js NewZone.Js.Json NewZone.Leases

variable {round : ℚ → Option ℚ}

/-- The registry after calls to an empty one. -/
def registry (round : ℚ → Option ℚ) (ops : List Op) : List Entry :=
  ops.foldl (after round) []

/-! ## Roles with one url -/

/-- The role of a service has a name, and if the name is `R`, the service is at
`U`. -/
def Named (R U : JsString) (s : Service) : Prop :=
  ∃ key, roleKey s.role = .ok key ∧
    (key = R → s.role = some (.str R) ∧ s.url = some (.str U))

/-- A registration of a role with a name, and of `R` with `U` only. -/
def OnlyWith (R U : JsString) : Op → Prop
  | .register id _ role url => Named R U { id, role, url }
  | _ => True

variable {R U : JsString} {SERVICES : List Entry}

theorem named_after (h : ∀ s ∈ SERVICES.map Entry.service, Named R U s) {op : Op}
    (hop : OnlyWith R U op) :
    ∀ s ∈ (after round SERVICES op).map Entry.service, Named R U s := by
  cases op with
  | register id now role url =>
    have hpush := List.forall_mem_append.mpr ⟨h, List.forall_mem_singleton.mpr hop⟩
    unfold after registerService
    dsimp only
    split
    · rw [List.map_tail, List.map_append]
      exact fun s hs => hpush s (List.mem_of_mem_tail hs)
    · rw [List.map_append]
      exact hpush
  | heartbeat now role url ttl =>
    rw [after, map_service_heartbeat]
    exact h
  | cleanup now => exact fun s hs => h s (((sweep_sublist _ _).map _).mem hs)
  | remove id => exact fun s hs => h s ((List.eraseP_sublist.map _).mem hs)

theorem named_registry {ops : List Op} (hops : ∀ op ∈ ops, OnlyWith R U op) :
    ∀ s ∈ (registry round ops).map Entry.service, Named R U s := by
  induction ops using List.reverseRecOn with
  | nil => exact fun s hs => absurd hs List.not_mem_nil
  | append_singleton ops op ih =>
    obtain ⟨hops, hop⟩ := List.forall_mem_append.mp hops
    rw [registry, List.foldl_append]
    exact named_after (ih hops) (hop op List.mem_cons_self)

/-! ## The listing -/

theorem get_assign (out : Listing) (key other : JsString) (service : Listed) :
    (out.assign key service).get other = if key = other then some service else out.get other := by
  unfold Listing.assign Listing.get
  by_cases hkey : key = js "__proto__"
  · rw [if_pos hkey]
    by_cases hother : other = js "__proto__"
    · rw [if_pos hother, if_pos hother, if_pos (hkey.trans hother.symm)]
    · rw [if_neg hother, if_neg hother, if_neg fun h : key = other =>
        hother (h.symm.trans hkey)]
  · rw [if_neg hkey]
    by_cases hother : other = js "__proto__"
    · rw [if_pos hother, if_pos hother, if_neg fun h => hkey (h.trans hother)]
    · rw [if_neg hother, if_neg hother, PlainObject.get_set]

/-- A role of a name. -/
def hasName (key : JsString) (s : Entry) : Bool := (roleKey s.role).toOption = some key

/-- A listing shows the last entry of each name. -/
theorem listFrom_eq (out : Listing) (h : ∀ s ∈ SERVICES, ∃ key, roleKey s.role = .ok key) :
    ∃ out', listFrom out SERVICES = .ok out' ∧
      ∀ key, out'.get key
        = ((SERVICES.filter (hasName key)).getLast?.map Entry.listed).or (out.get key) := by
  induction SERVICES generalizing out with
  | nil => exact ⟨out, rfl, fun key => rfl⟩
  | cons s rest ih =>
    obtain ⟨⟨name, hname⟩, hrest⟩ := List.forall_mem_cons.mp h
    obtain ⟨out', hout', hget⟩ := ih (out.assign name s.listed) hrest
    refine ⟨out', ?_, fun key => ?_⟩
    · rw [listFrom, hname]
      exact hout'
    · have hlast : hasName key s = decide (name = key) := by
        simp [hasName, hname, Except.toOption]
      rw [hget, get_assign, List.filter_cons, hlast]
      by_cases hkey : name = key
      · rw [if_pos hkey, if_pos (decide_eq_true hkey), List.getLast?_cons]
        cases (rest.filter (hasName key)).getLast? <;> rfl
      · rw [if_neg hkey, if_neg (by simpa using hkey)]

/-- The listing of a registry whose roles have names. -/
theorem listServices_eq (h : ∀ s ∈ SERVICES.map Entry.service, Named R U s) :
    ∃ out, listServices SERVICES = .ok out ∧
      out.get R = (SERVICES.filter (hasName R)).getLast?.map Entry.listed := by
  obtain ⟨out, hout, hget⟩ := listFrom_eq { own := .empty, proto := none } fun s hs => by
    obtain ⟨key, hkey, -⟩ := h _ (List.mem_map.mpr ⟨s, hs, rfl⟩)
    exact ⟨key, hkey⟩
  refine ⟨out, hout, (hget R).trans ?_⟩
  rw [Listing.get]
  simp

theorem strictEqual_str (a : Option Json) (x : JsString) :
    strictEqual a (some (.str x)) = decide (a = some (.str x)) := by
  cases a with
  | none => rfl
  | some v =>
    cases v with
    | arr items => simp [strictEqual]
    | obj members => simp [strictEqual]
    | _ => rfl

/-- Of a role with one url, the entries are those that its heartbeats find. -/
theorem hasName_eq {s : Entry} (h : Named R U s.service) :
    hasName R s = s.service.answers (some (.str R)) (some (.str U)) := by
  obtain ⟨key, hkey, honly⟩ := h
  have hrole : roleKey s.role = .ok key := hkey
  rw [hasName, hrole, Service.answers, strictEqual_str, strictEqual_str]
  by_cases hR : key = R
  · obtain ⟨hrole', hurl'⟩ := honly hR
    rw [hrole', hurl', hR]
    simp [Except.toOption]
  · have hne : s.service.role ≠ some (.str R) := by
      intro hs
      rw [hs] at hkey
      exact hR (Except.ok.inj hkey).symm
    simp [Except.toOption, hR, hne]

theorem url_of_hasName {s : Entry} (h : Named R U s.service) (hname : hasName R s = true) :
    s.url = some (.str U) := by
  rw [hasName_eq h, Service.answers, strictEqual_str, strictEqual_str, Bool.and_eq_true] at hname
  exact of_decide_eq_true hname.2

theorem filter_hasName (h : ∀ s ∈ SERVICES.map Entry.service, Named R U s) :
    SERVICES.filter (hasName R)
      = SERVICES.filter fun s => s.service.answers (some (.str R)) (some (.str U)) :=
  List.filter_congr fun s hs => hasName_eq (h _ (List.mem_map.mpr ⟨s, hs, rfl⟩))

/-! ## What a heartbeat changes -/

/-- A heartbeat renews the first entry of its role. -/
theorem entries_heartbeat (h : ∀ s ∈ SERVICES.map Entry.service, Named R U s) (now : ℕ)
    (ttl : Option Json) :
    (updateHeartbeat SERVICES now (some (.str R)) (some (.str U)) ttl).2.filter (hasName R)
      = (SERVICES.filter (hasName R)).modifyHead fun s => { s with ts := now, ttl } := by
  have h' := h
  rw [← map_service_heartbeat SERVICES now (some (.str R)) (some (.str U)) ttl] at h'
  rw [filter_hasName h, filter_hasName h']
  apply filter_updateFirst
  exact fun s => rfl

/-- It answers whether there is one. -/
theorem updateHeartbeat_iff (h : ∀ s ∈ SERVICES.map Entry.service, Named R U s) (now : ℕ)
    (ttl : Option Json) :
    (updateHeartbeat SERVICES now (some (.str R)) (some (.str U)) ttl).1 = true ↔
      SERVICES.filter (hasName R) ≠ [] := by
  rw [filter_hasName h, updateHeartbeat, List.any_eq_true, ne_eq, List.filter_eq_nil_iff]
  push Not
  rfl

/-- Where there is none, it changes nothing. -/
theorem updateHeartbeat_unchanged (h : ∀ s ∈ SERVICES.map Entry.service, Named R U s)
    (hnone : SERVICES.filter (hasName R) = []) (now : ℕ) (ttl : Option Json) :
    (updateHeartbeat SERVICES now (some (.str R)) (some (.str U)) ttl).2 = SERVICES := by
  rw [filter_hasName h] at hnone
  apply updateFirst_of_false
  simpa using List.filter_eq_nil_iff.mp hnone

/-! ## How long an entry is there -/

def Op.isRegister : Op → Bool
  | .register _ _ _ _ => true
  | _ => false

/-- Calls that leave an entry of `R` there: not too many registrations, no
removal, and no cleanup that comes too late for it. -/
structure Undisturbed (round : ℚ → Option ℚ) (R id : JsString) (SERVICES : List Entry)
    (later : List Op) : Prop where
  few : later.countP Op.isRegister < MAX_SERVICES
  kept : .remove id ∉ later
  inTime : ∀ front now back, later = front ++ .cleanup now :: back →
    ∀ s ∈ front.foldl (after round) SERVICES, s.id = id → s.role = some (.str R) →
      expired round now s ≠ .ok true

/-- A call that leaves an entry there. -/
theorem after_keeps {pre post : List Entry} {s : Entry} {op : Op}
    (hroom : op.isRegister → post.length + 1 < MAX_SERVICES) (hremove : op ≠ .remove s.id)
    (htime : ∀ now, op = .cleanup now → expired round now s ≠ .ok true) :
    ∃ pre' s' post', after round (pre ++ s :: post) op = pre' ++ s' :: post' ∧
      s'.service = s.service ∧
      post'.length ≤ post.length + if op.isRegister then 1 else 0 := by
  cases op with
  | register id now role url =>
    have hroom := hroom rfl
    unfold after registerService
    dsimp only
    rw [List.append_assoc, List.cons_append]
    split
    · rename_i hfull
      cases pre with
      | nil =>
        -- it would have to be the oldest of more than two hundred
        simp only [List.nil_append, List.length_cons, List.length_append,
          List.length_nil] at hfull
        omega
      | cons first pre => exact ⟨pre, s, _, rfl, rfl, by simp [Op.isRegister]⟩
    · exact ⟨pre, s, _, rfl, rfl, by simp [Op.isRegister]⟩
  | heartbeat now role url ttl =>
    have hmap := map_service_heartbeat (pre ++ s :: post) now role url ttl
    rw [List.map_append, List.map_cons] at hmap
    obtain ⟨pre', rest, hsplit, -, hrest⟩ := List.map_eq_append_iff.mp hmap
    obtain ⟨s', post', rfl, hs, hpost⟩ := List.map_eq_cons_iff.mp hrest
    have hlength := congrArg List.length hpost
    rw [List.length_map, List.length_map] at hlength
    exact ⟨pre', s', post', hsplit, hs, by omega⟩
  | cleanup now =>
    obtain ⟨pre', post', h, -, hpost⟩ := sweep_keeps (htime now rfl) pre post
    exact ⟨pre', s, post', h, rfl, by simpa [Op.isRegister] using hpost.length_le⟩
  | remove id =>
    have hne : ¬ decide (s.id = id) = true := fun h =>
      hremove (congrArg Op.remove (of_decide_eq_true h).symm)
    have hcons : (s :: post).eraseP (fun s => s.id = id)
        = s :: post.eraseP (fun s => s.id = id) := List.eraseP_cons_of_neg hne
    rw [after, removeService, List.eraseP_append, hcons]
    split
    · exact ⟨_, s, post, rfl, rfl, by simp⟩
    · exact ⟨pre, s, _, rfl, rfl, by simpa [Op.isRegister] using List.length_eraseP_le⟩

/-- Calls that leave an entry there. -/
theorem foldl_keeps {id : JsString} {pre post : List Entry} {s : Entry} {later : List Op}
    (hid : s.id = id) (hrole : s.role = some (.str R))
    (hroom : post.length + later.countP Op.isRegister < MAX_SERVICES)
    (hkept : .remove id ∉ later)
    (hintime : ∀ front now back, later = front ++ .cleanup now :: back →
      ∀ s' ∈ front.foldl (after round) (pre ++ s :: post), s'.id = id →
        s'.role = some (.str R) → expired round now s' ≠ .ok true) :
    ∃ s' ∈ later.foldl (after round) (pre ++ s :: post), s'.service = s.service := by
  induction later generalizing pre s post with
  | nil => exact ⟨s, by simp, rfl⟩
  | cons op later ih =>
    obtain ⟨hop, hkept⟩ := not_or.mp (mt List.mem_cons.mpr hkept)
    rw [List.countP_cons] at hroom
    have hstep := @after_keeps round pre post s op
      (fun h => by rw [if_pos h] at hroom; omega) (by rw [hid]; exact Ne.symm hop)
      (fun now h => hintime [] now later (h ▸ rfl) s (by simp) hid hrole)
    obtain ⟨pre', s', post', hafter, hservice, hlength⟩ := hstep
    obtain ⟨s'', hmem, hservice'⟩ := @ih pre' post' s'
      ((congrArg Service.id hservice).trans hid)
      ((congrArg Service.role hservice).trans hrole) (by omega) hkept
      fun front now back h => by
        rw [← hafter]
        exact hintime (op :: front) now back (by rw [h]; rfl)
    rw [List.foldl_cons, hafter]
    exact ⟨s'', hmem, hservice'.trans hservice⟩

/-- A registration puts its entry at the end. -/
theorem registerService_last (SERVICES : List Entry) (id : JsString) (now : ℕ)
    (role url : Option Json) :
    ∃ pre, (registerService SERVICES id now role url).2
      = pre ++ [(registerService SERVICES id now role url).1] := by
  unfold registerService
  dsimp only
  split
  · rename_i hfull
    cases SERVICES with
    | nil =>
      rw [List.nil_append, List.length_singleton] at hfull
      exact absurd hfull (by decide)
    | cons first rest => exact ⟨rest, rfl⟩
  · exact ⟨SERVICES, rfl⟩

/-- An entry that nothing has disturbed is there. -/
theorem entries_ne_nil {before later : List Op} {id : JsString} {t : ℕ} {U : Option Json}
    (h : Undisturbed round R id
      (registry round (before ++ [.register id t (some (.str R)) U])) later) :
    (registry round (before ++ .register id t (some (.str R)) U :: later)).filter (hasName R)
      ≠ [] := by
  obtain ⟨pre, hpre⟩ :=
    registerService_last (registry round before) id t (some (.str R)) U
  have hregistered : registry round (before ++ [.register id t (some (.str R)) U])
      = pre ++ [(registerService (registry round before) id t (some (.str R)) U).1] := by
    rw [registry, List.foldl_append]
    exact hpre
  have hwhole : registry round (before ++ .register id t (some (.str R)) U :: later)
      = later.foldl (after round)
        (registry round (before ++ [.register id t (some (.str R)) U])) := by
    rw [registry, registry, ← List.foldl_append, List.append_assoc, List.singleton_append]
  have hintime := h.inTime
  rw [hregistered] at hintime
  obtain ⟨s, hmem, hservice⟩ := foldl_keeps rfl rfl (by simpa using h.few) h.kept hintime
  rw [hwhole, hregistered]
  refine List.ne_nil_of_mem (List.mem_filter.mpr ⟨hmem, ?_⟩)
  have hrole : s.role = some (.str R) := congrArg Service.role hservice
  simp [hasName, hrole, roleKey, toText, Except.toOption]

/-- **A heartbeat is visible.**  Of a role that is registered with one url only, a
heartbeat renews what is there: it answers `true` and the role is listed with
the url, and with the time of the heartbeat if it has one entry.  Where no entry
is there, it answers `false` and changes nothing, and the role is not listed.
An entry is there after its registration until the registry is full of later
ones, or it is removed, or a cleanup comes too late for it. -/
theorem heartbeat_visible {ops : List Op} (hops : ∀ op ∈ ops, OnlyWith R U op) (now : ℕ)
    (ttl : Option Json) :
    let SERVICES := registry round ops
    let (updated, SERVICES') :=
      updateHeartbeat SERVICES now (some (.str R)) (some (.str U)) ttl
    let entries := SERVICES.filter (hasName R)
    ∃ out, listServices SERVICES' = .ok out ∧
      (entries ≠ [] → updated = true ∧ ∃ service, out.get R = some service ∧
        service.url = some (.str U) ∧ (entries.length = 1 → service.ts = now)) ∧
      (entries = [] → updated = false ∧ SERVICES' = SERVICES ∧ out.get R = none) ∧
      ∀ before id t later,
        ops = before ++ .register id t (some (.str R)) (some (.str U)) :: later →
        Undisturbed round R id
          (registry round (before ++ [.register id t (some (.str R)) (some (.str U))])) later →
        entries ≠ [] := by
  have hnamed := @named_registry round R U ops hops
  have hnamed' := hnamed
  rw [← map_service_heartbeat _ now (some (.str R)) (some (.str U)) ttl] at hnamed'
  obtain ⟨out, hout, hget⟩ := listServices_eq hnamed'
  have hentries := entries_heartbeat hnamed now ttl
  refine ⟨out, hout, fun hne => ⟨(updateHeartbeat_iff hnamed now ttl).mpr hne, ?_⟩,
    fun hnone => ⟨?_, updateHeartbeat_unchanged hnamed hnone now ttl, ?_⟩, ?_⟩
  · obtain ⟨first, rest, hfirst⟩ := List.exists_cons_of_ne_nil hne
    rw [hfirst, List.modifyHead_cons] at hentries
    obtain ⟨last, hlast⟩ : ∃ last,
        ({ first with ts := now, ttl } :: rest : List Entry).getLast? = some last :=
      ⟨_, List.getLast?_cons⟩
    rw [hentries, hlast] at hget
    refine ⟨last.listed, hget, ?_, fun hone => ?_⟩
    · have hmem := List.mem_of_getLast? hlast
      rw [← hentries] at hmem
      obtain ⟨hmem, hname⟩ := List.mem_filter.mp hmem
      exact url_of_hasName (hnamed' _ (List.mem_map.mpr ⟨last, hmem, rfl⟩)) hname
    · rw [hfirst] at hone
      obtain rfl : rest = [] := List.eq_nil_of_length_eq_zero (Nat.succ.inj hone)
      obtain rfl := Option.some.inj hlast
      rfl
  · rw [Bool.eq_false_iff]
    exact fun htrue => (updateHeartbeat_iff hnamed now ttl).mp htrue hnone
  · rw [hget, hentries, hnone]
    rfl
  · intro before id t later hsplit h
    subst hsplit
    exact entries_ne_nil h

/-! ## A known service -/

/-- A service registers as the process starts. -/
def registered : Op :=
  .register (js "svc-1") 0 (some (.str (js "identity")))
    (some (.str (js "http://localhost:3000")))

theorem onlyWith_registered :
    OnlyWith (js "identity") (js "http://localhost:3000") registered :=
  ⟨js "identity", rfl, fun _ => ⟨rfl, rfl⟩⟩

/-- A heartbeat in time. -/
theorem heartbeat_visible_known :
    ∃ out service,
      listServices (updateHeartbeat (registry some [registered]) 4000
        (some (.str (js "identity"))) (some (.str (js "http://localhost:3000"))) none).2
          = .ok out ∧
      out.get (js "identity") = some service ∧
      service.url = some (.str (js "http://localhost:3000")) ∧ service.ts = 4000 := by
  obtain ⟨out, hout, hvisible, -⟩ := @heartbeat_visible some (js "identity")
    (js "http://localhost:3000") [registered]
    (List.forall_mem_singleton.mpr onlyWith_registered) 4000 none
  obtain ⟨-, service, hservice, hurl, hts⟩ := hvisible (by decide +kernel)
  exact ⟨out, service, hout, hservice, hurl, hts (by decide +kernel)⟩

/-- **A heartbeat that comes late.**  The cleanup has been there first, so the
service is not listed. -/
theorem late_heartbeat :
    (∀ op ∈ [registered, .cleanup 15000],
      OnlyWith (js "identity") (js "http://localhost:3000") op) ∧
    (updateHeartbeat (registry some [registered, .cleanup 15000]) 15000
      (some (.str (js "identity"))) (some (.str (js "http://localhost:3000"))) none).1
        = false ∧
    ∃ out, listServices (updateHeartbeat (registry some [registered, .cleanup 15000]) 15000
        (some (.str (js "identity"))) (some (.str (js "http://localhost:3000"))) none).2
          = .ok out ∧
      out.get (js "identity") = none := by
  have hempty : registry some [registered, .cleanup 15000] = [] := by
    apply List.eq_nil_of_length_eq_zero
    decide +kernel
  rw [hempty]
  refine ⟨?_, rfl, _, rfl, rfl⟩
  exact List.forall_mem_cons.mpr ⟨onlyWith_registered, List.forall_mem_singleton.mpr trivial⟩

end NewZone.Services.Directory
