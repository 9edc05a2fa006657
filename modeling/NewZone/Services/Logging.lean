import NewZone.Js.Conversion
import NewZone.Lib.BoundedFifo
import NewZone.Lib.Process
import NewZone.Services.EventBus

/-!
# The log

`services/logging`: the entries that `addLog` keeps as long as the process lives, and what
the server answers.  The clock of a request is also the time of the entry that it adds.

`round` is the rounding of a numeral to a double, for the limit in a URL.
-/

namespace NewZone.Services.Logging

open NewZone.Js NewZone.Js.Json NewZone.BoundedFifo NewZone.Crypto
open NewZone.Crypto.SignedPacket (Coercions)

def MAX_LOGS : ℕ := 500

structure Entry where
  ts : ℕ
  source : Option Json
  event : Option Json
  payload : Json

def Entry.toJson (entry : Entry) : Json :=
  .obj ([(js "ts", .num (.ofNat entry.ts))]
    ++ (entry.source.map fun v => (js "source", v)).toList
    ++ (entry.event.map fun v => (js "event", v)).toList
    ++ [(js "payload", entry.payload)])

/-- `logs.push(entry)`, with bounded memory. -/
def addLog (logs : List Entry) (entry : Entry) : List Entry :=
  let logs := logs ++ [entry]
  if logs.length > MAX_LOGS then logs.tail else logs

/-- `logs.slice(-limit)` -/
def getLogs (logs : List Entry) : Double → List Entry
  | .nan => logs
  | .infinite neg => if neg then [] else logs
  | .finite limit => EventBus.slice logs (if 0 ≤ limit then -limit.floor else -limit.ceil)

/-! ## The server -/

/-- What stands in front of a separator and behind it. -/
def cutAt (separator : JsString) : JsString → Option (JsString × JsString)
  | [] => none
  | u :: s =>
    if separator.isPrefixOf (u :: s) then some ([], (u :: s).drop separator.length)
    else (cutAt separator s).map fun parts => (u :: parts.1, parts.2)

/-- `s.split(separator)[1]` -/
def secondPart (separator s : JsString) : Option JsString :=
  (cutAt separator s).map fun parts =>
    ((cutAt separator parts.2).map Prod.fst).getD parts.2

/-- `Number(req.url.split("?limit=")[1]) || 100` -/
def limitOf (round : ℚ → Option ℚ) (url : JsString) : Double :=
  match (secondPart (js "?limit=") url).map (stringToNumber round) with
  | some (.infinite neg) => .infinite neg
  | some (.finite limit) => if limit = 0 then .finite 100 else .finite limit
  | _ => .finite 100

/-- The entry for `POST /write`. -/
def writeEntry (now : ℕ) (payload : Option Json) : Entry where
  ts := now
  source := some (.str (js "logging"))
  event := member payload "level"
  payload := .obj ((member payload "message").toList.map (js "message", ·))

/-- The entry for `POST /log`. -/
def logEntry (now : ℕ) (payload : Option Json) : Entry where
  ts := now
  source := member payload "source"
  event := member payload "event"
  payload := (member payload "payload").getD .null

def written (payload : Option Json) : Response where
  status := 200
  body := .obj ((member payload "level").toList.map (js "level", ·)
    ++ (member payload "message").toList.map (js "message", ·))

def listed (logs : List Entry) : Response where
  status := 200
  body := .arr (logs.map Entry.toJson)

section Server

variable (round : ℚ → Option ℚ) (node : NodeSign) (coerce : Coercions)

def handle (ctx : Context) (logs : List Entry) (req : Request) : List Entry × Option Response :=
  if req.method = .get ∧ req.url = js "/health" then
    (logs, some { status := 200, body := .obj [(js "status", .str (js "ok"))] })
  else if req.method = .get ∧ req.url = js "/logs" then
    (logs, some (listed (getLogs logs (.finite 100))))
  else if req.method = .post ∧ req.url = js "/write" then
    withBody node coerce ctx logs req.body fun payload =>
      (addLog logs (writeEntry ctx.clock payload), written payload)
  else if req.method = .get ∧ (js "/events").isPrefixOf req.url then
    (logs, some (listed (getLogs logs (limitOf round req.url))))
  else if req.method = .post ∧ req.url = js "/log" then
    withBody node coerce ctx logs req.body fun payload =>
      (addLog logs (logEntry ctx.clock payload),
        { status := 200, body := (logEntry ctx.clock payload).toJson })
  else (logs, some (.error 404 "Not found"))

/-- The entry that a body adds, if it is read. -/
def entryOf (ctx : Context) (body : Body) (entry : Option Json → Entry) : Option Entry :=
  match parseRequestBodyWithCrypto node coerce ctx body with
  | .ok (.payload payload _) => some (entry payload)
  | _ => none

/-- The entry that a request adds. -/
def logged (arrival : Arrival) : Option Entry :=
  let ctx := arrival.ctx
  if arrival.req.method = .post then
    if arrival.req.url = js "/write" then
      entryOf node coerce ctx arrival.req.body (writeEntry ctx.clock)
    else if arrival.req.url = js "/log" then
      entryOf node coerce ctx arrival.req.body (logEntry ctx.clock)
    else none
  else none

def serve (logs : List Entry) (arrival : Arrival) : List Entry × Option Response :=
  handle round node coerce arrival.ctx logs arrival.req

/-- What some requests leave of the server. -/
def processAfter (arrivals : List Arrival) : Option (List Entry) :=
  Process.after (serve round node coerce) (some []) arrivals

/-- The request has a body that ends the process. -/
def EndsProcess (arrival : Arrival) : Prop :=
  arrival.req.method = .post ∧ (arrival.req.url = js "/write" ∨ arrival.req.url = js "/log") ∧
    Fatal node coerce arrival.ctx arrival.req.body

instance decidableEndsProcess (arrival : Arrival) : Decidable (EndsProcess node coerce arrival) :=
  inferInstanceAs (Decidable (_ ∧ _))

/-- The entries that some requests add, which are lost with the process. -/
def entries (arrivals : List Arrival) : List Entry :=
  if arrivals.any (fun arrival => decide (EndsProcess node coerce arrival)) = true then []
  else arrivals.filterMap (logged node coerce)

end Server

/-! ## What is kept -/

variable {round : ℚ → Option ℚ} {node : NodeSign} {coerce : Coercions}

theorem withBody_fst (ctx : Context) (logs : List Entry) (body : Body)
    (entry : Option Json → Entry) (answer : Option Json → Response) :
    (withBody node coerce ctx logs body fun payload =>
        (addLog logs (entry payload), answer payload)).1
      = (entryOf node coerce ctx body entry).toList.foldl addLog logs := by
  rw [withBody, entryOf]
  cases parseRequestBodyWithCrypto node coerce ctx body with
  | error e => rfl
  | ok parsed => cases parsed <;> rfl

/-- A request adds its entry, and nothing else. -/
theorem handle_fst (arrival : Arrival) (logs : List Entry) :
    (handle round node coerce arrival.ctx logs arrival.req).1
      = (logged node coerce arrival).toList.foldl addLog logs := by
  unfold handle logged
  by_cases hpost : arrival.req.method = .post
  · simp only [hpost, reduceCtorEq, false_and, true_and, if_true, if_false]
    split_ifs
    · exact withBody_fst _ _ _ _ _
    · exact withBody_fst _ _ _ _ _
    · rfl
  · simp only [hpost, false_and, if_false]
    split_ifs <;> rfl

theorem addLog_contents (q : Fifo Entry MAX_LOGS) (entry : Entry) :
    addLog q.contents entry = (q.push entry).contents := q.contents_push_eq_ite entry

theorem serve_eq_none_iff (logs : List Entry) (arrival : Arrival) :
    (serve round node coerce logs arrival).2 = none ↔ EndsProcess node coerce arrival := by
  unfold serve handle EndsProcess
  by_cases hpost : arrival.req.method = .post
  · simp only [hpost, reduceCtorEq, false_and, true_and, if_false]
    split_ifs with hwrite hlog
    · rw [withBody_eq_none_iff]
      simp [hwrite]
    · rw [withBody_eq_none_iff]
      simp [hlog]
    · simp [hwrite, hlog]
  · simp only [hpost, false_and, if_false]
    split_ifs <;> simp

/-- The log keeps the most recent entries. -/
theorem foldl_serve (arrivals : List Arrival) :
    arrivals.foldl (fun logs arrival => (serve round node coerce logs arrival).1) []
      = (arrivals.filterMap (logged node coerce)).rtake MAX_LOGS := by
  have hfold : ∀ (entries : List Entry) (q : Fifo Entry MAX_LOGS),
      entries.foldl addLog q.contents = (entries.foldl Fifo.push q).contents := by
    intro entries
    induction entries with
    | nil => exact fun _ => rfl
    | cons entry entries ih =>
      intro q
      rw [List.foldl_cons, List.foldl_cons, addLog_contents, ih]
  have hentries : ∀ logs : List Entry,
      arrivals.foldl (fun logs arrival => (serve round node coerce logs arrival).1) logs
        = (arrivals.filterMap (logged node coerce)).foldl addLog logs := by
    induction arrivals with
    | nil => exact fun _ => rfl
    | cons arrival arrivals ih =>
      intro logs
      rw [List.foldl_cons, serve, handle_fst, ih]
      cases hlogged : logged node coerce arrival <;> simp [hlogged]
  exact (hentries []).trans ((hfold _ .empty).trans (Fifo.contents_foldl_push _))

/-- The process has ended, or its log has the most recent entries. -/
theorem processAfter_cases (arrivals : List Arrival) :
    processAfter round node coerce arrivals = none ∧ entries node coerce arrivals = [] ∨
      processAfter round node coerce arrivals
        = some ((entries node coerce arrivals).rtake MAX_LOGS) := by
  have hends := @serve_eq_none_iff round node coerce
  unfold entries
  split_ifs with hany
  · refine .inl ⟨(Process.after_eq_none_iff hends).mpr ?_, rfl⟩
    simpa using hany
  · refine .inr ((Process.after_of_not_ends hends ?_).trans (congrArg some (foldl_serve arrivals)))
    simpa using hany

/-! ## The last entries -/

theorem getLogs_natCast (logs : List Entry) {limit : ℕ} (hlimit : limit ≠ 0) :
    getLogs logs (.finite limit) = logs.rtake limit := by
  have hnonneg : (0 : ℚ) ≤ limit := Nat.cast_nonneg limit
  have hfloor : (limit : ℚ).floor = limit := Rat.floor_intCast limit
  have hneg : -(limit : ℤ) < 0 := by omega
  show EventBus.slice logs (if (0 : ℚ) ≤ limit then _ else _) = _
  rw [if_pos hnonneg, hfloor, EventBus.slice, if_pos hneg, Int.natAbs_neg, Int.natAbs_natCast]

/-- The URL with a limit. -/
def eventsUrl (limit : ℕ) : JsString := js "/events?limit=" ++ (Number.ofNat limit).text

theorem cutAt_eq_none {s : JsString} (h : 0x3F ∉ s) : cutAt (js "?limit=") s = none := by
  induction s with
  | nil => rfl
  | cons u s ih =>
    rw [List.mem_cons, not_or] at h
    have hprefix : (js "?limit=").isPrefixOf (u :: s) = false := by
      have hu : (0x3F == u) = false := beq_false_of_ne h.1
      show ((0x3F == u) && _) = false
      rw [hu, Bool.false_and]
    rw [cutAt, hprefix, ih h.2]
    rfl

theorem limitOf_eventsUrl {limit : ℕ} (hlimit : limit ≠ 0)
    (hround : round (limit : ℚ) = some (limit : ℚ)) :
    limitOf round (eventsUrl limit) = .finite limit := by
  have hunits : 0x3F ∉ (Number.ofNat limit).text := fun hmem =>
    absurd (Number.isNumberUnit_of_mem_text hmem) (by decide)
  have hcut : cutAt (js "?limit=") (eventsUrl limit)
      = some (js "/events", (Number.ofNat limit).text) := rfl
  have hpart : secondPart (js "?limit=") (eventsUrl limit) = some (Number.ofNat limit).text := by
    rw [secondPart, hcut, Option.map_some, cutAt_eq_none hunits]
    rfl
  have hnumber : stringToNumber round (Number.ofNat limit).text = .finite limit := by
    rw [stringToNumber_text, rounded, Number.value_ofNat, hround]
  rw [limitOf, hpart, Option.map_some, hnumber]
  exact if_neg (Nat.cast_ne_zero.mpr hlimit)

theorem rtake_rtake {α : Type} (l : List α) (m n : ℕ) :
    (l.rtake m).rtake n = l.rtake (min n m) := by
  simp only [List.rtake_eq_reverse_take_reverse, List.reverse_reverse, List.take_take]

/-- `GET /events` with a limit answers the last entries, as many as the limit and the log
allow. -/
theorem serve_events {limit : ℕ} (hlimit : limit ≠ 0)
    (hround : round (limit : ℚ) = some (limit : ℚ)) (ctx : Context) (logs : List Entry) :
    (serve round node coerce logs
        { ctx, req := { method := .get, url := eventsUrl limit, body := .empty } }).2
      = some (listed (logs.rtake limit)) := by
  have hne : ∀ s : JsString, s[1]? ≠ some 0x65 → ¬ eventsUrl limit = s := by
    intro s hs h
    exact hs (h ▸ rfl)
  have hprefix : (js "/events").isPrefixOf (eventsUrl limit) = true := rfl
  unfold serve handle
  simp only [hne (js "/health") (by decide), hne (js "/logs") (by decide), hprefix, reduceCtorEq,
    and_false, false_and, and_self, if_false, if_true]
  rw [limitOf_eventsUrl hlimit hround, getLogs_natCast _ hlimit]

end NewZone.Services.Logging
