import NewZone.Services.RequestBody

/-!
# The queue service

`services/queue/index.js` and `server.js`.  The queues are kept in a plain
object.  A name that every object inherits is taken for a queue that is there,
so none is made, and the call throws, except that `dequeue` finds a function
without parameters empty.

What `GET /peek` asks for is left to `URLSearchParams`.
-/

namespace NewZone.Services.Queue

open NewZone.Js NewZone.Js.Json NewZone.ExceptBind NewZone.Crypto
open NewZone.Crypto.SignedPacket (Coercions)

def MAX_QUEUE_SIZE : ℕ := 500

structure Item where
  ts : ℕ
  payload : Option Json

def Item.toJson (item : Item) : Json :=
  .obj ([(js "ts", .num (.ofNat item.ts))]
    ++ (item.payload.map fun v => (js "payload", v)).toList)

/-- `QUEUES` -/
abbrev Queues := PlainObject (List Item)

/-! ## The core -/

def ensureQueue (QUEUES : Queues) (name : JsString) : Queues :=
  match QUEUES.lookup name with
  | .missing => QUEUES.set name []
  | _ => QUEUES

variable (engine : Engine)

def enqueue (QUEUES : Queues) (queue payload : Option Json) (now : ℕ) :
    Except String (Queues × Item) := do
  let name ← engine.propertyKey queue
  let QUEUES := ensureQueue QUEUES name
  let item : Item := { ts := now, payload }
  match QUEUES.lookup name with
  | .own items =>
    let items := items ++ [item]
    let items := if items.length > MAX_QUEUE_SIZE then items.tail else items
    return (QUEUES.set name items, item)
  | _ => throw "QUEUES[queue].push is not a function"

/-- The inherited functions whose `length` is zero. -/
def withoutParameters : List JsString :=
  [js "toString", js "valueOf", js "toLocaleString"]

instance decidableMemWithoutParameters (name : JsString) :
    Decidable (name ∈ withoutParameters) :=
  decidable_of_iff (withoutParameters.contains name = true) List.contains_iff_mem

def dequeue (QUEUES : Queues) (queue : Option Json) :
    Except String (Queues × Option Item) := do
  let name ← engine.propertyKey queue
  let QUEUES := ensureQueue QUEUES name
  match QUEUES.lookup name with
  | .own [] => return (QUEUES, none)
  | .own (item :: items) => return (QUEUES.set name items, some item)
  | _ =>
    if name ∈ withoutParameters then return (QUEUES, none)
    else throw "QUEUES[queue].shift is not a function"

/-- `list.slice(0, limit)` -/
def firstOf {α : Type} (list : List α) (limit : ℤ) : List α :=
  if limit < 0 then list.take (list.length - limit.natAbs) else list.take limit.toNat

/-- `peek`, where the name of the queue is a text or `null`. -/
def peek (QUEUES : Queues) (queue : Option JsString) (limit : ℤ) :
    Except String (Queues × List Item) :=
  let name := queue.getD (js "null")
  let QUEUES := ensureQueue QUEUES name
  match QUEUES.lookup name with
  | .own items => .ok (QUEUES, firstOf items limit)
  | _ => .error "QUEUES[queue].slice is not a function"

def listQueues (QUEUES : Queues) : List Json :=
  QUEUES.members.map fun m =>
    .obj [(js "name", .str m.1), (js "size", .num (.ofNat m.2.length))]

/-! ## The server -/

structure Task where
  type : Option Json
  payload : Option Json

def Task.toJson (task : Task) : Json :=
  .obj ((task.type.map fun v => (js "type", v)).toList
    ++ (task.payload.map fun v => (js "payload", v)).toList)

structure Store where
  QUEUES : Queues
  tasks : List Task

def Store.initial : Store := { QUEUES := .empty, tasks := [] }

/-- `POST /push` -/
def push (store : Store) (payload : Option Json) : Store × Response :=
  let task : Task := { type := member payload "type", payload := member payload "payload" }
  ({ store with tasks := store.tasks ++ [task] },
    { status := 200, body := task.toJson })

/-- `POST /enqueue` -/
def enqueueRoute (now : ℕ) (store : Store) (payload : Option Json) :
    Store × Response :=
  match enqueue engine store.QUEUES (member payload "queue")
      (member payload "payload") now with
  | .ok (QUEUES, item) => ({ store with QUEUES }, { status := 200, body := item.toJson })
  | .error _ => (store, .error 400 "Invalid enqueue")

/-- `POST /dequeue` -/
def dequeueRoute (store : Store) (payload : Option Json) : Store × Response :=
  match dequeue engine store.QUEUES (member payload "queue") with
  | .ok (QUEUES, item) =>
    ({ store with QUEUES },
      { status := 200
        body := (item.map Item.toJson).getD (.obj [(js "empty", .bool true)]) })
  | .error _ => (store, .error 400 "Invalid dequeue")

/-- The routes that read the body. -/
def route (req : Request) : Option (ℕ → Store → Option Json → Store × Response) :=
  if req.method = .post ∧ req.url = js "/push" then some fun _ => push
  else if req.method = .post ∧ req.url = js "/enqueue" then some (enqueueRoute engine)
  else if req.method = .post ∧ req.url = js "/dequeue" then
    some fun _ => dequeueRoute engine
  else none

/-- The other routes.  `query` is the queue and the limit that a URL names; it
has none if the URL cannot be parsed.  An exception of `peek` is caught by
nobody. -/
def answer (query : JsString → Option (Option JsString × ℤ)) (store : Store)
    (req : Request) : Store × Option Response :=
  if req.method = .get ∧ req.url = js "/health" then
    (store, some { status := 200, body := .obj [(js "status", .str (js "ok"))] })
  else if req.method = .get ∧ req.url = js "/tasks" then
    (store, some { status := 200, body := .arr (store.tasks.map Task.toJson) })
  else if req.method = .get ∧ (js "/peek").isPrefixOf req.url then
    match query req.url with
    | none => (store, none)
    | some (queue, limit) =>
      match peek store.QUEUES queue limit with
      | .error _ => (store, none)
      | .ok (QUEUES, items) =>
        ({ store with QUEUES },
          some { status := 200, body := .arr (items.map Item.toJson) })
  else if req.method = .get ∧ req.url = js "/queues" then
    (store, some { status := 200, body := .arr (listQueues store.QUEUES) })
  else (store, some (.error 404 "Not found"))

/-! ## What a route takes -/

/-- A queue that is not there is made, unless an object inherits its name. -/
theorem lookup_ensureQueue (QUEUES : Queues) (name : JsString) :
    (ensureQueue QUEUES name).lookup name
      = match QUEUES.lookup name with
        | .missing => .own []
        | found => found := by
  unfold ensureQueue
  cases h : QUEUES.lookup name with
  | missing => exact PlainObject.lookup_of_get (PlainObject.get_set_self _ _ _)
  | own items => exact h
  | inherited => exact h

variable {engine}

theorem enqueue_ok_iff {QUEUES : Queues} {queue payload : Option Json} {now : ℕ} :
    (∃ r, enqueue engine QUEUES queue payload now = .ok r) ↔
      ∃ name, engine.propertyKey queue = .ok name ∧
        QUEUES.lookup name ≠ .inherited := by
  simp only [enqueue, bind_eq_ok, lookup_ensureQueue]
  rw [exists_comm]
  refine exists_congr fun name => ?_
  rw [exists_and_left]
  refine and_congr_right fun _ => ?_
  cases QUEUES.lookup name with
  | missing => exact ⟨fun _ => nofun, fun _ => ⟨_, rfl⟩⟩
  | own items => exact ⟨fun _ => nofun, fun _ => ⟨_, rfl⟩⟩
  | inherited =>
    constructor
    · rintro ⟨_, h⟩
      cases h
    · intro h
      exact absurd rfl h

theorem dequeue_ok_iff {QUEUES : Queues} {queue : Option Json} :
    (∃ r, dequeue engine QUEUES queue = .ok r) ↔
      ∃ name, engine.propertyKey queue = .ok name ∧
        (QUEUES.lookup name ≠ .inherited ∨ name ∈ withoutParameters) := by
  simp only [dequeue, bind_eq_ok, lookup_ensureQueue]
  rw [exists_comm]
  refine exists_congr fun name => ?_
  rw [exists_and_left]
  refine and_congr_right fun _ => ?_
  cases QUEUES.lookup name with
  | missing => exact ⟨fun _ => .inl nofun, fun _ => ⟨_, rfl⟩⟩
  | own items =>
    cases items with
    | nil => exact ⟨fun _ => .inl nofun, fun _ => ⟨_, rfl⟩⟩
    | cons item items => exact ⟨fun _ => .inl nofun, fun _ => ⟨_, rfl⟩⟩
  | inherited =>
    dsimp only
    split_ifs with hname
    · exact ⟨fun _ => .inr hname, fun _ => ⟨_, rfl⟩⟩
    · constructor
      · rintro ⟨_, h⟩
        cases h
      · rintro (h | h)
        · exact absurd rfl h
        · exact absurd h hname

/-! ## Where an item goes -/

/-- A queue with a name of its own gets the item as its last. -/
theorem exists_enqueue {QUEUES : Queues} {name : JsString} (hname : name ∉ objectPrototype)
    (payload : Option Json) (now : ℕ) :
    ∃ QUEUES' items, enqueue engine QUEUES (some (.str name)) payload now
        = .ok (QUEUES', { ts := now, payload }) ∧
      QUEUES'.lookup name = .own (items ++ [{ ts := now, payload }]) := by
  have hkey : engine.propertyKey (some (.str name)) = .ok name := rfl
  obtain ⟨old, hold⟩ : ∃ old, (ensureQueue QUEUES name).lookup name = .own old := by
    rw [lookup_ensureQueue]
    cases hlookup : QUEUES.lookup name with
    | own old => exact ⟨old, rfl⟩
    | missing => exact ⟨[], rfl⟩
    | inherited => exact absurd (PlainObject.mem_of_lookup_inherited hlookup) hname
  have hown : ∀ (obj : Queues) (list : List Item), (obj.set name list).lookup name = .own list :=
    fun obj list => PlainObject.lookup_of_get (PlainObject.get_set_self _ _ _)
  unfold enqueue
  rw [bind_of_ok hkey]
  dsimp only
  rw [hold]
  dsimp only
  split_ifs with hlong
  · -- the first item is dropped, and it is not the new one
    cases old with
    | nil => simp [MAX_QUEUE_SIZE] at hlong
    | cons first rest => exact ⟨_, rest, rfl, hown _ _⟩
  · exact ⟨_, old, rfl, hown _ _⟩

end NewZone.Services.Queue
