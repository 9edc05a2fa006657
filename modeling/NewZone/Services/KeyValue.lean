import NewZone.Js.Prototype
import NewZone.Lib.Process
import NewZone.Services.ContentIds

/-!
# Values under keys

Two services keep values under keys in a plain object: the metadata service at `/set` and
`/get/` (`services/metadata/server.js`), and the storage service at `/kv/set` and
`/kv/get/` (`services/storage/server.js`).  As long as the process lives, a key has the
value that was set last, or else what the object inherits, to which only the values set
for `__proto__` matter (`answered_last`).  The services answer alike until a key is set that
cannot be made a text: the metadata service catches the exception, the process of the
storage service ends (`answered_alike_iff`).

Keys come as they stand in the URL, which nobody decodes.
-/

namespace NewZone.Services

open NewZone.Js NewZone.Js.Json NewZone.Crypto
open NewZone.Crypto.SignedPacket (Coercions)
open NewZone.Js.ProtoObject (lastUnder protos find_assignAll)

namespace KeyValue

/-! ## The routes -/

/-- What is different in the two servers: the routes, and whether an exception is
caught. -/
structure Copy where
  setUrl : JsString
  getUrl : JsString
  /-- the other routes that read a body, which leave the values alone -/
  bodyUrls : List JsString
  catches : Bool

def metadata : Copy where
  setUrl := js "/set"
  getUrl := js "/get/"
  bodyUrls := [js "/generate", js "/verify"]
  catches := true

def storage : Copy where
  setUrl := js "/kv/set"
  getUrl := js "/kv/get/"
  bodyUrls := [js "/cas/store", js "/cas/verify"]
  catches := false

/-- `{ key, value }` -/
def entry (key : Json) (value : Option Json) : Json :=
  .obj ([(js "key", key)] ++ (value.map fun v => (js "value", v)).toList)

/-- `POST /set`, once the body is parsed -/
def set (copy : Copy) (engine : Engine) (store : ProtoObject) (payload : Option Json) :
    ProtoObject × Option Response :=
  match (member payload "key").filter truthy with
  | none => (store, some (.error 400 "Missing key"))
  | some key =>
    match engine.propertyKey (some key) with
    | .ok name =>
      (store.assign name (member payload "value"),
        some { status := 200, body := entry key (member payload "value") })
    | .error _ => (store, if copy.catches then some (.error 400 "Invalid request") else none)

/-- The answer to `GET /get/<key>` from what is found. -/
def answer (key : JsString) : Option (Option Json) → Response
  | some value => { status := 200, body := entry (.str key) value }
  | none => .error 404 "Not found"

variable (copy : Copy) (engine : Engine) (node : NodeSign) (coerce : Coercions)

/-- The two routes; `none` for the other ones. -/
def handle (ctx : Context) (store : ProtoObject) (req : Request) :
    Option (ProtoObject × Option Response) :=
  if req.method = .post ∧ req.url = copy.setUrl then
    match parseRequestBodyWithCrypto node coerce ctx req.body with
    | .error _ => some (store, none)
    | .ok (.answered response) => some (store, some response)
    | .ok (.payload payload _) => some (set copy engine store payload)
  else if req.method = .get ∧ copy.getUrl.isPrefixOf req.url then
    let key := req.url.drop copy.getUrl.length
    some (store, some (answer key (store.find key)))
  else none

/-- A request to another route is answered, unless it has a body that ends the process. -/
def other (arrival : Arrival) : Option Unit :=
  if arrival.req.method = .post ∧ copy.bodyUrls.contains arrival.req.url = true then
    (parseRequestBodyWithCrypto node coerce arrival.ctx arrival.req.body).toOption.map fun _ => ()
  else some ()

/-- The server, for a request and what it knows when that comes.  What another route
answers is left out. -/
def serve (store : ProtoObject) (arrival : Arrival) : ProtoObject × Option (Option Response) :=
  match handle copy engine node coerce arrival.ctx store arrival.req with
  | some (store, response) => (store, response.map some)
  | none => (store, (other copy node coerce arrival).map fun _ => none)

/-- The key that is to be set cannot be made a text. -/
def BadKey (engine : Engine) (payload : Option Json) : Prop :=
  ∃ key e, (member payload "key").filter truthy = some key ∧
    engine.propertyKey (some key) = .error e

/-- A request ends the process if it has a body that does, or sets a key that cannot be
made a text where nobody catches the exception. -/
def EndsProcess (arrival : Arrival) : Prop :=
  arrival.req.method = .post ∧
    ((arrival.req.url = copy.setUrl ∨ arrival.req.url ∈ copy.bodyUrls) ∧
        Fatal node coerce arrival.ctx arrival.req.body ∨
      arrival.req.url = copy.setUrl ∧ copy.catches = false ∧ ∃ payload crypto,
        parseRequestBodyWithCrypto node coerce arrival.ctx arrival.req.body
          = .ok (.payload payload crypto) ∧ BadKey engine payload)

/-! ## What is set -/

/-- What a payload sets. -/
def assignment (engine : Engine) (payload : Option Json) : Option (JsString × Option Json) :=
  ((member payload "key").filter truthy).bind fun key =>
    (engine.propertyKey (some key)).toOption.map fun name => (name, member payload "value")

/-- What a request sets. -/
def put (arrival : Arrival) : Option (JsString × Option Json) :=
  if arrival.req.method = .post ∧ arrival.req.url = copy.setUrl then
    match parseRequestBodyWithCrypto node coerce arrival.ctx arrival.req.body with
    | .ok (.payload payload _) => assignment engine payload
    | _ => none
  else none

/-- The store after a request. -/
def after (store : ProtoObject) (arrival : Arrival) : ProtoObject :=
  (serve copy engine node coerce store arrival).1

variable {copy engine node coerce}

theorem set_fst (copy : Copy) (engine : Engine) (store : ProtoObject) (payload : Option Json) :
    (set copy engine store payload).1 = store.assignAll (assignment engine payload).toList := by
  unfold set assignment
  cases (member payload "key").filter truthy with
  | none => rfl
  | some key =>
    rw [Option.bind_some]
    dsimp only
    cases engine.propertyKey (some key) <;> rfl

theorem after_eq (store : ProtoObject) (arrival : Arrival) :
    after copy engine node coerce store arrival
      = store.assignAll (put copy engine node coerce arrival).toList := by
  unfold after serve handle put
  by_cases hset : arrival.req.method = .post ∧ arrival.req.url = copy.setUrl
  · rw [if_pos hset, if_pos hset]
    cases parseRequestBodyWithCrypto node coerce arrival.ctx arrival.req.body with
    | error e => rfl
    | ok parsed =>
      cases parsed with
      | answered response => rfl
      | payload payload crypto => exact set_fst copy engine store payload
  · rw [if_neg hset, if_neg hset]
    split_ifs <;> rfl

theorem foldl_after (arrivals : List Arrival) (store : ProtoObject) :
    arrivals.foldl (after copy engine node coerce) store
      = store.assignAll (arrivals.filterMap (put copy engine node coerce)) := by
  induction arrivals generalizing store with
  | nil => rfl
  | cons arrival arrivals ih =>
    rw [List.foldl_cons, ih, after_eq, List.filterMap_cons]
    cases put copy engine node coerce arrival <;> rfl

theorem handle_get (ctx : Context) (store : ProtoObject) (key : JsString) (body : Body) :
    handle copy engine node coerce ctx store
        { method := .get, url := copy.getUrl ++ key, body }
      = some (store, some (answer key (store.find key))) := by
  have hprefix : copy.getUrl.isPrefixOf (copy.getUrl ++ key) = true :=
    List.isPrefixOf_iff_prefix.mpr (List.prefix_append _ _)
  unfold handle
  rw [if_neg (fun h => nomatch h.1), if_pos ⟨rfl, hprefix⟩]
  dsimp only
  rw [List.drop_left]

theorem set_eq_none_iff (copy : Copy) (store : ProtoObject) (payload : Option Json) :
    (set copy engine store payload).2 = none ↔ copy.catches = false ∧ BadKey engine payload := by
  unfold set BadKey
  cases hkey : (member payload "key").filter truthy with
  | none =>
    refine iff_of_false nofun fun h => ?_
    obtain ⟨-, key, e, hkey', -⟩ := h
    cases hkey'
  | some key =>
    dsimp only
    cases hname : engine.propertyKey (some key) with
    | ok name =>
      refine iff_of_false nofun fun h => ?_
      obtain ⟨-, key', e, hkey', hname'⟩ := h
      obtain rfl := Option.some.inj hkey'
      cases hname.symm.trans hname'
    | error e =>
      have hbad : ∃ key' e', some key = some key' ∧
          engine.propertyKey (some key') = .error e' := ⟨key, e, rfl, hname⟩
      rw [and_iff_left hbad]
      cases copy.catches <;> simp

theorem other_eq_none_iff {arrival : Arrival} :
    other copy node coerce arrival = none ↔ arrival.req.method = .post ∧
      arrival.req.url ∈ copy.bodyUrls ∧ Fatal node coerce arrival.ctx arrival.req.body := by
  unfold other Fatal
  by_cases h : arrival.req.method = .post ∧ copy.bodyUrls.contains arrival.req.url = true
  · rw [if_pos h, Option.map_eq_none_iff, and_iff_right h.1,
      and_iff_right (List.contains_iff_mem.mp h.2)]
    cases parseRequestBodyWithCrypto node coerce arrival.ctx arrival.req.body <;>
      simp [Except.toOption]
  · rw [if_neg h]
    exact iff_of_false (Option.some_ne_none _) fun h' =>
      h ⟨h'.1, List.contains_iff_mem.mpr h'.2.1⟩

theorem serve_eq_none_iff (store : ProtoObject) (arrival : Arrival) :
    (serve copy engine node coerce store arrival).2 = none ↔
      EndsProcess copy engine node coerce arrival := by
  unfold serve handle EndsProcess
  by_cases hset : arrival.req.method = .post ∧ arrival.req.url = copy.setUrl
  · obtain ⟨hpost, hurl⟩ := hset
    rw [if_pos ⟨hpost, hurl⟩]
    unfold Fatal
    cases parseRequestBodyWithCrypto node coerce arrival.ctx arrival.req.body with
    | error e => simp [hpost, hurl]
    | ok parsed =>
      cases parsed with
      | answered response => simp
      | payload payload crypto =>
        have hnone := @set_eq_none_iff engine copy store payload
        simp [hpost, hurl, hnone]
  · rw [if_neg hset]
    split_ifs with hget
    · refine iff_of_false nofun fun h => ?_
      cases hget.1.symm.trans h.1
    · dsimp only
      rw [Option.map_eq_none_iff, other_eq_none_iff]
      refine and_congr_right fun hpost => ?_
      have hurl : arrival.req.url ≠ copy.setUrl := fun hurl => hset ⟨hpost, hurl⟩
      simp [hurl]

/-- **What is answered.**  Unless one of the requests has ended the process, a key has the
value that has been set for it last.  Without one it has what the values that have been set
for `__proto__` let it inherit. -/
theorem answered_last (arrivals : List Arrival) {key : JsString} (hkey : key ≠ js "__proto__")
    (ctx : Context) (body : Body) (response : Option Response) :
    Process.answer (serve copy engine node coerce)
        (Process.after (serve copy engine node coerce) (some .empty) arrivals)
        { ctx, req := { method := .get, url := copy.getUrl ++ key, body } } = some response ↔
      (∀ arrival ∈ arrivals, ¬ EndsProcess copy engine node coerce arrival) ∧
        response = some (answer key
          ((lastUnder key (arrivals.filterMap (put copy engine node coerce))).or
            (((protos (arrivals.filterMap (put copy engine node coerce))).foldl
              Prototype.next .standard).find key))) := by
  have hends := @serve_eq_none_iff copy engine node coerce
  by_cases hlives : ∀ arrival ∈ arrivals, ¬ EndsProcess copy engine node coerce arrival
  · have hfound : (serve copy engine node coerce
        (arrivals.foldl (after copy engine node coerce) .empty)
        { ctx, req := { method := .get, url := copy.getUrl ++ key, body } }).2
          = some (some (answer key
            ((arrivals.foldl (after copy engine node coerce) .empty).find key))) := by
      unfold serve
      rw [handle_get]
      rfl
    rw [Process.after_of_not_ends hends hlives, Process.answer_some, and_iff_right hlives]
    refine (Eq.congr_left hfound).trans ?_
    rw [foldl_after, find_assignAll hkey, Option.some.injEq, eq_comm]
  · refine iff_of_false (fun h => ?_) fun h => hlives h.1
    push Not at hlives
    rw [(Process.after_eq_none_iff hends).mpr hlives] at h
    cases h

/-- `POST /set` to the metadata service -/
def knownSet (key : String) (value : Json) : Arrival where
  ctx := { knownNodes := .empty, clock := 0 }
  req := { method := .post, url := js "/set"
           body := .json (.obj [(js "key", .str (js key)), (js "value", value)]) }

theorem not_fatal_knownSet (key : String) (value : Json) :
    ¬ Fatal node coerce (knownSet key value).ctx (knownSet key value).req.body :=
  not_fatal_plain nofun

/-- A member of what is set for `__proto__` is found as a key. -/
theorem answered_last_known :
    Process.answer (serve metadata .plain (Tabulated.sign [] []) SignedPacket.knownCoercions)
        (Process.after (serve metadata .plain (Tabulated.sign [] []) SignedPacket.knownCoercions)
          (some .empty) [knownSet "__proto__" (.obj [(js "a", .bool true)]), knownSet "b" .null])
        { ctx := { knownNodes := .empty, clock := 0 }
          req := { method := .get, url := metadata.getUrl ++ js "a", body := .empty } }
      = some (some { status := 200, body := entry (.str (js "a")) (some (.bool true)) }) := by
  refine (answered_last _ (by decide) _ _ _).mpr ⟨fun arrival harrival hend => ?_, rfl⟩
  simp only [List.mem_cons, List.not_mem_nil, or_false] at harrival
  obtain ⟨-, hfatal | hcatches⟩ := hend
  · rcases harrival with rfl | rfl
    · exact not_fatal_knownSet _ _ hfatal.2
    · exact not_fatal_knownSet _ _ hfatal.2
  · cases hcatches.2.1

/-! ## The two services -/

/-- A request to one of the routes. -/
inductive Call where
  | set (body : Body)
  | get (key : JsString)

def Copy.request (copy : Copy) : Call → Request
  | .set body => { method := .post, url := copy.setUrl, body }
  | .get key => { method := .get, url := copy.getUrl ++ key, body := .empty }

/-- What a service does with a request. -/
def respond (copy : Copy) (engine : Engine) (node : NodeSign) (coerce : Coercions)
    (store : ProtoObject) (call : Context × Call) : ProtoObject × Option Response :=
  (handle copy engine node coerce call.1 store (copy.request call.2)).getD (store, none)

/-- The request sets a key that cannot be made a text. -/
def SetsBadKey (engine : Engine) (node : NodeSign) (coerce : Coercions)
    (call : Context × Call) : Prop :=
  ∃ body payload crypto, call.2 = .set body ∧
    parseRequestBodyWithCrypto node coerce call.1 body = .ok (.payload payload crypto) ∧
    BadKey engine payload

/-- The request has a body that ends both processes. -/
def EndsBoth (node : NodeSign) (coerce : Coercions) (call : Context × Call) : Prop :=
  ∃ body, call.2 = .set body ∧ Fatal node coerce call.1 body

theorem set_alike (store : ProtoObject) (payload : Option Json) :
    (set metadata engine store payload).1 = (set storage engine store payload).1 ∧
      ((set metadata engine store payload).2 = (set storage engine store payload).2 ↔
        ¬ BadKey engine payload) := by
  refine ⟨by rw [set_fst, set_fst], ?_⟩
  unfold set BadKey
  cases hkey : (member payload "key").filter truthy with
  | none => simp
  | some key =>
    dsimp only
    cases hname : engine.propertyKey (some key) with
    | ok name =>
      refine iff_of_true rfl fun h => ?_
      obtain ⟨key', e, hkey', hname'⟩ := h
      obtain rfl := Option.some.inj hkey'
      cases hname.symm.trans hname'
    | error e => exact iff_of_false (by simp [metadata, storage]) (not_not.mpr ⟨key, e, rfl, hname⟩)

theorem respond_set (store : ProtoObject) (ctx : Context) (body : Body) :
    respond copy engine node coerce store (ctx, .set body)
      = match parseRequestBodyWithCrypto node coerce ctx body with
        | .error _ => (store, none)
        | .ok (.answered response) => (store, some response)
        | .ok (.payload payload _) => set copy engine store payload := by
  unfold respond handle Copy.request
  rw [if_pos ⟨rfl, rfl⟩]
  cases parseRequestBodyWithCrypto node coerce ctx body with
  | error e => rfl
  | ok parsed => cases parsed <;> rfl

theorem respond_get (store : ProtoObject) (ctx : Context) (key : JsString) :
    respond copy engine node coerce store (ctx, .get key)
      = (store, some (answer key (store.find key))) := by
  unfold respond Copy.request
  rw [handle_get]
  rfl

theorem not_setsBadKey {ctx : Context} {body : Body}
    (h : ∀ payload crypto, parseRequestBodyWithCrypto node coerce ctx body
      = .ok (.payload payload crypto) → ¬ BadKey engine payload) :
    ¬ SetsBadKey engine node coerce (ctx, .set body) := by
  intro hbad
  obtain ⟨body', payload, crypto, hcall, hparse, hkey⟩ := hbad
  obtain rfl := Call.set.inj hcall
  exact h payload crypto hparse hkey

/-- The services keep the same values, and answer alike where the key is good. -/
theorem respond_alike (store : ProtoObject) (call : Context × Call) :
    (respond metadata engine node coerce store call).1
        = (respond storage engine node coerce store call).1 ∧
      ((respond metadata engine node coerce store call).2
          = (respond storage engine node coerce store call).2 ↔
        ¬ SetsBadKey engine node coerce call) := by
  obtain ⟨ctx, call⟩ := call
  cases call with
  | get key =>
    rw [respond_get, respond_get]
    refine ⟨rfl, iff_of_true rfl fun h => ?_⟩
    obtain ⟨body, payload, crypto, hcall, -⟩ := h
    cases hcall
  | set body =>
    rw [respond_set, respond_set]
    cases hparse : parseRequestBodyWithCrypto node coerce ctx body with
    | error e =>
      refine ⟨rfl, iff_of_true rfl (not_setsBadKey fun payload crypto h => ?_)⟩
      cases hparse.symm.trans h
    | ok parsed =>
      cases parsed with
      | answered response =>
        refine ⟨rfl, iff_of_true rfl (not_setsBadKey fun payload crypto h => ?_)⟩
        cases hparse.symm.trans h
      | payload payload crypto =>
        obtain ⟨hstore, hanswer⟩ := @set_alike engine store payload
        refine ⟨hstore, hanswer.trans (not_congr ⟨fun h => ?_, fun h => ?_⟩)⟩
        · exact ⟨body, payload, crypto, rfl, hparse, h⟩
        · by_contra hgood
          refine not_setsBadKey (fun payload' crypto' hparse' => ?_) h
          cases hparse.symm.trans hparse'
          exact hgood

theorem respond_eq_none_iff (copy : Copy) (store : ProtoObject) (call : Context × Call) :
    (respond copy engine node coerce store call).2 = none ↔
      EndsBoth node coerce call ∨
        copy.catches = false ∧ SetsBadKey engine node coerce call := by
  obtain ⟨ctx, call⟩ := call
  cases call with
  | get key =>
    rw [respond_get]
    refine iff_of_false nofun fun h => ?_
    obtain ⟨body, hcall, -⟩ | ⟨-, body, payload, crypto, hcall, -⟩ := h <;> cases hcall
  | set body =>
    rw [respond_set]
    unfold EndsBoth SetsBadKey Fatal
    cases hparse : parseRequestBodyWithCrypto node coerce ctx body with
    | error e => simp [hparse]
    | ok parsed =>
      cases parsed with
      | answered response => simp [hparse]
      | payload payload crypto =>
        refine (set_eq_none_iff copy store payload).trans ⟨fun h => ?_, fun h => ?_⟩
        · exact .inr ⟨h.1, body, payload, crypto, rfl, hparse, h.2⟩
        · obtain ⟨body', hcall, e, he⟩ | ⟨hcatches, body', payload', crypto', hcall, he, hbad⟩ := h
          · obtain rfl := Call.set.inj hcall
            cases hparse.symm.trans he
          · obtain rfl := Call.set.inj hcall
            cases hparse.symm.trans he
            exact ⟨hcatches, hbad⟩

theorem respond_metadata_eq_none_iff (store : ProtoObject) (call : Context × Call) :
    (respond metadata engine node coerce store call).2 = none ↔ EndsBoth node coerce call := by
  rw [respond_eq_none_iff]
  simp [metadata]

theorem respond_storage_eq_none_iff (store : ProtoObject) (call : Context × Call) :
    (respond storage engine node coerce store call).2 = none ↔
      EndsBoth node coerce call ∨ SetsBadKey engine node coerce call := by
  rw [respond_eq_none_iff]
  simp [storage]

/-- A body that ends both processes has no payload to set. -/
theorem not_setsBadKey_of_endsBoth {call : Context × Call} (h : EndsBoth node coerce call) :
    ¬ SetsBadKey engine node coerce call := by
  obtain ⟨ctx, call⟩ := call
  obtain ⟨body, rfl, e, he⟩ := h
  refine not_setsBadKey fun payload crypto hparse => ?_
  cases he.symm.trans hparse

/-- What a service answers to requests, one after the other. -/
def answers (copy : Copy) (engine : Engine) (node : NodeSign) (coerce : Coercions)
    (store : ProtoObject) (calls : List (Context × Call)) : List (Option Response) :=
  Process.answers (respond copy engine node coerce) (some store) calls

/-- The answers are the same, exactly as long as no key that cannot be made a text is set
before a body has ended both processes. -/
theorem answers_eq_iff (store : ProtoObject) (calls : List (Context × Call)) :
    answers metadata engine node coerce store calls
        = answers storage engine node coerce store calls ↔
      ∀ before call later, calls = before ++ call :: later →
        SetsBadKey engine node coerce call → ∃ fatal ∈ before, EndsBoth node coerce fatal := by
  unfold answers
  induction calls generalizing store with
  | nil =>
    refine iff_of_true rfl fun before call later h => ?_
    cases before <;> cases h
  | cons call calls ih =>
    obtain ⟨hstore, hanswer⟩ := @respond_alike engine node coerce store call
    by_cases hboth : EndsBoth node coerce call
    · -- both processes end here
      rw [Process.answers_of_ends respond_metadata_eq_none_iff hboth,
        Process.answers_of_ends respond_storage_eq_none_iff (.inl hboth)]
      refine iff_of_true rfl fun before bad later h hbad => ?_
      cases before with
      | nil =>
        obtain ⟨rfl, -⟩ := List.cons.inj h
        exact absurd hbad (not_setsBadKey_of_endsBoth hboth)
      | cons first before =>
        obtain ⟨rfl, -⟩ := List.cons.inj h
        exact ⟨_, List.mem_cons_self, hboth⟩
    by_cases hbad : SetsBadKey engine node coerce call
    · -- only one of them answers
      refine iff_of_false (fun h => ?_) fun h => ?_
      · exact hanswer.mp (List.cons.inj h).1 hbad
      · obtain ⟨fatal, hfatal, -⟩ := h [] call calls rfl hbad
        cases hfatal
    · rw [Process.answers, Process.answers, Process.answer_some, Process.answer_some,
        Process.next_of_not_ends respond_metadata_eq_none_iff hboth,
        Process.next_of_not_ends respond_storage_eq_none_iff (not_or.mpr ⟨hboth, hbad⟩),
        List.cons.injEq, hanswer, and_iff_right hbad, hstore, ih]
      constructor
      · intro h before bad later heq hsets
        cases before with
        | nil =>
          obtain ⟨rfl, -⟩ := List.cons.inj heq
          exact absurd hsets hbad
        | cons first before =>
          obtain ⟨rfl, hrest⟩ := List.cons.inj heq
          obtain ⟨fatal, hfatal, hends⟩ := h before bad later hrest hsets
          exact ⟨fatal, List.mem_cons_of_mem _ hfatal, hends⟩
      · intro h before bad later heq hsets
        obtain ⟨fatal, hfatal, hends⟩ := h (call :: before) bad later (congrArg _ heq) hsets
        rcases List.mem_cons.mp hfatal with rfl | hfatal
        · exact absurd hends hboth
        · exact ⟨fatal, hfatal, hends⟩

/-- **Where the services differ.**  They answer alike to any requests, one after the other,
exactly as long as no key that cannot be made a text is set before a body has ended both.
The first such key gets no answer from the storage service, and no later request does. -/
theorem answered_alike_iff (calls : List (Context × Call)) :
    (answers metadata engine node coerce .empty calls
        = answers storage engine node coerce .empty calls ↔
      ∀ before call later, calls = before ++ call :: later →
        SetsBadKey engine node coerce call → ∃ fatal ∈ before, EndsBoth node coerce fatal) ∧
    ∀ before call later, calls = before ++ call :: later →
      SetsBadKey engine node coerce call → (∀ c ∈ before, ¬ SetsBadKey engine node coerce c) →
        answers storage engine node coerce .empty calls
          = answers metadata engine node coerce .empty before
            ++ List.replicate (later.length + 1) none := by
  refine ⟨answers_eq_iff .empty calls, fun before call later hcalls hbad hgood => ?_⟩
  have hbefore : answers metadata engine node coerce .empty before
      = answers storage engine node coerce .empty before := by
    refine (answers_eq_iff .empty before).mpr fun first bad rest heq hsets => ?_
    exact absurd hsets (hgood bad (heq ▸ List.mem_append_right _ List.mem_cons_self))
  rw [hcalls, hbefore, answers, Process.answers_append,
    Process.answers_of_ends respond_storage_eq_none_iff (.inr hbad)]
  rfl

end KeyValue

/-! ## The metadata service -/

namespace Metadata

/-- `POST /generate` -/
def generate (hash : NodeHash) (payload : Option Json) : Response :=
  match generateMetadataProof hash (member payload "metadata") with
  | .ok proof => { status := 200, body := .obj [(js "proof_id", .str proof)] }
  | .error _ => .error 400 "Invalid request"

/-- `POST /verify` -/
def verify (hash : NodeHash) (payload : Option Json) : Response :=
  match verifyMetadataProof hash (member payload "metadata") (member payload "proof_id") with
  | .ok valid => { status := 200, body := .obj [(js "valid", .bool valid)] }
  | .error _ => .error 400 "Invalid request"

/-- The server of the metadata service. -/
def handle (hash : NodeHash) (engine : Engine) (node : NodeSign) (coerce : Coercions)
    (ctx : Context) (store : ProtoObject) (req : Request) : ProtoObject × Option Response :=
  if req.method = .get ∧ req.url = js "/health" then
    (store, some { status := 200, body := .obj [(js "status", .str (js "ok"))] })
  else
    match KeyValue.handle KeyValue.metadata engine node coerce ctx store req with
    | some result => result
    | none =>
      if req.method = .post ∧ req.url = js "/generate" then
        withBody node coerce ctx store req.body fun payload => (store, generate hash payload)
      else if req.method = .post ∧ req.url = js "/verify" then
        withBody node coerce ctx store req.body fun payload => (store, verify hash payload)
      else (store, some (.error 404 "Not found"))

end Metadata

end NewZone.Services
