import NewZone.Services.Forward
import NewZone.Services.Gateway

/-!
# The two ways to a service

The gateway passes a request on to the service that the beginning of the URL
names, or, at `/route`, to the routing service, which passes on the body that is
wrapped in the message.  On both ways a body that is falsy is taken for a missing
one: the gateway leaves it out, and the routing service puts `{}` in its place.
So the service gets the same request exactly where the body is truthy.
-/

namespace NewZone.Services.Routing

open NewZone.Js NewZone.Js.Json NewZone.ExceptBind NewZone.Crypto
open NewZone.Crypto.SignedPacket (Coercions)
open NewZone.Crypto.RoutingPacket (routingVersion)

/-! ## Ports -/

def PORTS.identity : ℕ := 3000
def PORTS.metadata : ℕ := 3001
def PORTS.consensus : ℕ := 3002
def PORTS.storage : ℕ := 3003
def PORTS.gateway : ℕ := 3004
def PORTS.routing : ℕ := 3005
def PORTS.event : ℕ := 3008

/-! ## Requests -/

/-- A request on its way to the server at a port. -/
structure Sent where
  port : ℕ
  req : Request

/-- `http.request` throws when the path has a unit outside of `\u0021-\u00ff`. -/
def isPathUnit (u : UInt16) : Bool := 0x21 ≤ u.toNat && u.toNat ≤ 0xFF

/-- `http.request` -/
def httpRequest (port : ℕ) (path : JsString) (method : Method) (body : Body) :
    Except String Sent :=
  if path.all isPathUnit then
    .ok { port, req := { method, url := if path = [] then js "/" else path, body } }
  else .error "Request path contains unescaped characters"

/-- What differs between versions of the parser of the HTTP server. -/
structure HttpParser where
  /-- a target may have units from U+0080 on -/
  takesLatin : Bool
  /-- the targets that are taken beside paths, such as `*` or `http://localhost/` -/
  takesOther : JsString → Bool

/-- A unit that a target may have. -/
def HttpParser.takesUnit (parser : HttpParser) (u : UInt16) : Bool :=
  (0x21 ≤ u.toNat && u.toNat ≤ 0x7E) ||
    (parser.takesLatin && 0x80 ≤ u.toNat && u.toNat ≤ 0xFF)

/-- The server takes the URL. -/
def Sent.Arrives (parser : HttpParser) (sent : Sent) : Prop :=
  sent.req.url.all parser.takesUnit = true ∧
    (sent.req.url.head? = some 0x2F ∨ parser.takesOther sent.req.url = true)

/-- What a server does with a request: it answers, or it asks another server, or an
exception ends its process.  What a service does is left to it. -/
inductive Reaction where
  | answers (response : Response)
  | asks (sent : Sent)
  | ends
  | serves

/-- What is written for a body: nothing, if it is falsy. -/
def bodyOf (body : Option Json) : Body :=
  match body.filter truthy with
  | some v => .json v
  | none => .empty

/-! ## The gateway -/

/-- `proxyRequest`, without a signature -/
def proxyRequest (port : ℕ) (path : JsString) (method : Method) (body : Option Json) :
    Except String Sent :=
  httpRequest port path method (bodyOf body)

def ROUTES : List (JsString × ℕ) :=
  [(js "/identity", PORTS.identity), (js "/metadata", PORTS.metadata),
    (js "/consensus", PORTS.consensus), (js "/storage", PORTS.storage)]

/-- The proxy, once the route is found. -/
def proxy (P : Gateway.Platform) (ctx : Context) (port : ℕ) (path : JsString)
    (method : Method) (body : Body) : Reaction :=
  let ask (parsed : Option Json) : Reaction :=
    match proxyRequest port path method parsed with
    | .ok sent => .asks sent
    | .error _ => .answers (.error 500 "Gateway error")
  match body with
  | .empty => ask none
  | .invalid => .answers (.error 400 "Invalid JSON")
  | .json parsed =>
    if field parsed "version" = some (.str routingVersion) then
      match verifyPacket P.node P.coerce ctx parsed with
      | .ok (.accepted _ payload) => ask payload
      | .ok (.rejected reason) => .answers (.error 403 reason)
      | .error _ => .ends
    else ask (some parsed)

/-- `POST /route`, the passthrough -/
def passthrough : Body → Reaction
  | .json parsed =>
    match proxyRequest PORTS.routing (js "/route") .post (some parsed) with
    | .ok sent => .asks sent
    | .error _ => .answers (.error 400 "Invalid request")
  | _ => .answers (.error 400 "Invalid request")

/-- The server of the gateway. -/
def handleGateway (P : Gateway.Platform) (ctx : Context) (req : Request) : Reaction :=
  if req.method = .get ∧ req.url = js "/health" then
    .answers { status := 200, body := .obj [(js "status", .str (js "ok"))] }
  else if req.method = .post ∧ req.url = js "/verify" then
    .answers (Gateway.verify P ctx req.body)
  else if req.method = .post ∧ req.url = js "/route" then passthrough req.body
  else
    match ROUTES.find? fun route => route.1.isPrefixOf req.url with
    | none => .answers (.error 404 "Unknown route")
    | some (route, port) => proxy P ctx port (req.url.drop route.length) req.method req.body

/-! ## The routing service -/

/-- The routes, by their targets. -/
def routes : PlainObject ℕ where
  members :=
    [(js "identity", PORTS.identity), (js "metadata", PORTS.metadata),
      (js "consensus", PORTS.consensus), (js "storage", PORTS.storage),
      (js "event", PORTS.event)]
  nodup := by
    show [js "identity", js "metadata", js "consensus", js "storage", js "event"].Nodup
    decide
  ordered := by
    show [js "identity", js "metadata", js "consensus", js "storage", js "event"].Pairwise _
    decide

variable (engine : Engine)

/-- `resolveRoute`.  What every object inherits has neither a host nor a port, so that
`http.request` takes the defaults. -/
def resolveRoute (target : Option Json) : Except String (Option ℕ) := do
  match routes.lookup (← engine.propertyKey target) with
  | .own port => return some port
  | .inherited => return some 80
  | .missing => return none

/-- A letter in upper case. -/
def upperUnit (u : UInt16) : UInt16 :=
  if 0x61 ≤ u.toNat ∧ u.toNat ≤ 0x7A then u - 0x20 else u

/-- The units of an HTTP token. -/
def isTokenUnit (u : UInt16) : Bool :=
  isDigitUnit u || (0x41 ≤ (upperUnit u).toNat && (upperUnit u).toNat ≤ 0x5A)
    || (js "!#$%&'*+-.^_`|~").contains u

/-- The option `method`.  The methods that no service has a route for are not told apart. -/
def methodOf : Json → Except String Method
  | .str s =>
    if s.all isTokenUnit then
      .ok (if s.map upperUnit = js "POST" then .post
        else if s.map upperUnit = js "GET" then .get else .other)
    else .error "Method must be a valid HTTP token"
  | _ => .error "The options.method property must be of type string"

/-- The option `path`. -/
def pathOf (path : Option Json) : Except String JsString :=
  match path.filter truthy with
  | some v => engine.propertyKey (some v)
  | none => .ok []

/-- The request of `forward`. -/
def forward (port : ℕ) (path : Option Json) (method : Json) (body : Json) :
    Except String Sent := do
  let path ← pathOf engine path
  httpRequest port path (← methodOf method) (bodyOf (some body))

/-- `POST /route`, once the body is parsed -/
def routePayload (payload : Option Json) : Except String Reaction := do
  let some payload := payload | throw "Cannot read properties of undefined (reading 'target')"
  let target := ((← property payload "target").filter truthy).or (field payload "service")
  let path := field payload "path"
  let method := ((field payload "method").filter truthy).getD (.str (js "POST"))
  let inner := ((field payload "body").filter truthy).getD (.obj [])
  match ← resolveRoute engine target with
  | none => return .answers (.error 400 "Unknown target")
  | some port => return .asks (← forward engine port path method inner)

/-- The server of the routing service. -/
def handleRouting (node : NodeSign) (coerce : Coercions) (ctx : Context) (req : Request) :
    Reaction :=
  if req.method = .get ∧ req.url = js "/health" then
    .answers { status := 200, body := .obj [(js "status", .str (js "ok"))] }
  else if req.method = .post ∧ req.url = js "/route" then
    match parseRequestBodyWithCrypto node coerce ctx req.body with
    | .error _ => .ends
    | .ok (.answered response) => .answers response
    | .ok (.payload payload _) =>
      match routePayload engine payload with
      | .ok reaction => reaction
      | .error _ => .answers (.error 400 "Invalid request")
  else .answers (.error 404 "Not found")

/-! ## The cluster -/

/-- The servers that pass requests on, each with what it knows. -/
structure Cluster where
  P : Gateway.Platform
  parser : HttpParser
  /-- the text of the error when a connection is closed without an answer -/
  hangup : JsString
  gateway : Context
  routing : Context

/-- What the server at the port does.  The services behind are not followed. -/
def Cluster.reaction (c : Cluster) (sent : Sent) : Reaction :=
  if sent.port = PORTS.gateway then handleGateway c.P c.gateway sent.req
  else if sent.port = PORTS.routing then
    handleRouting c.P.engine c.P.node c.P.coerce c.routing sent.req
  else .serves

/-- One request leads to another, from server to server. -/
inductive Cluster.Leads (c : Cluster) : Sent → Sent → Prop where
  | arrives {s : Sent} (h : s.Arrives c.parser) : c.Leads s s
  | asks {s t u : Sent} (h : s.Arrives c.parser) (hask : c.reaction s = .asks t)
    (hlead : c.Leads t u) : c.Leads s u

/-- The service at the port gets the request, when a client has sent the first one. -/
def Cluster.Sees (c : Cluster) (first : Except String Sent) (port : ℕ) (req : Request) : Prop :=
  ∃ sent, first = .ok sent ∧ c.Leads sent { port, req }

/-- The services that both ways lead to. -/
inductive Target where
  | identity
  | metadata
  | consensus
  | storage
  deriving DecidableEq

def Target.text : Target → JsString
  | identity => js "identity"
  | metadata => js "metadata"
  | consensus => js "consensus"
  | storage => js "storage"

def Target.port : Target → ℕ
  | identity => PORTS.identity
  | metadata => PORTS.metadata
  | consensus => PORTS.consensus
  | storage => PORTS.storage

/-- A client posts the body to the route of the target. -/
def direct (target : Target) (path : JsString) (b : Json) : Except String Sent :=
  httpRequest PORTS.gateway (js "/" ++ target.text ++ path) .post (.json b)

/-- `{ target, path, method: "POST", body }` -/
def message (target : Target) (path : JsString) (b : Json) : Json :=
  .obj [(js "target", .str target.text), (js "path", .str path),
    (js "method", .str (js "POST")), (js "body", b)]

/-- A client posts the message to `/route`. -/
def routed (target : Target) (path : JsString) (b : Json) : Except String Sent :=
  httpRequest PORTS.gateway (js "/route") .post (.json (message target path b))

/-- The path can be asked for. -/
def Requestable (parser : HttpParser) (path : JsString) : Prop :=
  path.all parser.takesUnit = true

/-! ## What the servers ask -/

variable {c : Cluster} {target : Target} {path : JsString} {b : Json}

theorem httpRequest_eq_ok {port : ℕ} {method : Method} {body : Body} {sent : Sent}
    (hne : path ≠ []) :
    httpRequest port path method body = .ok sent ↔
      path.all isPathUnit = true ∧ sent = { port, req := { method, url := path, body } } := by
  unfold httpRequest
  rw [if_neg hne]
  split_ifs with h
  · simp [h, eq_comm]
  · simp [h]

theorem gateway_ne_port : PORTS.gateway ≠ target.port := by
  cases target <;> decide

theorem routing_ne_port : PORTS.routing ≠ target.port := by
  cases target <;> decide

/-- The URL of a route is cut off. -/
theorem handleGateway_route (P : Gateway.Platform) (ctx : Context) (body : Body) :
    handleGateway P ctx { method := .post, url := js "/" ++ target.text ++ path, body }
      = proxy P ctx target.port path .post body := by
  cases target <;> rfl

theorem proxy_plain {P : Gateway.Platform} {ctx : Context} {port : ℕ} {method : Method}
    (hplain : field b "version" ≠ some (.str routingVersion)) :
    proxy P ctx port path method (.json b)
      = match httpRequest port path method (bodyOf (some b)) with
        | .ok sent => .asks sent
        | .error _ => .answers (.error 500 "Gateway error") := by
  unfold proxy
  dsimp only
  rw [if_neg hplain]
  rfl

theorem handleGateway_passthrough (P : Gateway.Platform) (ctx : Context) :
    handleGateway P ctx
        { method := .post, url := js "/route", body := .json (message target path b) }
      = .asks { port := PORTS.routing
                req := { method := .post, url := js "/route"
                         body := .json (message target path b) } } := by
  rfl

theorem resolveRoute_text (engine : Engine) :
    resolveRoute engine (some (.str target.text)) = .ok (some target.port) := by
  cases target <;> rfl

/-- The body that the routing service takes. -/
def inner (b : Json) : Json := if truthy b then b else .obj []

theorem forward_message (engine : Engine) (hpath : path ≠ []) {port : ℕ} {body : Json}
    (hbody : truthy body = true) :
    forward engine port (some (.str path)) (.str (js "POST")) body
      = httpRequest port path .post (.json body) := by
  have htext : pathOf engine (some (.str path)) = .ok path := by
    cases path with
    | nil => exact absurd rfl hpath
    | cons u rest => rfl
  have hmethod : methodOf (.str (js "POST")) = .ok .post := rfl
  unfold forward bodyOf
  refine (bind_of_ok htext _).trans ((bind_of_ok hmethod _).trans ?_)
  rw [Option.filter_some, if_pos hbody]

theorem truthy_inner (b : Json) : truthy (inner b) = true := by
  unfold inner
  by_cases h : truthy b = true
  · rw [if_pos h]
    exact h
  · rw [if_neg h]
    rfl

/-- The message is passed on to its target. -/
theorem routePayload_message (engine : Engine) (hpath : path ≠ []) :
    routePayload engine (some (message target path b))
      = (httpRequest target.port path .post (.json (inner b))).map .asks := by
  have hproperty : property (message target path b) "target" = .ok (some (.str target.text)) := rfl
  have htarget : ((some (Json.str target.text)).filter truthy).or
      (field (message target path b) "service") = some (.str target.text) := by
    cases target <;> rfl
  have hpathField : field (message target path b) "path" = some (.str path) := rfl
  have hmethod : ((field (message target path b) "method").filter truthy).getD (.str (js "POST"))
      = .str (js "POST") := rfl
  have hinner : ((field (message target path b) "body").filter truthy).getD (.obj [])
      = inner b := by
    show ((some b).filter truthy).getD (.obj []) = _
    unfold inner
    rw [Option.filter_some]
    split_ifs <;> rfl
  unfold routePayload
  refine (bind_of_ok hproperty _).trans ?_
  rw [htarget, hpathField, hmethod, hinner]
  refine (bind_of_ok (resolveRoute_text engine) _).trans ?_
  dsimp only
  rw [forward_message engine hpath (truthy_inner b)]
  cases httpRequest target.port path .post (.json (inner b)) <;> rfl

theorem handleRouting_message (engine : Engine) (node : NodeSign) (coerce : Coercions)
    (ctx : Context) (hpath : path ≠ []) :
    handleRouting engine node coerce ctx
        { method := .post, url := js "/route", body := .json (message target path b) }
      = match httpRequest target.port path .post (.json (inner b)) with
        | .ok sent => .asks sent
        | .error _ => .answers (.error 400 "Invalid request") := by
  have hparse := @parse_plain node coerce ctx (message target path b) nofun
  have hget : ¬ (Method.post = .get ∧ js "/route" = js "/health") := fun h => nomatch h.1
  have hpost : Method.post = .post ∧ js "/route" = js "/route" := ⟨rfl, rfl⟩
  unfold handleRouting
  dsimp only
  rw [if_neg hget, if_pos hpost, hparse]
  dsimp only
  rw [routePayload_message engine hpath]
  cases httpRequest target.port path .post (.json (inner b)) <;> rfl

/-! ## What the service sees -/

theorem leads_iff {s u : Sent} :
    c.Leads s u ↔ s.Arrives c.parser ∧ (s = u ∨ ∃ t, c.reaction s = .asks t ∧ c.Leads t u) := by
  constructor
  · intro h
    cases h with
    | arrives h => exact ⟨h, .inl rfl⟩
    | asks h hask hlead => exact ⟨h, .inr ⟨_, hask, hlead⟩⟩
  · rintro ⟨h, rfl | ⟨t, hask, hlead⟩⟩
    · exact .arrives h
    · exact .asks h hask hlead

/-- Behind the gateway and the routing service, no request leads to another. -/
theorem leads_target_iff {req req' : Request} :
    c.Leads { port := target.port, req } { port := target.port, req := req' } ↔
      Sent.Arrives c.parser { port := target.port, req } ∧ req' = req := by
  have hreaction : c.reaction { port := target.port, req } = .serves := by
    cases target <;> rfl
  rw [leads_iff, hreaction]
  constructor
  · rintro ⟨h, hsame | ⟨t, hask, -⟩⟩
    · exact ⟨h, ((Sent.mk.inj hsame).2).symm⟩
    · cases hask
  · rintro ⟨h, rfl⟩
    exact ⟨h, .inl rfl⟩

theorem arrives_iff {parser : HttpParser} {port : ℕ} {body : Body}
    (hpath : path.head? = some 0x2F) :
    Sent.Arrives parser { port, req := { method := .post, url := path, body } } ↔
      Requestable parser path := and_iff_left (.inl hpath)

/-- What the server takes can be sent. -/
theorem all_isPathUnit {parser : HttpParser} (h : Requestable parser path) :
    path.all isPathUnit = true := by
  refine List.all_eq_true.mpr fun u hu => ?_
  have htaken := List.all_eq_true.mp h u hu
  simp only [HttpParser.takesUnit, isPathUnit, Bool.or_eq_true, Bool.and_eq_true,
    decide_eq_true_eq] at htaken ⊢
  omega

/-- A server that asks for the path leads to the request for it. -/
theorem leads_through {s : Sent} {body : Body} {failed : Response}
    (hpath : path.head? = some 0x2F) (hport : s.port ≠ target.port)
    (hreaction : c.reaction s = match httpRequest target.port path .post body with
      | .ok sent => .asks sent
      | .error _ => .answers failed) {req : Request} :
    c.Leads s { port := target.port, req } ↔
      s.Arrives c.parser ∧ Requestable c.parser path ∧
        req = { method := .post, url := path, body } := by
  have hne : path ≠ [] := by
    rintro rfl
    cases hpath
  rw [leads_iff, hreaction]
  refine and_congr_right fun _ => ?_
  constructor
  · rintro (rfl | ⟨t, hask, hlead⟩)
    · exact absurd rfl hport
    · cases hrequest : httpRequest target.port path .post body with
      | error message =>
        rw [hrequest] at hask
        cases hask
      | ok sent =>
        rw [hrequest] at hask
        obtain rfl := Reaction.asks.inj hask
        obtain ⟨-, rfl⟩ := (httpRequest_eq_ok hne).mp hrequest
        obtain ⟨harrives, rfl⟩ := leads_target_iff.mp hlead
        exact ⟨(arrives_iff hpath).mp harrives, rfl⟩
  · rintro ⟨hrequestable, rfl⟩
    refine .inr ⟨_, ?_, leads_target_iff.mpr ⟨(arrives_iff hpath).mpr hrequestable, rfl⟩⟩
    rw [(httpRequest_eq_ok hne).mpr ⟨all_isPathUnit hrequestable, rfl⟩]

/-- The names of the routes are taken by every version. -/
theorem takesUnit_of_ascii (parser : HttpParser) {u : UInt16}
    (h : (0x21 ≤ u.toNat && u.toNat ≤ 0x7E) = true) : parser.takesUnit u = true := by
  rw [HttpParser.takesUnit, h, Bool.true_or]

theorem requestable_of_ascii (parser : HttpParser)
    (h : path.all (fun u => 0x21 ≤ u.toNat && u.toNat ≤ 0x7E) = true) :
    Requestable parser path :=
  List.all_eq_true.mpr fun u hu => takesUnit_of_ascii parser (List.all_eq_true.mp h u hu)

/-- The URL of a route can be asked for as its path can. -/
theorem requestable_route {parser : HttpParser} :
    Requestable parser (js "/" ++ target.text ++ path) ↔ Requestable parser path := by
  have hroute : Requestable parser (js "/" ++ target.text) :=
    requestable_of_ascii parser (by cases target <;> decide)
  unfold Requestable at hroute ⊢
  rw [List.all_append, hroute, Bool.true_and]

/-- What is posted directly is seen as it is, without a body that is falsy. -/
theorem direct_sees_iff (hpath : path.head? = some 0x2F)
    (hplain : field b "version" ≠ some (.str routingVersion)) {req : Request} :
    c.Sees (direct target path b) target.port req ↔
      Requestable c.parser path ∧
        req = { method := .post, url := path, body := bodyOf (some b) } := by
  have hne : js "/" ++ target.text ++ path ≠ [] := List.cons_ne_nil _ _
  have hleads := @leads_through c target path
    { port := PORTS.gateway
      req := { method := .post, url := js "/" ++ target.text ++ path, body := .json b } }
    (bodyOf (some b)) (.error 500 "Gateway error") hpath gateway_ne_port
    ((handleGateway_route c.P c.gateway (.json b)).trans (proxy_plain hplain)) req
  have harrives := @arrives_iff (js "/" ++ target.text ++ path) c.parser PORTS.gateway (.json b) rfl
  unfold Cluster.Sees direct
  constructor
  · rintro ⟨sent, hsent, hlead⟩
    obtain ⟨-, rfl⟩ := (httpRequest_eq_ok hne).mp hsent
    exact (hleads.mp hlead).2
  · rintro ⟨hrequestable, hreq⟩
    have hroute : Requestable c.parser (js "/" ++ target.text ++ path) :=
      requestable_route.mpr hrequestable
    exact ⟨_, (httpRequest_eq_ok hne).mpr ⟨all_isPathUnit hroute, rfl⟩,
      hleads.mpr ⟨harrives.mpr hroute, hrequestable, hreq⟩⟩

/-- What is posted to `/route` is seen with `{}` for a body that is falsy. -/
theorem routed_sees_iff (hpath : path.head? = some 0x2F) {req : Request} :
    c.Sees (routed target path b) target.port req ↔
      Requestable c.parser path ∧
        req = { method := .post, url := path, body := .json (inner b) } := by
  have hne : path ≠ [] := by
    rintro rfl
    cases hpath
  have hleads := @leads_through c target path
    { port := PORTS.routing
      req := { method := .post, url := js "/route", body := .json (message target path b) } }
    (.json (inner b)) (.error 400 "Invalid request") hpath routing_ne_port
    (handleRouting_message c.P.engine c.P.node c.P.coerce c.routing hne) req
  have harrives : ∀ port, Sent.Arrives c.parser
      { port, req := { method := .post, url := js "/route"
                       body := .json (message target path b) } } :=
    fun port => (arrives_iff rfl).mpr (requestable_of_ascii c.parser (by decide))
  have hask : c.reaction { port := PORTS.gateway
                           req := { method := .post, url := js "/route"
                                    body := .json (message target path b) } }
      = .asks { port := PORTS.routing
                req := { method := .post, url := js "/route"
                         body := .json (message target path b) } } :=
    handleGateway_passthrough c.P c.gateway
  have hfirst : routed target path b = .ok { port := PORTS.gateway
                                             req := { method := .post, url := js "/route"
                                                      body := .json (message target path b) } } :=
    rfl
  unfold Cluster.Sees
  rw [hfirst]
  constructor
  · rintro ⟨sent, hsent, hlead⟩
    obtain rfl := Except.ok.inj hsent
    obtain ⟨-, hsame | ⟨t, ht, hlead⟩⟩ := leads_iff.mp hlead
    · exact absurd (Sent.mk.inj hsame).1 gateway_ne_port
    · rw [hask] at ht
      obtain rfl := Reaction.asks.inj ht
      exact (hleads.mp hlead).2
  · intro h
    exact ⟨_, rfl, .asks (harrives _) hask (hleads.mpr ⟨harrives _, h⟩)⟩

/-- **Which way a request may take.**  A target sees the same requests whether the client
posts a body that is no routing packet directly or through the routing service, exactly
when the body is truthy or the path is one that nobody can ask for. -/
theorem same_request_iff (hpath : path.head? = some 0x2F)
    (hplain : field b "version" ≠ some (.str routingVersion)) :
    (∀ req, c.Sees (direct target path b) target.port req ↔
        c.Sees (routed target path b) target.port req) ↔
      truthy b = true ∨ ¬ Requestable c.parser path := by
  simp only [direct_sees_iff hpath hplain, routed_sees_iff hpath]
  by_cases hrequestable : Requestable c.parser path
  · by_cases htruthy : truthy b = true
    · have hbody : bodyOf (some b) = .json (inner b) := by
        unfold bodyOf inner
        rw [Option.filter_some, if_pos htruthy, if_pos htruthy]
      simp [hbody, htruthy]
    · have hbody : bodyOf (some b) ≠ .json (inner b) := by
        unfold bodyOf
        rw [Option.filter_some, if_neg htruthy]
        exact nofun
      constructor
      · intro h
        have hreq := (h _).mp ⟨hrequestable, rfl⟩
        exact absurd (congrArg Request.body hreq.2) hbody
      · rintro (h | h)
        · exact absurd h htruthy
        · exact absurd hrequestable h
  · simp [hrequestable]

/-! ## A body for the storage service -/

/-- A parser that takes ASCII, and whole URLs and `*` beside the paths. -/
def knownParser : HttpParser where
  takesLatin := false
  takesOther target := (js "http://").isPrefixOf target || target = js "*"

/-- Both servers know the discovery service. -/
def knownCluster : Cluster where
  P := Gateway.filePlatform
  parser := knownParser
  hangup := js "socket hang up"
  gateway := Gateway.fileContext
  routing := Gateway.fileContext

theorem requestable_store : Requestable knownParser (js "/store") := by
  unfold Requestable
  decide

/-- An object comes to the same on both ways. -/
theorem same_request_known :
    knownCluster.Sees (direct .storage (js "/store") SignedPacket.knownBody) PORTS.storage
        { method := .post, url := js "/store", body := .json SignedPacket.knownBody } ∧
      knownCluster.Sees (routed .storage (js "/store") SignedPacket.knownBody) PORTS.storage
        { method := .post, url := js "/store", body := .json SignedPacket.knownBody } := by
  have hsame := (@same_request_iff knownCluster .storage _ SignedPacket.knownBody
    (rfl : (js "/store").head? = some 0x2F) nofun).mpr (.inl rfl)
  have hdirect := (@direct_sees_iff knownCluster .storage _ SignedPacket.knownBody
    (rfl : (js "/store").head? = some 0x2F) nofun
    { method := .post, url := js "/store", body := .json SignedPacket.knownBody }).mpr
    ⟨requestable_store, rfl⟩
  exact ⟨hdirect, (hsame _).mp hdirect⟩

/-- **A body that is falsy.**  Where `null` is posted, the storage service gets no body in
one case and `{}` in the other. -/
theorem null_replaced :
    knownCluster.Sees (direct .storage (js "/store") .null) PORTS.storage
        { method := .post, url := js "/store", body := .empty } ∧
      knownCluster.Sees (routed .storage (js "/store") .null) PORTS.storage
        { method := .post, url := js "/store", body := .json (.obj []) } ∧
      ¬ knownCluster.Sees (routed .storage (js "/store") .null) PORTS.storage
        { method := .post, url := js "/store", body := .empty } := by
  have hrouted := @routed_sees_iff knownCluster .storage _ .null
    (rfl : (js "/store").head? = some 0x2F)
  have hdirect := @direct_sees_iff knownCluster .storage _ .null
    (rfl : (js "/store").head? = some 0x2F) nofun
  refine ⟨hdirect.mpr ⟨requestable_store, rfl⟩,
    hrouted.mpr ⟨requestable_store, rfl⟩, fun h => ?_⟩
  have hbody := congrArg Request.body (hrouted.mp h).2
  cases hbody

end NewZone.Services.Routing
