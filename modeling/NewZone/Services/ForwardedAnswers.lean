import NewZone.Services.Routing

/-!
# What comes back from a service

The gateway and the routing service pass requests on, and what the next server answers
is the answer of the one that has asked it: with its status, and with its body if that
is JSON (`proxyRequest` of `services/gateway/index.js`, `forward` of
`services/routing/index.js`).

A proxy asks only servers behind it, so a request is passed on twice at most and no two
services get it (`answered_by_one`).  `asked_ports` says which services these can be,
whatever a client posts.

When an exception ends the process of a proxy, the connection is closed: a client gets an
error, and the gateway makes one of the errors of the routing service.
-/

namespace NewZone.Services.Routing

open NewZone.Js NewZone.Js.Json NewZone.ExceptBind NewZone.Crypto

/-- What comes back for a request: an answer, whose text may be no JSON, or an error of
the connection, or nothing. -/
inductive Reply where
  | answered (status : ℕ) (body : Option Json)
  | failed (detail : JsString)
  | silent

/-- What a proxy resolves to, with its own texts for a body that it cannot read and for
an error of the connection. -/
def resolveReply (unreadable broken : String) : Reply → Reply
  | .answered status (some body) => .answered status (some body)
  | .answered status none =>
    .answered status (some (.obj [(js "error", .str (js unreadable))]))
  | .failed detail =>
    .answered 500 (some (.obj [(js "error", .str (js broken)), (js "detail", .str detail)]))
  | .silent => .silent

/-- What `proxyRequest` makes of a reply. -/
def proxyReply : Reply → Reply :=
  resolveReply "Invalid JSON from service" "Gateway forward error"

/-- What `forward` makes of a reply. -/
def forwardReply : Reply → Reply := resolveReply "Invalid JSON from target" "Forward error"

/-- What the proxy at the port makes of a reply. -/
def relay (port : ℕ) : Reply → Reply :=
  if port = PORTS.gateway then proxyReply else forwardReply

def IsProxy (port : ℕ) : Prop := port = PORTS.gateway ∨ port = PORTS.routing

instance (port : ℕ) : Decidable (IsProxy port) := inferInstanceAs (Decidable (_ ∨ _))

/-- What whoever sends the request gets, from what the services reply.  A server answers
400 with no body where its parser refuses the request. -/
inductive Cluster.Gets (c : Cluster) (services : ℕ → Request → Reply) : Sent → Reply → Prop
  | unread {s : Sent} (h : ¬ s.Arrives c.parser) : c.Gets services s (.answered 400 none)
  | service {s : Sent} (h : s.Arrives c.parser) (hport : ¬ IsProxy s.port) :
    c.Gets services s (services s.port s.req)
  | answers {s : Sent} {r : Response} (h : s.Arrives c.parser) (hport : IsProxy s.port)
    (hreaction : c.reaction s = .answers r) : c.Gets services s (.answered r.status (some r.body))
  | ends {s : Sent} (h : s.Arrives c.parser) (hport : IsProxy s.port)
    (hreaction : c.reaction s = .ends) : c.Gets services s (.failed c.hangup)
  | relays {s t : Sent} {a : Reply} (h : s.Arrives c.parser) (hport : IsProxy s.port)
    (hreaction : c.reaction s = .asks t) (hget : c.Gets services t a) :
    c.Gets services s (relay s.port a)

/-! ## Whom a proxy asks -/

/-- The services that the routing service knows. -/
def servicePorts : List ℕ :=
  [PORTS.identity, PORTS.metadata, PORTS.consensus, PORTS.storage, PORTS.event]

theorem port_of_httpRequest {port : ℕ} {path : JsString} {method : Method} {body : Body}
    {sent : Sent} (h : httpRequest port path method body = .ok sent) : sent.port = port := by
  unfold httpRequest at h
  split at h
  · rw [← Except.ok.inj h]
  · cases h

theorem port_of_passthrough {body : Body} {t : Sent} (h : passthrough body = .asks t) :
    t.port = PORTS.routing := by
  unfold passthrough at h
  split at h
  · split at h
    · rename_i hsent
      obtain rfl := Reaction.asks.inj h
      exact port_of_httpRequest hsent
    · cases h
  · cases h

theorem port_of_proxy {P : Gateway.Platform} {ctx : Context} {port : ℕ} {path : JsString}
    {method : Method} {body : Body} {t : Sent} (h : proxy P ctx port path method body = .asks t) :
    t.port = port := by
  have hask : ∀ {parsed : Option Json} {sent : Sent},
      proxyRequest port path method parsed = .ok sent → Reaction.asks sent = .asks t →
      t.port = port := by
    intro parsed sent hsent h
    obtain rfl := Reaction.asks.inj h
    exact port_of_httpRequest hsent
  unfold proxy at h
  dsimp only at h
  split at h
  · split at h
    · exact hask ‹_› h
    · cases h
  · cases h
  · split at h
    · split at h
      · split at h
        · exact hask ‹_› h
        · cases h
      · cases h
      · cases h
    · split at h
      · exact hask ‹_› h
      · cases h

/-- The gateway asks the routing service, or a service of its own routes. -/
theorem gateway_asks {P : Gateway.Platform} {ctx : Context} {req : Request} {t : Sent}
    (h : handleGateway P ctx req = .asks t) :
    t.port = PORTS.routing ∨ t.port ∈ servicePorts := by
  unfold handleGateway at h
  split at h
  · cases h
  · split at h
    · cases h
    · split at h
      · exact .inl (port_of_passthrough h)
      · split at h
        · cases h
        · rename_i route port hfind
          have hmem := List.mem_of_find?_eq_some hfind
          rw [port_of_proxy h]
          refine .inr ?_
          simp only [ROUTES, List.mem_cons, Prod.mk.injEq, List.not_mem_nil, or_false] at hmem
          rcases hmem with ⟨-, rfl⟩ | ⟨-, rfl⟩ | ⟨-, rfl⟩ | ⟨-, rfl⟩ <;> decide

/-- A route of the routing service is that of a service, or of a name that every object
inherits. -/
theorem port_of_resolveRoute {engine : Engine} {target : Option Json} {port : ℕ}
    (h : resolveRoute engine target = .ok (some port)) :
    port ∈ servicePorts ∨
      port = 80 ∧ ∃ name ∈ objectPrototype, engine.propertyKey target = .ok name := by
  obtain ⟨key, hkey, h⟩ := bind_eq_ok.mp h
  cases hget : routes.get key with
  | some found =>
    rw [PlainObject.lookup_of_get hget] at h
    obtain rfl := Option.some.inj (Except.ok.inj h)
    have hmem := PlainObject.get_eq_some_iff.mp hget
    refine .inl ?_
    simp only [routes, List.mem_cons, Prod.mk.injEq, List.not_mem_nil, or_false] at hmem
    rcases hmem with ⟨-, rfl⟩ | ⟨-, rfl⟩ | ⟨-, rfl⟩ | ⟨-, rfl⟩ | ⟨-, rfl⟩ <;> decide
  | none =>
    by_cases hinherited : key ∈ objectPrototype
    · rw [PlainObject.lookup_of_mem hget hinherited] at h
      obtain rfl := Option.some.inj (Except.ok.inj h)
      exact .inr ⟨rfl, key, hinherited, hkey⟩
    · rw [PlainObject.lookup_of_notMem hget hinherited] at h
      cases h

/-- The target that a message names. -/
def targetOf (payload : Json) : Option Json :=
  ((field payload "target").filter truthy).or (field payload "service")

/-- The routing service asks a service, or whatever is at port 80 where the target is a
name that every object inherits. -/
theorem port_of_routePayload {engine : Engine} {payload : Option Json} {t : Sent}
    (h : routePayload engine payload = .ok (.asks t)) :
    t.port ∈ servicePorts ∨ t.port = 80 ∧
      ∃ p name, payload = some p ∧ name ∈ objectPrototype ∧
        engine.propertyKey (targetOf p) = .ok name := by
  unfold routePayload at h
  cases payload with
  | none => cases h
  | some payload =>
    obtain ⟨named, hnamed, h⟩ := bind_eq_ok.mp h
    obtain ⟨found, hfound, h⟩ := bind_eq_ok.mp h
    have htarget : named = field payload "target" := by
      cases payload <;> first | exact (Except.ok.inj hnamed).symm | cases hnamed
    cases found with
    | none => cases Except.ok.inj h
    | some port =>
      obtain ⟨sent, hsent, h⟩ := bind_eq_ok.mp h
      obtain rfl := Reaction.asks.inj (Except.ok.inj h)
      obtain ⟨path, -, hsent⟩ := bind_eq_ok.mp hsent
      obtain ⟨method, -, hsent⟩ := bind_eq_ok.mp hsent
      rw [port_of_httpRequest hsent]
      refine (port_of_resolveRoute hfound).imp_right fun h => ?_
      obtain ⟨hport, name, hname, hkey⟩ := h
      rw [htarget] at hkey
      exact ⟨hport, payload, name, rfl, hname, hkey⟩

variable {c : Cluster} {services : ℕ → Request → Reply}

theorem reaction_gateway {s : Sent} (h : s.port = PORTS.gateway) :
    c.reaction s = handleGateway c.P c.gateway s.req := if_pos h

theorem reaction_routing {s : Sent} (h : s.port = PORTS.routing) :
    c.reaction s = handleRouting c.P.engine c.P.node c.P.coerce c.routing s.req := by
  unfold Cluster.reaction
  rw [if_neg (by rw [h]; decide), if_pos h]

theorem not_isProxy_of_mem {port : ℕ} (h : port ∈ servicePorts ∨ port = 80) :
    ¬ IsProxy port := by
  simp only [servicePorts, List.mem_cons, List.not_mem_nil, or_false] at h
  rcases h with (rfl | rfl | rfl | rfl | rfl) | rfl <;> decide

/-- The reply says what the service has replied. -/
def Reply.Tells (a : Reply) : Reply → Prop
  | .answered status (some body) => a = .answered status (some body)
  | .answered status none =>
    ∃ error, a = .answered status (some (.obj [(js "error", .str error)]))
  | .failed detail =>
    ∃ error, a = .answered 500 (some (.obj [(js "error", .str error), (js "detail", .str detail)]))
  | .silent => a = .silent

/-- A second proxy does not change what the first one has made of a reply. -/
theorem Reply.Tells.relay {a r : Reply} (h : a.Tells r) (port : ℕ) :
    (relay port a).Tells r := by
  have hkept : ∀ status body, Routing.relay port (.answered status (some body))
      = .answered status (some body) := by
    intro status body
    unfold Routing.relay
    split <;> rfl
  cases r with
  | answered status body =>
    cases body with
    | none =>
      obtain ⟨error, rfl⟩ := h
      exact ⟨error, hkept _ _⟩
    | some body =>
      obtain rfl := h
      exact hkept _ _
  | failed detail =>
    obtain ⟨error, rfl⟩ := h
    exact ⟨error, hkept _ _⟩
  | silent =>
    obtain rfl := h
    unfold Routing.relay
    split <;> rfl

/-- A request that comes to a service, behind `s`. -/
def Cluster.Asks (c : Cluster) (s u : Sent) : Prop := c.Leads s u ∧ ¬ IsProxy u.port

/-- What the server at the port knows. -/
def Cluster.context (c : Cluster) (port : ℕ) : Context :=
  if port = PORTS.gateway then c.gateway else c.routing

/-- A service asks nobody. -/
theorem asks_service_iff {t u : Sent} (hport : ¬ IsProxy t.port) :
    c.Asks t u ↔ t.Arrives c.parser ∧ u = t := by
  have hreaction : c.reaction t = .serves := by
    unfold Cluster.reaction
    rw [if_neg fun h => hport (.inl h), if_neg fun h => hport (.inr h)]
  rw [Cluster.Asks, leads_iff, hreaction]
  constructor
  · intro h
    obtain ⟨⟨harrives, hsame | ⟨_, hask, -⟩⟩, -⟩ := h
    · exact ⟨harrives, hsame.symm⟩
    · cases hask
  · intro h
    obtain ⟨harrives, rfl⟩ := h
    exact ⟨⟨harrives, .inl rfl⟩, hport⟩

theorem gets_service {t : Sent} (hport : ¬ IsProxy t.port) (h : t.Arrives c.parser) (b : Reply)
    (hb : c.Gets services t b) : b = services t.port t.req := by
  cases hb with
  | unread hno => exact absurd h hno
  | service => rfl
  | answers _ hproxy => exact absurd hproxy hport
  | ends _ hproxy => exact absurd hproxy hport
  | relays _ hproxy => exact absurd hproxy hport

/-- The routing service takes the body for a message whose target is a name that every
object inherits. -/
def Cluster.NamesInherited (c : Cluster) (body : Body) : Prop :=
  ∃ p crypto name, parseRequestBodyWithCrypto c.P.node c.P.coerce c.routing body
      = .ok (.payload (some p) crypto) ∧
    name ∈ objectPrototype ∧ c.P.engine.propertyKey (targetOf p) = .ok name

theorem routing_asks_port {s t : Sent} (hport : s.port = PORTS.routing)
    (h : c.reaction s = .asks t) :
    t.port ∈ servicePorts ∨ t.port = 80 ∧ c.NamesInherited s.req.body := by
  rw [reaction_routing hport] at h
  unfold handleRouting at h
  split at h
  · cases h
  · split at h
    · split at h
      · cases h
      · cases h
      · rename_i payload crypto hparse
        split at h
        · rename_i reaction hreaction
          rw [h] at hreaction
          refine (port_of_routePayload hreaction).imp_right fun h => ?_
          obtain ⟨ht, p, name, rfl, hname, hkey⟩ := h
          exact ⟨ht, p, crypto, name, hparse, hname, hkey⟩
        · cases h
    · cases h

/-- The gateway leaves out a body that is falsy, which the routing service refuses. -/
theorem not_namesInherited_empty : ¬ c.NamesInherited .empty := by
  intro h
  obtain ⟨p, crypto, name, hparse, hname, hkey⟩ := h
  obtain rfl : Json.null = p := by cases hparse; rfl
  have hmissing : c.P.engine.propertyKey (targetOf .null) = .ok (js "undefined") := rfl
  obtain rfl := Except.ok.inj (hmissing.symm.trans hkey)
  exact absurd hname (by decide)

/-- What the gateway sends to the routing service has the body that it got, or none. -/
theorem body_of_gateway {P : Gateway.Platform} {ctx : Context} {req : Request} {t : Sent}
    (h : handleGateway P ctx req = .asks t) (ht : t.port = PORTS.routing) :
    t.req.body = req.body ∨ t.req.body = .empty := by
  unfold handleGateway at h
  split at h
  · cases h
  · split at h
    · cases h
    · split at h
      · unfold passthrough at h
        split at h
        · rename_i parsed hbody
          split at h
          · rename_i sent hsent
            obtain rfl := Reaction.asks.inj h
            obtain ⟨-, rfl⟩ := (httpRequest_eq_ok (by decide)).mp hsent
            rw [hbody]
            show bodyOf (some parsed) = _ ∨ bodyOf (some parsed) = _
            unfold bodyOf
            rw [Option.filter_some]
            by_cases htruthy : parsed.truthy = true
            · rw [if_pos htruthy]
              exact .inl rfl
            · rw [if_neg htruthy]
              exact .inr rfl
          · cases h
        · cases h
      · split at h
        · cases h
        · rename_i route port hfind
          have hmem := List.mem_of_find?_eq_some hfind
          rw [port_of_proxy h] at ht
          simp only [ROUTES, List.mem_cons, Prod.mk.injEq, List.not_mem_nil, or_false] at hmem
          rcases hmem with ⟨-, rfl⟩ | ⟨-, rfl⟩ | ⟨-, rfl⟩ | ⟨-, rfl⟩ <;> exact absurd ht (by decide)

/-- **Where requests go.**  Whatever a client posts to a proxy, the requests that are
made for it go to the five services that the routing service knows.  The exception is a
message whose target is a name that every object inherits: it goes to port 80. -/
theorem asked_ports {s u : Sent} (hproxy : IsProxy s.port) (hasks : c.Asks s u) :
    u.port ∈ servicePorts ∨ u.port = 80 ∧ c.NamesInherited s.req.body := by
  obtain ⟨hlead, hu⟩ := hasks
  obtain ⟨harrives, rfl | ⟨t, ht, hrest⟩⟩ := leads_iff.mp hlead
  · exact absurd hproxy hu
  · have hservice : ∀ {t}, ¬ IsProxy t.port → c.Leads t u → u = t := fun hport hlead =>
      ((asks_service_iff hport).mp ⟨hlead, hu⟩).2
    rcases hproxy with hport | hport
    · rcases gateway_asks (reaction_gateway hport ▸ ht) with hnext | hnext
      · -- the gateway has asked the routing service
        obtain ⟨-, rfl | ⟨t', ht', hrest'⟩⟩ := leads_iff.mp hrest
        · exact absurd (.inr hnext) hu
        · have hbody := body_of_gateway (reaction_gateway hport ▸ ht) hnext
          have hasked := routing_asks_port hnext ht'
          rw [hservice (not_isProxy_of_mem (hasked.imp_right And.left)) hrest']
          refine hasked.imp_right fun h => ⟨h.1, ?_⟩
          rcases hbody with hbody | hbody
          · rw [← hbody]
            exact h.2
          · rw [hbody] at h
            exact absurd h.2 not_namesInherited_empty
      · rw [hservice (not_isProxy_of_mem (.inl hnext)) hrest]
        exact .inl hnext
    · have hasked := routing_asks_port hport ht
      rw [hservice (not_isProxy_of_mem (hasked.imp_right And.left)) hrest]
      exact hasked

/-- A message to the service `constructor`. -/
def inheritedMessage : Json :=
  .obj [(js "target", .str (js "constructor")), (js "path", .str (js "/")),
    (js "body", .bool true)]

def inheritedSent : Sent :=
  { port := PORTS.gateway, req := { method := .post, url := js "/route"
                                    body := .json inheritedMessage } }

def inheritedAsked : Sent :=
  { port := 80, req := { method := .post, url := js "/", body := .json (.bool true) } }

theorem asks_inherited : knownCluster.Asks inheritedSent inheritedAsked := by
  have hgateway : knownCluster.reaction inheritedSent
      = .asks { inheritedSent with port := PORTS.routing } := rfl
  have hrouting : knownCluster.reaction { inheritedSent with port := PORTS.routing }
      = .asks inheritedAsked := rfl
  have harrives : ∀ port, Sent.Arrives knownParser { inheritedSent with port := port } :=
    fun port => (arrives_iff rfl).mpr (requestable_of_ascii knownParser (by decide))
  exact ⟨.asks (harrives _) hgateway (.asks (harrives _) hrouting
    (.arrives ((arrives_iff rfl).mpr (requestable_of_ascii knownParser (by decide))))),
    by decide⟩

theorem asked_ports_inherited :
    inheritedAsked.port ∈ servicePorts ∨
      inheritedAsked.port = 80 ∧ knownCluster.NamesInherited inheritedSent.req.body :=
  asked_ports (.inl rfl) asks_inherited

end NewZone.Services.Routing
