import NewZone.Crypto.RoutingAcceptance
import NewZone.Services.Storage

/-!
# The integrity of the object store

Whatever has been stored is found again under its hash, and what is found under a
hash has been stored and has this hash.  The names that every object inherits are
the exception.  They are no hashes, but something is found under them.  And a body
that ends the process loses what has been stored.
-/

namespace NewZone.Services.Storage

open NewZone.Js NewZone.Js.Json NewZone.Crypto
open NewZone.Crypto.SignedPacket (Coercions CollisionFree knownBody knownHash knownCoercions)
open NewZone.Crypto.RoutingPacket (knownNode)

/-! ## What the store holds -/

/-- Every object is one of `objects`, and is kept under its hash. -/
def Addressed (hash : NodeHash) (objects : List Json) (STORE : Objects) : Prop :=
  ∀ h v, STORE.get h = some v →
    v ∈ objects ∧ isObject v = true ∧ generateHash hash v = h

variable {hash : NodeHash} {node : NodeSign} {coerce : Coercions}

theorem isObject_of_stored {call : Context × Call} {v : Json}
    (h : stored node coerce call = some v) : isObject v = true := by
  unfold stored at h
  split at h
  · split at h
    · exact (Option.filter_eq_some_iff.mp h).2
    · cases h
  · cases h

theorem truthy_of_isObject {v : Json} (h : isObject v = true) : v.truthy = true := by
  cases v with
  | arr vs => rfl
  | obj members => rfl
  | _ => cases h

theorem Addressed.after {objects : List Json} {STORE : Objects}
    (h : Addressed hash objects STORE) (call : Context × Call)
    (hcall : ∀ v, stored node coerce call = some v → v ∈ objects) :
    Addressed hash objects (after hash node coerce STORE call) := by
  rw [after_eq]
  cases hstored : stored node coerce call with
  | none => exact h
  | some payload =>
    intro k v hget
    dsimp only at hget
    rw [PlainObject.get_set] at hget
    split_ifs at hget with hkey
    · obtain rfl := Option.some.inj hget
      exact ⟨hcall payload hstored, isObject_of_stored hstored, hkey⟩
    · exact h k v hget

/-- The objects that the calls store. -/
def submitted (node : NodeSign) (coerce : Coercions) (calls : List (Context × Call)) : List Json :=
  calls.filterMap (stored node coerce)

/-- What is left of the server after the calls. -/
def processAfter (hash : NodeHash) (node : NodeSign) (coerce : Coercions)
    (calls : List (Context × Call)) : Option Objects :=
  Process.after (serve hash node coerce) (some .empty) calls

theorem processAfter_eq_some_iff {calls : List (Context × Call)} {STORE : Objects} :
    processAfter hash node coerce calls = some STORE ↔
      (∀ call ∈ calls, ¬ EndsProcess node coerce call) ∧
        calls.foldl (Storage.after hash node coerce) .empty = STORE :=
  Process.after_eq_some_iff serve_eq_none_iff

theorem processAfter_eq_none_iff {calls : List (Context × Call)} :
    processAfter hash node coerce calls = none ↔ ∃ call ∈ calls, EndsProcess node coerce call :=
  Process.after_eq_none_iff serve_eq_none_iff

theorem addressed_foldl {objects : List Json} {STORE : Objects}
    (h : Addressed hash objects STORE) (calls : List (Context × Call))
    (hcalls : submitted node coerce calls ⊆ objects) :
    Addressed hash objects (calls.foldl (Storage.after hash node coerce) STORE) := by
  induction calls generalizing STORE with
  | nil => exact h
  | cons call calls ih =>
    refine ih (h.after call ?_) ?_
    · intro v hv
      exact hcalls (List.mem_filterMap.mpr ⟨call, List.mem_cons_self, hv⟩)
    · intro v hv
      obtain ⟨other, hother, hv⟩ := List.mem_filterMap.mp hv
      exact hcalls (List.mem_filterMap.mpr ⟨other, List.mem_cons_of_mem _ hother, hv⟩)

theorem addressed_processAfter {calls : List (Context × Call)} {STORE : Objects}
    (h : processAfter hash node coerce calls = some STORE) :
    Addressed hash (submitted node coerce calls) STORE := by
  obtain ⟨-, rfl⟩ := processAfter_eq_some_iff.mp h
  refine addressed_foldl ?_ calls (List.Subset.refl _)
  intro h v hget
  cases hget

/-! ## Names that are no hashes -/

theorem toHex_notMem_objectPrototype (b : Bytes) : toHex b ∉ objectPrototype := by
  intro h
  have hname : ∀ name ∈ objectPrototype, ∃ u ∈ name, 0x66 < u := by decide
  have hdigit : ∀ n < 16, hexDigit n ≤ 0x66 := by decide
  obtain ⟨u, hu, hlt⟩ := hname _ h
  obtain ⟨x, -, hx⟩ := List.mem_flatMap.mp hu
  have hle : u ≤ 0x66 := by
    simp only [List.mem_cons, List.not_mem_nil, or_false] at hx
    have hlt := x.toNat_lt
    rcases hx with rfl | rfl
    · exact hdigit _ (by omega)
    · exact hdigit _ (by omega)
  exact absurd hlt (UInt16.not_lt.mpr hle)

theorem Addressed.get_of_mem {objects : List Json} {STORE : Objects}
    (h : Addressed hash objects STORE) {name : JsString} (hname : name ∈ objectPrototype) :
    STORE.get name = none := by
  rw [Option.eq_none_iff_forall_ne_some]
  intro v hget
  obtain ⟨-, -, rfl⟩ := h name v hget
  exact toHex_notMem_objectPrototype _ hname

/-! ## What is answered -/

/-- What is answered 200 is an object that has been submitted, with the hash that
has been asked for. -/
def Sound (hash : NodeHash) (node : NodeSign) (coerce : Coercions) (objects : List Json)
    (process : Option Objects) (h : JsString) : Prop :=
  ∀ ctx reply, Process.answer (serve hash node coerce) process (ctx, .get h) = some reply →
    reply.status = 200 →
      ∃ v ∈ objects, reply.body = some v ∧ isObject v = true ∧ generateHash hash v = h

/-- Every object that a call has stored is answered under the hash that the call
has returned, whatever has been called later. -/
def Retrieved (hash : NodeHash) (node : NodeSign) (coerce : Coercions)
    (calls : List (Context × Call)) : Prop :=
  ∀ before ctx body later hash_id, calls = before ++ (ctx, .store body) :: later →
    Process.answer (serve hash node coerce) (processAfter hash node coerce before)
        (ctx, .store body)
      = some (Response.reply
        { status := 200, body := .obj [(js "hash_id", .str hash_id)] }) →
    ∃ v, stored node coerce (ctx, .store body) = some v ∧
      ∀ ctx, Process.answer (serve hash node coerce) (processAfter hash node coerce calls)
          (ctx, .get hash_id)
        = some { status := 200, body := some v }

/-- Nothing is answered 200 but what the store holds, unless the name is inherited. -/
theorem sound_iff {objects : List Json} {STORE : Objects} (h : Addressed hash objects STORE)
    (name : JsString) :
    Sound hash node coerce objects (some STORE) name ↔ name ∉ objectPrototype := by
  have hanswer : Sound hash node coerce objects (some STORE) name ↔
      ((get STORE name).status = 200 →
        ∃ v ∈ objects, (get STORE name).body = some v ∧ isObject v = true ∧
          generateHash hash v = name) := by
    refine ⟨fun hsound => hsound { knownNodes := .empty, clock := 0 } _ rfl,
      fun hsound ctx reply hreply => ?_⟩
    rw [← Option.some.inj hreply]
    exact hsound
  rw [hanswer]
  unfold get getObject
  by_cases hname : name ∈ objectPrototype
  · rw [PlainObject.lookup_of_mem (h.get_of_mem hname) hname]
    refine ⟨fun hsound => ?_, fun hnot => absurd hname hnot⟩
    obtain ⟨v, -, -, -, hv⟩ := hsound rfl
    rw [← hv] at hname
    exact absurd hname (toHex_notMem_objectPrototype _)
  · refine ⟨fun _ => hname, fun _ => ?_⟩
    cases hget : STORE.get name with
    | none =>
      rw [PlainObject.lookup_of_notMem hget hname]
      exact nofun
    | some v =>
      obtain ⟨hmem, hobject, hhash⟩ := h name v hget
      rw [PlainObject.lookup_of_get hget]
      dsimp only
      rw [if_pos (truthy_of_isObject hobject)]
      exact fun _ => ⟨v, hmem, rfl, hobject, hhash⟩

/-- A store that is answered with a hash has stored an object under it. -/
theorem stored_of_answer {ctx : Context} {STORE : Objects} {body : Body} {hash_id : JsString}
    (h : (serve hash node coerce STORE (ctx, .store body)).2
      = some (Response.reply
        { status := 200, body := .obj [(js "hash_id", .str hash_id)] })) :
    ∃ v, stored node coerce (ctx, .store body) = some v ∧ hash_id = generateHash hash v := by
  obtain ⟨response, hresponse, hreply⟩ := Option.map_eq_some_iff.mp h
  obtain ⟨hstatus, hbody⟩ := Reply.mk.inj hreply
  obtain ⟨payload, crypto, hparse, hroute, -⟩ :=
    withBody_ok_iff.mp ⟨Prod.ext rfl hresponse, hstatus⟩
  have hanswer : (store hash STORE payload).2 = response := congrArg Prod.snd hroute
  have hstored : stored node coerce (ctx, .store body) = payload.filter isObject := by
    unfold stored
    dsimp only
    rw [hparse]
  rw [hstored]
  unfold store at hanswer
  cases hobject : payload.filter isObject with
  | none =>
    rw [hobject] at hanswer
    rw [← hanswer] at hstatus
    cases hstatus
  | some v =>
    rw [hobject] at hanswer
    have hfields := (congrArg Response.body hanswer).trans (Option.some.inj hbody)
    have hid := congrArg (fun body => field body "hash_id") hfields
    exact ⟨v, rfl, (Json.str.inj (Option.some.inj hid)).symm⟩

/-- A call that stores an object is answered with its hash. -/
theorem answer_of_stored {call : Context × Call} {v : Json} (h : stored node coerce call = some v)
    (STORE : Objects) : ∃ body, call.2 = .store body ∧
      (serve hash node coerce STORE call).2 = some (Response.reply
        { status := 200, body := .obj [(js "hash_id", .str (generateHash hash v))] }) := by
  obtain ⟨ctx, call⟩ := call
  cases call with
  | get hash_id => cases h
  | verify body => cases h
  | store body =>
    refine ⟨body, rfl, ?_⟩
    simp only [stored] at h
    split at h
    · rename_i payload crypto hparse
      show (withBody node coerce ctx STORE body (store hash STORE)).2.map Response.reply = _
      rw [withBody_of_payload hparse, store, h]
      rfl
    · cases h

/-- As long as no call ends the process, every object is retrieved. -/
theorem retrieved {calls : List (Context × Call)}
    (hlives : ∀ call ∈ calls, ¬ EndsProcess node coerce call)
    (hfree : CollisionFree hash ((submitted node coerce calls).map text)) :
    Retrieved hash node coerce calls := by
  rintro before ctx body later hash_id rfl hanswer
  obtain ⟨hbefore, hlater⟩ := List.forall_mem_append.mp hlives
  rw [processAfter_eq_some_iff.mpr ⟨hbefore, rfl⟩] at hanswer
  obtain ⟨v, hstored, rfl⟩ := stored_of_answer hanswer
  refine ⟨v, hstored, fun _ => ?_⟩
  rw [processAfter_eq_some_iff.mpr ⟨hlives, rfl⟩]
  refine congrArg some (get_of_own ?_ (truthy_of_isObject (isObject_of_stored hstored)))
  rw [List.foldl_append, List.foldl_cons]
  have hv : v ∈ submitted node coerce (before ++ (ctx, .store body) :: later) :=
    List.mem_filterMap.mpr ⟨_, List.mem_append_right _ List.mem_cons_self, hstored⟩
  refine get_foldl_after later ?_ ?_
  · intro call hcall other hother hsame
    exact generateHash_inj hfree (List.mem_filterMap.mpr
      ⟨call, List.mem_append_right _ (List.mem_cons_of_mem _ hcall), hother⟩) hv hsame
  · rw [after_eq, hstored]
    exact PlainObject.get_set_self _ _ _

/-- Where the process has ended, the objects are retrieved if there are none. -/
theorem retrieved_of_ends_iff {calls : List (Context × Call)}
    (hends : ∃ call ∈ calls, EndsProcess node coerce call) :
    Retrieved hash node coerce calls ↔
      ∃ before call later, calls = before ++ call :: later ∧ EndsProcess node coerce call ∧
        submitted node coerce before = [] := by
  have hgone : ∀ ctx h, Process.answer (serve hash node coerce)
      (processAfter hash node coerce calls) (ctx, .get h) = none := by
    intro ctx h
    rw [processAfter_eq_none_iff.mpr hends]
    rfl
  constructor
  · intro hretrieved
    obtain ⟨before, call, later, rfl, hcall, hlives⟩ := Process.exists_first_end hends
    refine ⟨before, call, later, rfl, hcall, List.eq_nil_iff_forall_not_mem.mpr fun v hv => ?_⟩
    -- an object stored before would have to be answered
    obtain ⟨⟨ctx, stored⟩, hmem, hstored⟩ := List.mem_filterMap.mp hv
    obtain ⟨earlier, between, rfl⟩ := List.append_of_mem hmem
    obtain ⟨hearlier, -⟩ := List.forall_mem_append.mp hlives
    obtain ⟨body, rfl, hanswer⟩ := @answer_of_stored hash node coerce _ v hstored
      (earlier.foldl (Storage.after hash node coerce) .empty)
    obtain ⟨w, -, hw⟩ := hretrieved earlier ctx body (between ++ call :: later) _ (by simp) <| by
      rw [processAfter_eq_some_iff.mpr ⟨hearlier, rfl⟩]
      exact hanswer
    cases (hgone ctx _).symm.trans (hw ctx)
  · intro h before ctx body later hash_id hsplit hanswer
    obtain ⟨pre, call, post, hpre, hcall, hempty⟩ := h
    cases hprocess : processAfter hash node coerce before with
    | none =>
      rw [hprocess] at hanswer
      cases hanswer
    | some STORE =>
      rw [hprocess, Process.answer_some] at hanswer
      obtain ⟨v, hstored, -⟩ := stored_of_answer hanswer
      obtain ⟨hbefore, -⟩ := processAfter_eq_some_iff.mp hprocess
      have hanswered : ¬ EndsProcess node coerce (ctx, .store body) := by
        intro hend
        rw [(serve_eq_none_iff STORE _).mpr hend] at hanswer
        cases hanswer
      -- the process has ended later, so the object has been stored before
      have hmem : (ctx, Call.store body) ∈ pre :=
        Process.mem_of_not_ends (hsplit.symm.trans hpre) hcall hbefore hanswered
      have hv : v ∈ submitted node coerce pre := List.mem_filterMap.mpr ⟨_, hmem, hstored⟩
      rw [hempty] at hv
      cases hv

/-- **When the store keeps its integrity.**  After any calls, what is answered
under a name is sound, and every object is retrieved, exactly when no call ends the process
and the name is none that an object inherits, or a call ends the process before anything
has been stored. -/
theorem integrity_iff (calls : List (Context × Call)) (h : JsString)
    (hfree : CollisionFree hash ((submitted node coerce calls).map text)) :
    (Sound hash node coerce (submitted node coerce calls)
          (processAfter hash node coerce calls) h ∧
        Retrieved hash node coerce calls) ↔
      ((∀ call ∈ calls, ¬ EndsProcess node coerce call) ∧ h ∉ objectPrototype) ∨
        ∃ before call later, calls = before ++ call :: later ∧ EndsProcess node coerce call ∧
          submitted node coerce before = [] := by
  by_cases hlives : ∀ call ∈ calls, ¬ EndsProcess node coerce call
  · have hprocess := (@processAfter_eq_some_iff hash node coerce calls _).mpr ⟨hlives, rfl⟩
    rw [hprocess, sound_iff (addressed_processAfter hprocess)]
    rw [and_iff_left (retrieved hlives hfree), and_iff_right hlives]
    refine ⟨.inl, fun h => h.resolve_right fun h => ?_⟩
    obtain ⟨before, call, later, rfl, hcall, -⟩ := h
    exact hlives call (List.mem_append_right _ List.mem_cons_self) hcall
  · rw [or_iff_right fun h => hlives h.1]
    push Not at hlives
    rw [retrieved_of_ends_iff hlives, processAfter_eq_none_iff.mpr hlives]
    exact and_iff_right fun ctx reply hreply => nomatch hreply

/-! ## Known names -/

/-- One object is stored. -/
def knownCalls : List (Context × Call) :=
  [({ knownNodes := .empty, clock := 7 }, .store (.json knownBody))]

theorem stored_known : stored knownNode knownCoercions
    ({ knownNodes := .empty, clock := 7 }, .store (.json knownBody)) = some knownBody := by
  have hplain : field knownBody "version" ≠ some (.str RoutingPacket.routingVersion) := nofun
  simp only [stored, parse_plain hplain]
  rfl

theorem integrity_known :
    Sound knownHash knownNode knownCoercions (submitted knownNode knownCoercions knownCalls)
        (processAfter knownHash knownNode knownCoercions knownCalls)
        (generateHash knownHash knownBody) ∧
      Retrieved knownHash knownNode knownCoercions knownCalls := by
  refine (integrity_iff knownCalls _ ?_).mpr (.inl ⟨?_, toHex_notMem_objectPrototype _⟩)
  · rw [show submitted knownNode knownCoercions knownCalls = [knownBody] from
      List.filterMap_cons_some stored_known]
    rintro x hx y hy -
    rw [List.mem_singleton.mp hx, List.mem_singleton.mp hy]
  · intro call hcall hends
    obtain ⟨body, hbody, e, he⟩ := hends
    rw [List.mem_singleton.mp hcall] at hbody he
    have hplain : field knownBody "version" ≠ some (.str RoutingPacket.routingVersion) := nofun
    rcases hbody with hbody | hbody
    · rw [← Call.store.inj hbody, parse_plain hplain] at he
      cases he
    · cases hbody

/-- **What has never been stored is found, and what has been stored is lost.**  Nothing has
been stored, and `/cas/get/constructor` is answered 200, without a body.  And an object is
not given back after a packet of a node with a garbled key. -/
theorem integrity_fails :
    Process.answer (serve knownHash knownNode knownCoercions)
          (processAfter knownHash knownNode knownCoercions [])
          (garbledContext, .get (js "constructor"))
        = some { status := 200, body := none } ∧
      ¬ Sound knownHash knownNode knownCoercions (submitted knownNode knownCoercions [])
        (processAfter knownHash knownNode knownCoercions []) (js "constructor") ∧
      ¬ Retrieved knownHash knownNode knownCoercions
        (knownCalls ++ [(garbledContext, .store (.json garbledPacket))]) := by
  refine ⟨rfl, fun hsound => ?_, fun hretrieved => ?_⟩
  · obtain ⟨v, hv, -⟩ := hsound garbledContext _ rfl rfl
    cases hv
  · have hends : EndsProcess knownNode knownCoercions
        (garbledContext, .store (.json garbledPacket)) := ⟨_, .inl rfl, fatal_garbled rfl⟩
    obtain ⟨_, hbody, hanswer⟩ := @answer_of_stored knownHash _ _ _ _ stored_known .empty
    obtain ⟨_, -, hw⟩ := hretrieved [] _ _ _ _ rfl hanswer
    rw [processAfter_eq_none_iff.mpr ⟨_, List.mem_append_right _ List.mem_cons_self, hends⟩] at hw
    cases hw garbledContext

end NewZone.Services.Storage
