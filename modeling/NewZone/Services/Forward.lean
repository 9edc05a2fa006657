import NewZone.Services.RequestBody

/-!
# Forwarding

`forward` of `services/routing/index.js`, by which the services ask each other.
It never fails: whatever happens to the request or to the answer becomes a
response of status 500, and so does the end of the service, which closes the
connection.  What is on its way may be lost, but it is neither duplicated nor
corrupted.
-/

namespace NewZone.Services

open NewZone.Js

/-- What `forward` resolves to when the connection fails. -/
def forwardError (detail : JsString) : Response :=
  { status := 500
    body := .obj [(js "error", .str (js "Forward error")), (js "detail", .str detail)] }

/-- The state of a service and what `forward` resolves to, from what the service makes of
the request. -/
def forwarded {σ : Type} (handled : σ × Option Response) : σ × Response :=
  (handled.1, handled.2.getD (forwardError (js "socket hang up")))

@[simp] theorem forwarded_some {σ : Type} (state : σ) (response : Response) :
    forwarded (state, some response) = (state, response) := rfl

/-- What is answered 200 has been answered by the service. -/
theorem forwarded_ok_iff {σ : Type} {handled : σ × Option Response} {state : σ}
    {response : Response} :
    forwarded handled = (state, response) ∧ response.status = 200 ↔
      handled = (state, some response) ∧ response.status = 200 := by
  obtain ⟨state', answer⟩ := handled
  cases answer with
  | some answer => simp [forwarded]
  | none =>
    refine iff_of_false (fun h => ?_) nofun
    obtain ⟨h, hstatus⟩ := h
    obtain rfl := (Prod.mk.inj h).2
    simp [forwardError] at hstatus

/-- What becomes of a forwarded request.  Where a service refuses it, the service
has done nothing. -/
inductive Delivery where
  | answered
  | unanswered (detail : JsString)
  | lost (detail : JsString)
  | refused (response : Response) (status : response.status ≠ 200)

namespace Delivery

/-- The service has handled the request. -/
def Arrives : Delivery → Prop
  | answered => True
  | unanswered _ => True
  | lost _ => False
  | refused _ _ => False

/-- The state of the service and what `forward` resolves to, from what the service
makes of the request. -/
def outcome {σ : Type} (delivery : Delivery) (state : σ) (handled : σ × Option Response) :
    σ × Response :=
  match delivery with
  | answered => forwarded handled
  | unanswered detail => (handled.1, forwardError detail)
  | lost detail => (state, forwardError detail)
  | refused response _ => (state, response)

variable {σ : Type} {state state' : σ} {handled : σ × Option Response}

theorem outcome_of_arrives {delivery : Delivery} (h : delivery.Arrives) :
    (delivery.outcome state handled).1 = handled.1 := by
  cases delivery with
  | answered => rfl
  | unanswered detail => rfl
  | lost detail => exact h.elim
  | refused response status => exact h.elim

theorem outcome_of_not_arrives {delivery : Delivery} (h : ¬ delivery.Arrives) :
    (delivery.outcome state handled).1 = state := by
  cases delivery with
  | answered => exact absurd trivial h
  | unanswered detail => exact absurd trivial h
  | lost detail => rfl
  | refused response status => rfl

/-- What is answered 200 has been handled and answered by the service. -/
theorem outcome_ok {delivery : Delivery} {response : Response}
    (h : delivery.outcome state handled = (state', response))
    (hstatus : response.status = 200) :
    delivery = .answered ∧ handled = (state', some response) := by
  cases delivery with
  | answered => exact ⟨rfl, (forwarded_ok_iff.mp ⟨h, hstatus⟩).1⟩
  | unanswered detail =>
    obtain rfl := (Prod.mk.inj h).2
    simp [forwardError] at hstatus
  | lost detail =>
    obtain rfl := (Prod.mk.inj h).2
    simp [forwardError] at hstatus
  | refused refusal status =>
    obtain rfl := (Prod.mk.inj h).2
    exact absurd hstatus status

end Delivery

end NewZone.Services
