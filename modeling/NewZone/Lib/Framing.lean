import Mathlib.Data.List.Basic

/-!
# Frames

A frame puts a fixed front, a tag and the length of a context in front of the
context and a message.  As long as lengths are told apart by their octets, the
parts can be read back (`frame_inj`), wherever the context ends and the message
begins.
-/

namespace NewZone.Framing

variable {α : Type*}

/-- A message in a context, under a tag. -/
def frame (front : List α) (octet : ℕ → α) (tag : α) (context message : List α) : List α :=
  front ++ tag :: octet context.length :: (context ++ message)

/-- A frame determines its tag, its context and its message. -/
theorem frame_inj {front : List α} {octet : ℕ → α} {bound : ℕ}
    (hoctet : ∀ m n, m ≤ bound → n ≤ bound → octet m = octet n → m = n) {tag tag' : α}
    {context context' message message' : List α} (hcontext : context.length ≤ bound)
    (hcontext' : context'.length ≤ bound)
    (h : frame front octet tag context message = frame front octet tag' context' message') :
    tag = tag' ∧ context = context' ∧ message = message' := by
  obtain ⟨htag, h⟩ := List.cons.inj (List.append_cancel_left h)
  obtain ⟨hlength, h⟩ := List.cons.inj h
  have hlength := hoctet _ _ hcontext hcontext' hlength
  obtain ⟨hctx, hmessage⟩ := List.append_inj h hlength
  exact ⟨htag, hctx, hmessage⟩

end NewZone.Framing
