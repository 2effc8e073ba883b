import TemplLayout.Document.Canonical
import TemplLayout.Text.Utf8

/-!
# TemplLayout.Sink

Delivering bytes to a sink that need not take them all at once.

* `Sink σ`           — what a sink with the state `σ` answers when it is offered bytes: it takes some
  of them from the front, or refuses.
* `Sink.deliver`     — offers what is left again and again, until nothing is left, the sink refuses,
  or it takes nothing.
* `Sink.bounded`     — a sink that takes so many bytes at a time, and so many in all.
* `Document.deliver` — the written document, delivered in UTF-8. It is written in full before the
  first byte is offered.
-/

namespace TemplLayout

inductive SinkFault where
  | refused (reason : String)
  | tookNothing
deriving DecidableEq, Repr

def SinkFault.message : SinkFault → String
  | .refused reason => reason
  | .tookNothing => "failed to write whole buffer"

structure Sink (σ : Type) where
  /-- How many of the bytes offered are taken, and the state afterwards. More than were offered
  counts as all of them. -/
  take : σ → (offered : Bytes) → Except String Nat × σ

structure Delivery where
  /-- The bytes that the sink has taken. -/
  held : Bytes
  /-- How often bytes were offered. -/
  offers : Nat
  outcome : Except SinkFault Unit

namespace Sink

variable {σ : Type}

/-- Offers `left`. The bytes taken before are `held`, latest first. -/
def deliverOnto (sink : Sink σ) (s : σ) (held : Bytes) (offers : Nat) (left : Bytes) : Delivery :=
  if _h : left = [] then ⟨held.reverse, offers, .ok ()⟩
  else
    match sink.take s left with
    | (.error reason, _) => ⟨held.reverse, offers + 1, .error (.refused reason)⟩
    | (.ok 0, _) => ⟨held.reverse, offers + 1, .error .tookNothing⟩
    | (.ok (n + 1), s') =>
      deliverOnto sink s' ((left.take (n + 1)).reverseAux held) (offers + 1) (left.drop (n + 1))
termination_by left.length
decreasing_by
  have := List.length_pos_iff.2 ‹left ≠ []›
  rw [List.length_drop]
  omega

def deliver (sink : Sink σ) (s : σ) (bytes : Bytes) : Delivery :=
  sink.deliverOnto s [] 0 bytes

/-- Takes at most `portion` bytes at a time, and refuses once it holds `limit` bytes. Its state is
the number of bytes that it holds. -/
def bounded (portion limit : Option Nat) : Sink Nat where
  take held offered :=
    if limit.any (· ≤ held) then (.error "disk full", held)
    else
      let atOnce := portion.elim offered offered.take
      let taken := (limit.elim atOnce fun l => atOnce.take (l - held)).length
      (.ok taken, held + taken)

end Sink

def Document.deliver {σ : Type} (d : Document) (sink : Sink σ) (s : σ) : Delivery :=
  sink.deliver s d.render.utf8

end TemplLayout
