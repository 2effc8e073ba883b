import TemplLayout.Segment.Basic

/-!
# TemplLayout.Segment.Reader

Reading a source segment by segment.

* `Reader`        — what is still to be read, where it stands, and whether reading has failed. It is
  a value: keeping it is all it takes to read on from there again.
* `Reader.next r` — the next segment, or the fault, or nothing, and the reader behind it.
* `Reader.drain r` — all that is still to come, and the reader behind it; `Reader.rest r` is the
  first of the two.
* `scan source`   — the segments of a source, ended by the fault if there is one.

A fault does not move the reader, and nothing follows it.
-/

namespace TemplLayout

structure Reader where
  unread : Text
  position : Position
  failed : Bool
deriving DecidableEq, Repr

namespace Reader

def ofSource (source : Text) : Reader := ⟨source, .start, false⟩

def next (r : Reader) : Option (Except Fault Segment) × Reader :=
  if r.failed || r.unread.isEmpty then (none, r)
  else
    match Piece.cut? r.unread with
    | some (piece, unread) =>
      (some (.ok (piece.placed r.position)),
        { r with unread, position := r.position.after piece.spell })
    | none => (some (.error (.unterminatedDirective r.position)), { r with failed := true })

theorem length_next_lt {r r' : Reader} {s : Segment} (h : r.next = (some (.ok s), r')) :
    r'.unread.length < r.unread.length := by
  unfold next at h
  split at h
  · cases h
  · split at h
    · rename_i hc
      cases h
      exact Piece.length_lt_of_cut? hc
    · cases h

/-- All that is still to come, and the reader behind it. -/
def drain (r : Reader) : List (Except Fault Segment) × Reader :=
  match _h : r.next with
  | (none, r') => ([], r')
  | (some (.error fault), r') => ([.error fault], r')
  | (some (.ok segment), r') =>
    let (items, last) := r'.drain
    (.ok segment :: items, last)
termination_by r.unread.length
decreasing_by exact length_next_lt (by assumption)

def rest (r : Reader) : List (Except Fault Segment) :=
  r.drain.1

theorem rest_eq (r : Reader) :
    r.rest =
      match r.next with
      | (none, _) => []
      | (some (.error fault), _) => [.error fault]
      | (some (.ok segment), r') => .ok segment :: r'.rest := by
  rw [rest, drain]
  split <;> simp_all [rest]

end Reader

def scan (source : Text) : List (Except Fault Segment) :=
  (Reader.ofSource source).rest

end TemplLayout
