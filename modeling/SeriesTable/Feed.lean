import SeriesTable.Fragment
import SeriesTable.Request

/-
  Feeds: where the fragments of a request come from. A feed gives a stream for every part of a
  request; a stream is a run of fragments and the way it ends.
-/

namespace SeriesTable

/-- How a stream ends. -/
inductive Ending where
  | exhausted
  | broken (fault : Fault)
  /-- It never yields again. -/
  | never
  deriving DecidableEq, Repr

/-- A run of fragments and how it ends. -/
structure Stream where
  fragments : List Fragment
  ending : Ending
  deriving DecidableEq, Repr

/-- What a stream yields when it is asked. -/
inductive Stream.Yield where
  | fragment (f : Fragment) (rest : Stream)
  | exhausted
  | broken (fault : Fault)
  deriving DecidableEq, Repr

/-- The next yield, if there will be one. -/
def Stream.next? (s : Stream) : Option Stream.Yield :=
  match s.fragments, s.ending with
  | f :: rest, ending => some (.fragment f ⟨rest, ending⟩)
  | [], .exhausted => some .exhausted
  | [], .broken fault => some (.broken fault)
  | [], .never => none

/-- Where the fragments of every part of a request come from. -/
inductive Feed where
  /-- Held fragments. Every yield takes a while, and one source may break its streams. -/
  | stored (fragments : List Fragment) (delayMillis : Nat) (failing : Option String)
  /-- Streams that never yield. -/
  | stalled
  /-- No stream can be opened. -/
  | unopenable
  /-- Whatever comes of opening the stream for a part. -/
  | opening (opens : Request → Except Fault Stream)

namespace Feed

/-- The held fragments that a request asks for: its sources', and by their first instant in its
range. -/
def served (r : Request) (fs : List Fragment) : List Fragment :=
  fs.filter fun f => f.source ∈ r.sources ∧ r.Covers f.axis.start

/-- Fragments up to the first of a failing source, which breaks the stream. -/
def breaking (failing : Option String) (fs : List Fragment) : Stream :=
  let sound := fs.takeWhile fun f => failing ≠ some f.source
  match fs.drop sound.length with
  | [] => ⟨sound, .exhausted⟩
  | f :: _ => ⟨sound, .broken (.stream (.reset f.source))⟩

/-- The stream for a part of a request, or the fault of opening it. -/
def stream (feed : Feed) (part : Request) : Except Fault Stream :=
  match feed with
  | stored fs _ failing => .ok (breaking failing (served part fs))
  | stalled => .ok ⟨[], .never⟩
  | unopenable => .error (.stream (.unopened (part.sources.headD "")))
  | opening opens => opens part

/-- Milliseconds before every yield. -/
def delay : Feed → Nat
  | stored _ millis _ => millis
  | stalled | unopenable | opening _ => 0

end Feed

end SeriesTable
