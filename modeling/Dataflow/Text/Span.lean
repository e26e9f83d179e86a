import Dataflow.Id
import Dataflow.Halt

/-!
# Dataflow.Text.Span

A span is a stretch of one source text, given by two byte offsets.  Spans of
one source join to the smallest stretch that covers both (`Span.join`); spans
of different sources do not join.  Spans are ordered by source, then by start,
then by end (`Span.le`).

The offsets are not required to be in order: `start` may lie behind `stop`.
-/

namespace Dataflow

/-- A stretch of the text of `source`, from byte `start` up to byte `stop`. -/
structure Span where
  source : SourceId
  start : Nat
  stop : Nat
  deriving DecidableEq, Repr

namespace Span

/-! ## Joining -/

/-- The empty stretch at the beginning of a source. -/
def origin (source : SourceId) : Span := ⟨source, 0, 0⟩

/-- The smallest stretch that covers two spans of one source. -/
def join (a b : Span) : Result Span :=
  if a.source = b.source then
    .ok ⟨a.source, min a.start b.start, max a.stop b.stop⟩
  else
    abort (.mixedSources a.source b.source)

/-- Join a list of spans from left to right onto the first. -/
def joinAll (first : Span) (rest : List Span) : Result Span := rest.foldlM join first

theorem join_of_source_eq {a b : Span} (h : a.source = b.source) :
    a.join b = .ok ⟨a.source, min a.start b.start, max a.stop b.stop⟩ := by
  simp [join, h]

/-! ## Order -/

/-- The order of spans: by source, then by start, then by end. -/
def le (a b : Span) : Bool :=
  a.source < b.source ||
    a.source == b.source && (a.start < b.start || a.start == b.start && a.stop ≤ b.stop)

/-- The spans in order, each of them once. -/
def distinct (spans : List Span) : List Span := (spans.mergeSort le).eraseReps

end Span

end Dataflow
