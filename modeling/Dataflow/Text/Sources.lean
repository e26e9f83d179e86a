import Dataflow.Text.Slice
import Dataflow.Text.Span

/-!
# Dataflow.Text.Sources

The texts of the documents.  The first text is source 1, the next source 2,
and so on; a text is never removed.
-/

namespace Dataflow

/-- Source texts, in the order in which they were added. -/
structure Sources where
  texts : Array String := #[]

namespace Sources

/-- The number that the next text will have. -/
def nextId (sources : Sources) : SourceId := sources.texts.size + 1

/-- Add a text; its number is `nextId`. -/
def add (sources : Sources) (text : String) : Sources := ⟨sources.texts.push text⟩

/-- The text of a source. -/
def get? (sources : Sources) (id : SourceId) : Option String :=
  if id = 0 then none else sources.texts[id - 1]?

/-- The text that a span covers, if its source is known and both of its ends
lie between two characters, the first not behind the second. -/
def text? (sources : Sources) (span : Span) : Option String := do
  let text ← sources.get? span.source
  let part ← slice? text.toList span.start span.stop
  return String.ofList part

/-! ## Reading back -/

theorem get?_nextId (sources : Sources) : sources.get? sources.nextId = none := by
  simp [get?, nextId]

/-- A new text is found under its number, and the other sources are as they were. -/
theorem get?_add (sources : Sources) (text : String) (id : SourceId) :
    (sources.add text).get? id = if id = sources.nextId then some text else sources.get? id := by
  by_cases hid : id = sources.nextId
  · simp [get?, nextId, add, hid]
  · simp only [nextId] at hid
    by_cases hzero : id = 0
    · simp [get?, nextId, hzero]
    · have hne : id - 1 ≠ sources.texts.size := by lia
      simp [get?, nextId, add, hid, hzero, Array.getElem?_push, hne]

end Sources

end Dataflow
