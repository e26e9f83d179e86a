import Dataflow.Diagnostic.Basic

/-!
# Dataflow.Diagnostic.Store

The messages of a run.  Every message gets a number, counting from 1, and is
listed in the order of the numbers; a number is never given twice, not even
after the store was drained.  How many messages there are of each severity is
kept beside the list (`tally`).
-/

namespace Dataflow

/-- The number of a message. -/
abbrev DiagnosticId := Nat

/-- How many messages there are of each severity. -/
structure Tally where
  errors : Nat := 0
  warnings : Nat := 0
  infos : Nat := 0
  deriving DecidableEq, Repr

namespace Tally

/-- Count one more message. -/
def count (tally : Tally) : Severity → Tally
  | .error => { tally with errors := tally.errors + 1 }
  | .warning => { tally with warnings := tally.warnings + 1 }
  | .info => { tally with infos := tally.infos + 1 }

/-- The count for one severity. -/
def get (tally : Tally) : Severity → Nat
  | .error => tally.errors
  | .warning => tally.warnings
  | .info => tally.infos

theorem get_count (tally : Tally) (counted severity : Severity) :
    (tally.count counted).get severity =
      tally.get severity + if counted = severity then 1 else 0 := by
  cases counted <;> cases severity <;> rfl

end Tally

/-- Numbered messages. -/
structure Diagnostics where
  entries : Array (DiagnosticId × Diagnostic) := #[]
  /-- The last number that was given. -/
  counter : Nat := 0
  tally : Tally := {}
  deriving DecidableEq, Repr

namespace Diagnostics

/-- No messages. -/
def empty : Diagnostics := {}

instance : EmptyCollection Diagnostics := ⟨empty⟩

/-- The number that the next message will have. -/
def nextId (store : Diagnostics) : DiagnosticId := store.counter + 1

/-- Add a message; its number is `nextId`. -/
def add (store : Diagnostics) (diagnostic : Diagnostic) : Diagnostics where
  entries := store.entries.push (store.nextId, diagnostic)
  counter := store.nextId
  tally := store.tally.count diagnostic.severity

/-- Add some messages in order. -/
def addAll (store : Diagnostics) (diagnostics : List Diagnostic) : Diagnostics :=
  diagnostics.foldl add store

/-- Add a message from validation. -/
def accept (store : Diagnostics) (severity : Severity) (title : String) (location : Location) :
    Diagnostics :=
  store.add (.at .validation severity location title)

/-- The messages with their numbers, in order. -/
def toList (store : Diagnostics) : List (DiagnosticId × Diagnostic) := store.entries.toList

/-- The messages, in order. -/
def messages (store : Diagnostics) : List Diagnostic := store.toList.map (·.2)

/-- The number of messages. -/
def size (store : Diagnostics) : Nat := store.entries.size

/-- Whether there is neither an error nor a warning. -/
def isPerfect (store : Diagnostics) : Bool :=
  store.tally.errors == 0 && store.tally.warnings == 0

/-- The messages that point at a node. -/
def atNode (store : Diagnostics) (node : NodeId) : List Diagnostic :=
  store.messages.filter (·.node = some node)

/-- The store after its messages were taken out.  Numbers go on counting. -/
def drained (store : Diagnostics) : Diagnostics where
  counter := store.counter

/-- Move the messages of another store behind those of this one, under new
numbers. -/
def merge (store other : Diagnostics) : Diagnostics := store.addAll other.messages

/-! ## Reading back -/

@[simp] theorem toList_add (store : Diagnostics) (diagnostic : Diagnostic) :
    (store.add diagnostic).toList = store.toList ++ [(store.nextId, diagnostic)] := by
  simp [toList, add]

@[simp] theorem messages_empty : (∅ : Diagnostics).messages = [] := rfl

@[simp] theorem messages_add (store : Diagnostics) (diagnostic : Diagnostic) :
    (store.add diagnostic).messages = store.messages ++ [diagnostic] := by
  simp [messages]

@[simp] theorem messages_addAll (store : Diagnostics) (diagnostics : List Diagnostic) :
    (store.addAll diagnostics).messages = store.messages ++ diagnostics := by
  induction diagnostics generalizing store with
  | nil => simp [addAll]
  | cons diagnostic diagnostics ih =>
    rw [addAll, List.foldl_cons, ← addAll, ih, messages_add]
    simp

@[simp] theorem messages_merge (store other : Diagnostics) :
    (store.merge other).messages = store.messages ++ other.messages :=
  messages_addAll store other.messages

end Diagnostics

end Dataflow
