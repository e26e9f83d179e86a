import Mathlib.Logic.Function.Basic
import Dataflow.Proofs.Checking
import Dataflow.Proofs.Listing

/-!
# Dataflow.Proofs.Ledger

Stores of messages over whole runs.  A `Ledger` is a store with a record of its
past: the messages that were put into it and not taken out since, and all the
numbers that it gave.  The messages are recorded from the operations and from the
records of other stores, never from the list of a store.  The numbers are those
that the store itself announces: before each message that it gets the record asks
for the next one (`Diagnostics.nextId`), and it reads the messages of a store that
is merged to ask once for each of them (`Diagnostics.numbers`).  It reads no tally.

What each operation preserves (`Ledger.IsKept`) holds after any sequence of
operations on any number of stores (`Ledger.isKept_run`).

`Ledger.run_keeps_account` says what this means for the counts, the order of the
messages, their numbers, and for merging.
-/

namespace Dataflow

namespace Diagnostics

/-- The numbers that some messages get when they are added one after the
other. -/
def numbers (store : Diagnostics) : List Diagnostic → List DiagnosticId
  | [] => []
  | diagnostic :: diagnostics => store.nextId :: (store.add diagnostic).numbers diagnostics

theorem numbers_append (store : Diagnostics) (first second : List Diagnostic) :
    store.numbers (first ++ second) =
      store.numbers first ++ (store.addAll first).numbers second := by
  induction first generalizing store with
  | nil => rfl
  | cons diagnostic first ih =>
    rw [List.cons_append, numbers, numbers, ih, List.cons_append]
    rfl

theorem merge_assoc (store first second : Diagnostics) :
    (store.merge first).merge second = store.merge (first.merge second) := by
  rw [merge, merge, merge, messages_merge, addAll_append]

end Diagnostics

/-- A store and a record of its past. -/
structure Ledger where
  store : Diagnostics := ∅
  /-- The messages that were put into the store and not taken out since. -/
  held : List Diagnostic := []
  /-- The numbers that the store gave, or the one of which it is a copy, in the
  order in which they were given. -/
  issued : List DiagnosticId := []

/-- An operation on one of many stores, or on two of them. -/
inductive StoreStep where
  /-- Add a message. -/
  | add (place : Nat) (diagnostic : Diagnostic)
  /-- Add a message from validation. -/
  | accept (place : Nat) (severity : Severity) (title : String) (location : Location)
  /-- Move the messages of another store, which is used up, behind those of a
  store. -/
  | merge (place other : Nat)
  /-- Put a copy of a store in the place of another. -/
  | clone (place copy : Nat)
  /-- Take the messages out of a store. -/
  | drain (place : Nat)
  deriving DecidableEq, Repr

namespace Ledger

def add (ledger : Ledger) (diagnostic : Diagnostic) : Ledger where
  store := ledger.store.add diagnostic
  held := ledger.held ++ [diagnostic]
  issued := ledger.issued ++ [ledger.store.nextId]

def accept (ledger : Ledger) (severity : Severity) (title : String) (location : Location) :
    Ledger where
  store := ledger.store.accept severity title location
  held := ledger.held ++ [⟨.validation, severity, location.span, some location.node,
    location.property, title, []⟩]
  issued := ledger.issued ++ [ledger.store.nextId]

def merge (ledger other : Ledger) : Ledger where
  store := ledger.store.merge other.store
  held := ledger.held ++ other.held
  issued := ledger.issued ++ ledger.store.numbers other.store.messages

def drained (ledger : Ledger) : Ledger where
  store := ledger.store.drained
  issued := ledger.issued

/-- What an operation does to the stores. -/
def step (ledgers : Nat → Ledger) : StoreStep → Nat → Ledger
  | .add place diagnostic => Function.update ledgers place ((ledgers place).add diagnostic)
  | .accept place severity title location =>
    Function.update ledgers place ((ledgers place).accept severity title location)
  | .merge place other =>
    Function.update (Function.update ledgers other {}) place
      ((ledgers place).merge (ledgers other))
  | .clone place copy => Function.update ledgers copy (ledgers place)
  | .drain place => Function.update ledgers place (ledgers place).drained

/-- The stores after some operations; at first they are empty. -/
def run (steps : List StoreStep) : Nat → Ledger := steps.foldl step fun _ => {}

/-! ## What is preserved -/

/-- The store agrees with the record of its past: it has the messages that were
put into it, counts them, and gave the numbers in increasing order. -/
structure IsKept (ledger : Ledger) : Prop where
  messages : ledger.store.messages = ledger.held
  tally : ∀ severity, ledger.store.tally.get severity =
    (ledger.held.filter (·.severity = severity)).length
  numbered : (ledger.store.toList.map (·.1)).Sublist ledger.issued
  increasing : ledger.issued.Pairwise (· < ·)
  lt_nextId : ∀ id ∈ ledger.issued, id < ledger.store.nextId

theorem isKept_empty : IsKept {} where
  messages := rfl
  tally severity := by cases severity <;> rfl
  numbered := .refl []
  increasing := .nil
  lt_nextId _ h := absurd h List.not_mem_nil

namespace IsKept

variable {ledger other : Ledger}

theorem add (h : ledger.IsKept) (diagnostic : Diagnostic) : (ledger.add diagnostic).IsKept where
  messages := by
    show (ledger.store.add diagnostic).messages = ledger.held ++ [diagnostic]
    rw [Diagnostics.messages_add, h.messages]
  tally severity := by
    show (ledger.store.tally.count diagnostic.severity).get severity =
      ((ledger.held ++ [diagnostic]).filter (·.severity = severity)).length
    rw [Tally.get_count, h.tally, List.filter_append, List.length_append]
    by_cases hseverity : diagnostic.severity = severity <;> simp [hseverity]
  numbered := by
    show ((ledger.store.add diagnostic).toList.map (·.1)).Sublist
      (ledger.issued ++ [ledger.store.nextId])
    rw [Diagnostics.toList_add, List.map_append]
    exact h.numbered.append (.refl _)
  increasing := by
    refine List.pairwise_append.mpr ⟨h.increasing, List.pairwise_singleton _ _, ?_⟩
    intro id hid last hlast
    rw [List.mem_singleton.mp hlast]
    exact h.lt_nextId id hid
  lt_nextId := by
    intro id hid
    show id < ledger.store.nextId + 1
    obtain hid | hid := List.mem_append.mp hid
    · exact Nat.lt_succ_of_lt (h.lt_nextId id hid)
    · rw [List.mem_singleton.mp hid]
      exact Nat.lt_succ_self _

theorem drained (h : ledger.IsKept) : ledger.drained.IsKept where
  messages := rfl
  tally severity := by cases severity <;> rfl
  numbered := List.nil_sublist _
  increasing := h.increasing
  lt_nextId := h.lt_nextId

theorem foldl_add (h : ledger.IsKept) (diagnostics : List Diagnostic) :
    (diagnostics.foldl Ledger.add ledger).IsKept := by
  induction diagnostics generalizing ledger with
  | nil => exact h
  | cons diagnostic diagnostics ih => exact ih (h.add diagnostic)

end IsKept

/-- Adding messages one after the other. -/
theorem foldl_add_eq (ledger : Ledger) (diagnostics : List Diagnostic) :
    diagnostics.foldl add ledger = {
      store := ledger.store.addAll diagnostics
      held := ledger.held ++ diagnostics
      issued := ledger.issued ++ ledger.store.numbers diagnostics } := by
  induction diagnostics generalizing ledger with
  | nil => simp [Diagnostics.addAll, Diagnostics.numbers]
  | cons diagnostic diagnostics ih =>
    rw [List.foldl_cons, ih, Diagnostics.numbers]
    simp [add, Diagnostics.addAll]

/-- To merge a store is to add its messages. -/
theorem IsKept.merge {ledger other : Ledger} (h : ledger.IsKept) (hother : other.IsKept) :
    (ledger.merge other).IsKept := by
  have heq : ledger.merge other = other.held.foldl Ledger.add ledger := by
    rw [foldl_add_eq, Ledger.merge, Diagnostics.merge, hother.messages]
  rw [heq]
  exact h.foldl_add other.held

theorem isKept_update {ledgers : Nat → Ledger} (h : ∀ place, (ledgers place).IsKept) {changed : Nat}
    {ledger : Ledger} (hledger : ledger.IsKept) (place : Nat) :
    (Function.update ledgers changed ledger place).IsKept := by
  by_cases heq : place = changed
  · subst heq
    rwa [Function.update_self]
  · rw [Function.update_of_ne heq]
    exact h place

theorem isKept_step {ledgers : Nat → Ledger} (h : ∀ place, (ledgers place).IsKept)
    (operation : StoreStep) : ∀ place, (step ledgers operation place).IsKept := by
  cases operation with
  | add place diagnostic => exact isKept_update h ((h place).add diagnostic)
  | accept place severity title location =>
    exact isKept_update h ((h place).add (.at .validation severity location title))
  | merge place other =>
    exact isKept_update (isKept_update h isKept_empty) ((h place).merge (h other))
  | clone place copy => exact isKept_update h (h place)
  | drain place => exact isKept_update h (h place).drained

/-- Every store agrees with the record of its past after any operations. -/
theorem isKept_run (steps : List StoreStep) (place : Nat) : (run steps place).IsKept := by
  have hrun : ∀ (steps : List StoreStep) (ledgers : Nat → Ledger),
      (∀ place, (ledgers place).IsKept) → ∀ place, (steps.foldl step ledgers place).IsKept := by
    intro steps
    induction steps with
    | nil => exact fun _ h => h
    | cons operation steps ih => exact fun _ h => ih _ (isKept_step h operation)
  exact hrun steps _ (fun _ => isKept_empty) place

/-! ## What follows -/

theorem merge_assoc (ledger first second : Ledger) :
    (ledger.merge first).merge second = ledger.merge (first.merge second) := by
  simp only [merge, Diagnostics.merge_assoc, Diagnostics.messages_merge,
    Diagnostics.numbers_append, List.append_assoc]
  rfl

/-- Every message is counted under one of the three severities. -/
theorem IsKept.size_eq {ledger : Ledger} (h : ledger.IsKept) :
    ledger.store.size =
      ledger.store.tally.errors + ledger.store.tally.warnings + ledger.store.tally.infos := by
  have hsize : ledger.store.size = ledger.held.length := by
    rw [← h.messages, Diagnostics.messages, List.length_map, Diagnostics.toList,
      Array.length_toList, Diagnostics.size]
  have htally : ledger.store.tally.errors + ledger.store.tally.warnings +
      ledger.store.tally.infos = (ledger.held.filter (·.severity = .error)).length +
        (ledger.held.filter (·.severity = .warning)).length +
          (ledger.held.filter (·.severity = .info)).length := by
    rw [← h.tally, ← h.tally, ← h.tally]
    rfl
  rw [hsize, htally]
  induction ledger.held with
  | nil => rfl
  | cons diagnostic held ih =>
    cases hseverity : diagnostic.severity <;> simp [hseverity, ih] <;> lia

/-- After any operations on any number of stores, each store counts its messages
by severity, lists them in the order in which they were put into it, under
increasing numbers, and has given its numbers in increasing order, also if it
was drained in between or is a copy.  A store that is merged into another goes
behind what was there, which keeps its numbers, under the next numbers, and it
does not matter whether two stores are merged one after the other or first with
each other. -/
theorem run_keeps_account (steps : List StoreStep) :
    (∀ place,
      (∀ severity, (run steps place).store.tally.get severity =
        ((run steps place).store.messages.filter (·.severity = severity)).length) ∧
      ((run steps place).store.isPerfect = true ↔
        ∀ diagnostic ∈ (run steps place).store.messages,
          diagnostic.severity ≠ .error ∧ diagnostic.severity ≠ .warning) ∧
      (run steps place).store.size = (run steps place).store.tally.errors +
        (run steps place).store.tally.warnings + (run steps place).store.tally.infos ∧
      (run steps place).store.messages = (run steps place).held ∧
      ((run steps place).store.toList.map (·.1)).Pairwise (· < ·) ∧
      (Std.ExtTreeMap.ofList (run steps place).store.toList compare).toList =
        (run steps place).store.toList ∧
      (∀ entry ∈ (run steps place).store.toList, entry.1 ∈ (run steps place).issued) ∧
      (run steps place).issued.Pairwise (· < ·) ∧
      ∀ id ∈ (run steps place).issued, id < (run steps place).store.nextId) ∧
    (∀ place other,
      ((run steps place).store.merge (run steps other).store).toList =
        (run steps place).store.toList ++
          (run steps other).store.messages.mapIdx fun position diagnostic =>
            ((run steps place).store.nextId + position, diagnostic)) ∧
    ∀ place first second,
      ((run steps place).merge (run steps first)).merge (run steps second) =
        (run steps place).merge ((run steps first).merge (run steps second)) := by
  refine ⟨?_, ?_, ?_⟩
  · intro place
    have hkept := isKept_run steps place
    have htally : ∀ severity, (run steps place).store.tally.get severity =
        ((run steps place).store.messages.filter (·.severity = severity)).length := by
      rw [hkept.messages]
      exact hkept.tally
    have hincreasing := hkept.increasing.sublist hkept.numbered
    refine ⟨htally, ?_, hkept.size_eq, hkept.messages, hincreasing,
      toList_ofList (List.pairwise_map.mp hincreasing), ?_, hkept.increasing, hkept.lt_nextId⟩
    · rw [Diagnostics.isPerfect_iff_of_tally htally]
      refine forall₂_congr ?_
      intro diagnostic _
      cases diagnostic.severity <;> simp
    · intro entry hmem
      exact hkept.numbered.subset (List.mem_map_of_mem hmem)
  · intro place other
    rw [Diagnostics.merge, Diagnostics.toList_addAll]
    simp only [Diagnostics.nextId, Nat.add_right_comm]
  · intro place first second
    exact merge_assoc _ _ _

/-- A store is copied, and the copy gets a message from validation.  The store itself is
drained, gets another message, and then takes over those of the copy. -/
def copiedAndDrained : List StoreStep := [
  .add 0 ⟨.name, .error, ⟨1, 4, 9⟩, some 3, some .dataType, "unknown type", []⟩,
  .clone 0 1,
  .accept 1 .warning "expression has no type" ⟨5, none, ⟨1, 12, 15⟩⟩,
  .drain 0,
  .add 0 ⟨.validation, .info, .origin 2, none, none, "empty document", []⟩,
  .merge 0 1]

theorem run_keeps_account_copiedAndDrained :
    (run copiedAndDrained 0).held.map (·.title) =
      ["empty document", "unknown type", "expression has no type"] ∧
    (run copiedAndDrained 0).store.messages = (run copiedAndDrained 0).held ∧
    (run copiedAndDrained 0).issued = [1, 2, 3, 4] ∧
    (run copiedAndDrained 0).store.toList.map (·.1) = [2, 3, 4] ∧
    (run copiedAndDrained 0).store.nextId = 5 ∧
    (∀ severity, (run copiedAndDrained 0).store.tally.get severity = 1) ∧
    (run copiedAndDrained 0).store.isPerfect = false ∧
    (run copiedAndDrained 1).held = [] ∧ (run copiedAndDrained 1).issued = [] := by
  obtain ⟨hstores, _, _⟩ := run_keeps_account copiedAndDrained
  obtain ⟨htally, hperfect, _, hmessages, _⟩ := hstores 0
  refine ⟨rfl, hmessages, rfl, rfl, rfl, ?_, ?_, rfl, rfl⟩
  · intro severity
    rw [htally, hmessages]
    cases severity <;> rfl
  · rw [Bool.eq_false_iff, ne_eq, hperfect, hmessages]
    decide

end Ledger

end Dataflow
