import Dataflow.Id

/-!
# Dataflow.Reference.Slot

A reference stands in a *slot* of a node: the place of the node's syntax that
names a declaration.  A slot together with its node is a *site*.

Sites are ordered by node and then by slot, through the injective number
`Site.rank`; this is the order in which a table of targets is listed.
-/

namespace Dataflow

/-! ## Slots -/

/-- The places of a node that name a declaration. -/
inductive Slot where
  /-- The type parameter named by a type. -/
  | typeParameter
  /-- The data or node type named by a type application. -/
  | dataType
  /-- The interface that a node type conforms to. -/
  | iface
  /-- The node type that an instance source instantiates. -/
  | nodeDef
  /-- The port of the enclosing node type that an instance source re-exposes. -/
  | sourcePort
  /-- The instance in `a.port`. -/
  | instanceRef
  /-- The port in `a.port`. -/
  | nodePort
  /-- The port in `self.port`. -/
  | selfPort
  /-- The constructor of a constructor application. -/
  | constructor
  /-- The definition of a used match variable. -/
  | matchVariable
  deriving DecidableEq, Repr

namespace Slot

/-- The name of the property that holds the reference. -/
def property : Slot → String
  | typeParameter => "typeParameter"
  | dataType => "dataType"
  | iface => "iface"
  | nodeDef => "nodeDef"
  | sourcePort | nodePort | selfPort => "portRef"
  | instanceRef => "instanceRef"
  | constructor => "constructor"
  | matchVariable => "variable"

/-- What kind of declaration the slot refers to, in words. -/
def target : Slot → String
  | typeParameter => "type parameter"
  | dataType => "type"
  | iface | nodeDef => "node type"
  | sourcePort | nodePort | selfPort => "port"
  | instanceRef => "instance"
  | constructor => "constructor"
  | matchVariable => "match variable"

/-- The place of a slot among the slots of a node. -/
def rank : Slot → Nat
  | typeParameter => 0
  | dataType => 1
  | iface => 2
  | nodeDef => 3
  | sourcePort => 4
  | instanceRef => 5
  | nodePort => 6
  | selfPort => 7
  | constructor => 8
  | matchVariable => 9

theorem rank_lt (slot : Slot) : slot.rank < 10 := by
  cases slot <;> decide

theorem rank_inj {a b : Slot} : a.rank = b.rank ↔ a = b := by
  cases a <;> cases b <;> decide

end Slot

/-! ## Sites -/

/-- One slot of one node. -/
structure Site where
  node : NodeId
  slot : Slot
  deriving DecidableEq, Repr

namespace Site

/-- The place of a site in the order by node and then by slot. -/
def rank (site : Site) : Nat := 10 * site.node + site.slot.rank

theorem rank_inj {a b : Site} : a.rank = b.rank ↔ a = b := by
  constructor
  · intro h
    have ha := a.slot.rank_lt
    have hb := b.slot.rank_lt
    simp only [rank] at h
    have hnode : a.node = b.node := by lia
    have hslot : a.slot = b.slot := Slot.rank_inj.mp (by lia)
    cases a; cases b; simp_all
  · rintro rfl; rfl

instance : Ord Site where
  compare a b := compare a.rank b.rank

theorem compare_def (a b : Site) : compare a b = compare a.rank b.rank := rfl

instance : Std.TransOrd Site where
  eq_swap := by
    intro a b
    simp only [compare_def, Nat.compare_swap]
  isLE_trans := by
    intro a b c
    simp only [compare_def, Nat.isLE_compare]
    exact Nat.le_trans

instance : Std.LawfulEqOrd Site where
  compare_self := by
    intro a
    simp only [compare_def, Nat.compare_eq_eq]
  eq_of_compare := by
    intro a b
    simp only [compare_def, Nat.compare_eq_eq]
    exact rank_inj.mp

end Site

end Dataflow
