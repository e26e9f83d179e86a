import Std.Data.ExtTreeMap
import Dataflow.Reference.Slot

/-!
# Dataflow.Reference.Links

The table of resolved references: which declaration each bound site refers
to.  The table is determined by its targets (`Links.ext_target`), and it is
listed by node and then by slot (`Links.toList`).
-/

namespace Dataflow

/-- The targets of the bound sites. -/
structure Links where
  targets : Std.ExtTreeMap Site NodeId compare := ∅

namespace Links

/-- No site is bound. -/
def empty : Links := {}

instance : EmptyCollection Links := ⟨empty⟩

instance : Inhabited Links := ⟨empty⟩

/-- What a site is bound to. -/
def get? (links : Links) (site : Site) : Option NodeId := links.targets[site]?

/-- What the reference in a slot of a node is bound to. -/
def target (links : Links) (node : NodeId) (slot : Slot) : Option NodeId :=
  links.get? ⟨node, slot⟩

/-- Bind a site, whether or not it was bound before. -/
def bind (links : Links) (site : Site) (target : NodeId) : Links :=
  ⟨links.targets.insert site target⟩

/-- The number of bound sites. -/
def size (links : Links) : Nat := links.targets.size

/-- The bound sites with their targets, by node and then by slot. -/
def toList (links : Links) : List (Site × NodeId) := links.targets.toList

/-! ## Reading back -/

@[ext] theorem ext_target {a b : Links} (h : ∀ site, a.get? site = b.get? site) : a = b := by
  obtain ⟨a⟩ := a
  obtain ⟨b⟩ := b
  exact congrArg Links.mk (Std.ExtTreeMap.ext_getElem? h)

@[simp] theorem get?_empty (site : Site) : (∅ : Links).get? site = none := by
  show (∅ : Std.ExtTreeMap Site NodeId compare)[site]? = none
  simp

@[simp] theorem get?_bind (links : Links) (site other : Site) (target : NodeId) :
    (links.bind site target).get? other =
      if site = other then some target else links.get? other := by
  simp only [get?, bind, Std.ExtTreeMap.getElem?_insert, Std.LawfulEqOrd.compare_eq_iff_eq]

theorem mem_toList {links : Links} {site : Site} {target : NodeId} :
    (site, target) ∈ links.toList ↔ links.get? site = some target :=
  Std.ExtTreeMap.mem_toList_iff_getElem?_eq_some

end Links

end Dataflow
