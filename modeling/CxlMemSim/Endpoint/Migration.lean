import CxlMemSim.Endpoint.Topology
import CxlMemSim.Lib.SortedMap
import Mathlib.Algebra.BigOperators.Group.Finset.Basic

/-! `CXLController::perform_migration` moves addresses of the list that the migration policy gives it between the
controller and its expanders. -/
namespace CxlMemSim.Endpoint
open Device List

mutual

def CXLSwitch.findInSwitch (store : Store) (addr : UInt64) : CXLSwitch → Option Ref
  | .mk expanders switches =>
    match expanders.find? fun r => (store r).Occupied addr with
    | some r => some r
    | none => findInSwitches store addr switches

def findInSwitches (store : Store) (addr : UInt64) : List CXLSwitch → Option Ref
  | [] => none
  | sw :: rest =>
    match sw.findInSwitch store addr with
    | some r => some r
    | none => findInSwitches store addr rest

end

structure Controller where
  tree : CXLSwitch
  store : Store
  occupation : SortedMap UInt64 OccupationInfo
  lastTimestamp : UInt64

/-- `getMigrationList` is that of the class of the object; the base class has an empty list. -/
structure MigrationPolicy where
  getMigrationList : Controller → List (UInt64 × UInt64) := fun _ => []

/-- The policy as a call through `MigrationPolicy *` sees it: `get_migration_list` is not virtual. -/
def MigrationPolicy.asBase (_ : MigrationPolicy) : MigrationPolicy := {}

namespace Controller
variable (c : Controller)

def source (addr : UInt64) : Option Ref :=
  match c.tree.expanders.find? fun r => (c.store r).Occupied addr with
  | some r => some r
  | none => c.tree.findInSwitch c.store addr

def migrate (item : UInt64 × UInt64) : Controller :=
  let addr := item.1
  match c.occupation.entries.find? fun e => e.2.address = addr with
  | some e =>
    match c.tree.expanders with
    | dst :: _ =>
      { c with
        store := c.store.modify dst (migrateIn e.2)
        occupation := c.occupation.eraseFirst fun info => info.address = addr }
    | [] => c
  | none =>
    match c.source addr with
    | some src =>
      match (c.store src).expander.occupation.find? fun info => info.address = addr with
      | some info =>
        { c with
          store := c.store.modify src (migrateOut addr)
          occupation := c.occupation.emplace c.lastTimestamp info }
      | none => c
    | none => c

def performMigration : Option MigrationPolicy → Controller
  | none => c
  | some migrationPolicy => (migrationPolicy.asBase.getMigrationList c).foldl migrate c

end Controller

def Device.addresses (d : Device) : Multiset UInt64 := d.expander.occupation.map OccupationInfo.address

namespace Controller

def held (c : Controller) : Multiset UInt64 :=
  c.occupation.values.map OccupationInfo.address + ∑ r ∈ c.tree.refs.toFinset, (c.store r).addresses

/-- Whatever list the policy's own class has, no address is lost or added: the list of the base class is used. -/
theorem held_performMigration (c : Controller) (migrationPolicy : Option MigrationPolicy) :
    (c.performMigration migrationPolicy).held = c.held := by
  cases migrationPolicy with
  | none => rfl
  | some migrationPolicy =>
    have nothing : migrationPolicy.asBase.getMigrationList c = [] := rfl
    rw [performMigration, nothing, foldl_nil]

end Controller
end CxlMemSim.Endpoint
