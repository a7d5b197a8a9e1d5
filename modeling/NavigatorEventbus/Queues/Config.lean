import Mathlib.Data.Nat.Notation
import Mathlib.Data.Int.Notation

/-!
# Queue configuration

The declared queues of the pull plane (`queues/config.py`).  The validators of the models are fields,
so a configuration that they reject cannot be built.  Tokens and free-form metadata are left out.
-/

namespace NavigatorEventbus

theorem unset_pos : ∀ n, (none : Option ℕ) = some n → 1 ≤ n := by simp

/-- One consumer group on a queue. -/
structure QueueGroupConfig where
  name : String
  maxReceives : Option ℕ := none
  maxReceives_pos : ∀ n, maxReceives = some n → 1 ≤ n := by exact unset_pos

/-- A single pull queue. Times are in milliseconds. -/
structure QueueConfig where
  name : String
  groups : List QueueGroupConfig
  defaultVisibilityTimeoutMs : ℤ := 30000
  maxVisibilityTimeoutMs : ℤ := 3600000
  maxReceives : ℕ := 5
  maxlen : ℕ := 100000
  strictAck : Bool := true
  deleteEntries : Bool := false
  groups_ne : groups ≠ []
  groups_nodup : (groups.map QueueGroupConfig.name).Nodup
  default_nonneg : 0 ≤ defaultVisibilityTimeoutMs
  max_pos : 1 ≤ maxVisibilityTimeoutMs
  maxReceives_pos : 1 ≤ maxReceives
  maxlen_pos : 1 ≤ maxlen
  default_le_max : defaultVisibilityTimeoutMs ≤ maxVisibilityTimeoutMs
  delete_single : deleteEntries = true → groups.length ≤ 1

namespace QueueConfig

/-- The group config named `name`. -/
def group (cfg : QueueConfig) (name : String) : Option QueueGroupConfig :=
  cfg.groups.find? fun g => g.name = name

/-- Effective `max_receives` for a group. -/
def receivesCap (cfg : QueueConfig) (groupName : String) : ℕ :=
  match cfg.group groupName with
  | some g => g.maxReceives.getD cfg.maxReceives
  | none => cfg.maxReceives

theorem receivesCap_pos (cfg : QueueConfig) (groupName : String) : 1 ≤ cfg.receivesCap groupName := by
  unfold receivesCap
  cases cfg.group groupName with
  | none => exact cfg.maxReceives_pos
  | some g =>
    cases h : g.maxReceives with
    | none => simpa [h] using cfg.maxReceives_pos
    | some n => simpa [h] using g.maxReceives_pos n h

/-- A queue of one group whose leases last `10` ms. -/
def brief : QueueConfig where
  name := "orders"
  groups := [{ name := "billing" }]
  defaultVisibilityTimeoutMs := 10
  maxVisibilityTimeoutMs := 10
  groups_ne := by decide
  groups_nodup := by decide
  default_nonneg := by decide
  max_pos := by decide
  maxReceives_pos := by decide
  maxlen_pos := by decide
  default_le_max := by decide
  delete_single := by decide

/-- A queue of one group whose leases last between `100` and `200` ms. -/
def steady : QueueConfig where
  name := "orders"
  groups := [{ name := "workers" }]
  defaultVisibilityTimeoutMs := 100
  maxVisibilityTimeoutMs := 200
  groups_ne := by decide
  groups_nodup := by decide
  default_nonneg := by decide
  max_pos := by decide
  maxReceives_pos := brief.maxReceives_pos
  maxlen_pos := brief.maxlen_pos
  default_le_max := by decide
  delete_single := by decide

end QueueConfig

end NavigatorEventbus
