import NavigatorEventbus.Queues.Replicas

/-!
# Generations

The generation in a receipt is one more than the counter that the receive's `XPENDING` listed, and
`1` for an entry it did not list.  When every entry that the `XAUTOCLAIM` claims was listed with the
counter it still has, generations are the counters that the grants left, and a strict delete by the
current holder is never stale.  Without that, a receipt may be born stale.
-/

namespace NavigatorEventbus

open Interleave Pull

variable {cfg : QueueConfig}

namespace BornStale

/-- A queue whose lease is the reclaim threshold of `10` ms. -/
def config : QueueConfig where
  name := "orders"
  groups := [{ name := "billing" }]
  defaultVisibilityTimeoutMs := 10
  maxVisibilityTimeoutMs := 10
  groups_ne := QueueConfig.brief.groups_ne
  groups_nodup := QueueConfig.brief.groups_nodup
  default_nonneg := QueueConfig.brief.default_nonneg
  max_pos := QueueConfig.brief.max_pos
  maxReceives_pos := QueueConfig.brief.maxReceives_pos
  maxlen_pos := QueueConfig.brief.maxlen_pos
  default_le_max := QueueConfig.brief.default_le_max
  delete_single := QueueConfig.brief.delete_single

def store : QueueStore where
  consumer := "http"

def envelope : Envelope where
  topic := "order"
  payload := []

def receive : PullCall := .receive store "billing" 1 none

/-- A replica sends and receives a message, whose lease then runs until `listedAt`, when another
replica lists the pending entries; it claims them at `10`. -/
def acts (listedAt : ℕ) : List (Act (pull config)) :=
  [.call 0 (.send store envelope), .exec 0 {}, .ret 0,
    .call 0 receive, .exec 0 {}, .exec 0 {}, .exec 0 {}, .exec 0 {}, .exec 0 {}, .ret 0,
    .disturb (.advance listedAt), .call 1 receive, .exec 1 {}, .exec 1 {},
    .disturb (.advance (10 - listedAt)), .exec 1 {}, .exec 1 {}]

/-- The message that the second replica reports, with its generation. -/
def message (generation : ℕ) : DeliveredMessage where
  messageId := 1
  envelope := envelope
  receipt := {
    queue := "orders", group := "billing", stream := "evb:queue:orders", messageId := 1
    consumer := "http", delivered := generation, expiresAtMs := 10 }
  delivered := generation

end BornStale

end NavigatorEventbus
