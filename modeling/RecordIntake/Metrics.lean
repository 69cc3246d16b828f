import RecordIntake.SortedMap

/-!
What the library counts about itself.  A metric is told apart by its meaning; its name and labels
are only its written form.
-/
namespace RecordIntake

inductive CommitOutcome where
  | success
  | interrupted
  | failed
  deriving DecidableEq, Repr

def CommitOutcome.name : CommitOutcome → String
  | .success => "success"
  | .interrupted => "interrupted"
  | .failed => "failed"

/-- What happens to a connection of a pool.  Every event but the first one ends a connection. -/
inductive ConnectionEvent where
  | created
  | evicted
  | displaced
  | discarded
  | closed
  deriving DecidableEq, Repr

def ConnectionEvent.name : ConnectionEvent → String
  | .created => "created"
  | .evicted => "evicted"
  | .displaced => "displaced"
  | .discarded => "discarded"
  | .closed => "closed"

inductive CycleOutcome where
  | workPerformed
  | backoff
  deriving DecidableEq, Repr

def CycleOutcome.name : CycleOutcome → String
  | .workPerformed => "work_performed"
  | .backoff => "backoff"

inductive Rebalance where
  | assign
  | revoke
  deriving DecidableEq, Repr

def Rebalance.name : Rebalance → String
  | .assign => "assign"
  | .revoke => "revoke"

inductive Counter where
  | messagesPolled
  | clientErrors (error level : String)
  | rebalances (r : Rebalance)
  | batchesEmitted
  | parseFailures
  | headerDecodeFailures
  | leaseCommits (o : CommitOutcome)
  | messagesDiscarded
  | wakeups
  | leaseMisses
  | connectionEvents (e : ConnectionEvent)
  | cycles (o : CycleOutcome)
  | requests (path : String) (status : Nat)
  deriving DecidableEq, Repr

inductive Gauge where
  | outstandingLeases
  deriving DecidableEq, Repr

inductive Histogram where
  | batchRecords
  | requestSeconds (path : String) (status : Nat)
  deriving DecidableEq, Repr

/-- A name with its labels in the order of their names. -/
def labelled (name : String) (labels : List (String × String)) : String :=
  name ++ "\x7b" ++ String.intercalate "," (labels.map fun (k, v) => k ++ "=" ++ v) ++ "\x7d"

def requestLabels (path : String) (status : Nat) : List (String × String) :=
  [("path", path), ("status", toString status)]

def Counter.name : Counter → String
  | .messagesPolled => "record_consumer_messages_polled_total"
  | .clientErrors error level =>
    labelled "record_consumer_kafka_error_total" [("error", error), ("level", level)]
  | .rebalances r => labelled "record_consumer_rebalance_events_total" [("event_type", r.name)]
  | .batchesEmitted => "record_consumer_batches_emitted_total"
  | .parseFailures => "record_consumer_parse_failures_total"
  | .headerDecodeFailures => "record_consumer_header_decode_failures_total"
  | .leaseCommits o => labelled "record_consumer_lease_commits_total" [("status", o.name)]
  | .messagesDiscarded => "record_consumer_lease_messages_discarded_total"
  | .wakeups => "record_consumer_lease_wakeups_total"
  | .leaseMisses => "record_consumer_pool_lease_misses_total"
  | .connectionEvents e =>
    labelled "record_consumer_pool_connection_events_total" [("event", e.name)]
  | .cycles o => labelled "record_consumer_trigger_cycles_total" [("outcome", o.name)]
  | .requests path status => labelled "http_requests_total" (requestLabels path status)

def Gauge.name : Gauge → String
  | .outstandingLeases => "record_consumer_pool_outstanding_leases"

def Histogram.name : Histogram → String
  | .batchRecords => "record_consumer_batch_record_count"
  | .requestSeconds path status =>
    labelled "http_requests_duration_seconds" (requestLabels path status)

/-- Everything recorded so far, each metric in the order of its first appearance. -/
structure Metrics where
  counters : List (Counter × Nat)
  gauges : List (Gauge × Nat)
  /-- The values of a histogram in the order in which they were recorded. -/
  histograms : List (Histogram × List Nat)
  deriving Repr

namespace Metrics

def empty : Metrics := ⟨[], [], []⟩

/-- Replaces the value of a key by a function of it, or enters the key with its first value. -/
def alter {κ α : Type} [DecidableEq κ] (k : κ) (first : α) (f : α → α) : List (κ × α) → List (κ × α)
  | [] => [(k, first)]
  | (k', a) :: rest => if k' = k then (k', f a) :: rest else (k', a) :: alter k first f rest

/-- A counter that is advanced by zero appears too. -/
def add (c : Counter) (n : Nat) (m : Metrics) : Metrics :=
  { m with counters := alter c n (· + n) m.counters }

def increment (c : Counter) (m : Metrics) : Metrics := m.add c 1

def set (g : Gauge) (n : Nat) (m : Metrics) : Metrics :=
  { m with gauges := alter g n (fun _ => n) m.gauges }

def observe (h : Histogram) (n : Nat) (m : Metrics) : Metrics :=
  { m with histograms := alter h [n] (· ++ [n]) m.histograms }

def count (c : Counter) (m : Metrics) : Nat :=
  match m.counters.find? fun (c', _) => c' = c with
  | some (_, n) => n
  | none => 0

end Metrics
end RecordIntake
