import RecordIntake.Text.Blank
import RecordIntake.Text.Literal

/-!
The client's properties and the values they accept.  A property that is not in the table does not
exist.
-/
namespace RecordIntake.Client

inductive PropertyKind where
  | text
  | truth
  | number (least greatest : Int)
  | choice (names : List String)
  deriving DecidableEq, Repr

/-- The digits at the front of a number; what follows them does not matter. -/
def leadingDigits (cs : List Char) : List Char := cs.takeWhile Text.isDigit

/-- A number may stand after blanks and a sign. -/
def leadingNumber (cs : List Char) : Option Int :=
  match cs.dropWhile Text.isBlank with
  | '-' :: rest => (Text.readNatural (leadingDigits rest)).map fun n => -(Int.ofNat n)
  | '+' :: rest => (Text.readNatural (leadingDigits rest)).map Int.ofNat
  | rest => (Text.readNatural (leadingDigits rest)).map Int.ofNat

namespace PropertyKind

/-- Case does not matter. -/
def accepts (value : String) : PropertyKind → Bool
  | text => true
  | truth => ["true", "t", "1", "false", "f", "0"].contains (plain value)
  | number least greatest =>
    match leadingNumber value.toList with
    | some n => least ≤ n && n ≤ greatest
    | none => false
  | choice names => names.contains (plain value)
where
  plain (value : String) : String := String.ofList (Text.lowerAscii (Text.trim value.toList))

end PropertyKind

def properties : List (String × PropertyKind) := [
  ("client.id", .text), ("metadata.broker.list", .text), ("bootstrap.servers", .text),
  ("message.max.bytes", .number 1000 1000000000),
  ("message.copy.max.bytes", .number 0 1000000000),
  ("receive.message.max.bytes", .number 1000 2147483647),
  ("max.in.flight.requests.per.connection", .number 1 1000000),
  ("max.in.flight", .number 1 1000000),
  ("topic.metadata.refresh.interval.ms", .number (-1) 3600000),
  ("metadata.max.age.ms", .number 1 86400000),
  ("topic.metadata.refresh.fast.interval.ms", .number 1 60000),
  ("topic.metadata.refresh.fast.cnt", .number 0 1000),
  ("topic.metadata.refresh.sparse", .truth),
  ("topic.metadata.propagation.max.ms", .number 0 3600000),
  ("topic.blacklist", .text), ("debug", .text),
  ("socket.timeout.ms", .number 10 300000),
  ("socket.blocking.max.ms", .number 1 60000),
  ("socket.send.buffer.bytes", .number 0 100000000),
  ("socket.receive.buffer.bytes", .number 0 100000000),
  ("socket.keepalive.enable", .truth), ("socket.nagle.disable", .truth),
  ("socket.max.fails", .number 0 1000000),
  ("broker.address.ttl", .number 0 86400000),
  ("broker.address.family", .choice ["any", "v4", "v6"]),
  ("socket.connection.setup.timeout.ms", .number 1000 2147483647),
  ("connections.max.idle.ms", .number 0 2147483647),
  ("reconnect.backoff.ms", .number 0 3600000),
  ("reconnect.backoff.max.ms", .number 0 3600000),
  ("statistics.interval.ms", .number 0 86400000),
  ("log_level", .number 0 7), ("log.queue", .truth), ("log.thread.name", .truth),
  ("enable.random.seed", .truth), ("log.connection.close", .truth),
  ("api.version.request", .truth), ("api.version.request.timeout.ms", .number 1 300000),
  ("api.version.fallback.ms", .number 0 604800000), ("broker.version.fallback", .text),
  ("allow.auto.create.topics", .truth),
  ("security.protocol", .choice ["plaintext", "ssl", "sasl_plaintext", "sasl_ssl"]),
  ("ssl.cipher.suites", .text), ("ssl.curves.list", .text), ("ssl.sigalgs.list", .text),
  ("ssl.key.location", .text), ("ssl.key.password", .text), ("ssl.key.pem", .text),
  ("ssl.certificate.location", .text), ("ssl.certificate.pem", .text),
  ("ssl.ca.location", .text), ("ssl.ca.pem", .text), ("ssl.crl.location", .text),
  ("ssl.keystore.location", .text), ("ssl.keystore.password", .text),
  ("enable.ssl.certificate.verification", .truth),
  ("ssl.endpoint.identification.algorithm", .choice ["none", "https"]),
  ("sasl.mechanisms", .text), ("sasl.mechanism", .text), ("sasl.username", .text),
  ("sasl.password", .text), ("group.id", .text), ("group.instance.id", .text),
  ("partition.assignment.strategy", .text),
  ("session.timeout.ms", .number 1 3600000), ("heartbeat.interval.ms", .number 1 3600000),
  ("group.protocol.type", .text), ("group.protocol", .choice ["classic", "consumer"]),
  ("group.remote.assignor", .text), ("coordinator.query.interval.ms", .number 1 3600000),
  ("max.poll.interval.ms", .number 1 86400000), ("enable.auto.commit", .truth),
  ("auto.commit.interval.ms", .number 0 86400000), ("enable.auto.offset.store", .truth),
  ("queued.min.messages", .number 1 10000000),
  ("queued.max.messages.kbytes", .number 1 2097151),
  ("fetch.wait.max.ms", .number 0 300000), ("fetch.queue.backoff.ms", .number 0 300000),
  ("fetch.message.max.bytes", .number 1 1000000000),
  ("max.partition.fetch.bytes", .number 1 1000000000),
  ("fetch.max.bytes", .number 0 2147483135), ("fetch.min.bytes", .number 1 100000000),
  ("fetch.error.backoff.ms", .number 0 300000),
  ("isolation.level", .choice ["read_uncommitted", "read_committed"]),
  ("enable.partition.eof", .truth), ("check.crcs", .truth), ("client.rack", .text),
  ("client.dns.lookup",
    .choice ["use_all_dns_ips", "resolve_canonical_bootstrap_servers_only"]),
  ("enable.metrics.push", .truth), ("retry.backoff.ms", .number 1 300000),
  ("retry.backoff.max.ms", .number 1 300000), ("transactional.id", .text),
  ("enable.idempotence", .truth), ("linger.ms", .number 0 900000),
  ("retries", .number 0 2147483647), ("batch.size", .number 1 2147483647),
  ("compression.type", .choice ["none", "gzip", "snappy", "lz4", "zstd"]),
  ("compression.codec", .choice ["none", "gzip", "snappy", "lz4", "zstd"]),
  ("acks", .number (-1) 1000), ("request.required.acks", .number (-1) 1000),
  ("request.timeout.ms", .number 1 900000), ("message.timeout.ms", .number 0 2147483647),
  ("auto.commit.enable", .truth),
  ("auto.offset.reset",
    .choice ["smallest", "earliest", "beginning", "largest", "latest", "end", "error"])]

/-- Whether the client takes a property with a value. -/
def accepts (name value : String) : Bool :=
  match properties.find? fun (n, _) => n = name with
  | some (_, kind) => kind.accepts value
  | none => false

end RecordIntake.Client
