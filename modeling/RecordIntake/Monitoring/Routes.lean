import RecordIntake.Metrics

/-!
The pages for health checks and scraping, and what is counted about requests for them.
-/
namespace RecordIntake.Monitoring

structure Request where
  method : String
  /-- The path, with its query and its fragment if it has them. -/
  path : String
  deriving DecidableEq, Repr

structure Response where
  status : Nat
  body : String
  deriving DecidableEq, Repr

/-- The path without its query and its fragment. -/
def Request.route (r : Request) : String :=
  String.ofList (r.path.toList.takeWhile fun c => c ≠ '?' && c ≠ '#')

/-- The text of a page, if there is one at the path. -/
def page? (scrape : String) : String → Option String
  | "/" => some "kafka record consumer"
  | "/_readiness" => some "ok"
  | "/_liveness" => some "ok"
  | "/metrics" => some scrape
  | _ => none

/-- The answer to a request; `scrape` is the page of metrics. -/
def respond (scrape : String) (r : Request) : Response :=
  match page? scrape r.route with
  | none => ⟨404, ""⟩
  | some text =>
    match r.method with
    | "GET" => ⟨200, text⟩
    | "HEAD" => ⟨200, ""⟩
    | _ => ⟨405, ""⟩

/-- Counts an answered request.  How long it took is not known here, so it counts as no time. -/
def countRequest (r : Request) (a : Response) (m : Metrics) : Metrics :=
  (m.increment (.requests r.route a.status)).observe (.requestSeconds r.route a.status) 0

/-- What is reported when the pages cannot be served at an address. -/
def bindFault (address : String) : String := "Failed to bind metrics server to " ++ address

end RecordIntake.Monitoring
