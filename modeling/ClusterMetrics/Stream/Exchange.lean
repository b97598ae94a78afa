import ClusterMetrics.Request.Query
import ClusterMetrics.Stream.Run

/-! # Asking for a stream

A request is sent to whatever serves streams, and the body it opens is run to its end. -/

namespace ClusterMetrics

/-- How opening a body ends. -/
inductive Opening where
  | body (b : Body)
  | refused (text : String)
  /-- It never ends, and the token is raised meanwhile. -/
  | interrupted

/-- What was asked for and what came of it. -/
structure Exchange where
  path : String
  query : String
  outcome : Stream.Outcome

/-- Asks for a stream and runs it. A token that has been raised wins over a body that is open. -/
def Exchange.ofRequest (request : Request) (opening : Opening) (raised : Bool) (raises : Nat → Bool) :
    Exchange where
  path := Request.path
  query := request.queryString
  outcome :=
    if raised then ⟨[], .error .cancelled⟩
    else match opening with
      | .body b => Stream.run { body := b } raised raises
      | .refused text => ⟨[], .error (.io text)⟩
      | .interrupted => ⟨[], .error .cancelled⟩

end ClusterMetrics
