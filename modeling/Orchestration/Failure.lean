import Orchestration.Store.Error

/-! # Failures of the engine

What the operations of stack locks and watch rules can fail with, and the filter for the failures
that a caller may ignore.
-/

set_option autoImplicit false

namespace Orchestration

inductive ConfigError where
  | unreadable
  | malformed
  | zeroPingTimeout
  | noDigestAlgorithms
  deriving DecidableEq

/-- The text of an error.  Files and texts that cannot be read have no text of their own. -/
def ConfigError.message? : ConfigError → Option String
  | .unreadable => none
  | .malformed => none
  | .zeroPingTimeout => some "lock.ping_timeout_secs must be greater than zero"
  | .noDigestAlgorithms => some "template.digest_algorithms must not be empty"

inductive Failure where
  | actionInProgress (stack engine : String)
  | unknownWatch (name : String)
  | unknownWatchState (text : String)
  | missingMetric (watch metric : String)
  | actionFailed (resource reason : String)
  | store (error : StoreError)
  | config (error : ConfigError)
  deriving DecidableEq

namespace Failure

def message? : Failure → Option String
  | .actionInProgress stack engine =>
    some ("stack " ++ stack ++ " already has an action in progress (held by engine " ++ engine ++
      ")")
  | .unknownWatch name => some ("unknown watch name " ++ name)
  | .unknownWatchState text => some ("unknown watch state " ++ text)
  | .missingMetric watch metric =>
    some ("metric " ++ metric ++ " missing from data for watch " ++ watch)
  | .actionFailed resource reason =>
    some ("alarm on resource " ++ resource ++ " failed: " ++ reason)
  | .store error => error.message?.map fun text => "store error: " ++ text
  | .config error => error.message?.map fun text => "config error: " ++ text

def isActionInProgress : Failure → Bool
  | .actionInProgress _ _ => true
  | _ => false

def ignoring {α : Type} (ignored : Failure → Bool) (result : Except Failure α) :
    Except Failure (Option α) :=
  match result with
  | .ok value => .ok (some value)
  | .error failure => if ignored failure then .ok none else .error failure

end Failure

end Orchestration
