import Docsmith.Session.World

/-! # Sending reports

A report is sent again until it arrives or the attempts are used up. -/

namespace Docsmith.Service

inductive Status where
  | received
  | success
  | failure
deriving Repr, DecidableEq

def Status.code : Status → Nat
  | .received => 0
  | .success => 1
  | .failure => 2

def post (url body : String) : Run Unit := do
  let w ← get
  match w.outcomes with
  | some reason :: rest =>
    set { w with outcomes := rest, posts := w.posts ++ [(⟨url, body, true⟩ : Post)] }
    throw (.reported reason)
  | outcomes =>
    set { w with outcomes := outcomes.drop 1, posts := w.posts ++ [(⟨url, body, false⟩ : Post)] }

/-- Sends a report up to the given number of times, until it arrives; `last` is why it did not so
far. -/
def deliverFrom (url body : String) (last : Option String) : Nat → Run Unit
  | 0 => throw (.undelivered last)
  | n + 1 => tryCatch (post url body) fun f => deliverFrom url body (some f.message) n

def deliver (url body : String) (attempts : Int) : Run Unit :=
  deliverFrom url body none attempts.toNat

def usualAttempts : Int := 5

/-- Whether a fault ends in a report; one that ends the program does not. -/
def isReportable : Fault → Bool
  | .stopped _ => false
  | _ => true

/-- If the work fails, or its report does not arrive, a report on the failure is sent. -/
def workAndReport (url : String) (work : Run String) (failure : String → String) : Run Unit :=
  tryCatch
    (do deliver url (← work) usualAttempts)
    fun f => if isReportable f then deliver url (failure f.message) usualAttempts else throw f

end Docsmith.Service
