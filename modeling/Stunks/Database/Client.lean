import Mathlib.Data.List.Infix

/-! `client.ts`: which failures say nothing about the data. -/

namespace Stunks.Database

/-- A thrown `Error`; `RangeTooWideError` is the one the scanner tells apart. -/
inductive Failure
  | rangeTooWide (attempted : Nat) (message : String)
  | error (code : Option String) (message : String)
  deriving DecidableEq

namespace Failure

def code : Failure → Option String
  | rangeTooWide .. => none
  | error code _ => code

def message : Failure → String
  | rangeTooWide _ message => message
  | error _ message => message

end Failure

/-- `/pattern/i.test(text)` for a pattern in lower case without special characters. -/
def testIgnoringCase (pattern text : String) : Bool :=
  pattern.toList <:+: text.toList.map Char.toLower

def isDatabaseAvailabilityError (error : Failure) : Bool :=
  error.code == some "P1001" || error.code == some "P1017" || error.code == some "P2024" ||
    testIgnoringCase "can't reach database server" error.message ||
    testIgnoringCase "timed out fetching a new connection from the connection pool"
      error.message ||
    testIgnoringCase "server has closed the connection" error.message

example : isDatabaseAvailabilityError (.error none "invalid input syntax for numeric") = false := by
  decide

end Stunks.Database
