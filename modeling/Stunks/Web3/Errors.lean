import Mathlib.Algebra.GroupWithZero.Nat
import Mathlib.Data.List.Sort
import Stunks.Lib.Json
import Stunks.Lib.Pattern

/-! `errors.ts`: the RPC failure taxonomy. -/

namespace Stunks.Web3

inductive RpcFailureKind
  | nonJsonResponse
  | rateLimited
  | logRangeTooWide
  | blockUnavailable
  | upstreamUnavailable
  | batchTooLarge
  | timeout
  | network
  | httpError
  | deterministicError
  | rpcError
  deriving DecidableEq, Repr

def RpcFailureKind.text : RpcFailureKind → String
  | .nonJsonResponse => "NON_JSON_RESPONSE"
  | .rateLimited => "RATE_LIMITED"
  | .logRangeTooWide => "LOG_RANGE_TOO_WIDE"
  | .blockUnavailable => "BLOCK_UNAVAILABLE"
  | .upstreamUnavailable => "UPSTREAM_UNAVAILABLE"
  | .batchTooLarge => "BATCH_TOO_LARGE"
  | .timeout => "TIMEOUT"
  | .network => "NETWORK"
  | .httpError => "HTTP_ERROR"
  | .deterministicError => "DETERMINISTIC_ERROR"
  | .rpcError => "RPC_ERROR"

structure RpcCallError where
  kind : RpcFailureKind
  endpoint : String
  method : String
  reason : String := ""
  statusCode : Option Nat := none
  rpcCode : Option Json := none

def RpcCallError.message (error : RpcCallError) : String :=
  s!"[{error.kind.text}] {error.method} via {error.endpoint}: {error.reason}"

/-- A thrown value, as far as `findRpcCallError` looks into it.  `caused` is any other error
that has a cause; one whose causes form a cycle is `other`. -/
inductive Thrown
  | rpcCall (error : RpcCallError)
  | allEndpointsFailed (method : String) (failures : List RpcCallError)
  | caused (cause : Thrown)
  | other

def failurePriority : RpcFailureKind → Nat
  | .logRangeTooWide => 3
  | .batchTooLarge => 2
  | .timeout => 1
  | _ => 0

def findRpcCallError : Thrown → Option RpcCallError
  | .rpcCall error => some error
  | .allEndpointsFailed _ failures =>
    (failures.insertionSort fun a b => failurePriority a.kind ≥ failurePriority b.kind).head?
  | .caused cause => findRpcCallError cause
  | .other => none

def isRetryable : RpcFailureKind → Bool
  | .nonJsonResponse => true
  | .rateLimited => true
  | .blockUnavailable => true
  | .upstreamUnavailable => true
  | .timeout => true
  | .network => true
  | .httpError => true
  | .batchTooLarge => true
  | .rpcError => true
  | .deterministicError => false
  | .logRangeTooWide => false

open Pattern (text digits spaces gap boundary char opt all any anything captureDigits)

def rateLimitPatterns : List Pattern := [text "rate limit", text "too many requests", text "429"]

def logRangePatterns : List Pattern :=
  [all [text "ranges over ", digits, text " blocks are not supported"],
    all [text "block range too ", any [text "large", text "wide"]],
    all [text "query returned more than ", digits, text " results"],
    text "log response size exceeded"]

def blockUnavailablePatterns : List Pattern :=
  [all [boundary, text "block at number", spaces, opt (char '"'), digits, opt (char '"'), spaces,
    text "could not be found", boundary]]

def upstreamUnavailablePatterns : List Pattern :=
  [all [boundary, text "network is busy", opt (char ','), text " please try again", boundary],
    all [boundary, text "block", spaces, digits, spaces,
      text "alone returns more logs than the upstream will serve", boundary],
    all [boundary, text "all RPC upstreams refused the request", boundary]]

def deterministicPatterns : List Pattern :=
  [all [boundary, text "execution reverted", boundary],
    all [boundary, text "invalid param", opt (char 's'), boundary],
    all [boundary, text "method not found", boundary],
    all [boundary, text "method ", anything, text " ", opt (text "is "), text "not ",
      any [text "supported", text "available"], boundary],
    all [boundary, text "invalid argument", boundary]]

def batchTooLargePatterns : List Pattern :=
  [all [text "batch of more than ", digits, text " request", opt (char 's'), text " ",
      any [text "are", text "is"], text " not allowed"],
    all [text "batch ", any [text "size", text "request"], gap 20,
      any [text "not allowed", text "not supported", text "too large", text "exceed"]]]

/-- `Number.MAX_SAFE_INTEGER` -/
def maxSafeInteger : Nat := 2 ^ 53 - 1

def ofDigits (digits : List Char) : Nat :=
  digits.foldl (fun n c => 10 * n + (c.toNat - '0'.toNat)) 0

def parseAllowedBatchSize (message : String) : Option Nat :=
  match captureDigits (text "batch of more than ")
    (all [text " request", opt (char 's')]) message with
  | none => none
  | some allowed =>
    let parsed := ofDigits allowed
    if parsed ≤ maxSafeInteger ∧ 0 < parsed then some parsed else none

def classifyRpcErrorMessage (message : String) : RpcFailureKind :=
  if logRangePatterns.any fun pattern => pattern.test message then .logRangeTooWide
  else if batchTooLargePatterns.any fun pattern => pattern.test message then .batchTooLarge
  else if blockUnavailablePatterns.any fun pattern => pattern.test message then .blockUnavailable
  else if upstreamUnavailablePatterns.any fun pattern => pattern.test message then
    .upstreamUnavailable
  else if rateLimitPatterns.any fun pattern => pattern.test message then .rateLimited
  else if deterministicPatterns.any fun pattern => pattern.test message then .deterministicError
  else .rpcError

example : classifyRpcErrorMessage "Batch of more than 3 requests are not allowed" =
    .batchTooLarge := by decide

example : parseAllowedBatchSize "Batch of more than 30 requests are not allowed" = some 30 := by
  decide

end Stunks.Web3
