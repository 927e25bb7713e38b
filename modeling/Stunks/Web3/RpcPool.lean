import Mathlib.Data.Fintype.Basic
import Mathlib.Data.List.FinRange
import Mathlib.Algebra.Order.Ring.Rat
import Stunks.Utils.Text
import Stunks.Web3.Errors

/-! `rpc-pool.ts`: one JSON-RPC client over several endpoints. -/

namespace Stunks.Web3

inductive SelectionStrategy
  | ordered
  | fastest
  deriving DecidableEq

/-- The timeout and the backoff only take time, and are left out. -/
structure RpcPoolOptions where
  strategy : SelectionStrategy := .ordered
  attemptsPerEndpoint : Nat := 2
  failureThreshold : Nat := 3
  cooldownMs : ℚ := 30000

structure RpcBatchCall where
  method : String
  params : Option (List Json) := none

structure RpcRequest where
  id : Nat
  method : String
  params : List Json

inductive RpcBody
  | single (request : RpcRequest)
  | batch (requests : List RpcRequest)

structure JsThrown where
  name : Option String
  message : String

structure Response where
  status : Nat
  contentType : Option String
  text : Except JsThrown String

def Response.ok (response : Response) : Bool := 200 ≤ response.status && response.status ≤ 299

inductive Fetched
  | threw (error : JsThrown)
  | responded (response : Response)

structure MutableHealth where
  url : String
  minIntervalMs : ℚ
  consecutiveFailures : Nat
  totalRequests : Nat
  totalFailures : Nat
  lastLatencyMs : Option ℚ
  avgLatencyMs : Option ℚ
  cooldownUntil : Option ℚ
  lastErrorKind : Option RpcFailureKind
  nextAllowedAt : ℚ
  maxBatchSize : Option Nat

structure Post (n : Nat) where
  endpoint : Fin n
  body : RpcBody
  fetched : Fetched

structure PoolState (n : Nat) where
  endpoints : Fin n → MutableHealth
  requestId : Nat
  posts : List (Post n)

structure Times where
  pacedAt : ℚ
  startedAt : ℚ
  endedAt : ℚ
  failedAt : ℚ

structure Runtime where
  parse : String → Option Json
  stringify : Json → String
  display : Json → String
  /-- `average * 0.7 + latency * 0.3`, in floating point -/
  average : ℚ → ℚ → ℚ

/-- What answers, and when: for each POST, by its number. -/
structure Network (n : Nat) where
  fetch : Nat → Fin n → RpcBody → Fetched
  times : Nat → Times
  selectedAt : Nat → ℚ

structure RpcPool (n : Nat) extends RpcPoolOptions, Runtime, Network n

inductive CallFailure
  | rpc (error : RpcCallError)
  | thrown (message : String)

inductive PoolError
  | rpcCall (error : RpcCallError)
  | allEndpointsFailed (method : String) (failures : List RpcCallError)
  | batchNotSupported (requested : Nat) (message : String)

structure Payload where
  payload : Json
  status : Nat
  ok : Bool

def isBlockLookup (method : String) : Bool :=
  method = "eth_getBlockByNumber" || method = "eth_getBlockByHash"

/-- The status counts only when the message says nothing recognisable. -/
def classifyWithStatus (message : String) (status : Nat) (ok : Bool) : RpcFailureKind :=
  let kind := classifyRpcErrorMessage message
  if ok || kind ≠ .rpcError then kind
  else if status = 429 then .rateLimited else .httpError

def carriesError : Json → Bool
  | .arr items => items.any fun entry => (entry.member "error").isSome
  | payload => (payload.member "error").isSome

namespace Runtime

variable (R : Runtime)

def toText : Json → String
  | .str s => s
  | value => R.display value

/-- A body that is no JSON object is a transport failure, whatever the status says. -/
def postRpc (url method : String) : Fetched → Except CallFailure Payload
  | .threw error =>
    let isTimeout := error.name = some "TimeoutError" ∨ error.name = some "AbortError"
    .error (.rpc { kind := if isTimeout then .timeout else .network
                   endpoint := url, method, reason := error.message })
  | .responded response =>
    match response.text with
    | .error error => .error (.thrown error.message)
    | .ok bodyText =>
      match R.parse bodyText with
      | none =>
        let contentType := response.contentType.getD "unknown content-type"
        let excerpt := String.ofList (collapseSpaces (sliceUnits 80 bodyText.toList))
        .error (.rpc { kind := if response.status = 429 then .rateLimited else .nonJsonResponse
                       endpoint := url, method, statusCode := some response.status
                       reason := s!"expected JSON-RPC, got {response.status} {contentType}: {excerpt}" })
      | some payload =>
        if !response.ok && !carriesError payload then
          .error (.rpc { kind := if response.status = 429 then .rateLimited else .httpError
                         endpoint := url, method, statusCode := some response.status
                         reason := s!"HTTP {response.status}" })
        else if !payload.isObject then
          .error (.rpc { kind := .nonJsonResponse, endpoint := url, method
                         reason := "JSON-RPC response was not an object" })
        else .ok { payload, status := response.status, ok := response.ok }

def envelopeError (url method : String) (error : Json) (status : Nat) (ok : Bool) : CallFailure :=
  let message := match error.member "message" with
    | none => "unknown RPC error"
    | some .null => "unknown RPC error"
    | some message => R.toText message
  .rpc { kind := classifyWithStatus message status ok
         endpoint := url, method, reason := message
         rpcCode := error.member "code"
         statusCode := if ok then none else some status }

def blockUnavailable (url method : String) (param : Option Json) : CallFailure :=
  .rpc { kind := .blockUnavailable, endpoint := url, method
         reason := s!"endpoint returned no block for {R.stringify (param.getD .null)}" }

def readEnvelope (url method : String) (param : Option Json) (envelope : Json) (status : Nat)
    (ok : Bool) : Except CallFailure (Option Json) :=
  match (envelope.member "error").filter Json.truthy with
  | some error => .error (R.envelopeError url method error status ok)
  | none =>
    let result := envelope.member "result"
    if result.any Json.isNull && isBlockLookup method then
      .error (R.blockUnavailable url method param)
    else .ok result

def readSingle (url method : String) (params : List Json) (fetched : Fetched) :
    Except CallFailure (Option Json) := do
  let ⟨payload, status, ok⟩ ← R.postRpc url method fetched
  R.readEnvelope url method params.head? payload status ok

def hasId (id : Nat) (entry : Json) : Bool :=
  match entry.member "id" with
  | some (.num n) => n = id
  | _ => false

/-- `byId.get(id)`: of several entries with one id the last counts. -/
def byId (entries : List Json) (id : Nat) : Option Json := entries.reverse.find? (hasId id)

def readEntries (url label : String) (entries : List Json) (status : Nat) (ok : Bool) :
    Nat → List RpcBatchCall → Except CallFailure (List (Option Json))
  | _, [] => .ok []
  | id, call :: calls =>
    match byId entries id with
    | none =>
      .error (.rpc { kind := .nonJsonResponse, endpoint := url, method := label
                     reason := s!"batch response missing id {id} for {call.method}" })
    | some entry => do
      let result ← R.readEnvelope url call.method (call.params.getD []).head? entry status ok
      let results ← readEntries url label entries status ok (id + 1) calls
      return result :: results

def readBatch (url label : String) (baseId : Nat) (calls : List RpcBatchCall) (fetched : Fetched) :
    Except CallFailure (List (Option Json)) := do
  let ⟨payload, status, ok⟩ ← R.postRpc url label fetched
  match payload with
  | .arr entries =>
    if entries.any Json.isNull then
      .error (.thrown "Cannot read properties of null (reading 'id')")
    else R.readEntries url label entries status ok baseId calls
  | _ =>
    .error (.rpc { kind := .nonJsonResponse, endpoint := url, method := label
                   reason := "expected a JSON-RPC batch array" })

end Runtime

namespace PoolState

variable {n : Nat} (s : PoolState n)

def update (e : Fin n) (f : MutableHealth → MutableHealth) : PoolState n :=
  { s with endpoints := Function.update s.endpoints e (f (s.endpoints e)) }

def isCooling (now : ℚ) (e : Fin n) : Bool :=
  (s.endpoints e).cooldownUntil.any fun until_ => now < until_

/-- The largest batch the pool is proven to be unable to exceed. -/
def provenBatchCeiling : Option Nat :=
  let rec go : Option Nat → List (Fin n) → Option Nat
    | best, [] => best
    | best, e :: rest =>
      match (s.endpoints e).maxBatchSize with
      | none => none
      | some size => go (if best.all fun best => best < size then some size else best) rest
  go none (List.finRange n)

def bestKnownBatchLimit : Option Nat :=
  let rec go : Option Nat → List (Fin n) → Option Nat
    | best, [] => best
    | best, e :: rest =>
      match (s.endpoints e).maxBatchSize with
      | none => go best rest
      | some size => go (if best.all fun best => best < size then some size else best) rest
  go none (List.finRange n)

end PoolState

namespace RpcPool

variable {n : Nat} (pool : RpcPool n) {α : Type}

def respectPacing (e : Fin n) (now : ℚ) (s : PoolState n) : PoolState n :=
  if (s.endpoints e).minIntervalMs ≤ 0 then s
  else s.update e fun health => { health with nextAllowedAt := now + health.minIntervalMs }

def post (e : Fin n) (count : Nat) (body : Nat → RpcBody) (s : PoolState n) :
    Fetched × PoolState n :=
  let turn := s.posts.length
  let s := respectPacing e (pool.times turn).pacedAt s
  let s := s.update e fun health => { health with totalRequests := health.totalRequests + 1 }
  let body := body (s.requestId + 1)
  let fetched := pool.fetch turn e body
  (fetched, { s with requestId := s.requestId + count
                     posts := s.posts ++ [{ endpoint := e, body, fetched }] })

def recordSuccess (e : Fin n) (latencyMs : ℚ) (s : PoolState n) : PoolState n :=
  s.update e fun health => { health with
    consecutiveFailures := 0
    cooldownUntil := none
    lastErrorKind := none
    lastLatencyMs := some latencyMs
    avgLatencyMs := some (match health.avgLatencyMs with
      | none => latencyMs
      | some average => pool.average average latencyMs) }

def recordFailure (e : Fin n) (failure : RpcCallError) (now : ℚ) (s : PoolState n) :
    PoolState n :=
  s.update e fun health =>
    let health := { health with
      totalFailures := health.totalFailures + 1
      lastErrorKind := some failure.kind }
    -- The caller's problem, or a billing plan, not the endpoint's health.
    if failure.kind = .logRangeTooWide ∨ failure.kind = .batchTooLarge then health
    else
      let health := { health with consecutiveFailures := health.consecutiveFailures + 1 }
      if pool.failureThreshold ≤ health.consecutiveFailures then
        { health with cooldownUntil := some (now + pool.cooldownMs) }
      else health

def answered (e : Fin n) (turn : Nat) (answer : Except CallFailure α) (s : PoolState n) :
    Except CallFailure α × PoolState n :=
  match answer with
  | .ok value =>
    let times := pool.times turn
    (.ok value, pool.recordSuccess e (times.endedAt - times.startedAt) s)
  | .error error => (.error error, s)

def callEndpoint (method : String) (params : List Json) (e : Fin n) (s : PoolState n) :
    Except CallFailure (Option Json) × PoolState n :=
  let (fetched, s') := pool.post e 1 (fun id => .single { id, method, params }) s
  pool.answered e s.posts.length
    (pool.readSingle (s.endpoints e).url method params fetched) s'

def batchRequests (calls : List RpcBatchCall) (baseId : Nat) : List RpcRequest :=
  calls.zipIdx.map fun (call, index) =>
    { id := baseId + index, method := call.method, params := call.params.getD [] }

def callEndpointBatch (calls : List RpcBatchCall) (label : String) (e : Fin n) (s : PoolState n) :
    Except CallFailure (List (Option Json)) × PoolState n :=
  let (fetched, s') := pool.post e calls.length (fun id => .batch (batchRequests calls id)) s
  pool.answered e s.posts.length
    (pool.readBatch (s.endpoints e).url label (s.requestId + 1) calls fetched) s'

def asCallError (url method : String) : CallFailure → RpcCallError
  | .rpc error => error
  | .thrown message => { kind := .network, endpoint := url, method, reason := message }

def noSlower (a b : Option ℚ) : Bool :=
  match a, b with
  | some a, some b => a ≤ b
  | none, some _ => false
  | _, none => true

def selectOrder (s : PoolState n) : List (Fin n) :=
  let now := pool.selectedAt s.posts.length
  let healthy := (List.finRange n).filter fun e => !s.isCooling now e
  let cooling := (List.finRange n).filter fun e => s.isCooling now e
  let preferred := match pool.strategy with
    | .fastest => healthy.insertionSort fun a b =>
      noSlower (s.endpoints a).avgLatencyMs (s.endpoints b).avgLatencyMs
    | .ordered => healthy
  preferred ++ cooling

inductive Tried (α : Type)
  | returned (value : α)
  | threw (failure : RpcCallError)
  | exhausted

structure Attempts (n : Nat) (α : Type) where
  method : String
  call : Fin n → PoolState n → Except CallFailure α × PoolState n
  learn : RpcCallError → Option (MutableHealth → MutableHealth)

def tryEndpoint (attempts : Attempts n α) (e : Fin n) :
    Nat → List RpcCallError → PoolState n → Tried α × List RpcCallError × PoolState n
  | 0, failures, s => (.exhausted, failures, s)
  | left + 1, failures, s =>
    match attempts.call e s with
    | (.ok value, s') => (.returned value, failures, s')
    | (.error error, s') =>
      let failure := asCallError (s.endpoints e).url attempts.method error
      let s' := pool.recordFailure e failure (pool.times s.posts.length).failedAt s'
      if isRetryable failure.kind then
        match attempts.learn failure with
        | some update => (.exhausted, failures ++ [failure], s'.update e update)
        | none => tryEndpoint attempts e left (failures ++ [failure]) s'
      else (.threw failure, failures ++ [failure], s')

def walk (attempts : Attempts n α) :
    List (Fin n) → List RpcCallError → PoolState n → Except PoolError α × PoolState n
  | [], failures, s => (.error (.allEndpointsFailed attempts.method failures), s)
  | e :: rest, failures, s =>
    match pool.tryEndpoint attempts e pool.attemptsPerEndpoint failures s with
    | (.returned value, _, s') => (.ok value, s')
    | (.threw failure, _, s') => (.error (.rpcCall failure), s')
    | (.exhausted, failures', s') => walk attempts rest failures' s'

def single (method : String) (params : List Json) : Attempts n (Option Json) where
  method
  call := pool.callEndpoint method params
  learn _ := none

def request (method : String) (params : List Json) (s : PoolState n) :
    Except PoolError (Option Json) × PoolState n :=
  pool.walk (pool.single method params) (pool.selectOrder s) [] s

def batchLabel (calls : List RpcBatchCall) : String :=
  let method := (calls.head?.map RpcBatchCall.method).getD "batch"
  s!"{method} (batch of {calls.length})"

def learnBatchSize (size : Nat) (failure : RpcCallError) : Option (MutableHealth → MutableHealth) :=
  if failure.kind = .batchTooLarge then
    let allowed := parseAllowedBatchSize failure.message
    some fun health => { health with maxBatchSize := some (min (allowed.getD (size - 1)) (size - 1)) }
  else none

def whole (calls : List RpcBatchCall) : Attempts n (List (Option Json)) where
  method := batchLabel calls
  call := pool.callEndpointBatch calls (batchLabel calls)
  learn := learnBatchSize calls.length

def describeLimits (s : PoolState n) : String :=
  String.intercalate ", " ((List.finRange n).map fun e =>
    let limit := ((s.endpoints e).maxBatchSize.map toString).getD "?"
    s!"{(s.endpoints e).url} allows {limit}")

def capable (size : Nat) (s : PoolState n) (e : Fin n) : Bool :=
  (s.endpoints e).maxBatchSize.all fun limit => size ≤ limit

def requestWholeBatch (calls : List RpcBatchCall) (s : PoolState n) :
    Except PoolError (List (Option Json)) × PoolState n :=
  let able := (pool.selectOrder s).filter (capable calls.length s)
  if able.length = 0 then
    (.error (.batchNotSupported calls.length
      (s!"No endpoint will serve a batch of {calls.length}: " ++ describeLimits s)), s)
  else pool.walk (pool.whole calls) able [] s

def chunkLoop (size : Nat) : Nat → List RpcBatchCall → PoolState n →
    Except PoolError (List (Option Json)) × PoolState n
  | 0, _, s => (.ok [], s)
  | left + 1, calls, s =>
    if calls.length = 0 then (.ok [], s)
    else
      match pool.requestWholeBatch (calls.take size) s with
      | (.error error, s') => (.error error, s')
      | (.ok results, s') =>
        match chunkLoop size left (calls.drop size) s' with
        | (.error error, s'') => (.error error, s'')
        | (.ok rest, s'') => (.ok (results ++ rest), s'')

def requestBatchInChunks (calls : List RpcBatchCall) (chunkSize : Nat) (s : PoolState n) :
    Except PoolError (List (Option Json)) × PoolState n :=
  pool.chunkLoop (max 1 chunkSize) calls.length calls s

def requestBatch (calls : List RpcBatchCall) (s : PoolState n) :
    Except PoolError (List (Option Json)) × PoolState n :=
  if calls.length = 0 then (.ok [], s)
  else
    match s.provenBatchCeiling.filter fun limit => limit < calls.length with
    | some limit => pool.requestBatchInChunks calls limit s
    | none =>
      match pool.requestWholeBatch calls s with
      | (.ok results, s') => (.ok results, s')
      | (.error error, s') =>
        -- An endpoint with a smaller known limit has not been asked at all.
        match s'.bestKnownBatchLimit.filter fun fallback => fallback < calls.length with
        | some fallback => pool.requestBatchInChunks calls fallback s'
        | none => (.error error, s')

end RpcPool

end Stunks.Web3
