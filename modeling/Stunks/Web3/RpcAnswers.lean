import Stunks.Utils.Money
import Stunks.Web3.RpcPool

namespace Stunks.Web3

namespace Runtime

variable (R : Runtime) {url method label : String} {param : Option Json} {params : List Json}
  {status baseId id : Nat} {ok : Bool} {call : RpcBatchCall} {calls : List RpcBatchCall}
  {envelope : Json} {entries : List Json} {result : Option Json} {results : List (Option Json)}
  {fetched : Fetched}

def body : Fetched → Option (Response × Json)
  | .threw _ => none
  | .responded response =>
    match response.text with
    | .error _ => none
    | .ok text => (R.parse text).map fun payload => (response, payload)

/-- A body that is looked into in spite of its status. -/
def accepts (response : Response) (payload : Json) : Bool :=
  (response.ok || carriesError payload) && payload.isObject

theorem postRpc_ok {p : Payload} : R.postRpc url method fetched = .ok p ↔
    ∃ response, R.body fetched = some (response, p.payload) ∧ accepts response p.payload = true ∧
      p.status = response.status ∧ p.ok = response.ok := by
  cases fetched with
  | threw error => simp [postRpc, body]
  | responded response =>
    cases htext : response.text with
    | error error => simp [postRpc, body, htext]
    | ok text =>
      cases hparse : R.parse text with
      | none => simp [postRpc, body, htext, hparse]
      | some payload =>
        obtain ⟨value, code, flag⟩ := p
        cases hok : response.ok <;> cases hcarries : carriesError payload <;>
          cases hobject : payload.isObject <;>
            simp [postRpc, body, htext, hparse, accepts, hok, hcarries, hobject] <;> grind

def quiet (envelope : Json) : Bool := !((envelope.member "error").any Json.truthy)

def isGap (method : String) (envelope : Json) : Bool :=
  (envelope.member "result").any Json.isNull && isBlockLookup method

theorem readEnvelope_ok : R.readEnvelope url method param envelope status ok = .ok result ↔
    quiet envelope = true ∧ isGap method envelope = false ∧ result = envelope.member "result" := by
  have hrest : (if (envelope.member "result").any Json.isNull && isBlockLookup method then
        .error (R.blockUnavailable url method param)
      else (.ok (envelope.member "result") : Except CallFailure (Option Json))) = .ok result ↔
      isGap method envelope = false ∧ result = envelope.member "result" := by
    unfold isGap
    split
    · rename_i hgap
      simp [hgap]
    · rename_i hgap
      simp [hgap, eq_comm]
  unfold readEnvelope quiet
  cases hmember : envelope.member "error" with
  | none => simpa using hrest
  | some error =>
    cases htruthy : error.truthy with
    | true => simp [Option.filter, htruthy]
    | false => simpa [Option.filter, htruthy] using hrest

theorem readEntries_ok : R.readEntries url label entries status ok id calls = .ok results ↔
    results.length = calls.length ∧ ∀ i call, calls[i]? = some call →
      ∃ entry, byId entries (id + i) = some entry ∧ quiet entry = true ∧
        isGap call.method entry = false ∧ results[i]? = some (entry.member "result") := by
  induction calls generalizing id results with
  | nil => cases results <;> simp [readEntries]
  | cons call calls ih =>
    cases hentry : byId entries id with
    | none =>
      simp only [readEntries, hentry, reduceCtorEq, false_iff, not_and, not_forall]
      exact fun _ => ⟨0, call, rfl, by simp [hentry]⟩
    | some entry =>
      simp only [readEntries, hentry, bind_eq_ok, readEnvelope_ok, ih]
      constructor
      · rintro ⟨result, ⟨hquiet, hgap, rfl⟩, rest, ⟨hlength, hrest⟩, heq⟩
        cases heq
        refine ⟨by simp [hlength], fun i call' hcall => ?_⟩
        cases i with
        | zero =>
          cases hcall
          exact ⟨entry, hentry, hquiet, hgap, rfl⟩
        | succ i =>
          obtain ⟨entry', hentry', hfacts⟩ := hrest i call' hcall
          exact ⟨entry', by rwa [Nat.add_right_comm] at hentry', hfacts⟩
      · rintro ⟨hlength, hall⟩
        obtain ⟨entry', hentry', hquiet, hgap, hresult⟩ := hall 0 call rfl
        cases hentry.symm.trans hentry'
        cases results with
        | nil => cases hlength
        | cons result rest =>
          cases hresult
          refine ⟨_, ⟨hquiet, hgap, rfl⟩, rest, ⟨by simpa using hlength, fun i call' hcall => ?_⟩, rfl⟩
          obtain ⟨entry', hentry', hfacts⟩ := hall (i + 1) call' hcall
          exact ⟨entry', by rwa [Nat.add_right_comm], hfacts⟩

theorem readSingle_ok : R.readSingle url method params fetched = .ok result ↔
    ∃ response payload, R.body fetched = some (response, payload) ∧
      accepts response payload = true ∧ quiet payload = true ∧ isGap method payload = false ∧
      result = payload.member "result" := by
  simp only [readSingle, bind_eq_ok, postRpc_ok, readEnvelope_ok]
  constructor
  · rintro ⟨p, ⟨response, hbody, haccepts, -⟩, hrest⟩
    exact ⟨response, p.payload, hbody, haccepts, hrest⟩
  · rintro ⟨response, payload, hbody, haccepts, hrest⟩
    exact ⟨⟨payload, response.status, response.ok⟩, ⟨response, hbody, haccepts, rfl, rfl⟩, hrest⟩

theorem readBatch_ok : R.readBatch url label baseId calls fetched = .ok results ↔
    ∃ response entries, R.body fetched = some (response, .arr entries) ∧
      accepts response (.arr entries) = true ∧ entries.any Json.isNull = false ∧
      results.length = calls.length ∧ ∀ i call, calls[i]? = some call →
        ∃ entry, byId entries (baseId + i) = some entry ∧ quiet entry = true ∧
          isGap call.method entry = false ∧ results[i]? = some (entry.member "result") := by
  simp only [readBatch, bind_eq_ok, postRpc_ok]
  constructor
  · rintro ⟨⟨payload, code, flag⟩, ⟨response, hbody, haccepts, -⟩, hrest⟩
    cases payload with
    | arr entries =>
      dsimp only at hrest
      split at hrest
      · cases hrest
      · rename_i hnull
        rw [readEntries_ok] at hrest
        exact ⟨response, entries, hbody, haccepts, by simpa using hnull, hrest⟩
    | _ => cases hrest
  · rintro ⟨response, entries, hbody, haccepts, hnull, hrest⟩
    refine ⟨⟨.arr entries, response.status, response.ok⟩, ⟨response, hbody, haccepts, rfl, rfl⟩, ?_⟩
    simp only [hnull, Bool.false_eq_true, if_false]
    exact (R.readEntries_ok).mpr hrest

def Carries (envelope : Json) (result : Option Json) : Prop :=
  (envelope.member "error").all Json.isNull = true ∧
    ∃ value, result = some value ∧ envelope.member "result" = some value

def isEmpty (envelope : Json) : Bool :=
  (envelope.member "result").isNone && (envelope.member "error").isNone

def FailsOver {α : Type} (url method : String) (answer : Except CallFailure α) : Prop :=
  ∃ failure, answer = .error failure ∧
    isRetryable (RpcPool.asCallError url method failure).kind = true

/-- Only a result is returned as an answer, and an empty envelope never is. -/
structure Honest (url method : String) (fetched : Fetched)
    (answer : Except CallFailure (Option Json)) : Prop where
  returned : ∀ result, answer = .ok result →
    ∃ response payload, R.body fetched = some (response, payload) ∧ Carries payload result
  empty : ∀ response payload, R.body fetched = some (response, payload) →
    isEmpty payload = true → FailsOver url method answer

structure HonestBatch (url label : String) (baseId : Nat) (calls : List RpcBatchCall)
    (fetched : Fetched) (answer : Except CallFailure (List (Option Json))) : Prop where
  returned : ∀ results, answer = .ok results → ∃ response entries,
    R.body fetched = some (response, .arr entries) ∧ results.length = calls.length ∧
      ∀ i, i < calls.length → ∃ entry, byId entries (baseId + i) = some entry ∧
        ∃ result, results[i]? = some result ∧ Carries entry result
  empty : ∀ response payload, R.body fetched = some (response, payload) →
    (∀ entries, payload ≠ .arr entries) → isEmpty payload = true → FailsOver url label answer

def isBare (method : String) (envelope : Json) : Bool :=
  quiet envelope && !isGap method envelope &&
    ((envelope.member "result").isNone || !(envelope.member "error").all Json.isNull)

def QuietBatch (baseId : Nat) (calls : List RpcBatchCall) (entries : List Json) : Prop :=
  entries.any Json.isNull = false ∧ ∀ i call, calls[i]? = some call →
    ∃ entry, byId entries (baseId + i) = some entry ∧ quiet entry = true ∧
      isGap call.method entry = false

def FullBatch (baseId : Nat) (calls : List RpcBatchCall) (entries : List Json) : Prop :=
  ∀ i call, calls[i]? = some call → ∀ entry, byId entries (baseId + i) = some entry →
    isBare call.method entry = false

theorem carries_iff {envelope : Json} (hquiet : quiet envelope = true)
    (hgap : isGap method envelope = false) :
    Carries envelope (envelope.member "result") ↔ isBare method envelope = false := by
  simp only [Carries, isBare, hquiet, hgap, Bool.not_false, Bool.true_and, Bool.or_eq_false_iff,
    Bool.not_eq_false']
  cases envelope.member "result" <;> simp

theorem quiet_of_empty (method : String) {envelope : Json} (h : isEmpty envelope = true) :
    quiet envelope = true ∧ isGap method envelope = false ∧ isBare method envelope = true := by
  simp only [isEmpty, Bool.and_eq_true, Option.isNone_iff_eq_none] at h
  obtain ⟨hresult, herror⟩ := h
  simp [quiet, isGap, isBare, hresult, herror]

theorem postRpc_rejected {response : Response} {payload : Json}
    (hbody : R.body fetched = some (response, payload)) (h : accepts response payload = false) :
    FailsOver url method (R.postRpc url method fetched) := by
  cases fetched with
  | threw error => cases hbody
  | responded response' =>
    simp only [body] at hbody
    split at hbody
    · cases hbody
    · rename_i text htext
      obtain ⟨payload', hparse, heq⟩ := Option.map_eq_some_iff.mp hbody
      cases heq
      simp only [accepts, Bool.and_eq_false_iff, Bool.or_eq_false_iff] at h
      simp only [postRpc, htext, hparse]
      split
      · refine ⟨_, rfl, ?_⟩
        simp only [RpcPool.asCallError]
        split <;> rfl
      · rename_i hstatus
        have hobject : payload.isObject = false :=
          h.resolve_left fun haccepted => hstatus (by simp [haccepted.1, haccepted.2])
        rw [hobject]
        exact ⟨_, rfl, rfl⟩

theorem FailsOver.bind {α β : Type} {x : Except CallFailure α} {f : α → Except CallFailure β}
    (h : FailsOver url method x) : FailsOver url method (x >>= f) := by
  obtain ⟨failure, rfl, hretry⟩ := h
  exact ⟨failure, rfl, hretry⟩

theorem readSingle_honest_iff :
    Honest R url method fetched (R.readSingle url method params fetched) ↔
      ∀ response payload, R.body fetched = some (response, payload) →
        accepts response payload = true → isBare method payload = false := by
  constructor
  · intro h response payload hbody haccepts
    cases hquiet : quiet payload with
    | false => simp [isBare, hquiet]
    | true =>
      cases hgap : isGap method payload with
      | true => simp [isBare, hgap]
      | false =>
        obtain ⟨response', payload', hbody', hcarries⟩ := h.returned _
          (R.readSingle_ok.mpr ⟨response, payload, hbody, haccepts, hquiet, hgap, rfl⟩)
        cases hbody.symm.trans hbody'
        exact (carries_iff hquiet hgap).mp hcarries
  · intro h
    constructor
    · intro result hresult
      obtain ⟨response, payload, hbody, haccepts, hquiet, hgap, rfl⟩ := R.readSingle_ok.mp hresult
      exact ⟨response, payload, hbody, (carries_iff hquiet hgap).mpr (h _ _ hbody haccepts)⟩
    · intro response payload hbody hempty
      obtain ⟨-, -, hbare⟩ := quiet_of_empty method hempty
      have haccepts : accepts response payload = false := by
        by_contra haccepts
        rw [h _ _ hbody (Bool.eq_true_of_not_eq_false haccepts)] at hbare
        cases hbare
      exact (R.postRpc_rejected hbody haccepts).bind

theorem readBatch_of_quiet (url label : String) {response : Response}
    (hbody : R.body fetched = some (response, .arr entries))
    (haccepts : accepts response (.arr entries) = true) (hquiet : QuietBatch baseId calls entries) :
    ∃ results, R.readBatch url label baseId calls fetched = .ok results := by
  obtain ⟨hnull, hall⟩ := hquiet
  refine ⟨(List.range calls.length).map fun i =>
    (byId entries (baseId + i)).bind (Json.member "result"), R.readBatch_ok.mpr
      ⟨response, entries, hbody, haccepts, hnull, by simp, fun i call hcall => ?_⟩⟩
  obtain ⟨entry, hentry, hfacts⟩ := hall i call hcall
  obtain ⟨hi, -⟩ := List.getElem?_eq_some_iff.mp hcall
  exact ⟨entry, hentry, hfacts.1, hfacts.2, by simp [hi, hentry]⟩

theorem readBatch_honest_iff :
    HonestBatch R url label baseId calls fetched (R.readBatch url label baseId calls fetched) ↔
      ∀ response entries, R.body fetched = some (response, .arr entries) →
        accepts response (.arr entries) = true → QuietBatch baseId calls entries →
          FullBatch baseId calls entries := by
  constructor
  · intro h response entries hbody haccepts hquiet i call hcall entry hentry
    obtain ⟨results, hok⟩ := R.readBatch_of_quiet url label hbody haccepts hquiet
    obtain ⟨hi, -⟩ := List.getElem?_eq_some_iff.mp hcall
    obtain ⟨_, _, hbody', -, hreturned⟩ := h.returned results hok
    cases hbody.symm.trans hbody'
    obtain ⟨entry', hentry', result, hresult, hcarries⟩ := hreturned i hi
    cases hentry.symm.trans hentry'
    obtain ⟨_, _, hbody'', -, -, -, hread⟩ := R.readBatch_ok.mp hok
    cases hbody.symm.trans hbody''
    obtain ⟨entry'', hentry'', hq, hgap, hresult'⟩ := hread i call hcall
    cases hentry.symm.trans hentry''
    cases hresult.symm.trans hresult'
    exact (carries_iff hq hgap).mp hcarries
  · intro h
    constructor
    · intro results hok
      obtain ⟨response, entries, hbody, haccepts, hnull, hlength, hread⟩ := R.readBatch_ok.mp hok
      refine ⟨response, entries, hbody, hlength, fun i hi => ?_⟩
      have hcall : calls[i]? = some calls[i] := List.getElem?_eq_getElem hi
      obtain ⟨entry, hentry, hq, hgap, hresult⟩ := hread i _ hcall
      have hfull := h response entries hbody haccepts ⟨hnull, fun i call hcall =>
        (hread i call hcall).imp fun _ ⟨hentry, hq, hgap, _⟩ => ⟨hentry, hq, hgap⟩⟩
      exact ⟨entry, hentry, _, hresult, (carries_iff hq hgap).mpr (hfull i _ hcall entry hentry)⟩
    · intro response payload hbody hnone hempty
      cases haccepts : accepts response payload with
      | false => exact (R.postRpc_rejected hbody haccepts).bind
      | true =>
        have hpost : R.postRpc url label fetched =
            .ok { payload, status := response.status, ok := response.ok } :=
          R.postRpc_ok.mpr ⟨response, hbody, haccepts, rfl, rfl⟩
        simp only [readBatch, hpost, ok_bind]
        cases payload with
        | arr entries => exact absurd rfl (hnone entries)
        | _ => exact ⟨_, rfl, rfl⟩

end Runtime

namespace RpcPool

variable {n : Nat} (pool : RpcPool n) (e : Fin n) (s : PoolState n) {α : Type}

theorem answered_fst (turn : Nat) (answer : Except CallFailure α) :
    (pool.answered e turn answer s).1 = answer := by
  cases answer <;> rfl

def fetchSingle (method : String) (params : List Json) : Fetched :=
  (pool.post e 1 (fun id => .single { id, method, params }) s).1

def fetchBatch (calls : List RpcBatchCall) : Fetched :=
  (pool.post e calls.length (fun id => .batch (batchRequests calls id)) s).1

/-- What an endpoint sends is taken for an answer only if it carries one, unless it is bare. -/
theorem answers_honest_iff :
    (∀ method params,
      Runtime.Honest pool.toRuntime (s.endpoints e).url method (pool.fetchSingle e s method params)
          (pool.callEndpoint method params e s).1 ↔
        ∀ response payload, pool.body (pool.fetchSingle e s method params) =
          some (response, payload) →
          Runtime.accepts response payload = true → Runtime.isBare method payload = false) ∧
      ∀ calls label,
        Runtime.HonestBatch pool.toRuntime (s.endpoints e).url label (s.requestId + 1) calls
            (pool.fetchBatch e s calls) (pool.callEndpointBatch calls label e s).1 ↔
          ∀ response entries, pool.body (pool.fetchBatch e s calls) =
            some (response, .arr entries) →
            Runtime.accepts response (.arr entries) = true →
            Runtime.QuietBatch (s.requestId + 1) calls entries →
              Runtime.FullBatch (s.requestId + 1) calls entries := by
  constructor
  · intro method params
    simp only [callEndpoint, answered_fst]
    exact Runtime.readSingle_honest_iff _
  · intro calls label
    simp only [callEndpointBatch, answered_fst]
    exact Runtime.readBatch_honest_iff _

def echo (fetched : Fetched) : RpcPool 1 where
  parse text := if text = "{}" then some (.obj []) else none
  stringify _ := ""
  display _ := ""
  average a _ := a
  fetch _ _ _ := fetched
  times _ := { pacedAt := 0, startedAt := 0, endedAt := 0, failedAt := 0 }
  selectedAt _ := 0

def freshHealth (url : String) : MutableHealth where
  url
  minIntervalMs := 0
  consecutiveFailures := 0
  totalRequests := 0
  totalFailures := 0
  lastLatencyMs := none
  avgLatencyMs := none
  cooldownUntil := none
  lastErrorKind := none
  nextAllowedAt := 0
  maxBatchSize := none

def freshState (urls : Fin n → String) : PoolState n where
  endpoints e := freshHealth (urls e)
  requestId := 0
  posts := []

def emptyEnvelope : Fetched := .responded { status := 200, contentType := none, text := .ok "{}" }

/-- An empty envelope is returned as an absent result. -/
theorem empty_envelope_returned :
    ((echo emptyEnvelope).request "eth_getCode" [] (freshState fun _ => "a")).1 = .ok none ∧
      ¬ Runtime.Honest (echo emptyEnvelope).toRuntime "a" "eth_getCode"
        ((echo emptyEnvelope).fetchSingle 0 (freshState fun _ => "a") "eth_getCode" [])
        ((echo emptyEnvelope).callEndpoint "eth_getCode" [] 0 (freshState fun _ => "a")).1 := by
  refine ⟨rfl, fun h => ?_⟩
  obtain ⟨_, _, -, -, value, hnone, -⟩ := h.returned none rfl
  cases hnone

end RpcPool

end Stunks.Web3
