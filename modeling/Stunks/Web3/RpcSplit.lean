import Stunks.Web3.RpcBatch

namespace Stunks.Web3

variable {k : Nat}

namespace PoolState

variable (s : PoolState k)

def limits (e : Fin k) : Option Nat := (s.endpoints e).maxBatchSize

variable {s}

theorem limits_update (e : Fin k) (f : MutableHealth → MutableHealth)
    (h : ∀ health, (f health).maxBatchSize = health.maxBatchSize) :
    (s.update e f).limits = s.limits := by
  funext e'
  by_cases he : e' = e
  · subst he
    simp [limits, update, h]
  · simp [limits, update, he]

theorem limits_learn (e : Fin k) (limit : Nat) :
    (s.update e fun health => { health with maxBatchSize := some limit }).limits =
      Function.update s.limits e (some limit) := by
  funext e'
  by_cases he : e' = e
  · subst he
    simp [limits, update]
  · simp [limits, update, he]

theorem urls_learn (e : Fin k) (limit : Nat) :
    (s.update e fun health => { health with maxBatchSize := some limit }).urls = s.urls :=
  urls_update e (fun health => { health with maxBatchSize := some limit }) fun _ => rfl

def Largest (limits : Fin k → Option Nat) (best : Nat) : Prop :=
  (∃ e, limits e = some best) ∧ ∀ e limit, limits e = some limit → limit ≤ best

theorem bestKnownBatchLimit_go (es : List (Fin k)) (best : Option Nat) :
    (∀ limit ∈ best, ∃ least, bestKnownBatchLimit.go s best es = some least ∧ limit ≤ least) ∧
      (∀ e ∈ es, ∀ limit, s.limits e = some limit →
        ∃ least, bestKnownBatchLimit.go s best es = some least ∧ limit ≤ least) ∧
      ∀ least, bestKnownBatchLimit.go s best es = some least →
        best = some least ∨ ∃ e ∈ es, s.limits e = some least := by
  induction es generalizing best with
  | nil => exact ⟨fun limit h => ⟨limit, h, le_rfl⟩, nofun, fun least h => .inl h⟩
  | cons e es ih =>
    unfold bestKnownBatchLimit.go
    cases hlimit : (s.endpoints e).maxBatchSize with
    | none =>
      obtain ⟨hbest, hall, hfrom⟩ := ih best
      refine ⟨hbest, fun e' he' limit he'' => ?_, fun least hleast => ?_⟩
      · rcases List.mem_cons.mp he' with rfl | he'
        · exact nomatch hlimit.symm.trans he''
        · exact hall e' he' limit he''
      · exact (hfrom least hleast).imp_right fun ⟨e', he', h⟩ => ⟨e', List.mem_cons_of_mem _ he', h⟩
    | some size =>
      dsimp only
      generalize hnext : (if best.all fun best => best < size then some size else best) = next
      obtain ⟨hbest, hall, hfrom⟩ := ih next
      have hle : ∀ limit, limit ∈ best ∨ limit = size → ∃ most ∈ next, limit ≤ most := by
        intro limit hor
        cases best with
        | none =>
          obtain rfl := hor.resolve_left (by simp)
          exact ⟨limit, by simp [← hnext], le_rfl⟩
        | some best =>
          by_cases hlt : best < size
          · refine ⟨size, by simp [← hnext, hlt], ?_⟩
            rcases hor with hor | rfl
            · cases hor
              omega
            · exact le_rfl
          · refine ⟨best, by simp [← hnext, hlt], ?_⟩
            rcases hor with hor | rfl
            · cases hor
              exact le_rfl
            · omega
      have hup : ∀ limit, limit ∈ best ∨ limit = size →
          ∃ least, bestKnownBatchLimit.go s next es = some least ∧ limit ≤ least := by
        intro limit hor
        obtain ⟨most, hmost, hle⟩ := hle limit hor
        obtain ⟨least, hleast, hle'⟩ := hbest most hmost
        exact ⟨least, hleast, hle.trans hle'⟩
      refine ⟨fun limit hmem => hup limit (.inl hmem), fun e' he' limit he'' => ?_,
        fun least hleast => ?_⟩
      · rcases List.mem_cons.mp he' with rfl | he'
        · exact hup limit (.inr (Option.some.inj (he''.symm.trans hlimit)))
        · exact hall e' he' limit he''
      · rcases hfrom least hleast with hleast | ⟨e', he', h⟩
        · rw [← hnext] at hleast
          split at hleast
          · exact .inr ⟨e, List.mem_cons_self .., hlimit.trans hleast⟩
          · exact .inl hleast
        · exact .inr ⟨e', List.mem_cons_of_mem _ he', h⟩

theorem bestKnownBatchLimit_eq {best : Nat} :
    s.bestKnownBatchLimit = some best ↔ Largest s.limits best := by
  obtain ⟨-, hall, hfrom⟩ := bestKnownBatchLimit_go (s := s) (List.finRange k) none
  constructor
  · intro h
    obtain hnone | ⟨e, -, he⟩ := hfrom best h
    · cases hnone
    · refine ⟨⟨e, he⟩, fun e' limit he' => ?_⟩
      obtain ⟨least, hleast, hle⟩ := hall e' (List.mem_finRange _) limit he'
      cases h.symm.trans hleast
      exact hle
  · rintro ⟨⟨e, he⟩, hmax⟩
    obtain ⟨least, hleast, hle⟩ := hall e (List.mem_finRange _) best he
    obtain hnone | ⟨e', -, he'⟩ := hfrom least hleast
    · cases hnone
    · cases Nat.le_antisymm hle (hmax e' least he')
      exact hleast

theorem provenBatchCeiling_go (es : List (Fin k)) (best : Option Nat) :
    provenBatchCeiling.go s best es =
      if es.all fun e => (s.limits e).isSome then bestKnownBatchLimit.go s best es else none := by
  induction es generalizing best with
  | nil => rfl
  | cons e es ih =>
    unfold provenBatchCeiling.go bestKnownBatchLimit.go
    cases hlimit : (s.endpoints e).maxBatchSize with
    | none => simp [limits, hlimit]
    | some size => simp [ih, limits, hlimit]

theorem provenBatchCeiling_eq {best : Nat} : s.provenBatchCeiling = some best ↔
    (∀ e, (s.limits e).isSome) ∧ Largest s.limits best := by
  rw [provenBatchCeiling, provenBatchCeiling_go, ← bestKnownBatchLimit_eq, bestKnownBatchLimit]
  split
  · rename_i hall
    simp only [List.all_eq_true, List.mem_finRange, true_implies] at hall
    simp [hall]
  · rename_i hsome
    simp only [List.all_eq_true, List.mem_finRange, true_implies] at hsome
    simp [hsome]

end PoolState

namespace RpcPool

variable (pool : RpcPool k) {s : PoolState k} {e star : Fin k} {m : Nat}
  {calls : List RpcBatchCall} {urls : Fin k → String}

@[simp] theorem respectPacing_limits (now : ℚ) : (respectPacing e now s).limits = s.limits := by
  unfold respectPacing
  split
  · rfl
  · exact PoolState.limits_update _ _ fun _ => rfl

theorem post_limits (count : Nat) (body : Nat → RpcBody) :
    (pool.post e count body s).2.limits = s.limits := by
  have h := PoolState.limits_update (s := respectPacing e (pool.times s.posts.length).pacedAt s) e
    (fun health => { health with totalRequests := health.totalRequests + 1 }) fun _ => rfl
  exact h.trans (respectPacing_limits _)

theorem post_requestId (count : Nat) (body : Nat → RpcBody) :
    (pool.post e count body s).2.requestId = s.requestId + count := by
  simp [post, PoolState.update]

theorem answered_limits {α : Type} (turn : Nat) (answer : Except CallFailure α) :
    (pool.answered e turn answer s).2.limits = s.limits := by
  cases answer with
  | ok _ =>
    refine PoolState.limits_update e (fun health => { health with
      consecutiveFailures := 0, cooldownUntil := none, lastErrorKind := none
      lastLatencyMs := _, avgLatencyMs := _ }) fun _ => rfl
  | error _ => rfl

theorem answered_requestId {α : Type} (turn : Nat) (answer : Except CallFailure α) :
    (pool.answered e turn answer s).2.requestId = s.requestId := by
  cases answer <;> rfl

theorem recordFailure_limits (failure : RpcCallError) (now : ℚ) :
    (pool.recordFailure e failure now s).limits = s.limits := by
  refine PoolState.limits_update _ _ fun health => ?_
  split
  · rfl
  · dsimp only
    split <;> rfl

def tells (urls : Fin k → String) (calls : List RpcBatchCall) (e : Fin k) (turn id : Nat) :
    Except CallFailure (List (Option Json)) :=
  pool.readBatch (urls e) (batchLabel calls) id calls
    (pool.fetch turn e (.batch (batchRequests calls id)))

/-- One endpoint serves the batches of at most `m` calls and refuses larger ones, and all others fail
in ways that are worth another attempt. -/
structure Splits (urls : Fin k → String) (star : Fin k) (m : Nat) : Prop where
  serves : ∀ calls turn id, calls ≠ [] → calls.length ≤ m →
    ∃ results, pool.tells urls calls star turn id = .ok results
  refuses : ∀ calls turn id, m < calls.length →
    ∃ error, pool.tells urls calls star turn id = .error (.rpc error) ∧ error.kind = .batchTooLarge
  others : ∀ calls e turn id, e ≠ star → ∃ error, pool.tells urls calls e turn id = .error error ∧
    isRetryable (asCallError (urls e) (batchLabel calls) error).kind = true

def refusal (urls : Fin k → String) (calls : List RpcBatchCall) (e : Fin k) (turn id : Nat) :
    Option Nat :=
  match pool.tells urls calls e turn id with
  | .ok _ => none
  | .error error =>
    let failure := asCallError (urls e) (batchLabel calls) error
    if failure.kind = .batchTooLarge then
      some (min ((parseAllowedBatchSize failure.message).getD (calls.length - 1)) (calls.length - 1))
    else none

def firstRefusal (urls : Fin k → String) (calls : List RpcBatchCall) (e : Fin k) :
    Nat → Nat → Nat → Option Nat × Nat
  | 0, _, _ => (none, 0)
  | left + 1, turn, id =>
    match pool.refusal urls calls e turn id with
    | some limit => (some limit, 1)
    | none =>
      let (limit, made) := firstRefusal urls calls e left (turn + 1) (id + calls.length)
      (limit, made + 1)

def refusedLimits (urls : Fin k → String) (calls : List RpcBatchCall) :
    List (Fin k) → Nat → Nat → (Fin k → Option Nat) → Fin k → Option Nat
  | [], _, _, limits => limits
  | e :: rest, turn, id, limits =>
    let (limit, made) := pool.firstRefusal urls calls e pool.attemptsPerEndpoint turn id
    refusedLimits urls calls rest (turn + made) (id + made * calls.length)
      (match limit with
      | none => limits
      | some limit => Function.update limits e (some limit))

structure At (urls : Fin k → String) (turn id : Nat) (s : PoolState k) : Prop where
  urls : s.urls = urls
  turn : s.posts.length = turn
  id : s.requestId + 1 = id

variable {pool} {turn id : Nat} {limits : Fin k → Option Nat} {failures : List RpcCallError}

theorem At.call (pool : RpcPool k) (calls : List RpcBatchCall) (e : Fin k) (h : At urls turn id s) :
    ((pool.whole calls).call e s).1 = pool.tells urls calls e turn id ∧
      At urls (turn + 1) (id + calls.length) ((pool.whole calls).call e s).2 ∧
      ((pool.whole calls).call e s).2.limits = s.limits := by
  obtain ⟨rfl, rfl, rfl⟩ := h
  obtain ⟨fetched, hfetched, hposts, hurls', -⟩ :=
    pool.post_eq (s := s) (e := e) calls.length fun id => .batch (batchRequests calls id)
  have hfetch : fetched =
      pool.fetch s.posts.length e (.batch (batchRequests calls (s.requestId + 1))) := by
    rw [← hfetched]
    simp [post, PoolState.update]
  refine ⟨?_, ⟨?_, ?_, ?_⟩, ?_⟩
  · simp only [whole, callEndpointBatch, answered_fst, hfetched, tells, PoolState.urls, hfetch]
  · exact (pool.answered_urls ..).trans hurls'
  · simp only [whole, callEndpointBatch, answered_posts, hposts, List.length_append,
      List.length_singleton]
  · simp only [whole, callEndpointBatch, answered_requestId, post_requestId]
    omega
  · simp only [whole, callEndpointBatch, answered_limits, post_limits]

theorem At.recordFailure (pool : RpcPool k) (e : Fin k) (h : At urls turn id s)
    (failure : RpcCallError) (now : ℚ) :
    At urls turn id (pool.recordFailure e failure now s) :=
  ⟨(pool.recordFailure_urls now).trans h.urls, h.turn, h.id⟩

theorem tryEndpoint_fails
    (hfails : ∀ turn id, ∃ error, pool.tells urls calls e turn id = .error error ∧
      isRetryable (asCallError (urls e) (batchLabel calls) error).kind = true)
    (left : Nat) (failures : List RpcCallError) (h : At urls turn id s) :
    ∃ failures' s', pool.tryEndpoint (pool.whole calls) e left failures s =
      (.exhausted, failures', s') ∧
      At urls (turn + (pool.firstRefusal urls calls e left turn id).2)
        (id + (pool.firstRefusal urls calls e left turn id).2 * calls.length) s' ∧
      s'.limits = match (pool.firstRefusal urls calls e left turn id).1 with
        | none => s.limits
        | some limit => Function.update s.limits e (some limit) := by
  induction left generalizing turn id failures s with
  | zero => exact ⟨failures, s, rfl, by simpa [firstRefusal] using h, rfl⟩
  | succ left ih =>
    obtain ⟨hanswer, hat, hlimits⟩ := h.call pool calls e
    obtain ⟨error, herror, hretry⟩ := hfails turn id
    unfold tryEndpoint
    rcases hcall : (pool.whole calls).call e s with ⟨answer, s'⟩
    rw [hcall] at hanswer hat hlimits
    rw [herror] at hanswer
    cases hanswer
    have hurl : (s.endpoints e).url = urls e := congrFun h.urls e
    have hmethod : (pool.whole calls).method = batchLabel calls := rfl
    simp only [hurl, hmethod, hretry, if_true]
    have hrefusal : pool.refusal urls calls e turn id =
        if (asCallError (urls e) (batchLabel calls) error).kind = .batchTooLarge then
          some (min ((parseAllowedBatchSize (asCallError (urls e) (batchLabel calls) error).message).getD
            (calls.length - 1)) (calls.length - 1)) else none := by
      simp [refusal, herror]
    generalize asCallError (urls e) (batchLabel calls) error = failure at *
    replace hat := hat.recordFailure pool e failure (pool.times s.posts.length).failedAt
    by_cases hkind : failure.kind = .batchTooLarge
    · rw [if_pos hkind] at hrefusal
      simp only [whole, learnBatchSize, hkind, if_true, firstRefusal, hrefusal, Nat.one_mul]
      refine ⟨_, _, rfl, ⟨?_, hat.turn, hat.id⟩, ?_⟩
      · exact (PoolState.urls_learn e _).trans hat.urls
      · rw [PoolState.limits_learn, recordFailure_limits, hlimits]
    · rw [if_neg hkind] at hrefusal
      obtain ⟨failures', s'', htry, hat', hlimits'⟩ := ih (failures ++ [failure]) hat
      simp only [whole, learnBatchSize, hkind, if_false, firstRefusal, hrefusal] at htry ⊢
      refine ⟨failures', s'', htry, ?_, ?_⟩
      · rwa [Nat.add_comm _ 1, ← Nat.add_assoc, Nat.add_mul, Nat.one_mul, ← Nat.add_assoc]
      · rw [hlimits', recordFailure_limits, hlimits]

theorem walk_fails (order : List (Fin k)) (failures : List RpcCallError) (h : At urls turn id s)
    (hfails : ∀ e ∈ order, ∀ turn id, ∃ error, pool.tells urls calls e turn id = .error error ∧
      isRetryable (asCallError (urls e) (batchLabel calls) error).kind = true) :
    ∃ error s', pool.walk (pool.whole calls) order failures s = (.error error, s') ∧
      s'.urls = urls ∧
      s'.limits = pool.refusedLimits urls calls order turn id s.limits := by
  induction order generalizing turn id failures s with
  | nil => exact ⟨_, s, rfl, h.urls, rfl⟩
  | cons e rest ih =>
    obtain ⟨failures', s', htry, hat, hlimits⟩ :=
      tryEndpoint_fails (hfails e (List.mem_cons_self ..)) pool.attemptsPerEndpoint failures h
    obtain ⟨error, s'', hwalk, hurls, hlimits'⟩ :=
      ih failures' hat fun e he => hfails e (List.mem_cons_of_mem _ he)
    simp only [walk, htry]
    exact ⟨error, s'', hwalk, hurls, by rw [hlimits', hlimits, refusedLimits]⟩

theorem Splits.fails (hsplits : pool.Splits urls star m) (calls : List RpcBatchCall)
    (h : e = star → m < calls.length) (turn id : Nat) :
    ∃ error, pool.tells urls calls e turn id = .error error ∧
      isRetryable (asCallError (urls e) (batchLabel calls) error).kind = true := by
  by_cases he : e = star
  · subst he
    obtain ⟨error, herror, hkind⟩ := hsplits.refuses calls turn id (h rfl)
    exact ⟨_, herror, by rw [asCallError, hkind, isRetryable]⟩
  · exact hsplits.others calls e turn id he

theorem walk_serves (hsplits : pool.Splits urls star m) (hattempts : 1 ≤ pool.attemptsPerEndpoint)
    (hcalls : calls ≠ []) (hm : calls.length ≤ m) (order : List (Fin k)) (hstar : star ∈ order)
    (failures : List RpcCallError) (h : At urls turn id s) :
    ∃ results s', pool.walk (pool.whole calls) order failures s = (.ok results, s') ∧
      s'.urls = urls ∧ s'.limits star = s.limits star := by
  induction order generalizing turn id failures s with
  | nil => cases hstar
  | cons e rest ih =>
    by_cases he : e = star
    · subst he
      obtain ⟨hanswer, hat, hlimits⟩ := h.call pool calls e
      obtain ⟨results, hresults⟩ := hsplits.serves calls turn id hcalls hm
      obtain ⟨left, hleft⟩ := Nat.exists_eq_add_of_le' hattempts
      rcases hcall : (pool.whole calls).call e s with ⟨answer, s'⟩
      rw [hcall] at hanswer hat hlimits
      cases hanswer.trans hresults
      simp only [walk, hleft, tryEndpoint, hcall]
      exact ⟨results, s', rfl, hat.urls, congrFun hlimits e⟩
    · obtain ⟨failures', s', htry, hat, hlimits⟩ :=
        tryEndpoint_fails (hsplits.fails calls (absurd · he)) pool.attemptsPerEndpoint failures h
      obtain ⟨results, s'', hwalk, hurls, hlimits'⟩ :=
        ih ((List.mem_cons.mp hstar).resolve_left (Ne.symm he)) failures' hat
      simp only [walk, htry]
      refine ⟨results, s'', hwalk, hurls, ?_⟩
      rw [hlimits', hlimits]
      split
      · rfl
      · exact Function.update_of_ne (Ne.symm he) ..

theorem walk_idle (attempts : Attempts k (List (Option Json))) (order : List (Fin k))
    (hattempts : pool.attemptsPerEndpoint = 0) :
    pool.walk attempts order failures s =
      (.error (.allEndpointsFailed attempts.method failures), s) := by
  induction order with
  | nil => rfl
  | cons e rest ih => simp [walk, hattempts, tryEndpoint, ih]

theorem mem_selectOrder (e : Fin k) : e ∈ pool.selectOrder s :=
  (pool.selectOrder_spec s).1.mem_iff.mpr (List.mem_finRange e)

/-- What the pool knows of the limits once it has failed to serve the calls as a whole. -/
def limitsOnceRefused (pool : RpcPool k) (calls : List RpcBatchCall) (s : PoolState k) :
    Fin k → Option Nat :=
  pool.refusedLimits s.urls calls ((pool.selectOrder s).filter (capable calls.length s))
    s.posts.length (s.requestId + 1) s.limits

theorem requestWholeBatch_serves (hsplits : pool.Splits s.urls star m)
    (hattempts : 1 ≤ pool.attemptsPerEndpoint) (hcalls : calls ≠ []) (hm : calls.length ≤ m)
    (hcapable : capable calls.length s star = true) :
    ∃ results s', pool.requestWholeBatch calls s = (.ok results, s') ∧ s'.urls = s.urls ∧
      s'.limits star = s.limits star := by
  have hstar : star ∈ (pool.selectOrder s).filter (capable calls.length s) :=
    List.mem_filter.mpr ⟨mem_selectOrder star, hcapable⟩
  simp only [requestWholeBatch]
  rw [if_neg (List.length_pos_of_mem hstar).ne']
  exact walk_serves hsplits hattempts hcalls hm _ hstar [] ⟨rfl, rfl, rfl⟩

theorem requestWholeBatch_refused (calls : List RpcBatchCall) (hsplits : pool.Splits s.urls star m)
    (h : ¬(calls.length ≤ m ∧ capable calls.length s star = true)) :
    ∃ error s', pool.requestWholeBatch calls s = (.error error, s') ∧ s'.urls = s.urls ∧
      s'.limits = pool.limitsOnceRefused calls s := by
  simp only [requestWholeBatch, limitsOnceRefused]
  split
  · rename_i hnone
    rw [List.eq_nil_of_length_eq_zero hnone]
    exact ⟨_, s, rfl, rfl, rfl⟩
  · refine walk_fails _ [] ⟨rfl, rfl, rfl⟩ fun e he => hsplits.fails calls ?_
    rintro rfl
    exact Nat.lt_of_not_le fun hm => h ⟨hm, (List.mem_filter.mp he).2⟩

theorem requestWholeBatch_idle (calls : List RpcBatchCall) (s : PoolState k)
    (hattempts : pool.attemptsPerEndpoint = 0) :
    ∃ error, pool.requestWholeBatch calls s = (.error error, s) := by
  simp only [requestWholeBatch, walk_idle _ _ hattempts]
  split <;> exact ⟨_, rfl⟩

theorem requestWholeBatch_ok_iff (hsplits : pool.Splits s.urls star m) (hcalls : calls ≠ []) :
    (∃ results, (pool.requestWholeBatch calls s).1 = .ok results) ↔
      1 ≤ pool.attemptsPerEndpoint ∧ calls.length ≤ m ∧ capable calls.length s star = true := by
  constructor
  · rintro ⟨results, hresults⟩
    refine ⟨Nat.one_le_iff_ne_zero.mpr fun hidle => ?_, Classical.by_contradiction fun h => ?_⟩
    · obtain ⟨error, herror⟩ := requestWholeBatch_idle calls s hidle
      rw [herror] at hresults
      cases hresults
    · obtain ⟨error, s', hrefused, -⟩ := requestWholeBatch_refused calls hsplits h
      rw [hrefused] at hresults
      cases hresults
  · rintro ⟨hattempts, hm, hcapable⟩
    obtain ⟨results, s', hserves, -⟩ :=
      requestWholeBatch_serves hsplits hattempts hcalls hm hcapable
    exact ⟨results, by rw [hserves]⟩

theorem capable_of_le {size size' : Nat} {s' : PoolState k} (hsize : size' ≤ size)
    (hlimit : s'.limits star = s.limits star) (h : capable size s star = true) :
    capable size' s' star = true := by
  simp only [capable, PoolState.limits] at hlimit h ⊢
  rw [hlimit]
  cases hmax : (s.endpoints star).maxBatchSize with
  | none => rfl
  | some limit =>
    simp only [hmax, Option.all_some, decide_eq_true_eq] at h ⊢
    exact hsize.trans h

theorem chunkLoop_serves (hsplits : pool.Splits urls star m)
    (hattempts : 1 ≤ pool.attemptsPerEndpoint) {size : Nat} (hsize : 1 ≤ size) (left : Nat)
    (calls : List RpcBatchCall) (s : PoolState k) (hurls : s.urls = urls)
    (hm : min size calls.length ≤ m) (hcapable : capable (min size calls.length) s star = true) :
    ∃ results, (pool.chunkLoop size left calls s).1 = .ok results := by
  induction left generalizing calls s with
  | zero => exact ⟨[], rfl⟩
  | succ left ih =>
    unfold chunkLoop
    split
    · exact ⟨[], rfl⟩
    · rename_i hsome
      subst hurls
      have hlength : (calls.take size).length = min size calls.length := List.length_take
      have hne : calls.take size ≠ [] := by
        rw [← List.length_pos_iff]
        omega
      obtain ⟨first, s', hserves, hurls, hlimit⟩ := requestWholeBatch_serves hsplits hattempts hne
        (hlength ▸ hm) (hlength ▸ hcapable)
      have hless : min size (calls.drop size).length ≤ min size calls.length := by
        rw [List.length_drop]
        omega
      obtain ⟨rest, hrest⟩ := ih (calls.drop size) s' hurls (hless.trans hm)
        (capable_of_le hless hlimit hcapable)
      rcases hloop : pool.chunkLoop size left (calls.drop size) s' with ⟨_ | rest', s''⟩
      · rw [hloop] at hrest
        cases hrest
      · exact ⟨first ++ rest', by simp [hserves, hloop]⟩

theorem requestBatchInChunks_ok_iff (hsplits : pool.Splits s.urls star m) (hcalls : calls ≠ [])
    (size : Nat) :
    (∃ results, (pool.requestBatchInChunks calls size s).1 = .ok results) ↔
      1 ≤ pool.attemptsPerEndpoint ∧ min (max 1 size) calls.length ≤ m ∧
        capable (min (max 1 size) calls.length) s star = true := by
  constructor
  · rintro ⟨results, hresults⟩
    obtain ⟨call, rest, rfl⟩ := List.exists_cons_of_ne_nil hcalls
    have hlength : ((call :: rest).take (max 1 size)).length =
        min (max 1 size) (call :: rest).length := List.length_take
    have hne : (call :: rest).take (max 1 size) ≠ [] := by
      rw [← List.length_pos_iff, hlength, List.length_cons]
      omega
    rw [← hlength, ← requestWholeBatch_ok_iff hsplits hne]
    simp only [requestBatchInChunks, List.length_cons, chunkLoop, Nat.succ_ne_zero, if_false]
      at hresults
    rcases hwhole : pool.requestWholeBatch ((call :: rest).take (max 1 size)) s with ⟨_ | first, s'⟩
    · rw [hwhole] at hresults
      cases hresults
    · exact ⟨first, rfl⟩
  · rintro ⟨hattempts, hm, hcapable⟩
    exact chunkLoop_serves hsplits hattempts (Nat.le_max_left 1 size) _ calls s rfl hm hcapable

def Reaches (limits : Fin k → Option Nat) (star : Fin k) (m : Nat) : Prop :=
  ∃ limit, limits star = some limit ∧ 1 ≤ limit ∧ limit ≤ m ∧
    ∀ e limit', limits e = some limit' → limit' ≤ limit

theorem chunks_reach {limits : Fin k → Option Nat} {best size : Nat}
    (hbest : PoolState.Largest limits best) (hless : best < calls.length)
    (hstar : ∃ limit, limits star = some limit) (hlimits : s.limits = limits)
    (hsize : size = min (max 1 best) calls.length) :
    (size ≤ m ∧ capable size s star = true) ↔ Reaches limits star m := by
  obtain ⟨limit, hlimit⟩ := hstar
  have hle : limit ≤ best := hbest.2 star limit hlimit
  have hstar : (s.endpoints star).maxBatchSize = some limit := (congrFun hlimits star).trans hlimit
  simp only [capable, hstar, Option.all_some, decide_eq_true_eq]
  constructor
  · rintro ⟨hm, hcapable⟩
    refine ⟨limit, hlimit, by omega, by omega, fun e limit' he => ?_⟩
    have := hbest.2 e limit' he
    omega
  · rintro ⟨limit', hlimit', hpos, hm, hall⟩
    cases hlimit.symm.trans hlimit'
    obtain ⟨e, he⟩ := hbest.1
    have := hall e best he
    omega

theorem refusedLimits_of_notMem (order : List (Fin k)) (h : star ∉ order) :
    pool.refusedLimits urls calls order turn id limits star = limits star := by
  induction order generalizing turn id limits with
  | nil => rfl
  | cons e rest ih =>
    obtain ⟨he, hrest⟩ := (not_or.mp fun hor => h (List.mem_cons.mpr hor))
    simp only [refusedLimits]
    rw [ih hrest]
    cases (pool.firstRefusal urls calls e pool.attemptsPerEndpoint turn id).1 with
    | none => rfl
    | some limit => exact Function.update_of_ne he ..

theorem refusedLimits_of_mem (hsplits : pool.Splits urls star m)
    (hattempts : 1 ≤ pool.attemptsPerEndpoint) (hm : m < calls.length) (order : List (Fin k))
    (hnodup : order.Nodup) (h : star ∈ order) :
    ∃ limit, pool.refusedLimits urls calls order turn id limits star = some limit ∧
      limit < calls.length := by
  induction order generalizing turn id limits with
  | nil => cases h
  | cons e rest ih =>
    obtain ⟨hnot, hrest⟩ := List.nodup_cons.mp hnodup
    by_cases he : e = star
    · subst he
      obtain ⟨error, herror, hkind⟩ := hsplits.refuses calls turn id hm
      obtain ⟨left, hleft⟩ := Nat.exists_eq_add_of_le' hattempts
      refine ⟨_, ?_, (Nat.min_le_right ((parseAllowedBatchSize error.message).getD
        (calls.length - 1)) (calls.length - 1)).trans_lt (by omega)⟩
      simp only [refusedLimits, hleft, firstRefusal, refusal, herror, asCallError, hkind, if_true]
      rw [refusedLimits_of_notMem rest hnot]
      exact Function.update_self ..
    · rw [refusedLimits]
      exact ih hrest ((List.mem_cons.mp h).resolve_left (Ne.symm he))

theorem limitsOnceRefused_star (hsplits : pool.Splits s.urls star m)
    (hattempts : 1 ≤ pool.attemptsPerEndpoint)
    (h : ¬(calls.length ≤ m ∧ capable calls.length s star = true)) :
    ∃ limit, pool.limitsOnceRefused calls s star = some limit ∧ limit < calls.length := by
  have hnodup : ((pool.selectOrder s).filter (capable calls.length s)).Nodup :=
    ((pool.selectOrder_spec s).1.nodup_iff.mpr (List.nodup_finRange k)).filter _
  cases hcapable : capable calls.length s star with
  | true =>
    exact refusedLimits_of_mem hsplits hattempts
      (Nat.lt_of_not_le fun hm => h ⟨hm, hcapable⟩) _ hnodup
      (List.mem_filter.mpr ⟨mem_selectOrder star, hcapable⟩)
  | false =>
    rw [limitsOnceRefused, refusedLimits_of_notMem _ (by simp [hcapable])]
    simp only [capable] at hcapable
    unfold PoolState.limits
    cases hlimit : (s.endpoints star).maxBatchSize with
    | none => simp [hlimit] at hcapable
    | some limit =>
      rw [hlimit] at hcapable
      exact ⟨limit, rfl, by simpa using hcapable⟩

/-- A batch that is too large for every endpoint.  It resolves if the endpoint that serves takes
it whole, and otherwise exactly if the limit that the pool has for that endpoint, as it knew it or as
the refusal states it, is the largest it has for any and not more than the endpoint takes. -/
theorem requestBatch_splits_iff (calls : List RpcBatchCall) (s : PoolState k) (star : Fin k) (m : Nat)
    (hcalls : 1 ≤ calls.length) (hsplits : pool.Splits s.urls star m) :
    (∃ results, (pool.requestBatch calls s).1 = .ok results) ↔
      1 ≤ pool.attemptsPerEndpoint ∧
        ((calls.length ≤ m ∧ capable calls.length s star = true) ∨
          Reaches (pool.limitsOnceRefused calls s) star m) := by
  have hne : calls ≠ [] := List.length_pos_iff.mp hcalls
  unfold requestBatch
  rw [if_neg (Nat.one_le_iff_ne_zero.mp hcalls)]
  split
  · rename_i best hceiling
    obtain ⟨hproven, hless⟩ := Option.filter_eq_some_iff.mp hceiling
    obtain ⟨hknown, hbest⟩ := PoolState.provenBatchCeiling_eq.mp hproven
    replace hless : best < calls.length := by simpa using hless
    have hcapable : ∀ e, capable calls.length s e = false := by
      intro e
      obtain ⟨limit, hlimit⟩ := Option.isSome_iff_exists.mp (hknown e)
      have hle := hbest.2 e limit hlimit
      simp only [PoolState.limits] at hlimit
      simp only [capable, hlimit, Option.all_some, decide_eq_false_iff_not]
      omega
    have hlimits : pool.limitsOnceRefused calls s = s.limits := by
      rw [limitsOnceRefused, List.filter_eq_nil_iff.mpr fun e _ => by simp [hcapable e],
        refusedLimits]
    rw [requestBatchInChunks_ok_iff hsplits hne,
      chunks_reach hbest hless (Option.isSome_iff_exists.mp (hknown star)) rfl rfl, hlimits]
    simp [hcapable]
  · by_cases hidle : pool.attemptsPerEndpoint = 0
    · obtain ⟨error, herror⟩ := requestWholeBatch_idle calls s hidle
      have hnot : ¬1 ≤ pool.attemptsPerEndpoint := by omega
      rw [herror]
      dsimp only
      split
      · rw [requestBatchInChunks_ok_iff hsplits hne]
        simp [hnot]
      · simp [hnot]
    · have hattempts : 1 ≤ pool.attemptsPerEndpoint := Nat.one_le_iff_ne_zero.mpr hidle
      by_cases hwhole : calls.length ≤ m ∧ capable calls.length s star = true
      · obtain ⟨results, s', hserves, -⟩ :=
          requestWholeBatch_serves hsplits hattempts hne hwhole.1 hwhole.2
        rw [hserves]
        exact ⟨fun _ => ⟨hattempts, .inl hwhole⟩, fun _ => ⟨results, rfl⟩⟩
      · obtain ⟨error, s', hrefused, hurls, hlimits⟩ :=
          requestWholeBatch_refused calls hsplits hwhole
        obtain ⟨limit, hlimit, hless⟩ := limitsOnceRefused_star hsplits hattempts hwhole
        rw [hrefused]
        dsimp only
        split
        · rename_i best hfallback
          obtain ⟨hknown, hless⟩ := Option.filter_eq_some_iff.mp hfallback
          have hbest := PoolState.bestKnownBatchLimit_eq.mp hknown
          rw [hlimits] at hbest
          replace hless : best < calls.length := by simpa using hless
          rw [requestBatchInChunks_ok_iff (hurls ▸ hsplits) hne,
            chunks_reach hbest hless ⟨limit, hlimit⟩ hlimits rfl]
          simp [hwhole]
        · rename_i hfallback
          constructor
          · rintro ⟨results, hresults⟩
            cases hresults
          · rintro ⟨-, hor⟩
            obtain ⟨limit', hlimit', -, -, hall⟩ := hor.resolve_left hwhole
            cases hlimit.symm.trans hlimit'
            have hbest : s'.bestKnownBatchLimit = some limit :=
              PoolState.bestKnownBatchLimit_eq.mpr
                ⟨⟨star, by rw [hlimits, hlimit]⟩, by rwa [hlimits]⟩
            rw [hbest] at hfallback
            simp only [Option.filter_some, decide_eq_true_eq, if_pos hless] at hfallback
            cases hfallback

def idText : List Char := "\x7b\"id\":".toList

def resultText : List Char := ",\"result\":true\x7d".toList

def tooLarge : String := "batch size too large"

def errorText : List Char :=
  ",\"error\":\x7b\"message\":\"batch size too large\"\x7d\x7d".toList

def envelopeText (content : List Char) (id : Nat) : List Char :=
  idText ++ (Nat.toDigits 10 id ++ content)

def batchText (content : List Char) : List Nat → List Char
  | [] => [']']
  | [id] => envelopeText content id ++ [']']
  | id :: ids => envelopeText content id ++ ',' :: batchText content ids

def numbers : Option Nat → List Char → List Nat
  | number, [] => number.toList
  | number, c :: text =>
    if c.isDigit then numbers (some (10 * number.getD 0 + (c.toNat - '0'.toNat))) text
    else number.toList ++ numbers none text

def envelopeOf (refused : Bool) (id : Nat) : Json :=
  .obj [("id", .num id), if refused then ("error", .obj [("message", .str tooLarge)])
    else ("result", .bool true)]

def strict : RpcPool 1 where
  parse text := some (.arr ((numbers none text.toList).map (envelopeOf (decide ('m' ∈ text.toList)))))
  stringify _ := ""
  display _ := ""
  average a _ := a
  fetch _ _ body :=
    let text := match body with
      | .single request => envelopeText resultText request.id
      | .batch requests =>
        '[' :: batchText (if 3 < requests.length then errorText else resultText)
          (requests.map RpcRequest.id)
    .responded { status := 200, contentType := none, text := .ok (String.ofList text) }
  times _ := { pacedAt := 0, startedAt := 0, endedAt := 0, failedAt := 0 }
  selectedAt _ := 0

theorem numbers_digits (digits : List Char) (hdigits : ∀ c ∈ digits, c.isDigit = true)
    (number : Nat)
    (text : List Char) :
    numbers (some number) (digits ++ text) = numbers (some (Nat.ofDigitChars 10 digits number)) text := by
  induction digits generalizing number with
  | nil => simp
  | cons c digits ih =>
    obtain ⟨hc, hdigits⟩ := List.forall_mem_cons.mp hdigits
    rw [List.cons_append, numbers, if_pos hc, ih hdigits, Nat.ofDigitChars_cons]
    rfl

theorem isDigit_toDigits {id : Nat} {c : Char} (hc : c ∈ Nat.toDigits 10 id) : c.isDigit = true :=
  Nat.isDigit_of_mem_toDigits (by decide) (by decide) hc

theorem numbers_toDigits (id : Nat) (text : List Char) :
    numbers none (Nat.toDigits 10 id ++ text) = numbers (some id) text := by
  have hdigits : ∀ c ∈ Nat.toDigits 10 id, c.isDigit = true := fun c hc => isDigit_toDigits hc
  have hvalue : Nat.ofDigitChars 10 (Nat.toDigits 10 id) 0 = id :=
    Nat.ofDigitChars_toDigits (by decide) (by decide)
  rcases heq : Nat.toDigits 10 id with _ | ⟨c, digits⟩
  · exact absurd heq Nat.toDigits_ne_nil
  · rw [heq] at hdigits hvalue
    obtain ⟨hc, hdigits⟩ := List.forall_mem_cons.mp hdigits
    rw [List.cons_append, numbers, if_pos hc, numbers_digits digits hdigits]
    rw [Nat.ofDigitChars_cons] at hvalue
    exact congrArg (fun number => numbers (some number) text) hvalue

structure Letters (content : List Char) : Prop where
  letters : ∀ c ∈ content, c.isDigit = false
  nonempty : content ≠ []

theorem letters_idText : Letters idText :=
  ⟨List.forall_iff_forall_mem.mp (by decide), by decide⟩

theorem letters_resultText : Letters resultText :=
  ⟨List.forall_iff_forall_mem.mp (by decide), by decide⟩

theorem letters_errorText : Letters errorText :=
  ⟨List.forall_iff_forall_mem.mp (by decide), by decide⟩

theorem Letters.numbers {content : List Char} (h : Letters content) (number : Option Nat)
    (text : List Char) : numbers number (content ++ text) = number.toList ++ numbers none text := by
  obtain ⟨hletters, hne⟩ := h
  induction content generalizing number with
  | nil => exact absurd rfl hne
  | cons c content ih =>
    obtain ⟨hc, hletters⟩ := List.forall_mem_cons.mp hletters
    rw [List.cons_append, RpcPool.numbers, if_neg (by simp [hc])]
    cases content with
    | nil => rfl
    | cons c' content =>
      rw [ih none hletters (by simp)]
      rfl

theorem numbers_envelopeText {content : List Char} (h : Letters content) (id : Nat)
    (text : List Char) :
    numbers none (envelopeText content id ++ text) = id :: numbers none text := by
  rw [envelopeText, List.append_assoc, letters_idText.numbers, List.append_assoc, numbers_toDigits,
    h.numbers]
  rfl

theorem numbers_batchText {content : List Char} (h : Letters content) (ids : List Nat) :
    numbers none (batchText content ids) = ids := by
  induction ids with
  | nil => rfl
  | cons id ids ih =>
    cases ids with
    | nil => exact numbers_envelopeText h id _
    | cons id' ids => exact (numbers_envelopeText h id _).trans (congrArg (List.cons id) ih)

theorem m_mem_batchText (content : List Char) (id : Nat) (ids : List Nat) :
    'm' ∈ batchText content (id :: ids) ↔ 'm' ∈ content := by
  have hid : 'm' ∉ idText := by decide
  have henvelope : ∀ id, 'm' ∈ envelopeText content id ↔ 'm' ∈ content := by
    intro id
    have hdigits : 'm' ∉ Nat.toDigits 10 id := fun hm => absurd (isDigit_toDigits hm) (by decide)
    simp [envelopeText, hid, hdigits]
  induction ids generalizing id with
  | nil => simp [batchText, henvelope]
  | cons id' ids ih => simp [batchText, henvelope, ih]

theorem strict_body (calls : List RpcBatchCall) (e : Fin 1) (turn id : Nat) (hcalls : calls ≠ []) :
    strict.body (strict.fetch turn e (.batch (batchRequests calls id))) =
      some ({ status := 200, contentType := none, text := .ok (String.ofList ('[' :: batchText
        (if 3 < calls.length then errorText else resultText) (List.range' id calls.length))) },
        .arr ((List.range' id calls.length).map (envelopeOf (decide (3 < calls.length))))) := by
  have hids : (batchRequests calls id).map RpcRequest.id = List.range' id calls.length := by
    rw [batchRequests, List.map_map]
    refine List.ext_getElem (by simp) fun i h h' => ?_
    simp
  have hlength : (batchRequests calls id).length = calls.length := by simp [batchRequests]
  obtain ⟨call, rest, rfl⟩ := List.exists_cons_of_ne_nil hcalls
  generalize hcontent : (if 3 < (call :: rest).length then errorText else resultText) = content
  have hletters : Letters content := by
    rw [← hcontent]
    split
    · exact letters_errorText
    · exact letters_resultText
  have hm : 'm' ∈ content ↔ 3 < (call :: rest).length := by
    rw [← hcontent]
    split
    · rename_i hlarge
      exact iff_of_true (by decide) hlarge
    · rename_i hsmall
      exact iff_of_false (by decide) hsmall
  have hnumbers : numbers none ('[' :: batchText content (List.range' id (call :: rest).length)) =
      List.range' id (call :: rest).length := numbers_batchText hletters _
  have hmem : 'm' ∈ '[' :: batchText content (List.range' id (call :: rest).length) ↔
      3 < (call :: rest).length := by
    rw [List.length_cons, List.range'_succ, List.mem_cons, m_mem_batchText, hm]
    simp
  simp only [Runtime.body, strict, hids, hlength, hcontent, Option.map_some, String.toList_ofList,
    hnumbers, hmem]

theorem byId_envelopeOf (refused : Bool) {ids : List Nat} {id : Nat} (h : id ∈ ids) :
    Runtime.byId (ids.map (envelopeOf refused)) id = some (envelopeOf refused id) := by
  have hhas : ∀ id', Runtime.hasId id (envelopeOf refused id') = decide (id' = id) := by
    intro id'
    cases refused <;> simp [Runtime.hasId, envelopeOf, Json.member]
  rcases hentry : Runtime.byId (ids.map (envelopeOf refused)) id with _ | entry
  · have hnone := List.find?_eq_none.mp hentry (envelopeOf refused id)
      (List.mem_reverse.mpr (List.mem_map_of_mem h))
    simp [hhas] at hnone
  · obtain ⟨hmem, hid⟩ := byId_spec hentry
    obtain ⟨id', -, rfl⟩ := List.mem_map.mp hmem
    rw [hhas, decide_eq_true_eq] at hid
    rw [hid]

def tooLargeError (url method : String) : RpcCallError where
  kind := .batchTooLarge
  endpoint := url
  method
  reason := tooLarge

theorem strict_refuses (urls : Fin 1 → String) (call : RpcBatchCall) (rest : List RpcBatchCall)
    (e : Fin 1) (turn id : Nat) (h : 3 < (call :: rest).length) :
    strict.tells urls (call :: rest) e turn id =
      .error (.rpc (tooLargeError (urls e) call.method)) := by
  have hbody := strict_body (call :: rest) e turn id (by simp)
  have hpost : strict.postRpc (urls e) (batchLabel (call :: rest))
      (strict.fetch turn e (.batch (batchRequests (call :: rest) id))) = .ok ⟨_, 200, true⟩ :=
    strict.postRpc_ok.mpr ⟨_, hbody, rfl, rfl, rfl⟩
  have hnull : ((List.range' id (call :: rest).length).map (envelopeOf true)).any Json.isNull =
      false := by
    simp [Json.isNull, envelopeOf]
  have hentry := byId_envelopeOf true (List.mem_range'.mpr
    ⟨0, Nat.zero_lt_succ rest.length, by simp⟩ : id ∈ List.range' id (call :: rest).length)
  have hkind : classifyWithStatus tooLarge 200 true = .batchTooLarge := by decide
  have henvelope : strict.readEnvelope (urls e) call.method (call.params.getD []).head?
      (envelopeOf true id) 200 true = .error (.rpc (tooLargeError (urls e) call.method)) := by
    simp [Runtime.readEnvelope, Runtime.envelopeError, Runtime.toText, envelopeOf, Json.member,
      Json.truthy, Option.filter, hkind, tooLargeError]
  simp only [tells, Runtime.readBatch, hpost, ok_bind, h, decide_true, hnull,
    Bool.false_eq_true, if_false, Runtime.readEntries, hentry, henvelope]
  rfl

theorem strict_splits (urls : Fin 1 → String) : strict.Splits urls 0 3 where
  serves calls turn id hcalls hm := by
    refine ⟨calls.map fun _ => some (.bool true), (strict.readBatch_ok).mpr ⟨_, _,
      strict_body calls 0 turn id hcalls, rfl, ?_, by simp, fun i call hcall => ?_⟩⟩
    · simp [Json.isNull, envelopeOf]
    · obtain ⟨hi, -⟩ := List.getElem?_eq_some_iff.mp hcall
      have hsmall : ¬3 < calls.length := by omega
      refine ⟨_, byId_envelopeOf _ (List.mem_range'.mpr ⟨i, hi, by simp⟩), ?_⟩
      simp [hsmall, envelopeOf, Runtime.quiet, Runtime.isGap, Json.member, Json.isNull, hi]
  refuses calls turn id hm := by
    cases calls with
    | nil => simp at hm
    | cons call rest => exact ⟨_, strict_refuses urls call rest 0 turn id hm, rfl⟩
  others calls e turn id he := absurd (Subsingleton.elim e 0) he

def sampleBatch (count : Nat) : List RpcBatchCall := List.replicate count { method := "eth_call" }

theorem strict_limits (count : Nat) (h : 3 < count) :
    strict.limitsOnceRefused (sampleBatch count) (freshState fun _ => "a") =
      fun _ => some (count - 1) := by
  have hhint : parseAllowedBatchSize (tooLargeError "a" "eth_call").message = none := by decide
  have hlength : (sampleBatch count).length = count := List.length_replicate
  obtain ⟨rest, hrest⟩ : ∃ rest, sampleBatch count = { method := "eth_call" } :: rest := by
    obtain ⟨left, rfl⟩ := Nat.exists_eq_add_of_lt h
    exact ⟨_, rfl⟩
  have horder : (strict.selectOrder (freshState fun _ => "a")).filter
      (capable (sampleBatch count).length (freshState fun _ => "a")) = [0] := rfl
  have hrefuses := strict_refuses (freshState fun _ => "a").urls { method := "eth_call" } rest 0 0 1
    (by rw [← hrest, hlength]; exact h)
  rw [← hrest] at hrefuses
  have hrefusal : strict.refusal (freshState fun _ => "a").urls (sampleBatch count) 0 0 1 =
      some (count - 1) := by
    simp only [refusal, hrefuses, asCallError]
    rw [hlength]
    simp only [PoolState.urls, freshState, freshHealth, hhint]
    simp [tooLargeError]
  funext e
  rw [limitsOnceRefused, horder, Subsingleton.elim e 0]
  show strict.refusedLimits (freshState fun _ => "a").urls (sampleBatch count) [0] 0 1 _ 0 = _
  simp only [refusedLimits, show strict.attemptsPerEndpoint = 2 from rfl, firstRefusal, hrefusal,
    Function.update_self]

/-- Four calls are refused, and served as three and one. -/
theorem requestBatch_splits_iff_four :
    ∃ results, (strict.requestBatch (sampleBatch 4) (freshState fun _ => "a")).1 = .ok results :=
  (requestBatch_splits_iff (sampleBatch 4) (freshState fun _ => "a") 0 3 (by decide)
    (strict_splits _)).mpr ⟨by decide, .inr ⟨3, by rw [strict_limits 4 (by decide)], by decide,
      by decide, fun e limit' he => by
        rw [strict_limits 4 (by decide)] at he
        cases he
        exact le_rfl⟩⟩

/-- A batch that every endpoint refuses is only asked for once more, in chunks of the best limit
that is known then. -/
theorem requestBatch_fallback {pool : RpcPool k} {calls : List RpcBatchCall} {s s' : PoolState k}
    {error : PoolError} {results : List (Option Json)} (hne : calls ≠ [])
    (hceiling : s.provenBatchCeiling = none)
    (hrefused : pool.requestWholeBatch calls s = (.error error, s'))
    (h : (pool.requestBatch calls s).1 = .ok results) :
    ∃ best, s'.bestKnownBatchLimit = some best ∧
      (pool.requestBatchInChunks calls best s').1 = .ok results := by
  have hlength : ¬calls.length = 0 := mt List.eq_nil_of_length_eq_zero hne
  rw [requestBatch, if_neg hlength, hceiling, hrefused] at h
  dsimp only [Option.filter] at h
  split at h
  · rename_i best hbest
    exact ⟨best, (Option.filter_eq_some_iff.mp hbest).1, h⟩
  · cases h

/-- Five calls are refused, and so are four of them: the pool gives up, and never asks for three. -/
theorem five_surrendered :
    strict.Splits (fun _ => "a") 0 3 ∧ ∀ results,
      (strict.requestBatch (sampleBatch 5) (freshState fun _ => "a")).1 ≠ .ok results := by
  refine ⟨strict_splits _, fun results h => ?_⟩
  have hne : sampleBatch 5 ≠ [] := by decide
  have hceiling : (freshState fun _ : Fin 1 => "a").provenBatchCeiling = none := rfl
  obtain ⟨error, s', hrefused, -, hlimits⟩ := requestWholeBatch_refused (sampleBatch 5)
    (strict_splits (freshState fun _ => "a").urls) (by decide)
  rw [strict_limits 5 (by decide)] at hlimits
  obtain ⟨best, hbest, hchunks⟩ := requestBatch_fallback hne hceiling hrefused h
  obtain ⟨⟨e, he⟩, -⟩ := PoolState.bestKnownBatchLimit_eq.mp hbest
  rw [hlimits] at he
  cases he
  obtain ⟨-, hm, -⟩ :=
    (requestBatchInChunks_ok_iff (strict_splits s'.urls) hne 4).mp ⟨_, hchunks⟩
  exact absurd hm (by decide)

end RpcPool

end Stunks.Web3
