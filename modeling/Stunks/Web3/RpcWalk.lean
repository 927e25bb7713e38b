import Stunks.Web3.RpcAnswers

namespace Stunks.Web3

variable {n : Nat} {α : Type}

namespace PoolState

variable {s s' : PoolState n}

def urls (s : PoolState n) (e : Fin n) : String := (s.endpoints e).url

theorem urls_update (e : Fin n) (f : MutableHealth → MutableHealth)
    (h : ∀ health, (f health).url = health.url) : (s.update e f).urls = s.urls := by
  funext e'
  by_cases he : e' = e
  · subst he
    simp [urls, update, h]
  · simp [urls, update, he]

def SameHealth (s s' : PoolState n) : Prop :=
  ∀ e, (s'.endpoints e).consecutiveFailures = (s.endpoints e).consecutiveFailures ∧
    (s'.endpoints e).cooldownUntil = (s.endpoints e).cooldownUntil

theorem SameHealth.trans {s'' : PoolState n} (h : s.SameHealth s') (h' : s'.SameHealth s'') :
    s.SameHealth s'' :=
  fun e => ⟨(h' e).1.trans (h e).1, (h' e).2.trans (h e).2⟩

theorem sameHealth_update (e : Fin n) (f : MutableHealth → MutableHealth)
    (h : (f (s.endpoints e)).consecutiveFailures = (s.endpoints e).consecutiveFailures ∧
      (f (s.endpoints e)).cooldownUntil = (s.endpoints e).cooldownUntil) :
    s.SameHealth (s.update e f) := by
  intro e'
  by_cases he : e' = e
  · subst he
    simpa [update] using h
  · simp [update, he]

end PoolState

namespace RpcPool

variable (pool : RpcPool n) {s : PoolState n} {e : Fin n} {failure : RpcCallError}

@[simp] theorem respectPacing_posts (now : ℚ) : (respectPacing e now s).posts = s.posts := by
  unfold respectPacing
  split <;> rfl

@[simp] theorem respectPacing_requestId (now : ℚ) :
    (respectPacing e now s).requestId = s.requestId := by
  unfold respectPacing
  split <;> rfl

@[simp] theorem respectPacing_urls (now : ℚ) : (respectPacing e now s).urls = s.urls := by
  unfold respectPacing
  split
  · rfl
  · exact PoolState.urls_update _ _ fun _ => rfl

theorem respectPacing_sameHealth (now : ℚ) : s.SameHealth (respectPacing e now s) := by
  unfold respectPacing
  split
  · exact fun _ => ⟨rfl, rfl⟩
  · exact PoolState.sameHealth_update _ _ ⟨rfl, rfl⟩

theorem post_eq (count : Nat) (body : Nat → RpcBody) : ∃ fetched,
    (pool.post e count body s).1 = fetched ∧
      (pool.post e count body s).2.posts =
        s.posts ++ [{ endpoint := e, body := body (s.requestId + 1), fetched }] ∧
      (pool.post e count body s).2.urls = s.urls ∧
      s.SameHealth (pool.post e count body s).2 := by
  refine ⟨_, rfl, ?_, ?_, ?_⟩
  · simp [post, PoolState.update]
  · have h := PoolState.urls_update (s := respectPacing e (pool.times s.posts.length).pacedAt s) e
      (fun health => { health with totalRequests := health.totalRequests + 1 }) fun _ => rfl
    exact h.trans (respectPacing_urls _)
  · have h := PoolState.sameHealth_update (s := respectPacing e (pool.times s.posts.length).pacedAt s)
      e (fun health => { health with totalRequests := health.totalRequests + 1 }) ⟨rfl, rfl⟩
    exact (respectPacing_sameHealth (pool.times s.posts.length).pacedAt).trans h

theorem recordSuccess_urls (latencyMs : ℚ) : (pool.recordSuccess e latencyMs s).urls = s.urls :=
  PoolState.urls_update _ _ fun _ => rfl

theorem recordFailure_posts (now : ℚ) :
    (pool.recordFailure e failure now s).posts = s.posts := rfl

theorem recordFailure_urls (now : ℚ) : (pool.recordFailure e failure now s).urls = s.urls := by
  refine PoolState.urls_update _ _ fun health => ?_
  split
  · rfl
  · dsimp only
    split <;> rfl

theorem recordFailure_sameHealth (now : ℚ)
    (h : failure.kind = .logRangeTooWide ∨ failure.kind = .batchTooLarge) :
    s.SameHealth (pool.recordFailure e failure now s) :=
  PoolState.sameHealth_update _ _ (by simp [h])

structure Attempts.Reads (attempts : Attempts n α) (urls : Fin n → String)
    (read : Post n → Except CallFailure α) (sends : Post n → Prop) : Prop where
  call : ∀ e s, s.urls = urls → ∃ post : Post n, post.endpoint = e ∧ sends post ∧
    (attempts.call e s).2.posts = s.posts ++ [post] ∧ (attempts.call e s).1 = read post ∧
      (attempts.call e s).2.urls = urls
  learn : ∀ failure update, attempts.learn failure = some update →
    ∀ health, (update health).url = health.url

section walk

variable (attempts : Attempts n α) (urls : Fin n → String) (read : Post n → Except CallFailure α)

def failureOf (post : Post n) : Option RpcCallError :=
  match read post with
  | .ok _ => none
  | .error error => some (asCallError (urls post.endpoint) attempts.method error)

def Retried (post : Post n) : Prop :=
  ∃ failure, failureOf attempts urls read post = some failure ∧ isRetryable failure.kind = true

/-- How a list of POSTs leads to the end of the attempts. -/
inductive Ends (made : List (Post n)) : Tried α → List RpcCallError → Prop
  | returned (init last value) (heq : made = init ++ [last])
      (hinit : ∀ post ∈ init, Retried attempts urls read post) (hlast : read last = .ok value)
      {failures} : Ends made (.returned value) failures
  | threw (init last failure) (heq : made = init ++ [last])
      (hinit : ∀ post ∈ init, Retried attempts urls read post)
      (hlast : failureOf attempts urls read last = some failure)
      (hfatal : isRetryable failure.kind = false) {failures} : Ends made (.threw failure) failures
  | exhausted {failures} (hall : ∀ post ∈ made, Retried attempts urls read post)
      (heq : made.map (failureOf attempts urls read) = failures.map some) :
      Ends made .exhausted failures

variable {attempts urls read} {sends : Post n → Prop}

theorem Ends.cons {post : Post n} {made : List (Post n)} {tried : Tried α}
    {failures : List RpcCallError} (hpost : Retried attempts urls read post)
    (h : Ends attempts urls read made tried failures) {failure : RpcCallError}
    (hfailure : failureOf attempts urls read post = some failure) :
    Ends attempts urls read (post :: made) tried (failure :: failures) := by
  cases h with
  | returned init last value heq hinit hlast =>
    exact .returned (post :: init) last value (by simp [heq])
      (List.forall_mem_cons.mpr ⟨hpost, hinit⟩) hlast
  | threw init last failure heq hinit hlast hfatal =>
    exact .threw (post :: init) last failure (by simp [heq])
      (List.forall_mem_cons.mpr ⟨hpost, hinit⟩) hlast hfatal
  | exhausted hall heq =>
    exact .exhausted (List.forall_mem_cons.mpr ⟨hpost, hall⟩) (by simp [hfailure, heq])

theorem Ends.append {made rest : List (Post n)} {tried : Tried α}
    {failures more : List RpcCallError} (h : Ends attempts urls read made .exhausted failures)
    (hrest : Ends attempts urls read rest tried more) :
    Ends attempts urls read (made ++ rest) tried (failures ++ more) := by
  cases h with
  | exhausted hall heq =>
    have hfront : ∀ init : List (Post n), (∀ post ∈ init, Retried attempts urls read post) →
        ∀ post ∈ made ++ init, Retried attempts urls read post :=
      fun _ hinit post hpost => (List.mem_append.mp hpost).elim (hall post) (hinit post)
    cases hrest with
    | returned init last value hmade hinit hlast =>
      exact .returned (made ++ init) last value (by simp [hmade]) (hfront init hinit) hlast
    | threw init last failure hmade hinit hlast hfatal =>
      exact .threw (made ++ init) last failure (by simp [hmade]) (hfront init hinit) hlast hfatal
    | exhausted hall' heq' => exact .exhausted (hfront rest hall') (by simp [heq, heq'])

theorem tryEndpoint_spec (hreads : attempts.Reads urls read sends) (left : Nat)
    (failures : List RpcCallError) (s : PoolState n) (hurls : s.urls = urls) :
    ∃ made new, (pool.tryEndpoint attempts e left failures s).2.2.posts = s.posts ++ made ∧
      (∀ post ∈ made, post.endpoint = e ∧ sends post) ∧ made.length ≤ left ∧
      (pool.tryEndpoint attempts e left failures s).2.2.urls = urls ∧
      Ends attempts urls read made (pool.tryEndpoint attempts e left failures s).1 new ∧
      ((pool.tryEndpoint attempts e left failures s).1 = .exhausted →
        (pool.tryEndpoint attempts e left failures s).2.1 = failures ++ new ∧
          ((∀ failure, attempts.learn failure = none) → made.length = left)) := by
  induction left generalizing failures s with
  | zero => exact ⟨[], [], by simp [tryEndpoint], by simp, le_rfl, hurls, .exhausted (by simp) rfl,
      fun _ => ⟨by simp [tryEndpoint], fun _ => rfl⟩⟩
  | succ left ih =>
    obtain ⟨post, hpost, hsends, hposts, hread, hurls'⟩ := hreads.call e s hurls
    have hpost' : post.endpoint = e ∧ sends post := ⟨hpost, hsends⟩
    unfold tryEndpoint
    rcases hcall : attempts.call e s with ⟨answer, s'⟩
    rw [hcall] at hposts hread hurls'
    replace hposts : s'.posts = s.posts ++ [post] := hposts
    cases answer with
    | ok value =>
      exact ⟨[post], [], hposts, by simpa using hpost', by simp, hurls',
        .returned [] post value rfl (by simp) hread.symm, nofun⟩
    | error error =>
      have hurl : (s.endpoints e).url = urls e := congrFun hurls e
      have hfailure : failureOf attempts urls read post =
          some (asCallError (s.endpoints e).url attempts.method error) := by
        simp only [failureOf, ← hread, hpost, hurl]
      dsimp only
      generalize asCallError (s.endpoints e).url attempts.method error = failure at *
      have hrecorded : (pool.recordFailure e failure (pool.times s.posts.length).failedAt s').posts =
          s.posts ++ [post] := (pool.recordFailure_posts _).trans hposts
      have hkept : (pool.recordFailure e failure (pool.times s.posts.length).failedAt s').urls =
          urls := (pool.recordFailure_urls _).trans hurls'
      generalize pool.recordFailure e failure (pool.times s.posts.length).failedAt s' = recorded at *
      split
      · rename_i hretry
        have hretried : Retried attempts urls read post := ⟨failure, hfailure, hretry⟩
        cases hlearn : attempts.learn failure with
        | some update =>
          refine ⟨[post], [failure], by simpa [PoolState.update] using hrecorded,
            by simpa using hpost', by simp, ?_,
            .exhausted (by simpa using hretried) (by simp [hfailure]), fun _ => ⟨rfl, ?_⟩⟩
          · exact (PoolState.urls_update _ _ (hreads.learn failure update hlearn)).trans hkept
          · exact fun hnone => nomatch hlearn.symm.trans (hnone failure)
        | none =>
          obtain ⟨made, new, hmade, hendpoint, hlength, hurls'', hends, hexhausted⟩ :=
            ih (failures ++ [failure]) recorded hkept
          refine ⟨post :: made, failure :: new, by simp [hmade, hrecorded],
            List.forall_mem_cons.mpr ⟨hpost', hendpoint⟩, by simpa using hlength, hurls'',
            hends.cons hretried hfailure, fun hdone => ?_⟩
          obtain ⟨hfailures, hall⟩ := hexhausted hdone
          exact ⟨by simp [hfailures], fun hnone => by simp [hall hnone]⟩
      · rename_i hfatal
        refine ⟨[post], [failure], hrecorded, by simpa using hpost', by simp, hkept,
          .threw [] post failure rfl (by simp) hfailure (by simpa using hfatal), nofun⟩

def outcome (method : String) (tried : Tried α) (failures : List RpcCallError) :
    Except PoolError α :=
  match tried with
  | .returned value => .ok value
  | .threw failure => .error (.rpcCall failure)
  | .exhausted => .error (.allEndpointsFailed method failures)

def slots (order : List (Fin n)) : List (Fin n) :=
  order.flatMap fun e => List.replicate pool.attemptsPerEndpoint e

theorem walk_spec (hreads : attempts.Reads urls read sends) (order : List (Fin n))
    (failures : List RpcCallError) (s : PoolState n) (hurls : s.urls = urls) :
    ∃ made tried new, (pool.walk attempts order failures s).2.posts = s.posts ++ made ∧
      (∀ post ∈ made, sends post) ∧ (pool.walk attempts order failures s).2.urls = urls ∧
      (pool.walk attempts order failures s).1 = outcome attempts.method tried (failures ++ new) ∧
      Ends attempts urls read made tried new ∧
      ((∀ failure, attempts.learn failure = none) →
        made.map Post.endpoint <+: pool.slots order ∧
          (tried = .exhausted → made.map Post.endpoint = pool.slots order)) := by
  induction order generalizing failures s with
  | nil => exact ⟨[], .exhausted, [], by simp [walk], by simp, hurls, by simp [walk, outcome],
      .exhausted (by simp) rfl, fun _ => ⟨by simp [slots], fun _ => by simp [slots]⟩⟩
  | cons e rest ih =>
    obtain ⟨made, new, hmade, hendpoint, hlength, hurls', hends, hexhausted⟩ :=
      pool.tryEndpoint_spec hreads pool.attemptsPerEndpoint failures s hurls (e := e)
    have hmap : made.map Post.endpoint = List.replicate made.length e :=
      List.eq_replicate_iff.mpr ⟨by simp, by simpa using fun post hpost => (hendpoint post hpost).1⟩
    have hsends : ∀ post ∈ made, sends post := fun post hpost => (hendpoint post hpost).2
    have hfront : made.map Post.endpoint <+: pool.slots (e :: rest) := by
      rw [hmap, slots, List.flatMap_cons]
      exact ((List.prefix_replicate_iff).mpr ⟨by simpa using hlength, by simp⟩).trans
        (List.prefix_append ..)
    unfold walk
    rcases htry : pool.tryEndpoint attempts e pool.attemptsPerEndpoint failures s with
      ⟨tried, failures', s'⟩
    rw [htry] at hmade hurls' hends hexhausted
    replace hmade : s'.posts = s.posts ++ made := hmade
    cases tried with
    | returned value => exact ⟨made, _, new, hmade, hsends, hurls', rfl, hends, fun _ => ⟨hfront, nofun⟩⟩
    | threw failure => exact ⟨made, _, new, hmade, hsends, hurls', rfl, hends, fun _ => ⟨hfront, nofun⟩⟩
    | exhausted =>
      obtain ⟨hfailures, hall⟩ := hexhausted rfl
      replace hfailures : failures' = failures ++ new := hfailures
      obtain ⟨more, tried, more', hmore, hsends', hurls'', hresult, hends', hslots⟩ :=
        ih failures' s' hurls'
      refine ⟨made ++ more, tried, new ++ more', by simp [hmore, hmade],
        fun post hpost => (List.mem_append.mp hpost).elim (hsends post) (hsends' post), hurls'', ?_,
        hends.append hends', fun hnone => ?_⟩
      · rw [hresult, hfailures, List.append_assoc]
      · have hfull : made.map Post.endpoint = List.replicate pool.attemptsPerEndpoint e := by
          rw [hmap, hall hnone]
        obtain ⟨hrest, hdone⟩ := hslots hnone
        rw [List.map_append, hfull, slots, List.flatMap_cons]
        exact ⟨List.prefix_append_right_inj _ |>.mpr hrest, fun h => congrArg _ (hdone h)⟩

end walk

variable {method : String} {params : List Json} {calls : List RpcBatchCall} {urls : Fin n → String}

theorem answered_posts (turn : Nat) (answer : Except CallFailure α) :
    (pool.answered e turn answer s).2.posts = s.posts := by
  cases answer <;> rfl

theorem answered_urls (turn : Nat) (answer : Except CallFailure α) :
    (pool.answered e turn answer s).2.urls = s.urls := by
  cases answer with
  | ok _ => exact pool.recordSuccess_urls _
  | error _ => rfl

def readPost (method : String) (params : List Json) (urls : Fin n → String) (post : Post n) :
    Except CallFailure (Option Json) :=
  pool.readSingle (urls post.endpoint) method params post.fetched

theorem single_reads (method : String) (params : List Json) :
    (pool.single method params).Reads urls (pool.readPost method params urls)
    fun post => ∃ id, post.body = .single { id, method, params } where
  call e s hurls := by
    obtain ⟨fetched, hfetched, hposts, hurls', -⟩ :=
      pool.post_eq (s := s) (e := e) 1 fun id => .single { id, method, params }
    refine ⟨_, rfl, ⟨_, rfl⟩, (pool.answered_posts ..).trans hposts, ?_, ?_⟩
    · simp only [single, callEndpoint, answered_fst, readPost, hfetched, ← hurls, PoolState.urls]
    · exact (pool.answered_urls ..).trans (hurls'.trans hurls)
  learn := nofun

/-- A failed attempt of which the endpoint is not to blame leaves every health as it is. -/
theorem attempt_sameHealth {error : CallFailure}
    (h : (pool.callEndpoint method params e s).1 = .error error)
    (hkind : (asCallError (s.endpoints e).url method error).kind = .logRangeTooWide ∨
      (asCallError (s.endpoints e).url method error).kind = .batchTooLarge) (now : ℚ) :
    s.SameHealth (pool.recordFailure e (asCallError (s.endpoints e).url method error) now
      (pool.callEndpoint method params e s).2) := by
  obtain ⟨-, -, -, -, hsame⟩ :=
    pool.post_eq (s := s) (e := e) 1 fun id => .single { id, method, params }
  refine PoolState.SameHealth.trans ?_ (pool.recordFailure_sameHealth now hkind)
  simp only [callEndpoint, answered_fst] at h ⊢
  simp only [h, answered]
  exact hsame

theorem selectOrder_spec (s : PoolState n) :
    (pool.selectOrder s).Perm (List.finRange n) ∧ ∃ ready cooling,
      pool.selectOrder s = ready ++ cooling ∧
        (∀ e ∈ ready, s.isCooling (pool.selectedAt s.posts.length) e = false) ∧
        ∀ e ∈ cooling, s.isCooling (pool.selectedAt s.posts.length) e = true := by
  have hsplit := List.perm_append_comm.trans
    (List.filter_append_perm (fun e => s.isCooling (pool.selectedAt s.posts.length) e)
      (List.finRange n))
  have hcooling : ∀ e ∈ (List.finRange n).filter fun e =>
      s.isCooling (pool.selectedAt s.posts.length) e,
      s.isCooling (pool.selectedAt s.posts.length) e = true := fun e he => (List.mem_filter.mp he).2
  have hready : ∀ e ∈ (List.finRange n).filter fun e =>
      !s.isCooling (pool.selectedAt s.posts.length) e,
      s.isCooling (pool.selectedAt s.posts.length) e = false :=
    fun e he => by simpa using (List.mem_filter.mp he).2
  unfold selectOrder
  split
  · refine ⟨((List.perm_insertionSort _ _).append_right _).trans hsplit, _, _, rfl, ?_, hcooling⟩
    exact fun e he => hready e ((List.perm_insertionSort _ _).mem_iff.mp he)
  · exact ⟨hsplit, _, _, rfl, hready, hcooling⟩

theorem count_slots (order : List (Fin n)) (h : order.Nodup) (e : Fin n) :
    (pool.slots order).count e ≤ pool.attemptsPerEndpoint := by
  induction order with
  | nil => simp [slots]
  | cons e' order ih =>
    obtain ⟨hnot, hrest⟩ := List.nodup_cons.mp h
    have hcount := ih hrest
    rw [slots, List.flatMap_cons, List.count_append, List.count_replicate]
    by_cases he : e' = e
    · subst he
      have hzero : (pool.slots order).count e' = 0 := by
        refine List.count_eq_zero.mpr fun hmem => ?_
        obtain ⟨e'', hmem, hrep⟩ := List.mem_flatMap.mp hmem
        exact hnot ((List.eq_of_mem_replicate hrep).symm ▸ hmem)
      rw [slots] at hzero
      simp [hzero]
    · simpa [he, slots] using hcount

/-- A request.  Its POSTs are the attempts, in order, up to the first that succeeds or that
fails for good, and it ends as that one does; if there is none, they are all attempts, and it throws
all their failures. -/
theorem request_walks (method : String) (params : List Json) (s : PoolState n) :
    (∃ made tried failures,
      (pool.request method params s).2.posts = s.posts ++ made ∧
        (∀ post ∈ made, ∃ id, post.body = .single { id, method, params }) ∧
        (pool.request method params s).1 = outcome method tried failures ∧
        Ends (pool.single method params) s.urls (pool.readPost method params s.urls) made tried
          failures ∧
        made.map Post.endpoint <+: pool.slots (pool.selectOrder s) ∧
        (∀ e, (made.map Post.endpoint).count e ≤ pool.attemptsPerEndpoint) ∧
        (tried = .exhausted → made.map Post.endpoint = pool.slots (pool.selectOrder s) ∧
          failures.length = n * pool.attemptsPerEndpoint)) ∧
      ((pool.selectOrder s).Perm (List.finRange n) ∧ ∃ ready cooling,
        pool.selectOrder s = ready ++ cooling ∧
          (∀ e ∈ ready, s.isCooling (pool.selectedAt s.posts.length) e = false) ∧
          ∀ e ∈ cooling, s.isCooling (pool.selectedAt s.posts.length) e = true) ∧
      (∀ (s : PoolState n) e failure now,
        failure.kind ∈ [RpcFailureKind.logRangeTooWide, RpcFailureKind.batchTooLarge] →
        s.SameHealth (pool.recordFailure e failure now s)) ∧
      ∀ (s : PoolState n) e error now, (pool.callEndpoint method params e s).1 = .error error →
        (asCallError (s.endpoints e).url method error).kind ∈
          [RpcFailureKind.logRangeTooWide, RpcFailureKind.batchTooLarge] →
        s.SameHealth (pool.recordFailure e (asCallError (s.endpoints e).url method error) now
          (pool.callEndpoint method params e s).2) := by
  refine ⟨?_, pool.selectOrder_spec s, fun s e failure now hkind => ?_,
    fun s e error now herror hkind => ?_⟩
  rotate_left
  · exact pool.recordFailure_sameHealth now (by simpa using hkind)
  · exact pool.attempt_sameHealth herror (by simpa using hkind) now
  obtain ⟨made, tried, failures, hposts, hsends, -, hresult, hends, hslots⟩ :=
    pool.walk_spec (pool.single_reads method params) (pool.selectOrder s) [] s rfl
  obtain ⟨hfront, hall⟩ := hslots fun _ => rfl
  have hnodup : (pool.selectOrder s).Nodup :=
    (pool.selectOrder_spec s).1.nodup_iff.mpr (List.nodup_finRange n)
  refine ⟨made, tried, failures, hposts, hsends, hresult, hends, hfront, fun e => ?_, fun hdone => ?_⟩
  · exact (hfront.sublist.count_le e).trans (pool.count_slots _ hnodup e)
  · refine ⟨hall hdone, ?_⟩
    subst hdone
    cases hends with
    | exhausted _ heq =>
      have hlength := congrArg List.length heq
      have hmade := congrArg List.length (hall rfl)
      simp only [List.length_map] at hlength hmade
      rw [← hlength, hmade]
      have horder := (pool.selectOrder_spec s).1.length_eq
      rw [List.length_finRange] at horder
      simp [slots, horder]

end RpcPool

end Stunks.Web3
