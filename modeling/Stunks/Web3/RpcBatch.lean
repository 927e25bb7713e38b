import Stunks.Web3.RpcWalk

namespace Stunks.Web3

variable {k : Nat}

def Post.baseId (post : Post k) : Nat :=
  match post.body with
  | .single request => request.id
  | .batch requests => (requests.head?.map RpcRequest.id).getD 0

namespace RpcPool

variable (pool : RpcPool k) {s : PoolState k} {e : Fin k} {calls : List RpcBatchCall}
  {urls : Fin k → String} {results : List (Option Json)}

def readPostBatch (calls : List RpcBatchCall) (urls : Fin k → String) (post : Post k) :
    Except CallFailure (List (Option Json)) :=
  pool.readBatch (urls post.endpoint) (batchLabel calls) post.baseId calls post.fetched

theorem baseId_batchRequests {post : Post k} {id : Nat} (h : calls ≠ [])
    (hbody : post.body = .batch (batchRequests calls id)) : post.baseId = id := by
  cases calls with
  | nil => exact absurd rfl h
  | cons call calls => simp [Post.baseId, hbody, batchRequests]

theorem whole_reads (hcalls : calls ≠ []) :
    (pool.whole calls).Reads urls (pool.readPostBatch calls urls)
      fun post => ∃ id, post.body = .batch (batchRequests calls id) where
  call e s hurls := by
    obtain ⟨fetched, hfetched, hposts, hurls', -⟩ :=
      pool.post_eq (s := s) (e := e) calls.length fun id => .batch (batchRequests calls id)
    refine ⟨_, rfl, ⟨_, rfl⟩, (pool.answered_posts ..).trans hposts, ?_, ?_⟩
    · rw [readPostBatch, baseId_batchRequests hcalls rfl]
      simp only [whole, callEndpointBatch, answered_fst, hfetched, ← hurls, PoolState.urls]
    · exact (pool.answered_urls ..).trans (hurls'.trans hurls)
  learn failure update hlearn health := by
    simp only [whole, learnBatchSize] at hlearn
    split at hlearn
    · cases hlearn
      rfl
    · cases hlearn

/-- The POST carried a stretch of the calls, call `i` among them, and this is the result of an
envelope with the id of that call. -/
def ServedBy (calls : List RpcBatchCall) (i : Nat) (result : Option Json) (post : Post k) : Prop :=
  ∃ offset size id j, post.body = .batch (batchRequests ((calls.drop offset).take size) id) ∧
    i = offset + j ∧ j < ((calls.drop offset).take size).length ∧
    ∃ response entries entry, pool.body post.fetched = some (response, .arr entries) ∧
      entry ∈ entries ∧ Runtime.hasId (id + j) entry = true ∧ result = entry.member "result"

def Serves (calls : List RpcBatchCall) (offset : Nat) (results : List (Option Json))
    (posts : List (Post k)) : Prop :=
  ∀ i result, results[i]? = some result →
    ∃ post ∈ posts, pool.ServedBy calls (offset + i) result post

theorem byId_spec {entries : List Json} {id : Nat} {entry : Json}
    (h : Runtime.byId entries id = some entry) :
    entry ∈ entries ∧ Runtime.hasId id entry = true :=
  ⟨by simpa using List.mem_of_find?_eq_some h, by simpa using List.find?_some h⟩

theorem requestWholeBatch_served {chunk : List RpcBatchCall} {offset size : Nat}
    (hchunk : chunk = (calls.drop offset).take size) (hne : chunk ≠ [])
    (h : (pool.requestWholeBatch chunk s).1 = .ok results) :
    results.length = chunk.length ∧ ∃ made,
      (pool.requestWholeBatch chunk s).2.posts = s.posts ++ made ∧
        pool.Serves calls offset results made := by
  simp only [requestWholeBatch] at h ⊢
  split at h
  · cases h
  · rename_i hable
    rw [if_neg hable]
    obtain ⟨made, tried, failures, hposts, hsends, -, hresult, hends, -⟩ :=
      pool.walk_spec (pool.whole_reads hne) ((pool.selectOrder s).filter (capable chunk.length s)) []
        s rfl
    rw [h] at hresult
    cases hends with
    | threw _ _ _ _ _ _ => cases hresult
    | exhausted _ _ => cases hresult
    | returned init last value hmade _ hlast =>
      cases hresult
      have hlast' : last ∈ made := by simp [hmade]
      obtain ⟨id, hbody⟩ := hsends last hlast'
      rw [readPostBatch, baseId_batchRequests hne hbody] at hlast
      obtain ⟨response, entries, hbody', -, -, hlength, hread⟩ := pool.readBatch_ok.mp hlast
      refine ⟨hlength, made, hposts, fun i result hi => ⟨last, hlast', ?_⟩⟩
      obtain ⟨hlt, -⟩ := List.getElem?_eq_some_iff.mp hi
      rw [hlength] at hlt
      obtain ⟨entry, hentry, -, -, hresult⟩ := hread i _ (List.getElem?_eq_getElem hlt)
      obtain ⟨hmem, hid⟩ := byId_spec hentry
      cases hi.symm.trans hresult
      exact ⟨offset, size, id, i, hchunk ▸ hbody, rfl, hchunk ▸ hlt, response, entries, entry, hbody',
        hmem, hid, rfl⟩

theorem serves_append {offset : Nat} {first rest : List (Option Json)} {made more : List (Post k)}
    (hfirst : pool.Serves calls offset first made)
    (hrest : ∀ i result, rest[i]? = some result →
      ∃ post ∈ more, pool.ServedBy calls (offset + (first.length + i)) result post) :
    pool.Serves calls offset (first ++ rest) (made ++ more) := by
  intro i result hi
  rcases Nat.lt_or_ge i first.length with hlt | hge
  · rw [List.getElem?_append_left hlt] at hi
    obtain ⟨post, hpost, hserved⟩ := hfirst i result hi
    exact ⟨post, List.mem_append_left _ hpost, hserved⟩
  · rw [List.getElem?_append_right hge] at hi
    obtain ⟨post, hpost, hserved⟩ := hrest _ result hi
    rw [Nat.add_sub_cancel' hge] at hserved
    exact ⟨post, List.mem_append_right _ hpost, hserved⟩

theorem chunkLoop_served {size : Nat} (hsize : 0 < size) {left : Nat} (offset : Nat)
    (hleft : (calls.drop offset).length ≤ left)
    (h : (pool.chunkLoop size left (calls.drop offset) s).1 = .ok results) :
    results.length = (calls.drop offset).length ∧ ∃ made,
      (pool.chunkLoop size left (calls.drop offset) s).2.posts = s.posts ++ made ∧
        pool.Serves calls offset results made := by
  induction left generalizing offset s results with
  | zero =>
    cases h
    refine ⟨by simpa using (Nat.le_zero.mp hleft).symm, [], by simp [chunkLoop], ?_⟩
    intro i result hi
    simp at hi
  | succ left ih =>
    unfold chunkLoop at h ⊢
    split at h
    · rename_i hempty
      rw [if_pos hempty]
      cases h
      refine ⟨by simp [hempty], [], by simp, ?_⟩
      intro i result hi
      simp at hi
    · rename_i hsome
      rw [if_neg hsome]
      have hne : (calls.drop offset).take size ≠ [] := by
        rw [← List.length_pos_iff, List.length_take]
        omega
      rcases hwhole : pool.requestWholeBatch ((calls.drop offset).take size) s with ⟨_ | first, s'⟩
      · simp [hwhole] at h
      · have hok : (pool.requestWholeBatch ((calls.drop offset).take size) s).1 = .ok first := by
          rw [hwhole]
        obtain ⟨hlength, made, hmade, hserves⟩ := pool.requestWholeBatch_served rfl hne hok
        rw [hwhole] at hmade
        simp only [hwhole, List.drop_drop] at h ⊢
        rcases hloop : pool.chunkLoop size left (calls.drop (offset + size)) s' with ⟨_ | rest, s''⟩
        · simp [hloop] at h
        · have hrest := @ih s' rest (offset + size) (by
            rw [← List.drop_drop, List.length_drop]
            omega) (by rw [hloop])
          rw [hloop] at hrest
          obtain ⟨hlength', more, hmore, hserves'⟩ := hrest
          simp only [hloop] at h ⊢
          cases h
          refine ⟨?_, made ++ more, by rw [hmore, hmade, List.append_assoc], ?_⟩
          · rw [List.length_append, hlength, hlength', ← List.drop_drop, ← List.length_append,
              List.take_append_drop]
          · exact pool.serves_append hserves fun i result hi => by
              have hfull : first.length = size := by
                rw [hlength, List.length_take]
                have : 0 < rest.length :=
                  (List.getElem?_eq_some_iff.mp hi).1.trans_le' (Nat.zero_le i)
                rw [hlength', ← List.drop_drop, List.length_drop] at this
                omega
              rw [hfull, ← Nat.add_assoc]
              exact hserves' i result hi

theorem requestBatchInChunks_served (size : Nat)
    (h : (pool.requestBatchInChunks calls size s).1 = .ok results) :
    results.length = calls.length ∧ ∃ made,
      (pool.requestBatchInChunks calls size s).2.posts = s.posts ++ made ∧
        pool.Serves calls 0 results made :=
  pool.chunkLoop_served (Nat.lt_of_lt_of_le Nat.zero_lt_one (Nat.le_max_left 1 size)) 0 le_rfl h

theorem requestWholeBatch_posts (hne : calls ≠ []) :
    ∃ made, (pool.requestWholeBatch calls s).2.posts = s.posts ++ made := by
  simp only [requestWholeBatch]
  split
  · exact ⟨[], by simp⟩
  · obtain ⟨made, -, -, hposts, -⟩ :=
      pool.walk_spec (pool.whole_reads hne) ((pool.selectOrder s).filter (capable calls.length s)) []
        s rfl
    exact ⟨made, hposts⟩

theorem callEndpointBatch_missing {label : String} {response : Response} {entries : List Json}
    {i : Nat} (hi : i < calls.length)
    (hbody : pool.body (pool.fetchBatch e s calls) = some (response, .arr entries))
    (hmissing : ∀ entry ∈ entries, Runtime.hasId (s.requestId + 1 + i) entry = false) :
    ∃ failure, (pool.callEndpointBatch calls label e s).1 = .error failure := by
  rcases hcall : (pool.callEndpointBatch calls label e s).1 with failure | results
  · exact ⟨failure, rfl⟩
  · simp only [callEndpointBatch, answered_fst] at hcall
    obtain ⟨_, _, hbody', -, -, -, hread⟩ := pool.readBatch_ok.mp hcall
    cases hbody.symm.trans hbody'
    obtain ⟨entry, hentry, -⟩ := hread i _ (List.getElem?_eq_getElem hi)
    obtain ⟨hmem, hid⟩ := byId_spec hentry
    rw [hmissing entry hmem] at hid
    cases hid

/-- A batch that resolves has one result for each call, from an envelope with the id that the
call had in the POST.  A POST in which an id is missing has failed. -/
theorem requestBatch_served (calls : List RpcBatchCall) (s : PoolState k) :
    (∀ results, (pool.requestBatch calls s).1 = .ok results →
      results.length = calls.length ∧ ∃ made,
        (pool.requestBatch calls s).2.posts = s.posts ++ made ∧ pool.Serves calls 0 results made) ∧
      ∀ (chunk : List RpcBatchCall) label e (s : PoolState k) response entries,
        pool.body (pool.fetchBatch e s chunk) = some (response, .arr entries) →
        (∃ i < chunk.length, ∀ entry ∈ entries,
          Runtime.hasId (s.requestId + 1 + i) entry = false) →
        ∃ failure, (pool.callEndpointBatch chunk label e s).1 = .error failure := by
  refine ⟨fun results h => ?_, fun chunk label e s response entries hbody ⟨i, hi, hmissing⟩ =>
    pool.callEndpointBatch_missing hi hbody hmissing⟩
  unfold requestBatch at h ⊢
  split at h
  · rename_i hempty
    rw [if_pos hempty]
    cases h
    exact ⟨hempty.symm, [], by simp, fun i result hi => by simp at hi⟩
  · rename_i hsome
    rw [if_neg hsome]
    have hne : calls ≠ [] := fun h => hsome (by simp [h])
    split at h
    · exact pool.requestBatchInChunks_served _ h
    · obtain ⟨first, hfirst⟩ := pool.requestWholeBatch_posts hne (s := s)
      rcases hwhole : pool.requestWholeBatch calls s with ⟨error | results', s'⟩
      · rw [hwhole] at hfirst
        replace hfirst : s'.posts = s.posts ++ first := hfirst
        simp only [hwhole] at h ⊢
        split at h
        · obtain ⟨hlength, made, hmade, hserves⟩ := pool.requestBatchInChunks_served _ h
          refine ⟨hlength, first ++ made, by rw [hmade, hfirst, List.append_assoc], ?_⟩
          intro i result hi
          obtain ⟨post, hpost, hserved⟩ := hserves i result hi
          exact ⟨post, List.mem_append_right _ hpost, hserved⟩
        · cases h
      · simp only [hwhole] at h ⊢
        cases h
        have hserved := @requestWholeBatch_served k pool s calls results calls 0 calls.length
          (by simp) hne (by rw [hwhole])
        rwa [hwhole] at hserved

def sampleEnvelope (id : Nat) (result : String) : Json :=
  .obj [("id", .num id), ("result", .str result)]

def sample : RpcPool 1 where
  parse text :=
    if text = "first" then some (.arr [sampleEnvelope 2 "b", sampleEnvelope 1 "a"])
    else if text = "second" then some (.arr [sampleEnvelope 3 "c", sampleEnvelope 3 "d"])
    else some (.arr [sampleEnvelope 4 "e"])
  stringify _ := ""
  display _ := ""
  average a _ := a
  fetch turn _ _ := .responded {
    status := 200
    contentType := none
    text := .ok (if turn = 0 then "first" else if turn = 1 then "second" else "third") }
  times _ := { pacedAt := 0, startedAt := 0, endedAt := 0, failedAt := 0 }
  selectedAt _ := 0

def sampleState : PoolState 1 where
  endpoints _ := { freshHealth "a" with maxBatchSize := some 2 }
  requestId := 0
  posts := []

def sampleCalls : List RpcBatchCall :=
  [{ method := "eth_getCode" }, { method := "eth_call" }, { method := "eth_chainId" }]

theorem requestBatch_served_sample :
    (∃ made, (sample.requestBatch sampleCalls sampleState).2.posts = [] ++ made ∧
      sample.Serves sampleCalls 0 [some (.str "a"), some (.str "b"), some (.str "d")] made) ∧
      ∃ failure, (sample.callEndpointBatch (sampleCalls.take 2) "" 0
        (sample.requestBatch sampleCalls sampleState).2).1 = .error failure := by
  obtain ⟨hserved, hmissing⟩ := sample.requestBatch_served sampleCalls sampleState
  obtain ⟨-, made, hmade, hserves⟩ :=
    hserved [some (.str "a"), some (.str "b"), some (.str "d")] rfl
  refine ⟨⟨made, hmade, hserves⟩, hmissing (sampleCalls.take 2) "" 0 _
    { status := 200, contentType := none, text := .ok "third" } [sampleEnvelope 4 "e"] rfl
    ⟨1, by decide, ?_⟩⟩
  intro entry hentry
  rw [List.mem_singleton.mp hentry]
  rfl

end RpcPool

end Stunks.Web3
