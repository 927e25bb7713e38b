import Stunks.Indexer.Sources.Rpc
import Stunks.Lib.Chunks
import Stunks.Lib.Workers

namespace Stunks.Indexer

open Web3

def maxConcurrentLogAddressQueries : Nat := 2

/-- An endpoint that answers a filter with the logs it has for the range and the topics, of the
addresses the filter names. -/
structure LogNode where
  logs (fromBlock toBlock : Nat) (topics : Option (List (List Hex))) : List RawJsonRpcLog

def LogNode.serve (node : LogNode) (filter : LogFilter) : List RawJsonRpcLog :=
  let logs := node.logs filter.fromBlock filter.toBlock filter.topics
  match filter.address with
  | none => logs
  | some addresses => logs.filter fun log => addresses.contains log.address

def LogFilter.addresses (filter : LogFilter) : List Address := filter.address.getD []

/-- Every OR-ed address and topic counts against the provider's cap. -/
def LogFilter.selectors (filter : LogFilter) : Nat :=
  filter.addresses.length + (filter.topics.getD []).flatten.length

namespace ChunkReads

variable (window : AdaptiveLogWindow) (query : LogQuery)

def filterOf (addresses : List Address) : LogFilter :=
  logFilter query.fromBlock (clampedTo window query) addresses query.topics0

def subQueries : List LogFilter :=
  (addressChunks query.addresses query.topicSelectorCount).map (filterOf window query)

abbrev Reads := Workers.Pool LogFilter (List RawJsonRpcLog) Thrown

def start : Reads :=
  let chunks := addressChunks query.addresses query.topicSelectorCount
  Workers.start (subQueries window query) (min maxConcurrentLogAddressQueries chunks.length)

def conclude : Except Thrown (List (List RawJsonRpcLog)) →
    Except SourceError (LogBatch Hex) × AdaptiveLogWindow
  | .ok chunkLogs =>
    (.ok { logs := chunkLogs.flatten.filterMap (widenLog query.topics0),
           reachedBlock := clampedTo window query },
      window.onSuccess)
  | .error error =>
    match findRpcCallError error with
    | some failure =>
      if failure.kind = .logRangeTooWide ∨ failure.kind = .timeout then
        let narrowed := window.onRejected
        (.error (.rangeTooWide (clampedTo window query + 1 - query.fromBlock)
          s!"Endpoint rejected the range ({failure.kind.text}); window narrowed to {narrowed.span}. Retry."),
          narrowed)
      else (.error (.thrown error), window)
    | none => (.error (.thrown error), window)

theorem getLogs_eq (request : LogFilter → Except Thrown (List RawJsonRpcLog)) :
    getLogs request window query =
      conclude window query ((addressChunks query.addresses query.topicSelectorCount).mapM
        fun addresses => request (filterOf window query addresses)) := by
  unfold getLogs
  simp only
  change (match (addressChunks query.addresses query.topicSelectorCount).mapM
    fun addresses => request (filterOf window query addresses) with | .ok _ => _ | .error _ => _) = _
  generalize (addressChunks query.addresses query.topicSelectorCount).mapM
    (fun addresses => request (filterOf window query addresses)) = outcome
  cases outcome <;> rfl

def answer (reads : Reads) : Option (Except SourceError (LogBatch Hex) × AdaptiveLogWindow) :=
  (Workers.settled reads).map fun settled =>
    conclude window query (settled.map fun chunkLogs => chunkLogs.filterMap id)

abbrev Run (node : LogNode) : Reads → List (Workers.Label Thrown) → Reads → Prop :=
  Workers.Run (subQueries window query) node.serve

def unsplit (node : LogNode) : List (RawLog Hex) :=
  (node.serve (filterOf window query query.addresses)).filterMap (widenLog query.topics0)

section addresses

variable {window query}

theorem addressChunks_eq (h : query.addresses ≠ []) (n : Nat) :
    addressChunks query.addresses n =
      Chunks.ofSize (max 1 (maxLogAddressesPerQuery - n)) query.addresses :=
  if_neg fun hlength => h (List.length_eq_zero_iff.mp hlength)

theorem addressChunks_nil (h : query.addresses = []) (n : Nat) :
    addressChunks query.addresses n = [[]] :=
  if_pos (List.length_eq_zero_iff.mpr h)

theorem flatten_addressChunks (query : LogQuery) (n : Nat) :
    (addressChunks query.addresses n).flatten = query.addresses := by
  by_cases h : query.addresses = []
  · rw [addressChunks_nil h, h]
    rfl
  · rw [addressChunks_eq h]
    exact Chunks.flatten_ofSize (by omega)

theorem filterOf_addresses (addresses : List Address) :
    (filterOf window query addresses).addresses = addresses := by
  cases addresses <;> rfl

theorem filterOf_topics (addresses : List Address) :
    ((filterOf window query addresses).topics.getD []).flatten.length =
      query.topicSelectorCount := by
  unfold filterOf logFilter LogQuery.topicSelectorCount
  cases query.topics0 with
  | none => rfl
  | some topics0 => cases topics0 <;> simp

theorem subQueries_selectors (htopics : query.topicSelectorCount < maxLogAddressesPerQuery)
    {filter : LogFilter} (h : filter ∈ subQueries window query) :
    filter.selectors ≤ maxLogAddressesPerQuery := by
  obtain ⟨chunk, hchunk, rfl⟩ := List.mem_map.mp h
  unfold LogFilter.selectors
  rw [filterOf_addresses, filterOf_topics]
  by_cases hempty : query.addresses = []
  · rw [addressChunks_nil hempty, List.mem_singleton] at hchunk
    rw [hchunk, List.length_nil]
    omega
  · rw [addressChunks_eq hempty] at hchunk
    have := Chunks.length_le_of_mem hchunk
    omega

theorem serve_filterOf (node : LogNode) {addresses : List Address} (h : addresses ≠ []) :
    node.serve (filterOf window query addresses) =
      (node.logs query.fromBlock (clampedTo window query)
        (filterOf window query []).topics).filter fun log => addresses.contains log.address := by
  cases addresses with
  | nil => exact absurd rfl h
  | cons address addresses => rfl

theorem serve_subQueries_perm (node : LogNode) (hdistinct : query.addresses.Nodup) :
    ((subQueries window query).flatMap node.serve).Perm
      (node.serve (filterOf window query query.addresses)) := by
  by_cases hempty : query.addresses = []
  · unfold subQueries
    rw [addressChunks_nil hempty, hempty]
    simp
  · have hflatten := flatten_addressChunks query query.topicSelectorCount
    have hgroups := Chunks.filter_groups_perm (fun log : RawJsonRpcLog => log.address)
      (node.logs query.fromBlock (clampedTo window query) (filterOf window query []).topics)
      (by rw [hflatten]; exact hdistinct)
    rw [hflatten, ← serve_filterOf node hempty] at hgroups
    refine List.Perm.trans (List.Perm.of_eq ?_) hgroups
    unfold subQueries
    rw [List.flatMap_map]
    refine List.flatMap_congr fun chunk hchunk => serve_filterOf node ?_
    rw [addressChunks_eq hempty] at hchunk
    exact Chunks.ne_nil_of_mem (by omega) hchunk

theorem countP_subQueries (hdistinct : query.addresses.Nodup) {address : Address}
    (h : address ∈ query.addresses) :
    (subQueries window query).countP (fun filter => filter.addresses.contains address) = 1 := by
  unfold subQueries
  rw [List.countP_map]
  have hflatten := flatten_addressChunks query query.topicSelectorCount
  have hcount := Chunks.countP_contains (by rw [hflatten]; exact hdistinct) (hflatten ▸ h)
  rw [← hcount]
  exact List.countP_congr fun chunk _ => by simp [filterOf_addresses]

end addresses

section runs

variable {window query} {node : LogNode} {labels : List (Workers.Label Thrown)} {reads : Reads}

theorem width_pos : 0 < min maxConcurrentLogAddressQueries
    (addressChunks query.addresses query.topicSelectorCount).length := by
  have hchunks := List.length_pos_iff.mpr
    (addressChunks_ne_nil query.addresses query.topicSelectorCount)
  exact Nat.lt_min.mpr ⟨by decide, hchunks⟩

theorem filterMap_some {α β : Type} (f : α → β) (l : List α) :
    (l.map fun a => some (f a)).filterMap id = l.map f := by
  rw [List.filterMap_map]
  exact congrFun List.filterMap_eq_map l

theorem settled_of_answer {batch : LogBatch Hex} {window' : AdaptiveLogWindow}
    (h : answer window query reads = some (.ok batch, window')) :
    ∃ results, Workers.settled reads = some (.ok results) := by
  obtain ⟨settled, hsettled, hconclude⟩ := Option.map_eq_some_iff.mp h
  cases settled with
  | error error =>
    simp only [Except.map, conclude] at hconclude
    split at hconclude
    · split at hconclude <;> cases hconclude
    · cases hconclude
  | ok results => exact ⟨results, hsettled⟩

theorem mapM_serve (node : LogNode) :
    ((addressChunks query.addresses query.topicSelectorCount).mapM fun addresses =>
      (.ok (node.serve (filterOf window query addresses)) :
        Except Thrown (List RawJsonRpcLog))) = .ok ((subQueries window query).map node.serve) := by
  unfold subQueries
  rw [List.map_map]
  exact List.mapM_pure

theorem answer_eq_getLogs (hrun : Run window query node (start window query) labels reads)
    {results : List (Option (List RawJsonRpcLog))}
    (h : Workers.settled reads = some (.ok results)) :
    reads.asked = subQueries window query ∧ answer window query reads =
      some (getLogs (fun filter => .ok (node.serve filter)) window query) := by
  obtain ⟨hasked, rfl⟩ := Workers.settled_ok hrun width_pos h
  refine ⟨hasked, ?_⟩
  unfold answer
  rw [h, getLogs_eq, mapM_serve]
  simp only [Option.map_some, Except.map, filterMap_some]

theorem getLogs_serve (node : LogNode) :
    getLogs (fun filter => .ok (node.serve filter)) window query =
      (.ok { logs := ((subQueries window query).flatMap node.serve).filterMap
               (widenLog query.topics0)
             reachedBlock := clampedTo window query },
        window.onSuccess) := by
  rw [getLogs_eq, mapM_serve]
  rfl

theorem asked_subset (hrun : Run window query node (start window query) labels reads)
    {filter : LogFilter} (h : filter ∈ reads.asked) : filter ∈ subQueries window query := by
  rw [(Workers.inv_run hrun).asked] at h
  exact List.mem_of_mem_take h

/-- However the answers to the two workers come in: what `getLogs` returns is what one unsplit
query would have, in chunk order, no sub-query exceeds the cap, each address has been asked for
once, and unless a request fails the call does return, after one answer for each chunk. -/
theorem getLogs_unsplit (hdistinct : query.addresses.Nodup)
    (htopics : query.topicSelectorCount < maxLogAddressesPerQuery)
    (hrun : Run window query node (start window query) labels reads) :
    (∀ filter ∈ reads.asked, filter.selectors ≤ maxLogAddressesPerQuery) ∧
    (∀ batch window', answer window query reads = some (.ok batch, window') →
      batch.reachedBlock = clampedTo window query ∧
      batch.logs = (subQueries window query).flatMap
        (fun filter => (node.serve filter).filterMap (widenLog query.topics0)) ∧
      batch.logs.Perm (unsplit window query node) ∧
      ∀ address ∈ query.addresses,
        reads.asked.countP (fun filter => filter.addresses.contains address) = 1) ∧
    labels.length ≤ (subQueries window query).length ∧
    ((∀ l ∈ labels, l.isAnswered = true) →
      (∃ worker reads', Workers.step (subQueries window query) node.serve reads
        (.answered worker) = some reads') ∨
      ∃ batch, answer window query reads = some (.ok batch, window.onSuccess)) := by
  have hcount := Workers.run_outstanding hrun
  refine ⟨fun filter h => subQueries_selectors htopics (asked_subset hrun h), ?_, by omega, ?_⟩
  · intro batch window' h
    obtain ⟨results, hsettled⟩ := settled_of_answer h
    obtain ⟨hasked, hanswer⟩ := answer_eq_getLogs hrun hsettled
    rw [hanswer, getLogs_serve] at h
    obtain ⟨rfl, -⟩ : _ = batch ∧ _ = window' := by simpa using h
    refine ⟨rfl, List.filterMap_flatMap .., (serve_subQueries_perm node hdistinct).filterMap _, ?_⟩
    intro address haddress
    rw [hasked]
    exact countP_subQueries hdistinct haddress
  · intro hanswered
    refine (Workers.answers_or_settled hrun hanswered).imp_right ?_
    rintro ⟨results, hsettled⟩
    rw [(answer_eq_getLogs hrun hsettled).2, getLogs_serve]
    exact ⟨_, rfl⟩

end runs

def crowdedQuery : LogQuery where
  fromBlock := 1
  toBlock := 9
  addresses := [10, 20, 30]
  topics0 := some (List.range 999)

def sampleNode : LogNode where
  logs _ _ _ := [⟨30, [7], [], some 5, some 50, some 500, some 0⟩,
    ⟨10, [8], [], some 6, some 60, some 600, some 1⟩]

def firstWindow : AdaptiveLogWindow := ⟨100, 0, none, 0, 10, 10000⟩

def returnsLogsOf (addresses : List Address) (reads : Reads) : Bool :=
  match answer firstWindow crowdedQuery reads with
  | some (.ok batch, _) => batch.logs.map RawLog.address = addresses
  | _ => false

/-- The second worker is answered first, and takes the third chunk. -/
theorem getLogs_unsplit_crowded : ∃ batch window,
    (∃ reads, answer firstWindow crowdedQuery reads = some (.ok batch, window)) ∧
      batch.logs.map RawLog.address = [10, 30] ∧
      batch.logs.Perm (unsplit firstWindow crowdedQuery sampleNode) := by
  have hanswers : (([.answered 1, .answered 0, .answered 1] : List (Workers.Label Thrown)).foldlM
      (Workers.step (subQueries firstWindow crowdedQuery) sampleNode.serve)
      (start firstWindow crowdedQuery)).any (returnsLogsOf [10, 30]) = true := by decide +kernel
  obtain ⟨reads, hrun, htest⟩ := Trace.exists_of_any hanswers
  unfold returnsLogsOf at htest
  split at htest
  · rename_i batch window hanswer
    obtain ⟨-, hbatch, -⟩ := getLogs_unsplit (by decide) (by decide +kernel) hrun
    obtain ⟨-, -, hperm, -⟩ := hbatch batch window hanswer
    exact ⟨batch, window, ⟨reads, hanswer⟩, of_decide_eq_true htest, hperm⟩
  · cases htest

end ChunkReads

end Stunks.Indexer
