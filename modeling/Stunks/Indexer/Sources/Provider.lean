import Mathlib.Data.List.Induction
import Stunks.Indexer.Sources.Rpc

namespace Stunks.Indexer

open Web3

def RangeRefused (error : Thrown) : Prop :=
  ∃ failure, findRpcCallError error = some failure ∧
    (failure.kind = .logRangeTooWide ∨ failure.kind = .timeout)

/-- An endpoint that serves a range exactly when it spans at most `limit` blocks.  What it
serves and how it words a refusal may change from call to call. -/
structure Provider (limit : Nat) where
  request : Nat → LogFilter → Except Thrown (List RawJsonRpcLog)
  serves : ∀ n filter, filter.span ≤ limit → ∃ logs, request n filter = .ok logs
  refuses : ∀ n filter, limit < filter.span →
    ∃ error, request n filter = .error error ∧ RangeRefused error

def Provider.empty (limit : Nat) : Provider limit where
  request _ filter :=
    if filter.span ≤ limit then .ok []
    else .error (.rpcCall { kind := .logRangeTooWide, endpoint := "", method := "eth_getLogs" })
  serves _ filter h := ⟨[], if_pos h⟩
  refuses _ filter h := ⟨_, if_neg (by omega), _, rfl, .inl rfl⟩

structure RpcLogSource where
  window : AdaptiveLogWindow
  calls : Nat
  served : List Nat

namespace RpcLogSource

def create (initialWindow : Nat) : Except JsError RpcLogSource := do
  return { window := ← AdaptiveLogWindow.create initialWindow 10 10000, calls := 0, served := [] }

variable {limit : Nat}

def answer (p : Provider limit) (s : RpcLogSource) (query : LogQuery) :
    Except SourceError (LogBatch Hex) :=
  (getLogs (p.request s.calls) s.window query).1

def call (p : Provider limit) (s : RpcLogSource) (query : LogQuery) : RpcLogSource where
  window := (getLogs (p.request s.calls) s.window query).2
  calls := s.calls + 1
  served := match s.answer p query with
    | .ok _ => attempted s.window query :: s.served
    | .error _ => s.served

def run (p : Provider limit) (s : RpcLogSource) (queries : List LogQuery) : RpcLogSource :=
  queries.foldl (call p) s

def retry (p : Provider limit) (query : LogQuery) : Nat → RpcLogSource → RpcLogSource
  | 0, s => s
  | n + 1, s => retry p query n (s.call p query)

def Served (s : RpcLogSource) (span : Nat) : Prop := ∃ n ∈ s.served, span ≤ n

def KnownGood (s : RpcLogSource) : Prop := s.window.lastGood = 0 ∨ s.Served s.window.lastGood

def Rejected (p : Provider limit) (s : RpcLogSource) (query : LogQuery) : Prop :=
  ∃ attempted message, s.answer p query = .error (.rangeTooWide attempted message)

def Answered (p : Provider limit) (s : RpcLogSource) (query : LogQuery) : Prop :=
  ∃ batch, s.answer p query = .ok batch

def Retryable (p : Provider limit) (s : RpcLogSource) : Prop :=
  ∀ query, s.Rejected p query → ∃ n, (retry p query n s).Answered p query

theorem getLogs_served (p : Provider limit) (s : RpcLogSource) {query : LogQuery}
    (h : attempted s.window query ≤ limit) :
    s.Answered p query ∧ (getLogs (p.request s.calls) s.window query).2 = s.window.onSuccess := by
  obtain ⟨bs, hbs⟩ := mapM_ok (f := fun addresses => p.request s.calls
    (logFilter query.fromBlock (clampedTo s.window query) addresses query.topics0))
    (l := addressChunks query.addresses query.topicSelectorCount) fun addresses _ => p.serves _ _ h
  constructor
  · simp only [Answered, answer, getLogs, hbs]
    exact ⟨_, rfl⟩
  · simp only [getLogs, hbs]

theorem getLogs_refused (p : Provider limit) (s : RpcLogSource) {query : LogQuery}
    (h : limit < attempted s.window query) :
    s.Rejected p query ∧ (getLogs (p.request s.calls) s.window query).2 = s.window.onRejected := by
  obtain ⟨chunk, chunks, hchunks⟩ := List.exists_cons_of_ne_nil
    (addressChunks_ne_nil query.addresses query.topicSelectorCount)
  obtain ⟨error, herror, failure, hfailure, hkind⟩ := p.refuses s.calls
    (logFilter query.fromBlock (clampedTo s.window query) chunk query.topics0) h
  have hmapM := mapM_error (f := fun addresses => p.request s.calls
    (logFilter query.fromBlock (clampedTo s.window query) addresses query.topics0))
    (l := chunks) herror
  constructor
  · simp only [Rejected, answer, getLogs, hchunks, hmapM, hfailure, if_pos hkind]
    exact ⟨_, _, rfl⟩
  · simp only [getLogs, hchunks, hmapM, hfailure, if_pos hkind]

theorem call_served (p : Provider limit) (s : RpcLogSource) {query : LogQuery}
    (h : attempted s.window query ≤ limit) :
    s.call p query = { window := s.window.onSuccess, calls := s.calls + 1,
                       served := attempted s.window query :: s.served } := by
  obtain ⟨⟨batch, hbatch⟩, hwindow⟩ := getLogs_served p s h
  simp only [call, hwindow, hbatch]

theorem call_refused (p : Provider limit) (s : RpcLogSource) {query : LogQuery}
    (h : limit < attempted s.window query) :
    s.call p query = { s with window := s.window.onRejected, calls := s.calls + 1 } := by
  obtain ⟨⟨attempted, message, hmessage⟩, hwindow⟩ := getLogs_refused p s h
  simp only [call, hwindow, hmessage]

theorem answered_iff (p : Provider limit) (s : RpcLogSource) (query : LogQuery) :
    s.Answered p query ↔ attempted s.window query ≤ limit := by
  constructor
  · rintro ⟨batch, hbatch⟩
    by_contra h
    obtain ⟨⟨_, _, hmessage⟩, -⟩ := getLogs_refused p s (not_le.mp h)
    simp [hbatch] at hmessage
  · exact fun h => (getLogs_served p s h).1

theorem run_concat (p : Provider limit) (s : RpcLogSource) (queries : List LogQuery)
    (query : LogQuery) : s.run p (queries ++ [query]) = (s.run p queries).call p query := by
  simp [run]

structure WithinLimit (limit : Nat) (s : RpcLogSource) : Prop where
  served : ∀ n ∈ s.served, n ≤ limit
  window : s.window.Bounded

theorem WithinLimit.call {p : Provider limit} {s : RpcLogSource} (h : s.WithinLimit limit)
    (query : LogQuery) : (s.call p query).WithinLimit limit := by
  by_cases hspan : attempted s.window query ≤ limit
  · rw [call_served p s hspan]
    refine ⟨?_, h.window.onSuccess⟩
    intro n hn
    cases hn with
    | head => exact hspan
    | tail _ hn => exact h.served n hn
  · rw [call_refused p s (not_le.mp hspan)]
    exact ⟨h.served, h.window.onRejected⟩

theorem WithinLimit.run {p : Provider limit} {s : RpcLogSource} (h : s.WithinLimit limit)
    (queries : List LogQuery) : (s.run p queries).WithinLimit limit := by
  induction queries generalizing s with
  | nil => exact h
  | cons query queries ih => exact ih (h.call query)

theorem create_withinLimit (limit : Nat) {initialWindow : Nat} {s : RpcLogSource}
    (h : create initialWindow = .ok s) : s.WithinLimit limit ∧ s.window.lastGood = 0 := by
  obtain ⟨w, hw, h⟩ := bind_eq_ok.mp h
  obtain rfl := Except.ok.inj h
  unfold AdaptiveLogWindow.create at hw
  split at hw
  · cases hw
  · obtain rfl := Except.ok.inj hw
    exact ⟨⟨by simp, rfl, rfl, Nat.pos_of_ne_zero ‹_›⟩, rfl⟩

/-- A success that the window may be credited with: the query was at least as long as the
window, or a window that long had been served before. -/
def Tested (limit : Nat) (s : RpcLogSource) (query : LogQuery) : Prop :=
  min query.requested s.window.current ≤ limit →
    s.window.current ≤ query.requested ∨ s.Served s.window.current

theorem KnownGood.call {p : Provider limit} {s : RpcLogSource} (h : s.KnownGood)
    (hw : s.WithinLimit limit) {query : LogQuery} (ht : s.Tested limit query) :
    (s.call p query).KnownGood := by
  have heq := attempted_eq query hw.window.span
  by_cases hspan : attempted s.window query ≤ limit
  · rw [call_served p s hspan]
    right
    have hwindow : ∃ n ∈ attempted s.window query :: s.served, s.window.span ≤ n := by
      cases ht (heq ▸ hspan) with
      | inl hle => exact ⟨_, List.mem_cons_self, by rw [heq]; exact le_min hle le_rfl⟩
      | inr hserved =>
        obtain ⟨n, hn, hle⟩ := hserved
        exact ⟨n, List.mem_cons_of_mem _ hn, hle⟩
    unfold Served
    rw [AdaptiveLogWindow.onSuccess_lastGood]
    rcases le_total s.window.lastGood s.window.span with hle | hle
    · rwa [max_eq_right hle]
    · rw [max_eq_left hle]
      cases h with
      | inl h0 =>
        have := hw.window.span
        omega
      | inr hserved =>
        obtain ⟨n, hn, hle⟩ := hserved
        exact ⟨n, List.mem_cons_of_mem _ hn, hle⟩
  · rw [call_refused p s (not_le.mp hspan)]
    exact h

theorem KnownGood.tested {p : Provider limit} {s : RpcLogSource} (hw : s.WithinLimit limit)
    {query : LogQuery} (h : (s.call p query).KnownGood) : s.Tested limit query := by
  intro hspan
  have heq := attempted_eq query hw.window.span
  rw [call_served p s (heq ▸ hspan)] at h
  unfold KnownGood Served at h
  rw [AdaptiveLogWindow.onSuccess_lastGood] at h
  cases h with
  | inl h0 =>
    have := hw.window.span
    omega
  | inr hserved =>
    obtain ⟨n, hn, hle⟩ := hserved
    have hle : s.window.span ≤ n := (le_max_right ..).trans hle
    cases hn with
    | head => exact .inl (by rw [heq] at hle; exact hle.trans (min_le_left ..))
    | tail _ hn => exact .inr ⟨n, hn, hle⟩

theorem retry_answered {p : Provider limit} (hmin : 10 ≤ limit) {s : RpcLogSource}
    (hw : s.WithinLimit limit) (hgood : s.window.lastGood ≤ limit) (query : LogQuery) :
    ∃ n, (retry p query n s).Answered p query := by
  induction hspan : s.window.span using Nat.strong_induction_on generalizing s with
  | h span ih =>
    subst hspan
    by_cases hfits : attempted s.window query ≤ limit
    · exact ⟨0, (answered_iff p s query).mpr hfits⟩
    · have hcall := call_refused p s (not_le.mp hfits)
      have hlt : limit < s.window.span := by
        rw [attempted_eq query hw.window.span] at hfits
        omega
      have hnarrow : (s.call p query).window.span < s.window.span := by
        rw [hcall]
        exact AdaptiveLogWindow.onRejected_span_lt (hw.window.minSpan.trans_le hmin) hgood hlt
      obtain ⟨n, hn⟩ := ih _ hnarrow (hw.call query) (by rw [hcall]; exact hgood) rfl
      exact ⟨n + 1, hn⟩

theorem KnownGood.retryable {p : Provider limit} (hmin : 10 ≤ limit) {s : RpcLogSource}
    (hw : s.WithinLimit limit) (h : s.KnownGood) : s.Retryable p := by
  intro query _
  refine retry_answered hmin hw ?_ query
  cases h with
  | inl h0 => omega
  | inr hserved =>
    obtain ⟨n, hn, hle⟩ := hserved
    exact hle.trans (hw.served n hn)

/-- A run keeps its bookkeeping true, and so every rejected query retryable, exactly when no
success of it is credited to a window longer than any range served. -/
theorem run_knownGood_iff {p : Provider limit} (hmin : 10 ≤ limit) {initialWindow : Nat}
    {s : RpcLogSource} (hs : create initialWindow = .ok s) (queries : List LogQuery) :
    (∀ qs, qs <+: queries → (s.run p qs).KnownGood ∧ (s.run p qs).Retryable p) ↔
      ∀ qs query, qs ++ [query] <+: queries → (s.run p qs).Tested limit query := by
  obtain ⟨hw, hgood⟩ := create_withinLimit limit hs
  constructor
  · intro h qs query hpre
    have hafter := (h (qs ++ [query]) hpre).1
    rw [run_concat] at hafter
    exact hafter.tested (hw.run qs)
  · intro h qs hpre
    have hqs : (s.run p qs).KnownGood := by
      induction qs using List.reverseRecOn with
      | nil => exact .inl hgood
      | append_singleton qs query ih =>
        rw [run_concat]
        exact (ih ((List.prefix_append ..).trans hpre)).call (hw.run qs) (h qs query hpre)
    exact ⟨hqs, hqs.retryable hmin (hw.run qs)⟩

def start : RpcLogSource where
  window := {
    span := 100, lastGood := 0, ceiling := none, successesAtSettled := 0
    minSpan := 10, maxSpan := 10000 }
  calls := 0
  served := []

def tail : LogQuery := { fromBlock := 1000, toBlock := 1000, addresses := [] }

def catchUp : LogQuery := { fromBlock := 1001, toBlock := 11000, addresses := [] }

theorem run_knownGood_iff_catchUp :
    (∀ qs, qs <+: [catchUp, catchUp] →
      (start.run (.empty 50) qs).KnownGood ∧ (start.run (.empty 50) qs).Retryable (.empty 50)) ↔
      ∀ qs query, qs ++ [query] <+: [catchUp, catchUp] →
        (start.run (.empty 50) qs).Tested 50 query :=
  run_knownGood_iff (by decide) (show create 100 = .ok start from rfl) [catchUp, catchUp]

theorem Rejected.of_overstated {p : Provider limit} {s : RpcLogSource} (hw : s.WithinLimit limit)
    (h : s.window.Overstated limit) {query : LogQuery} (hq : limit < query.requested) :
    s.Rejected p query := by
  refine (getLogs_refused p s ?_).1
  rw [attempted_eq query hw.window.span]
  exact lt_min hq h.span

theorem not_answered_of_overstated {p : Provider limit} {s : RpcLogSource}
    (hw : s.WithinLimit limit) (h : s.window.Overstated limit) {query : LogQuery}
    (hq : limit < query.requested) (n : Nat) : ¬(retry p query n s).Answered p query := by
  induction n generalizing s with
  | zero =>
    rintro ⟨batch, hbatch⟩
    obtain ⟨_, _, hrejected⟩ := Rejected.of_overstated (p := p) hw h hq
    cases hbatch.symm.trans hrejected
  | succ n ih =>
    refine ih (hw.call query) ?_
    have hspan : limit < attempted s.window query := by
      rw [attempted_eq query hw.window.span]
      exact lt_min hq h.span
    rw [call_refused p s hspan]
    exact h.onRejected

/-- One block served against a limit of 50 records 100 as known good, and no later query
over that limit ever gets through. -/
theorem tail_overstates :
    ¬(start.run (.empty 50) [tail]).KnownGood ∧
      catchUp.requested = 10000 ∧ (start.run (.empty 50) [tail]).Rejected (.empty 50) catchUp ∧
      ∀ n, ¬(retry (.empty 50) catchUp n (start.run (.empty 50) [tail])).Answered
        (.empty 50) catchUp := by
  have hw : (start.run (.empty 50) [tail]).WithinLimit 50 :=
    (create_withinLimit 50 (show create 100 = .ok start from rfl)).1.run [tail]
  have hover : (start.run (.empty 50) [tail]).window.Overstated 50 :=
    ⟨by decide, by decide, by decide, fun ceiling h => by cases h⟩
  refine ⟨?_, rfl, .of_overstated hw hover (by decide), not_answered_of_overstated hw hover
    (by decide)⟩
  unfold KnownGood Served
  decide

end RpcLogSource

end Stunks.Indexer
