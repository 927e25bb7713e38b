import Stunks.Indexer.Scanner

namespace Stunks.Indexer

open Database

variable {H O σ : Type} {P : Type → Type} [DecidableEq H]

/-- What a tick knows between two awaits.  `checkpoint` is the row it loaded. -/
inductive Phase (H : Type)
  | idle
  | loaded (checkpoint : IndexerState H)
  | checked (checkpoint : IndexerState H)
  | diverged (checkpoint : IndexerState H) (target : Nat)
  | deleted (checkpoint : IndexerState H) (target : Nat)
  | rewound (checkpoint : IndexerState H) (target : Nat) (rest : List IndexerStream)
  | ahead (checkpoint : IndexerState H) (target : Nat) (dependent : IndexerStream)
      (rest : List IndexerStream)
  | ceiled (checkpoint : IndexerState H) (ceiling : Option Nat)
  | bounded (checkpoint : IndexerState H) (boundary : Nat)
  | addressed (checkpoint : IndexerState H) (boundary : Nat) (addresses : List Address)
  | fetched (checkpoint : IndexerState H) (batch : LogBatch H)
  | hashed (checkpoint : IndexerState H) (batch : LogBatch H) (reachedHash : H)
  | processed (checkpoint : IndexerState H) (batch : LogBatch H) (reachedHash : H)
  | advanced (checkpoint : IndexerState H) (batch : LogBatch H) (reachedHash : H)

namespace Phase

def after {α : Type} (next : α → Phase H) : Except Failure α → Phase H
  | .ok a => next a
  | .error _ => .idle

def afterLoad (checkpoint : IndexerState H) : Phase H :=
  if checkpoint.isPaused then idle else loaded checkpoint

/-- A hash that cannot be read counts as one that matches. -/
def afterCheck (depth : Nat) (checkpoint : IndexerState H) : Except Failure H → Phase H
  | .ok currentHash =>
    match checkForReorg { recordedHash := checkpoint.lastProcessedBlockHash
                          recordedBlock := checkpoint.lastProcessedBlock
                          currentHash } depth with
    | .reorg rollbackTo _ _ => diverged checkpoint rollbackTo
    | _ => checked checkpoint
  | .error _ => checked checkpoint

def afterLook (checkpoint : IndexerState H) (target : Nat) (dependent : IndexerStream)
    (rest : List IndexerStream) : Option (IndexerState H) → Phase H
  | some state =>
    if state.lastProcessedBlock ≤ target then rewound checkpoint target rest
    else ahead checkpoint target dependent rest
  | none => rewound checkpoint target rest

def afterFetch (checkpoint : IndexerState H) (batch : LogBatch H) : Phase H :=
  if batch.reachedBlock < checkpoint.lastProcessedBlock + 1 then idle
  else fetched checkpoint batch

def afterReread (checkpoint : IndexerState H) (batch : LogBatch H) (reachedHash : H) :
    Option (IndexerState H) → Phase H
  | some state =>
    if state.lastProcessedBlock > batch.reachedBlock then idle
    else processed checkpoint batch reachedHash
  | none => processed checkpoint batch reachedHash

section holds

variable {K : Phase H → Prop} {checkpoint : IndexerState H}

omit [DecidableEq H] in
theorem holds_after {α : Type} {next : α → Phase H} {answer : Except Failure α} (hidle : K idle)
    (hnext : ∀ a, answer = .ok a → K (next a)) : K (after next answer) := by
  cases answer with
  | error _ => exact hidle
  | ok a => exact hnext a rfl

omit [DecidableEq H] in
theorem holds_afterLoad {answer : Except Failure (IndexerState H)} (hidle : K idle)
    (hloaded : ∀ checkpoint, answer = .ok checkpoint → K (loaded checkpoint)) :
    K (after afterLoad answer) := by
  refine holds_after hidle fun checkpoint hanswer => ?_
  unfold afterLoad
  split
  · exact hidle
  · exact hloaded checkpoint hanswer

theorem holds_afterCheck {depth : Nat} {answer : Except Failure H}
    (hchecked : K (checked checkpoint))
    (hdiverged : ∀ target ≤ checkpoint.lastProcessedBlock, K (diverged checkpoint target)) :
    K (afterCheck depth checkpoint answer) := by
  cases answer with
  | error _ => exact hchecked
  | ok currentHash =>
    simp only [afterCheck]
    split
    · rename_i hverdict
      refine hdiverged _ ?_
      rw [(checkForReorg_reorg hverdict).2.2.2]
      exact Nat.sub_le ..
    · exact hchecked

omit [DecidableEq H] in
theorem holds_afterLook {target : Nat} {dependent : IndexerStream} {rest : List IndexerStream}
    {answer : Except Failure (Option (IndexerState H))} (hidle : K idle)
    (hrewound : K (rewound checkpoint target rest))
    (hahead : K (ahead checkpoint target dependent rest)) :
    K (after (afterLook checkpoint target dependent rest) answer) := by
  refine holds_after hidle fun current _ => ?_
  cases current with
  | none => exact hrewound
  | some state =>
    simp only [afterLook]
    split
    · exact hrewound
    · exact hahead

omit [DecidableEq H] in
theorem holds_afterFetch {answer : Except Failure (LogBatch H)} (hidle : K idle)
    (hfetched : ∀ batch, answer = .ok batch → checkpoint.lastProcessedBlock < batch.reachedBlock →
      K (fetched checkpoint batch)) : K (after (afterFetch checkpoint) answer) := by
  refine holds_after hidle fun batch hanswer => ?_
  unfold afterFetch
  split
  · exact hidle
  · rename_i hreached
    exact hfetched batch hanswer (by omega)

omit [DecidableEq H] in
theorem holds_afterReread {batch : LogBatch H} {reachedHash : H}
    {answer : Except Failure (Option (IndexerState H))} (hidle : K idle)
    (hprocessed : K (processed checkpoint batch reachedHash)) :
    K (after (afterReread checkpoint batch reachedHash) answer) := by
  refine holds_after hidle fun current _ => ?_
  cases current with
  | none => exact hprocessed
  | some state =>
    simp only [afterReread]
    split
    · exact hidle
    · exact hprocessed

end holds

inductive Settled : Phase H → Prop
  | checked {checkpoint} : Settled (.checked checkpoint)
  | ceiled {checkpoint ceiling} : Settled (.ceiled checkpoint ceiling)
  | addressed {checkpoint boundary addresses} : Settled (.addressed checkpoint boundary addresses)
  | advanced {checkpoint batch reachedHash} : Settled (.advanced checkpoint batch reachedHash)

end Phase

open Phase in
inductive Awaits (options : ScannerOptions H P) :
    Phase H → {β : Type} → Call H P β → (Except Failure β → Phase H) → Prop
  | load : Awaits options idle (.upsertState options.stream options.startBlock) (after afterLoad)
  | check {checkpoint} (hash : checkpoint.lastProcessedBlockHash ≠ none)
      (block : checkpoint.lastProcessedBlock ≠ 0) :
      Awaits options (loaded checkpoint) (.blockHash checkpoint.lastProcessedBlock)
        (afterCheck options.confirmationDepth checkpoint)
  | rewind {checkpoint target reason} :
      Awaits options (deleted checkpoint target)
        (.updateState options.stream (.rollbackTo target reason))
        (after fun _ => rewound checkpoint target options.cascadeStreams)
  | look {checkpoint target dependent rest} :
      Awaits options (rewound checkpoint target (dependent :: rest)) (.findState dependent)
        (after (afterLook checkpoint target dependent rest))
  | pull {checkpoint target dependent rest reason} :
      Awaits options (ahead checkpoint target dependent rest)
        (.updateState dependent (.rollbackTo target reason))
        (after fun _ => rewound checkpoint target rest)
  | head {checkpoint} :
      Awaits options (checked checkpoint) .head (after fun _ => checked checkpoint)
  | fetch {checkpoint boundary addresses} :
      Awaits options (addressed checkpoint boundary addresses)
        (.getLogs { fromBlock := checkpoint.lastProcessedBlock + 1, toBlock := boundary, addresses,
                    topics0 := options.topics0 })
        (after (afterFetch checkpoint))
  | hash {checkpoint batch} :
      Awaits options (fetched checkpoint batch) (.blockHash batch.reachedBlock)
        (after (hashed checkpoint batch))
  | reread {checkpoint batch reachedHash} :
      Awaits options (processed checkpoint batch reachedHash) (.findState options.stream)
        (after (afterReread checkpoint batch reachedHash))
  | advance {checkpoint batch reachedHash} :
      Awaits options (processed checkpoint batch reachedHash)
        (.updateState options.stream (.advance batch.reachedBlock reachedHash))
        (after fun _ => advanced checkpoint batch reachedHash)
  | resolve {checkpoint batch reachedHash} :
      Awaits options (advanced checkpoint batch reachedHash)
        (.resolveFailedBlocks options.stream batch.reachedBlock)
        (after fun _ => advanced checkpoint batch reachedHash)
  | recordError {error} :
      Awaits options idle (.updateState options.stream (.recordError error)) fun _ => idle
  | recordFailedBlock {fromBlock error} :
      Awaits options idle (.upsertFailedBlock options.stream fromBlock error) fun _ => idle

open Phase in
inductive Passes (options : ScannerOptions H P) : Phase H → Phase H → Prop
  | unrecorded {checkpoint}
      (h : checkpoint.lastProcessedBlockHash = none ∨ checkpoint.lastProcessedBlock = 0) :
      Passes options (loaded checkpoint) (checked checkpoint)
  | cascaded {checkpoint target} : Passes options (rewound checkpoint target []) idle
  | uncapped {checkpoint boundary} (cap : options.maxBlock = none)
      (lt : checkpoint.lastProcessedBlock < boundary) :
      Passes options (checked checkpoint) (bounded checkpoint boundary)
  | capped {checkpoint ceiling boundary} (cap : boundary ≤ ceiling)
      (lt : checkpoint.lastProcessedBlock < boundary) :
      Passes options (ceiled checkpoint (some ceiling)) (bounded checkpoint boundary)
  | stop {p} (h : p.Settled) : Passes options p idle

def caughtUp : Except Failure ScanTickResult → Prop
  | .ok result => result.caughtUp = true ∧ result.confirmedHead.isSome = true
  | .error _ => False

/-- An assertion for each phase such that every await leads from one to the next.  `S` is what
a tick that has caught up can promise besides. -/
structure TickRule (R : Protocol (Call H P) Failure O σ) (options : ScannerOptions H P)
    (K : Phase H → σ → Prop) (S : σ → Prop) : Prop where
  kept : ∀ p, R.Kept (K p)
  step : ∀ {p β} {c : Call H P β} {next}, Awaits options p c next → ∀ {s o}, K p s →
    R.allow c o s → R.guar s (R.exec c o s).2 ∧ K (next (R.exec c o s).1) (R.exec c o s).2
  passes : ∀ {p q s}, Passes options p q → K p s → K q s
  settled : ∀ {p s}, p.Settled → K p s → S s
  deleteAbove : ∀ checkpoint target, R.Triple (K (.diverged checkpoint target))
    (options.deleteAbove target) fun r => K (Phase.after (fun _ => .deleted checkpoint target) r)
  maxBlock : ∀ checkpoint maxBlock, options.maxBlock = some maxBlock →
    R.Triple (K (.checked checkpoint)) maxBlock fun r => K (Phase.after (.ceiled checkpoint) r)
  addresses : ∀ checkpoint boundary, R.Triple (K (.bounded checkpoint boundary)) options.addresses
    fun r => K (Phase.after (.addressed checkpoint boundary) r)
  process : ∀ checkpoint batch reachedHash, R.Triple (K (.hashed checkpoint batch reachedHash))
    (options.process batch.logs (checkpoint.lastProcessedBlock + 1, batch.reachedBlock))
    fun r => K (Phase.after (fun _ => .processed checkpoint batch reachedHash) r)

namespace TickRule

variable {R : Protocol (Call H P) Failure O σ} {options : ScannerOptions H P}
  {K : Phase H → σ → Prop} {S : σ → Prop}

def Outcome (K : Phase H → σ → Prop) (S : σ → Prop) (r : Except Failure ScanTickResult) (s : σ) :
    Prop :=
  K .idle s ∧ (caughtUp r → S s)

theorem await (h : TickRule R options K S) {p : Phase H} {β : Type} {c : Call H P β}
    {next : Except Failure β → Phase H} (hc : Awaits options p c next) :
    R.Triple (K p) (Async.await c) fun r => K (next r) :=
  .await (h.kept p) (fun r => h.kept (next r)) fun _ _ hs ho => h.step hc hs ho

theorem idle_of_settled (h : TickRule R options K S) {p : Phase H} {s : σ} (hp : p.Settled)
    (hs : K p s) : K .idle s :=
  h.passes (.stop hp) hs

theorem returns (h : TickRule R options K S) {p : Phase H} {r : Except Failure ScanTickResult}
    (hp : ∀ s, K p s → K .idle s) (hr : ∀ s, K p s → caughtUp r → S s) :
    R.Triple (K p) (.done r) (Outcome K S) :=
  .done (h.kept p) fun s hs => ⟨hp s hs, hr s hs⟩

theorem recordError (h : TickRule R options K S) (error : String) :
    R.Triple (K .idle) (Checkpoints.recordError options.stream error) fun _ => K .idle :=
  .bind (h.await .recordError) (fun _ => .done (h.kept .idle) fun _ hs => hs) fun _ _ hs => hs

theorem fails (h : TickRule R options K S) {fromBlock lastProcessedBlock : Nat} :
    R.Triple (K .idle) (.done (.ok (noProgress fromBlock lastProcessedBlock false none)))
      (Outcome K S) :=
  h.returns (fun _ hs => hs) fun _ _ hr => by cases hr.1

theorem handleSourceFailure (h : TickRule R options K S) {fromBlock lastProcessedBlock : Nat}
    {error : Failure} :
    R.Triple (K .idle)
      (Scanner.handleSourceFailure options fromBlock lastProcessedBlock error) (Outcome K S) :=
  .bind (h.recordError _) (fun _ => h.fails) fun _ _ hs => ⟨hs, False.elim⟩

theorem throws (h : TickRule R options K S) (error : Failure) :
    R.Triple (K .idle) (Async.throw error : Program H P ScanTickResult) (Outcome K S) :=
  h.returns (fun _ hs => hs) fun _ _ hr => hr.elim

theorem cascade (h : TickRule R options K S) (checkpoint : IndexerState H) (target : Nat)
    (reason : String) (rest : List IndexerStream) :
    R.Triple (K (.rewound checkpoint target rest)) (Scanner.cascade options target reason rest)
      fun _ => K .idle := by
  induction rest with
  | nil => exact .done (h.kept _) fun _ hs => h.passes .cascaded hs
  | cons dependent rest ih =>
    refine .bind (Q := fun r => K (Phase.after (fun _ => .rewound checkpoint target rest) r)) ?_
      (fun _ => ih) fun _ _ hs => hs
    refine .bind (h.await .look) (fun current => ?_) fun _ _ hs => hs
    cases current with
    | none => exact .done (h.kept _) fun _ hs => hs
    | some state =>
      simp only [Phase.after, Phase.afterLook]
      split
      · exact .done (h.kept _) fun _ hs => hs
      · exact .bind (h.await .pull) (fun _ => .done (h.kept _) fun _ hs => hs) fun _ _ hs => hs

theorem rollback (h : TickRule R options K S) (checkpoint : IndexerState H) (target : Nat) :
    R.Triple (K (.diverged checkpoint target))
      (Scanner.rollback options checkpoint.lastProcessedBlock target) fun _ => K .idle := by
  refine .bind (h.deleteAbove checkpoint target) (fun _ => ?_) fun _ _ hs => hs
  refine .bind (h.await .rewind) (fun _ => ?_) fun _ _ hs => hs
  exact h.cascade checkpoint target _ _

def afterReorg (checkpoint : IndexerState H) (reorged : Bool) : Phase H :=
  if reorged then .idle else .checked checkpoint

theorem handleReorg (h : TickRule R options K S) (checkpoint : IndexerState H) :
    R.Triple (K (.loaded checkpoint))
      (Scanner.handleReorg options checkpoint.lastProcessedBlock
        checkpoint.lastProcessedBlockHash)
      fun r => K (Phase.after (afterReorg checkpoint) r) := by
  unfold Scanner.handleReorg
  split
  · rename_i hcase
    exact .done (h.kept _) fun _ hs => h.passes (.unrecorded hcase) hs
  · rename_i hcase
    obtain ⟨hhash, hblock⟩ := not_or.mp hcase
    refine .bind (.attempt (Q := fun r => K (Phase.after
      (Phase.afterCheck options.confirmationDepth checkpoint) r)) (h.await (.check hhash hblock)))
      (fun current => ?_) fun _ _ hs => hs
    cases current with
    | error _ => exact .done (h.kept _) fun _ hs => hs
    | ok currentHash =>
      dsimp only [Phase.after, Phase.afterCheck]
      cases checkForReorg { recordedHash := checkpoint.lastProcessedBlockHash
                            recordedBlock := checkpoint.lastProcessedBlock
                            currentHash } options.confirmationDepth with
      | reorg target _ _ =>
        refine .bind (h.rollback checkpoint target) (fun _ => ?_) fun _ _ hs => hs
        exact .done (h.kept .idle) fun _ hs => hs
      | ok => exact .done (h.kept _) fun _ hs => hs
      | unverifiable _ => exact .done (h.kept _) fun _ hs => hs

theorem ingest (h : TickRule R options K S) (checkpoint : IndexerState H)
    (confirmed : Option Nat) (boundary : Nat) (batch : LogBatch H) (reachedHash : H) :
    R.Triple (K (.hashed checkpoint batch reachedHash))
      (Scanner.ingest options checkpoint confirmed boundary batch reachedHash) (Outcome K S) := by
  refine .bind (.attempt (Q := fun r => K (Phase.after (Phase.after
    fun _ => .processed checkpoint batch reachedHash) r)) (h.process _ _ _))
    (fun processed => ?_) fun _ _ hs => ⟨hs, False.elim⟩
  cases processed with
  | error error =>
    dsimp only
    split
    · exact h.fails
    · refine .bind (h.recordError _) (fun _ => ?_) fun _ _ hs => ⟨hs, False.elim⟩
      exact .bind (h.await .recordFailedBlock) (fun _ => h.throws error)
        fun _ _ hs => ⟨hs, False.elim⟩
  | ok _ =>
    refine .bind (.attempt (Q := fun r => K (Phase.after (Phase.after
      fun _ => .advanced checkpoint batch reachedHash) r)) ?_)
      (fun advanced => ?_) fun _ _ hs => ⟨hs, False.elim⟩
    · refine .bind (Q := fun r => K (Phase.after
        (fun _ => .advanced checkpoint batch reachedHash) r)) ?_ (fun _ => ?_) fun _ _ hs => hs
      · refine .bind (h.await .reread) (fun current => ?_) fun _ _ hs => hs
        cases current with
        | none => exact h.await .advance
        | some state =>
          simp only [Phase.after, Phase.afterReread]
          split
          · exact .done (h.kept .idle) fun _ hs => hs
          · exact h.await .advance
      · exact .bind (h.await .resolve) (fun _ => .done (h.kept _) fun _ hs => hs)
          fun _ _ hs => hs
    · cases advanced with
      | error error =>
        dsimp only
        split
        · exact h.fails
        · exact .bind (h.recordError _) (fun _ => h.throws error) fun _ _ hs => ⟨hs, False.elim⟩
      | ok _ =>
        exact h.returns (fun _ hs => h.idle_of_settled .advanced hs)
          fun _ hs _ => h.settled .advanced hs

theorem scan (h : TickRule R options K S) (checkpoint : IndexerState H) (confirmed : Option Nat)
    (boundary : Nat) :
    R.Triple (K (.bounded checkpoint boundary))
      (Scanner.scan options checkpoint confirmed boundary) (Outcome K S) := by
  refine .bind (h.addresses checkpoint boundary) (fun addresses => ?_)
    fun _ _ hs => ⟨hs, False.elim⟩
  split
  · exact h.returns (fun _ hs => h.idle_of_settled .addressed hs)
      fun _ hs _ => h.settled .addressed hs
  · refine .bind (.attempt (Q := fun r => K (Phase.after (Phase.after
      (Phase.afterFetch checkpoint)) r)) (h.await .fetch)) (fun batch => ?_)
      fun _ _ hs => ⟨hs, False.elim⟩
    cases batch with
    | error error =>
      cases error with
      | rangeTooWide _ _ => exact h.returns (fun _ hs => hs) fun _ _ hr => by cases hr.1
      | error _ _ => exact h.handleSourceFailure
    | ok batch =>
      simp only [Phase.after, Phase.afterFetch]
      split
      · exact h.returns (fun _ hs => hs) fun _ _ hr => by cases hr.1
      · refine .bind (.attempt (Q := fun r => K (Phase.after (Phase.after
          (Phase.hashed checkpoint batch)) r)) (h.await .hash)) (fun reachedHash => ?_)
          fun _ _ hs => ⟨hs, False.elim⟩
        cases reachedHash with
        | error _ => exact h.handleSourceFailure
        | ok reachedHash => exact h.ingest _ _ _ _ _

def Bounded (options : ScannerOptions H P) (K : Phase H → σ → Prop)
    (checkpoint : IndexerState H) (boundary : Option Nat) (s : σ) : Prop :=
  ∃ p, p.Settled ∧ (∀ b, boundary = some b → checkpoint.lastProcessedBlock < b →
    Passes options p (.bounded checkpoint b)) ∧ K p s

theorem kept_bounded (h : TickRule R options K S) (checkpoint : IndexerState H)
    (boundary : Option Nat) : R.Kept (Bounded options K checkpoint boundary) where
  stable := fun ⟨p, hp, hpass, hs⟩ hst => ⟨p, hp, hpass, (h.kept p).stable hs hst⟩
  keep := fun ⟨p, _, _, hs⟩ => (h.kept p).keep hs

def afterBoundary (options : ScannerOptions H P) (K : Phase H → σ → Prop)
    (checkpoint : IndexerState H) : Except Failure (Option Nat) → σ → Prop
  | .ok boundary => Bounded options K checkpoint boundary
  | .error _ => K .idle

theorem boundaryOf (h : TickRule R options K S) (checkpoint : IndexerState H)
    (confirmed : Option Nat) :
    R.Triple (K (.checked checkpoint)) (Scanner.boundaryOf options confirmed)
      (afterBoundary options K checkpoint) := by
  unfold Scanner.boundaryOf
  split
  · rename_i confirmed maxBlock hmax
    refine .bind (h.maxBlock checkpoint maxBlock hmax) (fun ceiling => ?_) fun _ _ hs => hs
    cases ceiling with
    | none => exact .done (h.kept _) fun s hs => ⟨_, .ceiled, by simp, hs⟩
    | some ceiling =>
      refine .done (h.kept _) fun s hs => ⟨_, .ceiled, ?_, hs⟩
      intro b hb hlt
      cases hb
      exact .capped (by split <;> omega) hlt
  · rename_i hconfirmed
    refine .done (h.kept _) fun s hs => ⟨_, .checked, ?_, hs⟩
    intro b hb hlt
    refine .uncapped ?_ hlt
    cases hmax : options.maxBlock with
    | none => rfl
    | some maxBlock => exact absurd hmax (hconfirmed b maxBlock hb)

theorem tick (h : TickRule R options K S) :
    R.Triple (K .idle) (Scanner.tick options) (Outcome K S) := by
  refine .bind (h.await .load) (fun checkpoint => ?_) fun _ _ hs => ⟨hs, False.elim⟩
  dsimp only [Phase.after, Phase.afterLoad]
  split
  · exact h.returns (fun _ hs => hs) fun _ _ hr => by cases hr.2
  · refine .bind (h.handleReorg checkpoint) (fun reorged => ?_) fun _ _ hs => ⟨hs, False.elim⟩
    cases reorged with
    | true => exact h.returns (fun _ hs => hs) fun _ _ hr => by cases hr.1
    | false =>
      refine .bind (.attempt (Q := fun r => K (Phase.after (Phase.after
        fun _ => .checked checkpoint) r)) (h.await .head)) (fun head => ?_)
        fun _ _ hs => ⟨hs, False.elim⟩
      cases head with
      | error _ => exact h.handleSourceFailure
      | ok head =>
        refine .bind (h.boundaryOf checkpoint _) (fun boundary => ?_)
          fun _ _ hs => ⟨hs, False.elim⟩
        have hstop {r} : R.Triple (Bounded options K checkpoint boundary) (.done r)
            (Outcome K S) :=
          .done (h.kept_bounded checkpoint boundary) fun _ ⟨_, hp, _, hs⟩ =>
            ⟨h.idle_of_settled hp hs, fun _ => h.settled hp hs⟩
        cases boundary with
        | none => exact hstop
        | some boundary =>
          dsimp only [afterBoundary]
          split
          · exact hstop
          · rename_i hlt
            refine (h.scan checkpoint _ boundary).imp ?_ fun _ _ hr => hr
            rintro s ⟨p, -, hpass, hs⟩
            exact h.passes (hpass boundary rfl (by omega)) hs

end TickRule

end Stunks.Indexer
