import Stunks.Database.Explore
import Stunks.Lib.Concurrent
import Stunks.Scripts.Rollup

/-! `moderate.ts`: who is listed, and the log of who decided it, while moderators race each other and
the indexer. -/

namespace Stunks.Scripts.Moderate

open Database.Explore

abbrev Row := Database.Explore.TokenRow

def statuses : List (Text × ModerationStatus) :=
  [("NORMAL".toList, .normal), ("FEATURED".toList, .featured), ("VERIFIED".toList, .verified),
    ("HIDDEN".toList, .hidden), ("FLAGGED".toList, .flagged)]

def parseStatus (text : Text) : Option ModerationStatus := statuses.lookup text

def Suppressed (status : ModerationStatus) : Prop := status = .hidden ∨ status = .flagged

structure AuditEntry where
  actorAddress : Text
  action : String
  targetType : String
  targetId : Text
  before : ModerationStatus
  after : ModerationStatus
  reason : Option Text
  deriving DecidableEq

inductive Call : Type → Type
  /-- `findMany`, the last to be updated first -/
  | list (status : ModerationStatus) (take : Nat) : Call (List Row)
  | findUnique (chainId : Nat) (address : Text) : Call (Option Row)
  /-- `$transaction` of an `update` and a `create` -/
  | setStatus (id : Text) (status : ModerationStatus) (entry : AuditEntry) : Call Unit

inductive Outcome
  | usage (message : String)
  | listed (rows : List Row)
  | missing (address : Text)
  | unchanged (status : ModerationStatus)
  | changed (before after : ModerationStatus)
  deriving DecidableEq

def arg (argv : List Text) (name : String) : Option Text :=
  (argv.idxOf? ('-' :: '-' :: name.toList)).bind fun index => argv[index + 1]?

section program

variable (isAddress : Text → Bool) (argv : List Text)

def addressArg (name : String) : Option Text :=
  (arg argv name).filter fun text => text ≠ [] && isAddress text

def shownStatuses : String := ", ".intercalate (statuses.map fun (text, _) => String.ofList text)

def main : Async Call Unit Outcome :=
  match arg argv "list" with
  | some list =>
    match parseStatus list with
    | none => return .usage ("Unknown status: " ++ String.ofList list)
    | some status => do
      let rows ← Async.await (.list status 200)
      return .listed rows
  | none =>
    match addressArg isAddress argv "token" with
    | none => return .usage "--token must be a valid EVM address"
    | some token =>
      match (arg argv "status").bind parseStatus with
      | none => return .usage ("--status must be one of: " ++ shownStatuses)
      | some status =>
        match addressArg isAddress argv "actor" with
        | none => return .usage "--actor must be the EVM address of the person making this change"
        | some actor => do
          let address := token.map Char.toLower
          match ← Async.await (.findUnique robinhoodChainId address) with
          | none => return .missing address
          | some existing =>
            if existing.moderationStatus = status then return .unchanged status
            else do
              Async.await (.setStatus existing.id status {
                actorAddress := actor.map Char.toLower
                action := "SET_MODERATION_STATUS"
                targetType := "Token"
                targetId := existing.id
                before := existing.moderationStatus
                after := status
                reason := arg argv "reason" })
              return .changed existing.moderationStatus status

end program

/-- An entry of the log, and how many there were when its run read the row. -/
structure Logged extends AuditEntry where
  readAt : Nat
  deriving DecidableEq

/-- An id is never given twice. -/
structure World where
  tokens : List Row
  used : List Text
  log : List Logged
  reads : Nat → Option (Row × Nat)

structure Answer where
  /-- A rejected call, and whether it was applied nevertheless. -/
  rejected : Option Bool
  updated : List Row

def Answer.applied (o : Answer) : Bool := o.rejected.getD true

def Answer.reply {α : Type} (o : Answer) (a : α) : Except Unit α :=
  if o.rejected.isSome then .error () else .ok a

def setRow (id : Text) (status : ModerationStatus) (row : Row) : Row :=
  if row.id = id then { row with moderationStatus := status } else row

namespace World

variable (w : World)

inductive Event
  | recordLaunch (row : Row)
  | deleteAboveBlock (chainId : Nat) (blockNumber : Int)
  | update (id : Text) (row : Row)

def withStatus (status : ModerationStatus) : List Row :=
  w.tokens.filter fun row => row.chainId = robinhoodChainId ∧ row.moderationStatus = status

def remember (i : Nat) (read : Option (Row × Nat)) : World :=
  { w with reads := Function.update w.reads i read }

def setStatus (i : Nat) (id : Text) (status : ModerationStatus) (entry : AuditEntry) : World :=
  { w with
    tokens := w.tokens.map (setRow id status)
    log := w.log ++ [{ entry with readAt := ((w.reads i).map Prod.snd).getD 0 }] }

def exec (i : Nat) {β : Type} (call : Call β) (o : Answer) (w : World) : Except Unit β × World :=
  match call with
  | .list status take =>
    let rows := if o.updated.Perm (w.withStatus status) then o.updated else w.withStatus status
    (o.reply (rows.take take), w)
  | .findUnique chainId address =>
    let found := w.tokens.find? fun row => row.chainId = chainId && row.address = address
    (o.reply found, w.remember i (found.map (·, w.log.length)))
  | .setStatus id status entry =>
    -- `update` throws without a row, and takes the `create` with it
    if w.tokens.any (·.id = id) then
      (o.reply (), if o.applied then w.setStatus i id status entry else w)
    else (.error (), w)

def kept (old row : Row) : Row :=
  { row with
    id := old.id, address := old.address, chainId := old.chainId, launchBlock := old.launchBlock
    moderationStatus := old.moderationStatus }

def happens : Event → World → World
  | .recordLaunch row, w =>
    if w.used.any (· = row.id) ||
        w.tokens.any fun old => old.chainId = row.chainId && old.address = row.address then w
    else { w with
      tokens := w.tokens ++ [{ row with moderationStatus := .normal }]
      used := w.used ++ [row.id] }
  | .deleteAboveBlock chainId blockNumber, w =>
    { w with tokens := w.tokens.filter fun row =>
        !(row.chainId = chainId && blockNumber < row.launchBlock) }
  | .update id row, w =>
    { w with tokens := w.tokens.map fun old => if old.id = id then kept old row else old }

def system (isAddress : Text → Bool) (argv : Nat → List Text) :
    System Nat Call Unit Outcome Answer Event World where
  exec i := exec i
  body i := main isAddress (argv i)
  ready _ _ := true
  start i w := w.remember i none
  finish _ _ w := w
  env := happens
  crash w := w

end World

section log

def statusOf (log : List Logged) (id : Text) : ModerationStatus :=
  log.foldl (fun status entry => if entry.targetId = id then entry.after else status) .normal

/-- Every entry names a status that the log shows at an earlier time, when its run read the row. -/
def Honest (log : List Logged) : Prop :=
  ∀ pre entry post, log = pre ++ entry :: post → entry.before ≠ entry.after ∧
    ∃ seen since, pre = seen ++ since ∧ seen.length = entry.readAt ∧
      entry.before = statusOf seen entry.targetId

variable {log seen since : List Logged} {entry : Logged} {id : Text}

theorem statusOf_concat : statusOf (log ++ [entry]) id =
    if entry.targetId = id then entry.after else statusOf log id := by
  simp [statusOf]

theorem statusOf_append (h : ∀ entry ∈ since, entry.targetId ≠ id) :
    statusOf (seen ++ since) id = statusOf seen id := by
  induction since using List.reverseRecOn with
  | nil => rw [List.append_nil]
  | append_singleton since entry ih =>
    rw [← List.append_assoc, statusOf_concat, if_neg (h entry (by simp)),
      ih fun e he => h e (List.mem_append_left _ he)]

theorem statusOf_unused (h : ∀ entry ∈ log, entry.targetId ≠ id) : statusOf log id = .normal :=
  @statusOf_append [] log id h

theorem Honest.concat (h : Honest log) (hne : entry.before ≠ entry.after)
    (hread : ∃ seen since, log = seen ++ since ∧ seen.length = entry.readAt ∧
      entry.before = statusOf seen entry.targetId) : Honest (log ++ [entry]) := by
  intro pre e post heq
  obtain rfl | ⟨post, last, rfl⟩ := post.eq_nil_or_concat
  · obtain ⟨rfl, hlast⟩ := List.append_inj' heq rfl
    obtain rfl := List.singleton_inj.mp hlast
    exact ⟨hne, hread⟩
  · rw [List.concat_eq_append] at heq
    have hinit : log ++ [entry] = (pre ++ e :: post) ++ [last] := by
      rw [heq, List.append_assoc, List.cons_append]
    exact h pre e post (List.append_inj' hinit rfl).1

theorem Honest.exists_between (h : Honest log) {pre post : List Logged}
    (hlog : log = pre ++ entry :: post) :
    ∃ seen since, pre = seen ++ since ∧ seen.length = entry.readAt ∧
      entry.before = statusOf seen entry.targetId ∧
      (entry.before = statusOf pre entry.targetId ∨
        ∃ other ∈ since, other.targetId = entry.targetId) := by
  obtain ⟨-, seen, since, rfl, hlength, hbefore⟩ := h pre entry post hlog
  refine ⟨seen, since, rfl, hlength, hbefore, or_iff_not_imp_right.mpr fun hnone => ?_⟩
  have hothers : ∀ other ∈ since, other.targetId ≠ entry.targetId :=
    fun other hother heq => hnone ⟨other, hother, heq⟩
  exact hbefore.trans (statusOf_append hothers).symm

end log

structure Sound (w : World) : Prop where
  unique : (w.tokens.map (·.id)).Nodup
  used : ∀ row ∈ w.tokens, row.id ∈ w.used
  targets : ∀ entry ∈ w.log, entry.targetId ∈ w.used
  status : ∀ row ∈ w.tokens, row.moderationStatus = statusOf w.log row.id
  honest : Honest w.log

structure Read (i : Nat) (row : Row) (w : World) : Prop where
  used : row.id ∈ w.used
  seen : ∃ seen since, w.log = seen ++ since ∧ w.reads i = some (row, seen.length) ∧
    row.moderationStatus = statusOf seen row.id

def Changes (s t : World) : Prop :=
  t.tokens = s.tokens ∧ t.log = s.log ∨ ∃ entry, t.log = s.log ++ [entry] ∧
    (∃ row ∈ s.tokens, row.id = entry.targetId) ∧
    t.tokens = s.tokens.map (setRow entry.targetId entry.after)

structure Grows (s t : World) : Prop where
  used : s.used ⊆ t.used
  log : s.log <+: t.log
  sound : Sound s → Sound t

theorem Grows.refl (s : World) : Grows s s := ⟨fun _ h => h, List.prefix_rfl, fun h => h⟩

def protocol (i : Nat) : Protocol Call Unit Answer World where
  exec := World.exec i
  allow _ _ _ := True
  rely s t := t.reads i = s.reads i ∧ Grows s t
  guar s t := (∀ j, j ≠ i → t.reads j = s.reads j) ∧ Grows s t ∧ Changes s t
  keep := Sound
  refl s := ⟨rfl, .refl s⟩
  trans h h' := ⟨h'.1.trans h.1, fun _ hmem => h'.2.used (h.2.used hmem), h.2.log.trans h'.2.log,
    h'.2.sound ∘ h.2.sound⟩

section steps

variable {i : Nat} {row : Row} {w s t : World} {o : Answer} {id : Text}
  {status : ModerationStatus} {entry : AuditEntry}

theorem kept_sound : (protocol i).Kept Sound where
  stable h hst := hst.2.sound h
  keep h := h

theorem kept_read (row : Row) : (protocol i).Kept fun s => Sound s ∧ Read i row s where
  stable {s t} h hst := by
    obtain ⟨hsound, hused, seen, since, hlog, hreads, hstatus⟩ := h
    obtain ⟨more, hmore⟩ := hst.2.log
    refine ⟨hst.2.sound hsound, hst.2.used hused, seen, since ++ more, ?_, hst.1.trans hreads,
      hstatus⟩
    rw [← hmore, hlog, List.append_assoc]
  keep h := h.1

theorem setRow_id (id : Text) (status : ModerationStatus) (row : Row) :
    (setRow id status row).id = row.id := by
  unfold setRow
  split <;> rfl

theorem map_setRow_id (tokens : List Row) :
    (tokens.map (setRow id status)).map (·.id) = tokens.map (·.id) := by
  rw [List.map_map]
  exact List.map_congr_left fun row _ => setRow_id id status row

theorem Sound.map (h : Sound w) {f : Row → Row}
    (hf : ∀ row, (f row).id = row.id ∧ (f row).moderationStatus = row.moderationStatus) :
    Sound { w with tokens := w.tokens.map f } where
  unique := by
    have hids : w.tokens.map ((·.id) ∘ f) = w.tokens.map (·.id) :=
      List.map_congr_left fun row _ => (hf row).1
    rw [List.map_map, hids]
    exact h.unique
  used row hrow := by
    obtain ⟨old, hold, rfl⟩ := List.mem_map.mp hrow
    exact (hf old).1 ▸ h.used old hold
  targets := h.targets
  status row hrow := by
    obtain ⟨old, hold, rfl⟩ := List.mem_map.mp hrow
    rw [(hf old).1, (hf old).2]
    exact h.status old hold
  honest := h.honest

theorem Sound.sublist (h : Sound w) {tokens : List Row} (hsub : tokens.Sublist w.tokens) :
    Sound { w with tokens } where
  unique := h.unique.sublist (hsub.map _)
  used row hrow := h.used row (hsub.subset hrow)
  targets := h.targets
  status row hrow := h.status row (hsub.subset hrow)
  honest := h.honest

theorem Sound.recordLaunch (h : Sound w) (hnew : row.id ∉ w.used) :
    Sound { w with
      tokens := w.tokens ++ [{ row with moderationStatus := .normal }]
      used := w.used ++ [row.id] } where
  unique := by
    rw [List.map_append]
    refine h.unique.append (List.nodup_singleton _) (List.disjoint_singleton.mpr fun hmem => ?_)
    obtain ⟨old, hold, hid⟩ := List.mem_map.mp hmem
    have hid : old.id = row.id := hid
    exact hnew (hid ▸ h.used old hold)
  used old hold := by
    rcases List.mem_append.mp hold with hold | hold
    · exact List.mem_append_left _ (h.used old hold)
    · rw [List.mem_singleton.mp hold]
      exact List.mem_append_right _ (List.mem_singleton_self _)
  targets entry hentry := List.mem_append_left _ (h.targets entry hentry)
  status old hold := by
    rcases List.mem_append.mp hold with hold | hold
    · exact h.status old hold
    · rw [List.mem_singleton.mp hold]
      have hnone : ∀ entry ∈ w.log, entry.targetId ≠ row.id :=
        fun entry hentry heq => hnew (heq ▸ h.targets entry hentry)
      exact (statusOf_unused hnone).symm
  honest := h.honest

theorem happens_reads (event : World.Event) (w : World) :
    (World.happens event w).reads = w.reads := by
  cases event with
  | recordLaunch row =>
    simp only [World.happens]
    split <;> rfl
  | deleteAboveBlock chainId blockNumber => rfl
  | update id row => rfl

theorem happens_grows (event : World.Event) (w : World) : Grows w (World.happens event w) := by
  cases event with
  | recordLaunch row =>
    simp only [World.happens]
    split
    · exact .refl w
    · rename_i hnew
      have hunused : row.id ∉ w.used := fun hmem =>
        hnew (Bool.or_eq_true_iff.mpr (.inl (List.any_eq_true.mpr ⟨_, hmem, decide_eq_true rfl⟩)))
      exact ⟨List.subset_append_left _ _, List.prefix_rfl, fun h => h.recordLaunch hunused⟩
  | deleteAboveBlock chainId blockNumber =>
    exact ⟨fun _ h => h, List.prefix_rfl, fun h => h.sublist List.filter_sublist⟩
  | update id row =>
    refine ⟨fun _ h => h, List.prefix_rfl, fun h => h.map fun old => ?_⟩
    split <;> exact ⟨rfl, rfl⟩

theorem setStatus_grows (h : Sound s) (hread : Read i row s) (hne : row.moderationStatus ≠ status)
    (hentry : entry.targetId = row.id ∧ entry.before = row.moderationStatus ∧ entry.after = status) :
    Grows s (s.setStatus i row.id status entry) := by
  obtain ⟨hused, seen, since, hlog, hreads, hstatus⟩ := hread
  obtain ⟨htarget, hbefore, hafter⟩ := hentry
  refine ⟨fun _ h => h, List.prefix_append _ _, fun _ => ⟨?_, ?_, ?_, ?_, ?_⟩⟩
  · exact (map_setRow_id s.tokens).symm ▸ h.unique
  · intro r hr
    obtain ⟨old, hold, rfl⟩ := List.mem_map.mp hr
    exact (setRow_id ..).symm ▸ h.used old hold
  · intro e he
    rcases List.mem_append.mp he with he | he
    · exact h.targets e he
    · rw [List.mem_singleton.mp he]
      exact htarget.symm ▸ hused
  · intro r hr
    obtain ⟨old, hold, rfl⟩ := List.mem_map.mp hr
    simp only [World.setStatus, statusOf_concat, setRow_id, htarget, hafter]
    unfold setRow
    by_cases hid : old.id = row.id
    · rw [if_pos hid, if_pos hid.symm]
    · rw [if_neg hid, if_neg fun heq => hid heq.symm]
      exact h.status old hold
  · refine h.honest.concat ?_ ⟨seen, since, hlog, ?_, ?_⟩
    · exact fun heq => hne (hbefore.symm.trans (heq.trans hafter))
    · simp [hreads]
    · exact hbefore.trans (htarget.symm ▸ hstatus)

theorem exec_setStatus (h : Sound s ∧ Read i row s) (hne : row.moderationStatus ≠ status)
    (hentry : entry.targetId = row.id ∧ entry.before = row.moderationStatus ∧ entry.after = status) :
    let t := (World.exec i (.setStatus row.id status entry) o s).2
    (protocol i).guar s t ∧ Sound t := by
  intro t
  have hsame : (protocol i).guar s s ∧ Sound s :=
    ⟨⟨fun _ _ => rfl, .refl s, .inl ⟨rfl, rfl⟩⟩, h.1⟩
  by_cases hrow : s.tokens.any (·.id = row.id) = true
  · cases happlied : o.applied with
    | false =>
      have ht : t = s := by simp [t, World.exec, hrow, happlied]
      rw [ht]
      exact hsame
    | true =>
      have ht : t = s.setStatus i row.id status entry := by simp [t, World.exec, hrow, happlied]
      have hgrows := setStatus_grows h.1 h.2 hne hentry
      obtain ⟨r, hr, hid⟩ := List.any_eq_true.mp hrow
      rw [ht]
      refine ⟨⟨fun _ _ => rfl, hgrows, .inr ⟨_, rfl, ⟨r, hr, ?_⟩, ?_⟩⟩, hgrows.sound h.1⟩
      · rw [of_decide_eq_true hid]
        exact hentry.1.symm
      · rw [World.setStatus, hentry.1, hentry.2.2]
  · have ht : t = s := by
      show (World.exec i (.setStatus row.id status entry) o s).2 = s
      rw [World.exec, if_neg hrow]
    rw [ht]
    exact hsame

theorem triple_list (status : ModerationStatus) (take : Nat) :
    (protocol i).Triple Sound (Async.await (.list status take)) fun _ => Sound :=
  .await kept_sound (fun _ => kept_sound) fun s _ hs _ =>
    ⟨⟨fun _ _ => rfl, .refl s, .inl ⟨rfl, rfl⟩⟩, hs⟩

theorem triple_findUnique (chainId : Nat) (address : Text) :
    (protocol i).Triple Sound (Async.await (.findUnique chainId address)) fun r s =>
      Sound s ∧ ∀ row, r = .ok (some row) → Read i row s := by
  have hkept (r : Except Unit (Option Row)) :
      (protocol i).Kept fun s => Sound s ∧ ∀ row, r = .ok (some row) → Read i row s :=
    ⟨fun hs hst => ⟨kept_sound.stable hs.1 hst, fun row hr =>
      ((kept_read row).stable ⟨hs.1, hs.2 row hr⟩ hst).2⟩, fun hs => hs.1⟩
  refine .await kept_sound hkept fun s o hs _ => ?_
  let found := s.tokens.find? fun row => row.chainId = chainId && row.address = address
  let t := s.remember i (found.map (·, s.log.length))
  have ht : Sound t := ⟨hs.unique, hs.used, hs.targets, hs.status, hs.honest⟩
  refine ⟨⟨fun j hj => Function.update_of_ne hj .., ⟨fun _ h => h, List.prefix_rfl, fun _ => ht⟩,
    .inl ⟨rfl, rfl⟩⟩, ht, fun row hr => ?_⟩
  have hfound : found = some row := by
    have hr : o.reply found = .ok (some row) := hr
    unfold Answer.reply at hr
    split at hr
    · cases hr
    · exact Except.ok.inj hr
  have hmem : row ∈ s.tokens := List.mem_of_find?_eq_some hfound
  refine ⟨hs.used row hmem, s.log, [], (List.append_nil _).symm, ?_, hs.status row hmem⟩
  show Function.update s.reads i (found.map (·, s.log.length)) i = _
  rw [Function.update_self, hfound, Option.map_some]

theorem triple_main (isAddress : Text → Bool) (argv : List Text) :
    (protocol i).Triple Sound (main isAddress argv) fun _ => Sound := by
  have hdone (outcome : Outcome) {P : World → Prop} (hP : (protocol i).Kept P)
      (h : ∀ s, P s → Sound s) :
      (protocol i).Triple P (pure outcome : Async Call Unit Outcome) fun _ => Sound :=
    .done hP h
  unfold main
  split
  · split
    · exact hdone _ kept_sound fun _ hs => hs
    · exact .bind (triple_list _ _) (fun rows => hdone _ kept_sound fun _ hs => hs) fun _ _ hs => hs
  split
  · exact hdone _ kept_sound fun _ hs => hs
  split
  · exact hdone _ kept_sound fun _ hs => hs
  split
  · exact hdone _ kept_sound fun _ hs => hs
  refine .bind (triple_findUnique _ _) (fun found => ?_) fun _ _ hs => hs.1
  cases found with
  | none =>
    exact (hdone _ kept_sound fun _ hs => hs).imp (fun _ hs => hs.1) fun _ _ hs => hs
  | some row =>
    have hread : ∀ s, (Sound s ∧ ∀ r, (Except.ok (some row) : Except Unit _) = .ok (some r) →
        Read i r s) → Sound s ∧ Read i row s := fun s hs => ⟨hs.1, hs.2 row rfl⟩
    refine Protocol.Triple.imp ?_ hread fun _ _ hs => hs
    dsimp only
    split
    · exact hdone _ (kept_read row) fun _ hs => hs.1
    · rename_i hne
      refine .bind (Q := fun _ => Sound) ?_ (fun _ => hdone _ kept_sound fun _ hs => hs)
        fun _ _ hs => hs
      exact .await (kept_read row) (fun _ => kept_sound) fun s o hs _ =>
        exec_setStatus hs hne ⟨rfl, rfl, rfl⟩

end steps

section system

variable {isAddress : Text → Bool} {argv : Nat → List Text}

def outline (isAddress : Text → Bool) (argv : Nat → List Text) :
    (World.system isAddress argv).Outline fun _ _ => True where
  protocol := protocol
  idle _ := Sound
  post _ _ := Sound
  exec _ _ _ _ _ := rfl
  allow _ _ := trivial
  peer hne h := ⟨h.1 _ hne, h.2.1⟩
  rest h hst := hst.2.sound h
  start {c i} _ _ h := by
    have hsound : Sound (c.world.remember i none) :=
      ⟨h.unique, h.used, h.targets, h.status, h.honest⟩
    exact ⟨triple_main _ _ _ hsound, fun j hj =>
      ⟨Function.update_of_ne hj .., fun _ hmem => hmem, List.prefix_rfl, fun _ => hsound⟩⟩
  finish h := ⟨h, fun j _ => (protocol j).refl _⟩
  env {c event} _ j := ⟨by rw [World.system, happens_reads], happens_grows event c.world⟩
  crash _ h i := (em _).elim (h i).1 (h i).2

theorem mem_items {db : Postgres} {table : List Row} {now : Int} {filters : ExploreFilters}
    {item : TokenSummary} (h : item ∈ (listTokens db table now filters).items) :
    ∃ row ∈ table, (filters.toWhere now).matches db row = true ∧ row.toTokenSummary = item := by
  obtain ⟨row, hrow, rfl⟩ := List.mem_map.mp h
  have hfound : row ∈ findMany db table {
      input := filters.toWhere now
      orderBy := orderFor filters.sort
      take := filters.limit + 1
      cursor := (filters.cursor.filter (· ≠ [])).bind fun cursor =>
        decodeCursor cursor filters.sort } := by
    split at hrow
    · exact List.mem_of_mem_take hrow
    · exact hrow
  have hsorted : row ∈ (table.filter ((filters.toWhere now).matches db)).insertionSort
      fun a b => comesBefore db (orderFor filters.sort) b a = false := by
    have htake := List.mem_of_mem_take hfound
    split at htake
    · exact htake
    · split at htake
      · exact absurd htake List.not_mem_nil
      · exact List.mem_of_mem_filter htake
  obtain ⟨hmem, hmatches⟩ := List.mem_filter.mp ((List.mem_insertionSort _).mp hsorted)
  exact ⟨row, hmem, hmatches, rfl⟩

theorem not_suppressed_of_matches {db : Postgres} {row : Row} {now : Int}
    {filters : ExploreFilters} (hfilters : filters.includeModerated ≠ some true)
    (h : (filters.toWhere now).matches db row = true) : ¬Suppressed row.moderationStatus := by
  simp only [TokenWhere.matches, ExploreFilters.toWhere, if_neg hfilters, Bool.and_eq_true] at h
  obtain ⟨⟨⟨⟨⟨⟨⟨-, hstatus⟩, -⟩, -⟩, -⟩, -⟩, -⟩, -⟩ := h
  rintro (hhidden | hflagged)
  · rw [hhidden] at hstatus
    cases hstatus
  · rw [hflagged] at hstatus
    cases hstatus

def World.start (tokens : List Row) (used : List Text) (log : List Logged) : World where
  tokens
  used
  log
  reads _ := none

end system

section sample

def sampleToken : Row where
  id := ['t']
  address := ['a']
  name := ['N']
  symbol := ['S']
  decimals := 18
  imageUrl := none
  creatorAddress := ['c']
  pairTokenAddress := ['p']
  pairTokenDecimals := 18
  phase := .notGraduated
  price := 1
  marketCap := 1
  volume24h := 0
  volumeTotal := 0
  graduationBps := 0
  holderCount := 0
  tradeCount := 0
  creatorTaxBps := 0
  totalSupply := 1
  hadWhitelistBundle := false
  whitelistSize := 0
  moderationStatus := .normal
  launchBlock := 5
  createdAt := 0
  lastTradeAt := none
  chainId := robinhoodChainId
  trendingScore := 0

def sampleArgv (i : Nat) : List Text :=
  ["--token", "a", "--status", if i = 0 then "HIDDEN" else "VERIFIED", "--actor", "m"].map
    String.toList

def noAnswer : Answer where
  rejected := none
  updated := []

end sample

end Stunks.Scripts.Moderate
