import Mathlib.Data.List.Sort
import Stunks.Lib.Chunks
import Stunks.Lib.Concurrent
import Stunks.Pons.Launch.ImageUrl
import Stunks.Pons.Launch.Metadata
import Stunks.Scripts.Rollup

/-! `backfill-metadata.ts`: image, description and socials of tokens that were indexed without them,
while the indexer launches and rolls back. -/

namespace Stunks.Scripts.BackfillMetadata

open Pons

def fetchConcurrency : Nat := 25

def writeChunk : Nat := 200

def writeEvery : Nat := 1000

structure Recovered where
  imageUrl : Option (List Char)
  description : Option (List Char)
  websiteUrl : Option (List Char)
  twitterUrl : Option (List Char)
  telegramUrl : Option (List Char)
  discordUrl : Option (List Char)
  farcasterUrl : Option (List Char)
  deriving DecidableEq

def Recovered.blank : Recovered where
  imageUrl := none
  description := none
  websiteUrl := none
  twitterUrl := none
  telegramUrl := none
  discordUrl := none
  farcasterUrl := none

structure Token where
  id : Nat
  chainId : Nat
  name : List Char
  symbol : List Char
  launchTxHash : Nat
  launchBlock : Nat
  recovered : Recovered
  metadataCheckedAt : Option Int
  deriving DecidableEq

def Token.identity (token : Token) : LaunchIdentity where
  name := token.name
  symbol := token.symbol

def orNull (value : List Char) : Option (List Char) :=
  let trimmed := trim value
  if trimmed = [] then none else some (sliceUnits 1024 trimmed)

section recover

variable (parse : UrlParser)

def examine (input : List Char) (identity : LaunchIdentity) : Recovered :=
  match extractLaunchMetadata input identity with
  | none => .blank
  | some found =>
    { imageUrl := normaliseImageUrl parse found.logo
      description := orNull found.description
      websiteUrl := orNull found.socials.website
      twitterUrl := orNull found.socials.twitter
      telegramUrl := orNull found.socials.telegram
      discordUrl := orNull found.socials.discord
      farcasterUrl := orNull found.socials.farcaster }

def setKey (value : List Char) : Option (List Char) :=
  let trimmed := trim value
  if trimmed ≠ [] then some (sliceUnits 1024 trimmed) else none

/-- What the factory processor records at launch, a key that is absent being a `NULL` column. -/
def recoverLaunchMetadata (now : Int) (calldata : Option (List Char)) (identity : LaunchIdentity) :
    Recovered × Option Int :=
  match calldata with
  | none => (.blank, none)
  | some calldata =>
    match extractLaunchMetadata calldata identity with
    | none => (.blank, some now)
    | some found =>
      ({ imageUrl := normaliseImageUrl parse found.logo
         description := setKey found.description
         websiteUrl := setKey found.socials.website
         twitterUrl := setKey found.socials.twitter
         telegramUrl := setKey found.socials.telegram
         discordUrl := setKey found.socials.discord
         farcasterUrl := setKey found.socials.farcaster }, some now)

theorem setKey_eq (value : List Char) : setKey value = orNull value := by
  simp only [setKey, orNull, ne_eq, ite_not]

theorem recoverLaunchMetadata_some (now : Int) (calldata : List Char) (identity : LaunchIdentity) :
    recoverLaunchMetadata parse now (some calldata) identity =
      (examine parse calldata identity, some now) := by
  simp only [recoverLaunchMetadata, examine]
  cases extractLaunchMetadata calldata identity with
  | none => rfl
  | some found => simp only [setKey_eq]

end recover

inductive Call : Type → Type
  | reopen : Call Unit
  | findPending (take : Nat) : Call (List Token)
  /-- All settle, in any order. -/
  | getTransactions (batch : List Token) : Call (List (Token × Option (List Char)))
  | now : Call Int
  | update (rows : List (Nat × Recovered)) (checkedAt : Int) : Call Nat

abbrev Program := Async Call Unit

structure Args where
  apply : Bool
  retry : Bool
  limit : Nat

section program

variable (parse : UrlParser) (args : Args)

def writeChunks (checkedAt : Int) : List (List (Nat × Recovered)) → Program Nat
  | [] => return 0
  | chunk :: rest => do
    let written ← Async.await (.update chunk checkedAt)
    let more ← writeChunks checkedAt rest
    return written + more

def writeBatch (rows : List (Nat × Recovered)) : Program Nat := do
  let checkedAt ← Async.await .now
  writeChunks checkedAt (Chunks.ofSize writeChunk rows)

def drain (buffer : List (Nat × Recovered)) : Program (List (Nat × Recovered) × Nat) :=
  if args.apply = false ∨ buffer.length = 0 then return (buffer, 0)
  else do
    let written ← writeBatch buffer
    return ([], written)

/-- A transaction that could not be fetched is not evidence about the calldata. -/
def examined (settled : List (Token × Option (List Char))) : List (Nat × Recovered) :=
  settled.filterMap fun (token, input) =>
    input.map fun input => (token.id, examine parse input token.identity)

def fetchAll : List (List Token) → List (Nat × Recovered) → Program (List (Nat × Recovered) × Nat)
  | [], buffer => return (buffer, 0)
  | batch :: rest, buffer => do
    let settled ← Async.await (.getTransactions batch)
    let buffer := buffer ++ examined parse settled
    if buffer.length ≥ writeEvery then do
      let (buffer, written) ← drain args buffer
      let (buffer, more) ← fetchAll rest buffer
      return (buffer, written + more)
    else fetchAll rest buffer

def findTokens : Program (List Token) := do
  if args.retry && args.apply then do
    Async.await .reopen
    Async.await (.findPending args.limit)
  else Async.await (.findPending args.limit)

def main : Program Nat := do
  let pending ← findTokens args
  if pending.length = 0 then return 0
  else
    let (buffer, written) ← fetchAll parse args (Chunks.ofSize fetchConcurrency pending) []
    let (_, more) ← drain args buffer
    return written + more

end program

structure Memory where
  found : List Token
  answered : List Token
  failed : List Token
  unwritten : List Nat

def Memory.fresh : Memory where
  found := []
  answered := []
  failed := []
  unwritten := []

/-- An id is never given twice. -/
structure World where
  tokens : List Token
  nextId : Nat
  runs : Nat → Memory

structure Answer where
  /-- A rejected call, and whether it was applied nevertheless. -/
  rejected : Option Bool
  settled : List (Token × Bool)
  now : Int

def Answer.applied (o : Answer) : Bool := o.rejected.getD true

def Answer.reply {α : Type} (o : Answer) (a : α) : Except Unit α :=
  if o.rejected.isSome then .error () else .ok a

namespace World

variable (w : World)

inductive Event
  | launched (chainId : Nat) (name symbol : List Char) (launchTxHash launchBlock : Nat)
      (now : Option Int)
  | deletedAbove (chainId blockNumber : Nat)

def Pending (token : Token) : Prop :=
  token.chainId = robinhoodChainId ∧ token.metadataCheckedAt = none

instance (token : Token) : Decidable (Pending token) := by
  unfold Pending
  infer_instance

def pending (take : Nat) : List Token :=
  ((w.tokens.filter fun token => Pending token).insertionSort
    fun a b => a.launchBlock ≥ b.launchBlock).take take

def reopenRow (token : Token) : Token :=
  if token.chainId = robinhoodChainId ∧ token.recovered.imageUrl = none ∧
      token.metadataCheckedAt ≠ none then
    { token with metadataCheckedAt := none }
  else token

def updateRow (rows : List (Nat × Recovered)) (checkedAt : Int) (token : Token) : Token :=
  match rows.find? (·.1 = token.id) with
  | some row => { token with recovered := row.2, metadataCheckedAt := some checkedAt }
  | none => token

def reopen : World := { w with tokens := w.tokens.map reopenRow }

def update (rows : List (Nat × Recovered)) (checkedAt : Int) : World :=
  { w with tokens := w.tokens.map (updateRow rows checkedAt) }

def remember (i : Nat) (memory : Memory) : World :=
  { w with runs := Function.update w.runs i memory }

def settle (input : Nat → List Char) (batch : List Token) (o : Answer) :
    List (Token × Option (List Char)) :=
  if (o.settled.map Prod.fst).Perm batch then
    o.settled.map fun (token, came) =>
      (token, if came then some (input token.launchTxHash) else none)
  else batch.map (·, none)

def exec (input : Nat → List Char) (i : Nat) {β : Type} (call : Call β) (o : Answer) (w : World) :
    Except Unit β × World :=
  let memory := w.runs i
  match call with
  | .reopen => (o.reply (), if o.applied then w.reopen else w)
  | .findPending take =>
      (o.reply (w.pending take), w.remember i { memory with found := w.pending take })
  | .getTransactions batch =>
    let settled := settle input batch o
    let answered := (settled.filter (·.2.isSome)).map Prod.fst
    (.ok settled, w.remember i { memory with
      answered := memory.answered ++ answered
      failed := memory.failed ++ (settled.filter (·.2.isNone)).map Prod.fst
      unwritten := memory.unwritten ++ answered.map Token.id })
  | .now => (.ok o.now, w)
  | .update rows checkedAt =>
    (o.reply (w.tokens.filter fun token => rows.any (·.1 = token.id)).length,
      if o.applied then (w.update rows checkedAt).remember i { memory with
        unwritten := memory.unwritten.filter fun id => !rows.any (·.1 = id) }
      else w)

def happens (parse : UrlParser) (input : Nat → List Char) : Event → World → World
  | .launched chainId name symbol launchTxHash launchBlock now, w =>
    let calldata := now.map fun _ => input launchTxHash
    let (recovered, metadataCheckedAt) :=
      recoverLaunchMetadata parse (now.getD 0) calldata { name, symbol }
    { w with
      tokens := w.tokens ++ [{ id := w.nextId, chainId, name, symbol, launchTxHash, launchBlock,
                               recovered, metadataCheckedAt }]
      nextId := w.nextId + 1 }
  | .deletedAbove chainId blockNumber, w =>
    { w with tokens := w.tokens.filter fun token =>
        !(token.chainId = chainId && blockNumber < token.launchBlock) }

def system (parse : UrlParser) (input : Nat → List Char) (args : Nat → Args) :
    System Nat Call Unit Nat Answer Event World where
  exec i := exec input i
  body i := main parse (args i)
  ready _ _ := true
  start i w := w.remember i .fresh
  finish _ _ w := w
  env event w := happens parse input event w
  crash w := w

end World

def SameLaunch (a b : Token) : Prop :=
  b = { a with recovered := b.recovered, metadataCheckedAt := b.metadataCheckedAt }

section told

variable (parse : UrlParser) (input : Nat → List Char)

def Told (token : Token) : Prop :=
  token.recovered = examine parse (input token.launchTxHash) token.identity

/-- An examined row says what its calldata says, and one that is not examined says no more. -/
structure Fair (token : Token) : Prop where
  checked : token.metadataCheckedAt ≠ none → Told parse input token
  blank : token.recovered = .blank ∨ Told parse input token

structure Sound (w : World) : Prop where
  unique : (w.tokens.map Token.id).Nodup
  below : ∀ token ∈ w.tokens, token.id < w.nextId
  fair : ∀ token ∈ w.tokens, Fair parse input token

structure Grows (s t : World) : Prop where
  nextId : s.nextId ≤ t.nextId
  rows : ∀ r' ∈ t.tokens, s.nextId ≤ r'.id ∨
    ∃ r ∈ s.tokens, SameLaunch r r' ∧ (Told parse input r → Told parse input r')

structure Known (s : World) (token : Token) : Prop where
  below : token.id < s.nextId
  row : ∀ r ∈ s.tokens, r.id = token.id → SameLaunch token r

def Recorded (s : World) (token : Token) : Prop :=
  ∀ r ∈ s.tokens, r.id = token.id → Told parse input r

end told

section rows

variable {parse : UrlParser} {input : Nat → List Char} {a b c r : Token} {s t u : World}

theorem SameLaunch.refl (a : Token) : SameLaunch a a := rfl

theorem SameLaunch.trans (h : SameLaunch a b) (h' : SameLaunch b c) : SameLaunch a c := by
  rw [SameLaunch] at h h' ⊢
  rw [h', h]

theorem SameLaunch.id_eq (h : SameLaunch a b) : b.id = a.id := by rw [h]

theorem SameLaunch.examine_eq (h : SameLaunch a b) :
    examine parse (input b.launchTxHash) b.identity =
      examine parse (input a.launchTxHash) a.identity := by rw [h]; rfl

theorem Grows.refl (s : World) : Grows parse input s s where
  nextId := le_rfl
  rows r hr := .inr ⟨r, hr, .refl r, fun h => h⟩

theorem Grows.trans (h : Grows parse input s t) (h' : Grows parse input t u) :
    Grows parse input s u where
  nextId := h.nextId.trans h'.nextId
  rows r'' hr'' := by
    rcases h'.rows r'' hr'' with hnew | ⟨r', hr', hsame', htold'⟩
    · exact .inl (h.nextId.trans hnew)
    · rcases h.rows r' hr' with hnew | ⟨r, hr, hsame, htold⟩
      · exact .inl (hsame'.id_eq ▸ hnew)
      · exact .inr ⟨r, hr, hsame.trans hsame', htold' ∘ htold⟩

theorem Known.grows (h : Known s r) (hst : Grows parse input s t) : Known t r where
  below := h.below.trans_le hst.nextId
  row r' hr' hid := by
    rcases hst.rows r' hr' with hnew | ⟨old, hold, hsame, -⟩
    · exact absurd (hid ▸ hnew) (not_le.mpr h.below)
    · exact (h.row old hold (hsame.id_eq ▸ hid)).trans hsame

theorem Recorded.grows (hknown : Known s r) (h : Recorded parse input s r)
    (hst : Grows parse input s t) : Recorded parse input t r := by
  intro r' hr' hid
  rcases hst.rows r' hr' with hnew | ⟨old, hold, hsame, htold⟩
  · exact absurd (hid ▸ hnew) (not_le.mpr hknown.below)
  · exact htold (h old hold (hsame.id_eq ▸ hid))

theorem Grows.map {f : Token → Token}
    (hf : ∀ r ∈ s.tokens, SameLaunch r (f r) ∧ (Told parse input r → Told parse input (f r))) :
    Grows parse input s { s with tokens := s.tokens.map f } where
  nextId := le_rfl
  rows r' hr' := by
    obtain ⟨r, hr, rfl⟩ := List.mem_map.mp hr'
    exact .inr ⟨r, hr, hf r hr⟩

theorem Sound.map (h : Sound parse input s) {f : Token → Token}
    (hf : ∀ r ∈ s.tokens, SameLaunch r (f r) ∧ (Fair parse input r → Fair parse input (f r))) :
    Sound parse input { s with tokens := s.tokens.map f } where
  unique := by
    have hids : s.tokens.map (Token.id ∘ f) = s.tokens.map Token.id :=
      List.map_congr_left fun r hr => (hf r hr).1.id_eq
    rw [List.map_map, hids]
    exact h.unique
  below r' hr' := by
    obtain ⟨r, hr, rfl⟩ := List.mem_map.mp hr'
    exact (hf r hr).1.id_eq ▸ h.below r hr
  fair r' hr' := by
    obtain ⟨r, hr, rfl⟩ := List.mem_map.mp hr'
    exact (hf r hr).2 (h.fair r hr)

namespace World

theorem reopenRow_sameLaunch (r : Token) : SameLaunch r (reopenRow r) := by
  unfold reopenRow
  split <;> rfl

theorem reopenRow_told (h : Told parse input r) : Told parse input (reopenRow r) := by
  unfold reopenRow
  split <;> exact h

theorem reopenRow_fair (h : Fair parse input r) : Fair parse input (reopenRow r) := by
  unfold reopenRow
  split
  · exact ⟨fun hchecked => absurd rfl hchecked, h.blank⟩
  · exact h

theorem updateRow_cases (rows : List (Nat × Recovered)) (checkedAt : Int) (r : Token) :
    (rows.any (·.1 = r.id) = false ∧ updateRow rows checkedAt r = r) ∨
      ∃ row ∈ rows, row.1 = r.id ∧
        updateRow rows checkedAt r =
          { r with recovered := row.2, metadataCheckedAt := some checkedAt } := by
  unfold updateRow
  cases hfind : rows.find? (·.1 = r.id) with
  | none =>
    refine .inl ⟨?_, rfl⟩
    simpa using hfind
  | some row =>
    exact .inr ⟨row, List.mem_of_find?_eq_some hfind,
      by simpa using List.find?_some hfind, rfl⟩

theorem happens_sound (h : Sound parse input s) (event : Event) :
    Sound parse input (happens parse input event s) := by
  cases event with
  | launched chainId name symbol launchTxHash launchBlock now =>
    refine ⟨?_, ?_, ?_⟩
    · simp only [happens, List.map_append, List.map_cons, List.map_nil]
      refine h.unique.append (List.nodup_singleton _) ?_
      rw [List.disjoint_singleton]
      intro hmem
      obtain ⟨r, hr, hid⟩ := List.mem_map.mp hmem
      exact (h.below r hr).ne hid
    · intro r hr
      rcases List.mem_append.mp hr with hr | hr
      · exact Nat.lt_succ_of_lt (h.below r hr)
      · rw [List.mem_singleton.mp hr]
        exact Nat.lt_succ_self _
    · intro r hr
      rcases List.mem_append.mp hr with hr | hr
      · exact h.fair r hr
      · rw [List.mem_singleton.mp hr]
        cases now with
        | none => exact ⟨fun hchecked => absurd rfl hchecked, .inl rfl⟩
        | some now =>
          have htold := congrArg Prod.fst (recoverLaunchMetadata_some parse now
            (input launchTxHash) { name, symbol })
          exact ⟨fun _ => htold, .inr htold⟩
  | deletedAbove chainId blockNumber =>
    exact ⟨h.unique.sublist (List.filter_sublist.map _),
      fun r hr => h.below r (List.mem_filter.mp hr).1,
      fun r hr => h.fair r (List.mem_filter.mp hr).1⟩

theorem happens_grows (event : Event) : Grows parse input s (happens parse input event s) := by
  cases event with
  | launched chainId name symbol launchTxHash launchBlock now =>
    refine ⟨Nat.le_succ _, fun r hr => ?_⟩
    rcases List.mem_append.mp hr with hr | hr
    · exact .inr ⟨r, hr, .refl r, fun h => h⟩
    · rw [List.mem_singleton.mp hr]
      exact .inl le_rfl
  | deletedAbove chainId blockNumber =>
    exact ⟨le_rfl, fun r hr => .inr ⟨r, (List.mem_filter.mp hr).1, .refl r, fun h => h⟩⟩

end World

end rows

section runs

variable (parse : UrlParser) (input : Nat → List Char) (args : Nat → Args) (i : Nat)

def Rewrites (s : World) (r r' : Token) : Prop :=
  r' = r ∨
    (∃ token ∈ (s.runs i).answered, token.id = r.id ∧ ∃ checkedAt, r' =
      { r with recovered := examine parse (input r.launchTxHash) r.identity
               metadataCheckedAt := some checkedAt }) ∨
    ((args i).retry = true ∧ r.recovered.imageUrl = none ∧ r' = { r with metadataCheckedAt := none })

structure Changes (s t : World) : Prop where
  dry : (args i).apply = false → t.tokens = s.tokens
  ids : t.tokens.map Token.id = s.tokens.map Token.id
  rows : List.Forall₂ (Rewrites parse input args i s) s.tokens t.tokens

structure Booked (s : World) : Prop where
  known : ∀ token ∈ (s.runs i).answered, Known s token
  recorded : ∀ token ∈ (s.runs i).answered, token.id ∉ (s.runs i).unwritten →
    Recorded parse input s token
  lost : (args i).apply = true → (s.runs i).unwritten.length < writeEvery + fetchConcurrency

def Right (s : World) (row : Nat × Recovered) : Prop :=
  ∃ token ∈ (s.runs i).answered, token.id = row.1 ∧
    row.2 = examine parse (input token.launchTxHash) token.identity

structure Running (buffer : List (Nat × Recovered)) (rest : List Token) (s : World) : Prop where
  sound : Sound parse input s
  booked : Booked parse input args i s
  unwritten : (s.runs i).unwritten.Sublist (buffer.map Prod.fst)
  right : ∀ row ∈ buffer, Right parse input i s row
  ahead : ∀ token ∈ rest, Known s token
  all : ((s.runs i).answered ++ (s.runs i).failed ++ rest).Perm (s.runs i).found

structure Opening (s : World) : Prop where
  sound : Sound parse input s
  fresh : s.runs i = .fresh

def Over (s : World) : Prop := Sound parse input s ∧ Booked parse input args i s

def protocol : Protocol Call Unit Answer World where
  exec := World.exec input i
  allow _ _ _ := True
  rely s t := t.runs i = s.runs i ∧ Grows parse input s t ∧
    (Sound parse input s → Sound parse input t)
  guar s t := (∀ j, j ≠ i → t.runs j = s.runs j) ∧ Grows parse input s t ∧
    (Sound parse input s → Sound parse input t) ∧ Changes parse input args i s t
  keep := Over parse input args i
  refl s := ⟨rfl, .refl s, fun h => h⟩
  trans h h' := ⟨h'.1.trans h.1, h.2.1.trans h'.2.1, h'.2.2 ∘ h.2.2⟩

variable {parse input args i} {buffer chunk : List (Nat × Recovered)} {rest batch : List Token}
  {s t : World} {o : Answer} {checkedAt : Int}

theorem Changes.of_tokens (h : t.tokens = s.tokens) : Changes parse input args i s t where
  dry _ := h
  ids := by rw [h]
  rows := h ▸ List.forall₂_same.mpr fun _ _ => .inl rfl

theorem Changes.of_map {f : Token → Token} (happly : (args i).apply = true)
    (htokens : t.tokens = s.tokens.map f)
    (h : ∀ r ∈ s.tokens, (f r).id = r.id ∧ Rewrites parse input args i s r (f r)) :
    Changes parse input args i s t where
  dry hdry := absurd (happly.symm.trans hdry) (by decide)
  ids := by
    rw [htokens, List.map_map]
    exact List.map_congr_left fun r hr => (h r hr).1
  rows := by
    rw [htokens]
    exact List.forall₂_map_right_iff.mpr (List.forall₂_same.mpr fun r hr => (h r hr).2)

theorem Booked.rely (h : Booked parse input args i s) (hruns : t.runs i = s.runs i)
    (hgrows : Grows parse input s t) : Booked parse input args i t := by
  refine ⟨?_, ?_, ?_⟩ <;> rw [hruns]
  · exact fun token htoken => (h.known token htoken).grows hgrows
  · exact fun token htoken hwritten =>
      (h.recorded token htoken hwritten).grows (h.known token htoken) hgrows
  · exact h.lost

theorem Running.rely (h : Running parse input args i buffer rest s)
    (hst : (protocol parse input args i).rely s t) : Running parse input args i buffer rest t where
  sound := hst.2.2 h.sound
  booked := h.booked.rely hst.1 hst.2.1
  unwritten := hst.1 ▸ h.unwritten
  right row hrow := by
    rw [Right, hst.1]
    exact h.right row hrow
  ahead token htoken := (h.ahead token htoken).grows hst.2.1
  all := hst.1 ▸ h.all

theorem kept_running (buffer : List (Nat × Recovered)) (rest : List Token) :
    (protocol parse input args i).Kept (Running parse input args i buffer rest) where
  stable h hst := h.rely hst
  keep h := ⟨h.sound, h.booked⟩

theorem kept_over : (protocol parse input args i).Kept (Over parse input args i) where
  stable h hst := ⟨hst.2.2 h.1, h.2.rely hst.1 hst.2.1⟩
  keep h := h

theorem Running.left (h : Running parse input args i buffer rest s) : Over parse input args i s :=
  ⟨h.sound, h.booked⟩

theorem Running.row_told (h : Running parse input args i buffer rest s) {row : Nat × Recovered}
    (hrow : row ∈ buffer) {r : Token} (hr : r ∈ s.tokens) (hid : row.1 = r.id) :
    row.2 = examine parse (input r.launchTxHash) r.identity := by
  obtain ⟨token, htoken, htid, hexamine⟩ := h.right row hrow
  rw [hexamine, ((h.booked.known token htoken).row r hr (hid.symm.trans htid.symm)).examine_eq]

theorem Answer.applied_of_ok {α : Type} {a b : α} (h : o.reply a = .ok b) :
    o.applied = true ∧ b = a := by
  unfold Answer.reply at h
  split at h
  · cases h
  · rename_i hnone
    cases h
    rw [Answer.applied, Option.not_isSome_iff_eq_none.mp hnone]
    exact ⟨rfl, rfl⟩

theorem Running.updateRow_cases (h : Running parse input args i (chunk ++ buffer) rest s) {r : Token}
    (hr : r ∈ s.tokens) :
    (chunk.any (·.1 = r.id) = false ∧ World.updateRow chunk checkedAt r = r) ∨
      (∃ token ∈ (s.runs i).answered, token.id = r.id) ∧
        World.updateRow chunk checkedAt r =
          { r with recovered := examine parse (input r.launchTxHash) r.identity
                   metadataCheckedAt := some checkedAt } := by
  rcases World.updateRow_cases chunk checkedAt r with hnone | ⟨row, hmem, hid, heq⟩
  · exact .inl hnone
  · have hbuffer : row ∈ chunk ++ buffer := List.mem_append_left _ hmem
    obtain ⟨token, htoken, htid, -⟩ := h.right row hbuffer
    exact .inr ⟨⟨token, htoken, htid.trans hid⟩, by rw [heq, h.row_told hbuffer hr hid]⟩

theorem Running.updateRow_told (h : Running parse input args i (chunk ++ buffer) rest s) {r : Token}
    (hr : r ∈ s.tokens) : SameLaunch r (World.updateRow chunk checkedAt r) ∧
      (World.updateRow chunk checkedAt r = r ∨
        Told parse input (World.updateRow chunk checkedAt r)) := by
  rcases @updateRow_cases _ _ _ _ _ _ _ _ checkedAt h r hr with ⟨-, heq⟩ | ⟨-, heq⟩
  · exact ⟨by rw [heq]; rfl, .inl heq⟩
  · exact ⟨by rw [heq]; rfl, .inr (by rw [heq]; rfl)⟩

theorem Running.unwritten_filter (h : Running parse input args i (chunk ++ buffer) rest s) :
    ((s.runs i).unwritten.filter fun id => !chunk.any (·.1 = id)).Sublist (buffer.map Prod.fst) := by
  have hsub := h.unwritten.filter fun id => !chunk.any (·.1 = id)
  have hnone : (chunk.map Prod.fst).filter (fun id => !chunk.any (·.1 = id)) = [] := by
    refine List.filter_eq_nil_iff.mpr fun id hid => ?_
    obtain ⟨row, hmem, rfl⟩ := List.mem_map.mp hid
    simp only [Bool.not_eq_true', Bool.not_eq_false, List.any_eq_true, decide_eq_true_eq]
    exact ⟨row, hmem, rfl⟩
  rw [List.map_append, List.filter_append, hnone, List.nil_append] at hsub
  exact hsub.trans List.filter_sublist

theorem Running.recorded_of_chunk (h : Running parse input args i (chunk ++ buffer) rest s)
    (ht : t.tokens = s.tokens.map (World.updateRow chunk checkedAt)) {token : Token}
    (hchunk : chunk.any (·.1 = token.id) = true) : Recorded parse input t token := by
  intro r' hr' hid
  rw [ht] at hr'
  obtain ⟨r, hr, rfl⟩ := List.mem_map.mp hr'
  rw [(@updateRow_told _ _ _ _ _ _ _ _ checkedAt h r hr).1.id_eq] at hid
  rcases h.updateRow_cases hr with ⟨hnone, -⟩ | ⟨-, heq⟩
  · rw [hid, hchunk] at hnone
    cases hnone
  · rw [heq]
    rfl

theorem Running.written (h : Running parse input args i (chunk ++ buffer) rest s)
    (happly : (args i).apply = true) (happlied : o.applied = true) :
    let t := (World.exec input i (.update chunk checkedAt) o s).2
    (protocol parse input args i).guar s t ∧ Running parse input args i buffer rest t := by
  intro t
  have ht : t = (s.update chunk checkedAt).remember i { s.runs i with
      unwritten := (s.runs i).unwritten.filter fun id => !chunk.any (·.1 = id) } := if_pos happlied
  have hruns : t.runs i = { s.runs i with
      unwritten := (s.runs i).unwritten.filter fun id => !chunk.any (·.1 = id) } := by
    rw [ht]
    exact Function.update_self ..
  have htokens : t.tokens = s.tokens.map (World.updateRow chunk checkedAt) := by rw [ht]; rfl
  have htold := fun r (hr : r ∈ s.tokens) =>
    @updateRow_told _ _ _ _ _ _ _ _ checkedAt h r hr
  have hsound : Sound parse input t := by
    have hmap := h.sound.map fun r hr => ⟨(htold r hr).1, fun hfair => ?_⟩
    · rw [ht]
      exact ⟨hmap.unique, hmap.below, hmap.fair⟩
    · rcases (htold r hr).2 with heq | htold
      · exact heq.symm ▸ hfair
      · exact ⟨fun _ => htold, .inr htold⟩
  have hgrows : Grows parse input s t := by
    have hmap : Grows parse input s
        { s with tokens := s.tokens.map (World.updateRow chunk checkedAt) } :=
      .map fun r hr => ⟨(htold r hr).1, fun hold =>
        (htold r hr).2.elim (fun heq => heq.symm ▸ hold) fun hnew => hnew⟩
    rw [ht]
    exact ⟨hmap.nextId, hmap.rows⟩
  have hchanges : Changes parse input args i s t := by
    refine .of_map happly htokens fun r hr => ⟨(htold r hr).1.id_eq, ?_⟩
    rcases h.updateRow_cases hr with ⟨-, heq⟩ | ⟨⟨token, htoken, hid⟩, heq⟩
    · exact .inl heq
    · exact .inr (.inl ⟨token, htoken, hid, checkedAt, heq⟩)
  have hother : ∀ j, j ≠ i → t.runs j = s.runs j := by
    intro j hj
    rw [ht]
    exact Function.update_of_ne hj ..
  refine ⟨⟨hother, hgrows, fun _ => hsound, hchanges⟩, hsound, ⟨?_, ?_, ?_⟩, ?_, ?_, ?_, ?_⟩
  · rw [hruns]
    exact fun token htoken => (h.booked.known token htoken).grows hgrows
  · rw [hruns]
    intro token htoken hwritten
    by_cases hchunk : chunk.any (·.1 = token.id) = true
    · exact h.recorded_of_chunk htokens hchunk
    · refine (h.booked.recorded token htoken fun hmem => hwritten ?_).grows
        (h.booked.known token htoken) hgrows
      exact List.mem_filter.mpr ⟨hmem, by rw [Bool.eq_false_of_not_eq_true hchunk]; rfl⟩
  · rw [hruns]
    exact fun hdo => (List.length_filter_le ..).trans_lt (h.booked.lost hdo)
  · rw [hruns]
    exact h.unwritten_filter
  · intro row hmem
    rw [Right, hruns]
    exact h.right row (List.mem_append_right _ hmem)
  · exact fun token htoken => (h.ahead token htoken).grows hgrows
  · rw [hruns]
    exact h.all

theorem Running.update (h : Running parse input args i (chunk ++ buffer) rest s)
    (happly : (args i).apply = true) :
    let after := World.exec input i (.update chunk checkedAt) o s
    (protocol parse input args i).guar s after.2 ∧ Over parse input args i after.2 ∧
      ∀ n, after.1 = .ok n → Running parse input args i buffer rest after.2 := by
  intro after
  cases happlied : o.applied with
  | true =>
    obtain ⟨hguar, hrunning⟩ := @Running.written _ _ _ _ _ _ _ _ _ checkedAt h happly happlied
    exact ⟨hguar, hrunning.left, fun _ _ => hrunning⟩
  | false =>
    have hsame : after.2 = s := if_neg (by rw [happlied]; decide)
    rw [hsame]
    refine ⟨⟨fun _ _ => rfl, .refl s, fun hs => hs, .of_tokens rfl⟩, h.left, fun n hn => ?_⟩
    exact absurd (happlied.symm.trans (Answer.applied_of_ok hn).1) (by decide)

theorem settle_perm (input : Nat → List Char) (batch : List Token) (o : Answer) :
    ((World.settle input batch o).map Prod.fst).Perm batch := by
  unfold World.settle
  split
  · rename_i hperm
    simpa [List.map_map, Function.comp_def] using hperm
  · simp [List.map_map, Function.comp_def]

theorem settle_input {token : Token} {text : List Char}
    (h : (token, some text) ∈ World.settle input batch o) : text = input token.launchTxHash := by
  unfold World.settle at h
  split at h
  · obtain ⟨⟨token', came⟩, -, heq⟩ := List.mem_map.mp h
    obtain ⟨rfl, hinput⟩ := Prod.mk.inj heq
    split at hinput
    · exact (Option.some.inj hinput).symm
    · cases hinput
  · obtain ⟨token', -, heq⟩ := List.mem_map.mp h
    cases (Prod.mk.inj heq).2

theorem map_fst_examined (settled : List (Token × Option (List Char))) :
    (examined parse settled).map Prod.fst =
      ((settled.filter (·.2.isSome)).map Prod.fst).map Token.id := by
  induction settled with
  | nil => rfl
  | cons head settled ih =>
    obtain ⟨token, _ | text⟩ := head
    · exact ih
    · exact congrArg (token.id :: ·) ih

theorem Running.fetch (h : Running parse input args i buffer (batch ++ rest) s)
    (hbatch : batch.length ≤ fetchConcurrency)
    (hbuffer : (args i).apply = true → buffer.length < writeEvery) :
    let after := World.exec input i (.getTransactions batch) o s
    (protocol parse input args i).guar s after.2 ∧ ∃ settled, after.1 = .ok settled ∧
      Running parse input args i (buffer ++ examined parse settled) rest after.2 := by
  intro after
  let settled := World.settle input batch o
  let answered := (settled.filter (·.2.isSome)).map Prod.fst
  let failed := (settled.filter (·.2.isNone)).map Prod.fst
  have hruns : after.2.runs i = { s.runs i with
      answered := (s.runs i).answered ++ answered
      failed := (s.runs i).failed ++ failed
      unwritten := (s.runs i).unwritten ++ answered.map Token.id } := Function.update_self ..
  have hgrows : Grows parse input s after.2 := ⟨le_rfl, (Grows.refl s).rows⟩
  have hsound : Sound parse input after.2 := ⟨h.sound.unique, h.sound.below, h.sound.fair⟩
  have hother : ∀ j, j ≠ i → after.2.runs j = s.runs j := fun j hj => Function.update_of_ne hj ..
  have hperm : settled.map Prod.fst |>.Perm batch := settle_perm input batch o
  have hsplit : (answered ++ failed).Perm batch := by
    have hfilter := (List.filter_append_perm (·.2.isSome) settled).map Prod.fst
    rw [List.map_append] at hfilter
    simpa [answered, failed] using hfilter.trans hperm
  have hmem : ∀ token ∈ answered, token ∈ batch := fun token htoken =>
    hsplit.subset (List.mem_append_left _ htoken)
  have hknown : ∀ token ∈ (s.runs i).answered ++ answered, Known s token := by
    intro token htoken
    rcases List.mem_append.mp htoken with hold | hnew
    · exact h.booked.known token hold
    · exact h.ahead token (List.mem_append_left _ (hmem token hnew))
  have hlength : answered.length ≤ batch.length := by
    have := hsplit.length_eq
    rw [List.length_append] at this
    omega
  refine ⟨⟨hother, hgrows, fun _ => hsound, .of_tokens rfl⟩, settled, rfl, hsound,
    ⟨?_, ?_, ?_⟩, ?_, ?_, ?_, ?_⟩
  · rw [hruns]
    exact fun token htoken => (hknown token htoken).grows hgrows
  · rw [hruns]
    intro token htoken hwritten
    obtain ⟨hold, hnew⟩ := not_or.mp (mt List.mem_append.mpr hwritten)
    rcases List.mem_append.mp htoken with htoken | htoken
    · exact (h.booked.recorded token htoken hold).grows (h.booked.known token htoken) hgrows
    · exact absurd (List.mem_map_of_mem htoken) hnew
  · rw [hruns]
    intro happly
    have hlt := hbuffer happly
    have hle := h.unwritten.length_le
    rw [List.length_map] at hle
    simp only [List.length_append, List.length_map]
    omega
  · rw [hruns, List.map_append, map_fst_examined]
    exact h.unwritten.append (List.Sublist.refl _)
  · intro row hrow
    rw [Right, hruns]
    rcases List.mem_append.mp hrow with hold | hnew
    · obtain ⟨token, htoken, hrest⟩ := h.right row hold
      exact ⟨token, List.mem_append_left _ htoken, hrest⟩
    · obtain ⟨⟨token, text⟩, hsettled, heq⟩ := List.mem_filterMap.mp hnew
      obtain ⟨text, rfl, rfl⟩ := Option.map_eq_some_iff.mp heq
      have htoken : token ∈ answered :=
        List.mem_map.mpr ⟨(token, some text), List.mem_filter.mpr ⟨hsettled, rfl⟩, rfl⟩
      exact ⟨token, List.mem_append_right _ htoken, rfl, by rw [settle_input hsettled]⟩
  · exact fun token htoken => (h.ahead token (List.mem_append_right _ htoken)).grows hgrows
  · rw [hruns]
    refine List.Perm.trans ?_ h.all
    have hmiddle : ((s.runs i).answered ++ answered ++ ((s.runs i).failed ++ failed)).Perm
        ((s.runs i).answered ++ (s.runs i).failed ++ (answered ++ failed)) := by
      rw [List.append_assoc, List.append_assoc]
      refine List.Perm.append_left _ ?_
      rw [← List.append_assoc, ← List.append_assoc]
      exact List.perm_append_comm.append_right _
    have hwhole := (hmiddle.trans (hsplit.append_left _)).append_right rest
    rwa [List.append_assoc _ batch] at hwhole

theorem Opening.left (h : Opening parse input i s) : Over parse input args i s := by
  refine ⟨h.sound, ?_, ?_, ?_⟩ <;> rw [h.fresh]
  · exact fun _ htoken => absurd htoken List.not_mem_nil
  · exact fun _ htoken => absurd htoken List.not_mem_nil
  · exact fun _ => by decide

theorem kept_opening : (protocol parse input args i).Kept (Opening parse input i) where
  stable h hst := ⟨hst.2.2 h.sound, hst.1.trans h.fresh⟩
  keep h := h.left

theorem Opening.reopen (h : Opening parse input i s) (happly : (args i).apply = true)
    (hretry : (args i).retry = true) :
    let after := World.exec input i .reopen o s
    (protocol parse input args i).guar s after.2 ∧ Opening parse input i after.2 := by
  intro after
  cases happlied : o.applied with
  | false =>
    have hsame : after.2 = s := if_neg (by rw [happlied]; decide)
    rw [hsame]
    exact ⟨⟨fun _ _ => rfl, .refl s, fun hs => hs, .of_tokens rfl⟩, h⟩
  | true =>
    have ht : after.2 = s.reopen := if_pos happlied
    rw [ht]
    have hgrows : Grows parse input s s.reopen :=
      .map fun r _ => ⟨World.reopenRow_sameLaunch r, World.reopenRow_told⟩
    have hsound : Sound parse input s.reopen :=
      h.sound.map fun r _ => ⟨World.reopenRow_sameLaunch r, World.reopenRow_fair⟩
    have hchanges : Changes parse input args i s s.reopen := by
      refine .of_map happly rfl fun r _ => ⟨(World.reopenRow_sameLaunch r).id_eq, ?_⟩
      unfold World.reopenRow
      split
      · rename_i hmiss
        exact .inr (.inr ⟨hretry, hmiss.2.1, rfl⟩)
      · exact .inl rfl
    exact ⟨⟨fun _ _ => rfl, hgrows, fun _ => hsound, hchanges⟩, hsound, h.fresh⟩

theorem World.mem_pending {w : World} {take : Nat} {token : Token} (h : token ∈ w.pending take) :
    token ∈ w.tokens ∧ World.Pending token := by
  have hsorted := List.mem_of_mem_take h
  rw [List.mem_insertionSort, List.mem_filter, decide_eq_true_eq] at hsorted
  exact hsorted

theorem Sound.known (h : Sound parse input s) {token : Token} (htoken : token ∈ s.tokens) :
    Known s token where
  below := h.below token htoken
  row r hr hid := by
    rw [List.inj_on_of_nodup_map h.unique hr htoken hid]
    exact .refl token

theorem Opening.find (h : Opening parse input i s) {take : Nat} :
    let after := World.exec input i (.findPending take) o s
    (protocol parse input args i).guar s after.2 ∧ Over parse input args i after.2 ∧
      ∀ pending, after.1 = .ok pending → Running parse input args i [] pending after.2 := by
  intro after
  have hruns : after.2.runs i = { s.runs i with found := s.pending take } :=
    Function.update_self ..
  have hgrows : Grows parse input s after.2 := ⟨le_rfl, (Grows.refl s).rows⟩
  have hsound : Sound parse input after.2 := ⟨h.sound.unique, h.sound.below, h.sound.fair⟩
  have hother : ∀ j, j ≠ i → after.2.runs j = s.runs j := fun j hj => Function.update_of_ne hj ..
  have hbooked : Booked parse input args i after.2 := by
    refine ⟨?_, ?_, fun _ => ?_⟩ <;> rw [hruns, h.fresh]
    · exact fun _ htoken => absurd htoken List.not_mem_nil
    · exact fun _ htoken => absurd htoken List.not_mem_nil
    · exact Nat.zero_lt_succ _
  refine ⟨⟨hother, hgrows, fun _ => hsound, .of_tokens rfl⟩, ⟨hsound, hbooked⟩,
    fun pending hpending => ?_⟩
  obtain ⟨-, rfl⟩ := Answer.applied_of_ok hpending
  refine ⟨hsound, hbooked, ?_, fun _ hrow => absurd hrow List.not_mem_nil,
    fun token htoken => ?_, ?_⟩
  · rw [hruns, h.fresh]
    exact .slnil
  · exact (h.sound.known (World.mem_pending htoken).1).grows hgrows
  · rw [hruns, h.fresh]
    exact .refl _

end runs

section triples

variable {parse : UrlParser} {input : Nat → List Char} {args : Nat → Args} {i : Nat}
  {buffer : List (Nat × Recovered)} {rest : List Token}

def Leaves {α : Type} (parse : UrlParser) (input : Nat → List Char) (args : Nat → Args) (i : Nat)
    (next : α → World → Prop) (r : Except Unit α) (s : World) : Prop :=
  Over parse input args i s ∧ ∀ a, r = .ok a → next a s

theorem kept_leaves {α : Type} {next : α → World → Prop}
    (h : ∀ a, (protocol parse input args i).Kept (next a)) (r : Except Unit α) :
    (protocol parse input args i).Kept (Leaves parse input args i next r) where
  stable hs hst := ⟨kept_over.stable hs.1 hst, fun a ha => (h a).stable (hs.2 a ha) hst⟩
  keep hs := hs.1

theorem Leaves.error {α β : Type} {next : α → World → Prop} {next' : β → World → Prop} (e : Unit)
    (s : World) (h : Leaves parse input args i next (.error e) s) :
    Leaves parse input args i next' (.error e) s :=
  ⟨h.1, fun _ hok => by cases hok⟩

theorem triple_bind {α β : Type} {pre : World → Prop} {Q : α → World → Prop}
    {Q' : β → World → Prop} {p : Program α} {f : α → Program β}
    (hp : (protocol parse input args i).Triple pre p (Leaves parse input args i Q))
    (hf : ∀ a, (protocol parse input args i).Triple (Q a) (f a)
      (Leaves parse input args i Q')) :
    (protocol parse input args i).Triple pre (p >>= f) (Leaves parse input args i Q') :=
  .bind hp (fun a => (hf a).imp (fun _ hs => hs.2 a rfl) fun _ _ hs => hs) Leaves.error

theorem triple_pure {α : Type} {pre : World → Prop} {next : α → World → Prop} {a : α}
    (hpre : (protocol parse input args i).Kept pre) (h : ∀ s, pre s → next a s) :
    (protocol parse input args i).Triple pre (pure a : Program α)
      (Leaves parse input args i next) :=
  .done hpre fun s hs => ⟨hpre.keep hs, fun _ ha => Except.ok.inj ha ▸ h s hs⟩

theorem triple_writeChunks {checkedAt : Int} (happly : (args i).apply = true)
    (chunks : List (List (Nat × Recovered))) :
    (protocol parse input args i).Triple (Running parse input args i (chunks.flatten ++ buffer) rest)
      (writeChunks checkedAt chunks)
      (Leaves parse input args i fun _ => Running parse input args i buffer rest) := by
  induction chunks with
  | nil => exact triple_pure (kept_running _ _) fun s hs => hs
  | cons chunk chunks ih =>
    refine triple_bind (.await (kept_running _ _) (kept_leaves fun _ => kept_running _ _)
      fun s o hs _ => ?_) fun _ => triple_bind ih fun _ =>
        triple_pure (kept_running _ _) fun s hs => hs
    rw [List.flatten_cons, List.append_assoc] at hs
    exact hs.update happly

theorem triple_writeBatch (happly : (args i).apply = true) :
    (protocol parse input args i).Triple (Running parse input args i buffer rest)
      (writeBatch buffer)
      (Leaves parse input args i fun _ => Running parse input args i [] rest) := by
  refine triple_bind (Q := fun _ => Running parse input args i buffer rest)
    (.await (kept_running _ _) (kept_leaves fun _ => kept_running _ _) fun s o hs _ =>
      ⟨⟨fun _ _ => rfl, .refl s, fun h => h, .of_tokens rfl⟩, hs.left, fun _ _ => hs⟩)
    fun checkedAt => ?_
  have hwrites := @triple_writeChunks parse input args i [] rest checkedAt happly
    (Chunks.ofSize writeChunk buffer)
  rwa [List.append_nil, Chunks.flatten_ofSize (by decide)] at hwrites

theorem triple_drain :
    (protocol parse input args i).Triple (Running parse input args i buffer rest)
      (drain (args i) buffer)
      (Leaves parse input args i fun a s => Running parse input args i a.1 rest s ∧
        ((args i).apply = true → a.1 = [])) := by
  have hkept (a : List (Nat × Recovered) × Nat) : (protocol parse input args i).Kept fun s =>
      Running parse input args i a.1 rest s ∧ ((args i).apply = true → a.1 = []) :=
    ⟨fun hs hst => ⟨(kept_running _ _).stable hs.1 hst, hs.2⟩, fun hs => hs.1.left⟩
  unfold drain
  split
  · rename_i hskip
    refine triple_pure (kept_running _ _) fun s hs => ⟨hs, fun happly => ?_⟩
    rcases hskip with hdry | hempty
    · exact absurd (happly.symm.trans hdry) (by decide)
    · exact List.length_eq_zero_iff.mp hempty
  · rename_i hskip
    have happly := Bool.eq_true_of_not_eq_false (not_or.mp hskip).1
    exact triple_bind (triple_writeBatch happly) fun _ =>
      triple_pure (kept_running _ _) fun s hs => ⟨hs, fun _ => rfl⟩

theorem triple_fetchAll (batches : List (List Token))
    (hbatches : ∀ batch ∈ batches, batch.length ≤ fetchConcurrency)
    (hbuffer : (args i).apply = true → buffer.length < writeEvery) :
    (protocol parse input args i).Triple (Running parse input args i buffer batches.flatten)
      (fetchAll parse (args i) batches buffer)
      (Leaves parse input args i fun a => Running parse input args i a.1 []) := by
  induction batches generalizing buffer with
  | nil => exact triple_pure (kept_running _ _) fun s hs => hs
  | cons batch batches ih =>
    have hrest := fun b hb => hbatches b (List.mem_cons_of_mem _ hb)
    refine triple_bind (Q := fun settled => Running parse input args i
      (buffer ++ examined parse settled) batches.flatten)
      (.await (kept_running _ _) (kept_leaves fun _ => kept_running _ _) fun s o hs _ => ?_)
      fun settled => ?_
    · obtain ⟨hguar, settled, hanswer, hrunning⟩ :=
        hs.fetch (o := o) (hbatches batch List.mem_cons_self) hbuffer
      exact ⟨hguar, hrunning.left, fun a ha => by
        cases hanswer.symm.trans ha
        exact hrunning⟩
    · dsimp only
      split
      · refine triple_bind triple_drain fun a => ?_
        by_cases hempty : (args i).apply = true → a.1 = []
        · refine triple_bind ((ih hrest fun happly => ?_).imp (fun s hs => hs.1) fun _ _ hs => hs)
            fun _ => triple_pure (kept_running _ _) fun s hs => hs
          rw [hempty happly]
          decide
        · exact fun s hs => absurd hs.2 hempty
      · rename_i hfew
        exact ih hrest fun _ => not_le.mp hfew

theorem triple_findTokens :
    (protocol parse input args i).Triple (Opening parse input i) (findTokens (args i))
      (Leaves parse input args i fun pending => Running parse input args i [] pending) := by
  have hfind : (protocol parse input args i).Triple (Opening parse input i)
      (Async.await (.findPending (args i).limit))
      (Leaves parse input args i fun pending => Running parse input args i [] pending) :=
    .await kept_opening (kept_leaves fun _ => kept_running _ _) fun s o hs _ => hs.find
  unfold findTokens
  split
  · rename_i hboth
    obtain ⟨hretry, happly⟩ := by simpa using hboth
    refine triple_bind (Q := fun _ => Opening parse input i) (.await kept_opening
      (kept_leaves fun _ => kept_opening) fun s o hs _ => ?_) fun _ => hfind
    obtain ⟨hguar, hopening⟩ := hs.reopen (o := o) happly hretry
    exact ⟨hguar, hopening.left, fun _ _ => hopening⟩
  · exact hfind

structure Complete (parse : UrlParser) (input : Nat → List Char) (args : Nat → Args) (i : Nat)
    (s : World) : Prop where
  cut : Over parse input args i s
  all : ((s.runs i).answered ++ (s.runs i).failed).Perm (s.runs i).found
  written : (args i).apply = true → (s.runs i).unwritten = []

theorem Running.complete {s : World} (h : Running parse input args i buffer [] s)
    (hempty : (args i).apply = true → buffer = []) : Complete parse input args i s where
  cut := h.left
  all := by
    have hall := h.all
    rwa [List.append_nil] at hall
  written happly := by
    have hsub := h.unwritten
    rw [hempty happly] at hsub
    exact List.sublist_nil.mp hsub

theorem triple_main :
    (protocol parse input args i).Triple (Opening parse input i) (main parse (args i))
      (Leaves parse input args i fun _ => Complete parse input args i) := by
  refine triple_bind triple_findTokens fun pending => ?_
  split
  · rename_i hnone
    refine triple_pure (kept_running _ _) fun s hs => ?_
    rw [List.length_eq_zero_iff.mp hnone] at hs
    exact hs.complete fun _ => rfl
  · have hfetch := @triple_fetchAll parse input args i [] (Chunks.ofSize fetchConcurrency pending)
      (fun _ => Chunks.length_le_of_mem) fun _ => by decide
    rw [Chunks.flatten_ofSize (by decide)] at hfetch
    refine triple_bind hfetch fun a => triple_bind triple_drain fun b => ?_
    exact triple_pure ⟨fun hs hst => ⟨(kept_running _ _).stable hs.1 hst, hs.2⟩,
      fun hs => hs.1.left⟩ fun s hs => hs.1.complete hs.2

end triples

section system

variable {parse : UrlParser} {input : Nat → List Char} {args : Nat → Args}

def outline (parse : UrlParser) (input : Nat → List Char) (args : Nat → Args) :
    (World.system parse input args).Outline fun _ _ => True where
  protocol i := protocol parse input args i
  idle i := Over parse input args i
  post i := Leaves parse input args i fun _ => Complete parse input args i
  exec _ _ _ _ _ := rfl
  allow _ _ := trivial
  peer hne h := ⟨h.1 _ hne, h.2.1, h.2.2.1⟩
  rest h hst := kept_over.stable h hst
  start {c i} _ _ h := by
    have hsound : Sound parse input (c.world.remember i .fresh) :=
      ⟨h.1.unique, h.1.below, h.1.fair⟩
    refine ⟨triple_main _ ⟨hsound, Function.update_self ..⟩, fun j hj => ?_⟩
    exact ⟨Function.update_of_ne hj .., ⟨le_rfl, (Grows.refl _).rows⟩, fun hs =>
      ⟨hs.unique, hs.below, hs.fair⟩⟩
  finish h := ⟨h.1, fun j _ => (protocol parse input args j).refl _⟩
  env {_ event} _ _ := ⟨by cases event <;> rfl, World.happens_grows event,
    fun hs => World.happens_sound hs event⟩
  crash _ h i := by
    obtain ⟨hnone, hsome⟩ := h i
    exact (em _).elim hnone hsome

def World.start (tokens : List Token) (nextId : Nat) : World where
  tokens
  nextId
  runs _ := .fresh

theorem inv_start {tokens : List Token} {nextId : Nat}
    (h : Sound parse input (.start tokens nextId)) :
    (outline parse input args).Inv (.rest (.start tokens nextId)) :=
  (outline parse input args).inv_rest fun _ => Opening.left ⟨h, rfl⟩

theorem over_run {tokens : List Token} {nextId : Nat}
    (h : Sound parse input (.start tokens nextId)) {ls : List (System.Label Nat Answer World.Event)}
    {c : System.Config Nat Call Unit Nat World}
    (hrun : (World.system parse input args).Run (fun _ _ => True) (.rest (.start tokens nextId)) ls c)
    (i : Nat) : Over parse input args i c.world :=
  (outline parse input args).keep_of_inv (i := i)
    ((outline parse input args).inv_run (inv_start h) hrun) fun _ hs => hs

/-- Beside the indexer and other runs of the script, and wherever they are cut off: an examined row
says what the calldata of its launch says; a step of a run changes no more than the rows it answers
for; a run has lost less than a buffer and a batch; and one that ends has recorded all that were
answered and left the others. -/
theorem backfill_run {tokens : List Token} {nextId : Nat}
    (h : Sound parse input (.start tokens nextId)) {ls : List (System.Label Nat Answer World.Event)}
    {c : System.Config Nat Call Unit Nat World}
    (hrun : (World.system parse input args).Run (fun _ _ => True) (.rest (.start tokens nextId)) ls c) :
    Sound parse input c.world ∧ ∀ i,
      Booked parse input args i c.world ∧
        (∀ n, c.tasks i = some (.done (.ok n)) →
          ((c.world.runs i).answered ++ (c.world.runs i).failed).Perm (c.world.runs i).found ∧
            ((args i).apply = true → (c.world.runs i).unwritten = [])) ∧
        ∀ o c', (World.system parse input args).step c (.call i o) = some c' →
          Changes parse input args i c.world c'.world := by
  have hrest : (outline parse input args).Inv _ := inv_start h
  have hinv := (outline parse input args).inv_run hrest hrun
  have hover := over_run h hrun
  refine ⟨(hover 0).1, fun i => ⟨(hover i).2, fun n hn => ?_, fun o c' hstep => ?_⟩⟩
  · have hcomplete := ((outline parse input args).returned hrest hrun hn).2 n rfl
    exact ⟨hcomplete.all, hcomplete.written⟩
  · exact ((outline parse input args).call_step hinv trivial hstep).1.2.2.2

def unread : Token where
  id := 0
  chainId := robinhoodChainId
  name := ['A']
  symbol := ['B']
  launchTxHash := 9
  launchBlock := 5
  recovered := .blank
  metadataCheckedAt := none

def sampleAnswer : Answer where
  rejected := none
  settled := [(unread, true)]
  now := 7

def sampleRun : List (System.Label Nat Answer World.Event) :=
  [.start 0, .call 0 sampleAnswer, .env (.launched robinhoodChainId ['C'] ['D'] 10 6 none)] ++
    List.replicate 3 (.call 0 sampleAnswer) ++ [.start 1, .call 1 sampleAnswer, .crash]

def sampleArgs : Args where
  apply := true
  retry := false
  limit := 10

theorem backfill_run_sample : ∃ c,
    (World.system (fun _ => none) (fun _ => []) fun _ => sampleArgs).Run (fun _ _ => True)
      (.rest (.start [unread] 1)) sampleRun c ∧
      c.world.tokens.map (fun token => (token.id, token.metadataCheckedAt)) =
        [(0, some 7), (1, none)] ∧
      Sound (fun _ => none) (fun _ => []) c.world := by
  obtain ⟨c, hrun, htest⟩ : ∃ c,
      (World.system (fun _ => none) (fun _ => []) fun _ => sampleArgs).Run (fun _ _ => True)
        (.rest (.start [unread] 1)) sampleRun c ∧
      decide (c.world.tokens.map (fun token => (token.id, token.metadataCheckedAt)) =
        [(0, some 7), (1, none)]) = true :=
    System.Run.exists_of_any (by decide)
  have hstart : Sound (fun _ => none) (fun _ => []) (.start [unread] 1) :=
    ⟨by decide, by decide, fun token htoken => by
      rw [List.mem_singleton.mp htoken]
      exact ⟨fun hchecked => absurd rfl hchecked, .inl rfl⟩⟩
  exact ⟨c, hrun, of_decide_eq_true htest, (backfill_run hstart hrun).1⟩

end system

end Stunks.Scripts.BackfillMetadata
