import Stunks.Indexer.Launches

namespace Stunks.Indexer

open Database Pons

namespace FactoryConfig

variable {H β : Type} (cfg : FactoryConfig H)

def OwnCurve (log : RawLog H) : Prop :=
  ∀ args, cfg.decodePonsLog log = some (.tokenLaunched args) → args.curve = cfg.curveOf args.token

def OwnRows : FactoryCall β → Prop
  | .createTokens rows => ∀ row ∈ rows, row.curveAddress = cfg.curveOf row.address
  | _ => True

def Excused (s : FactoryStore H) (token : Address) : Prop :=
  s.missed = true ∨ cfg.launchExists token = false ∨ s.stored token = true

def Prepared (s : FactoryStore H) (logs : List (RawLog H)) : Prop :=
  ∀ log ∈ logs, ∀ args, cfg.decodePonsLog log = some (.tokenLaunched args) →
    cfg.Excused s args.token

structure Inv (s : FactoryStore H) : Prop where
  recorded : ∀ log ∈ s.scanned, ∀ args, cfg.decodePonsLog log = some (.tokenLaunched args) →
    cfg.launchExists args.token = true → s.stored args.token = true
  curves : ∀ row ∈ s.tokens, row.curveAddress = cfg.curveOf row.address

/-- No row of a launch that was scanned at or below the rollback point is deleted. -/
def keepsScanned (s : FactoryStore H) (blockNumber : Nat) : Bool :=
  s.tokens.all fun row => row.launchBlock ≤ blockNumber ||
    s.scanned.all fun log => blockNumber < log.blockNumber ||
      match cfg.decodePonsLog log with
      | some (.tokenLaunched args) => args.token ≠ row.address
      | _ => true

/-- The checkpoint does not pass a launch that was missed, and no rollback deletes one at or below
it. -/
def CallOk (call : Call H FactoryCall β) (s : FactoryStore H) : Bool :=
  match call with
  | .updateState _ (.advance _ _) => !s.missed
  | .ext (.deleteTokensAbove blockNumber) => cfg.keepsScanned s blockNumber
  | _ => true

def holds (p : Phase H) (w : World H (FactoryStore H)) : Prop :=
  cfg.Inv w.base ∧ match p with
  | .fetched _ batch => w.base.window = batch.logs ∧ ∀ log ∈ batch.logs, cfg.OwnCurve log
  | .hashed _ batch _ => w.base.window = batch.logs ∧ ∀ log ∈ batch.logs, cfg.OwnCurve log
  | .processed _ batch _ => w.base.window = batch.logs ∧ cfg.Prepared w.base batch.logs
  | _ => True

def protocol : Protocol (Call H FactoryCall) Failure (Answers (FactoryReply H))
    (World H (FactoryStore H)) where
  exec := cfg.exec
  allow call o w := cfg.CallOk call w.base = true ∧ ∀ log ∈ o.ext.batch.logs, cfg.OwnCurve log
  rely := (· = ·)
  guar _ _ := True
  keep w := cfg.Inv w.base
  refl _ := rfl
  trans := .trans

structure Grows (s s' : FactoryStore H) : Prop where
  window : s'.window = s.window
  scanned : s'.scanned = s.scanned
  stored : ∀ token, s.stored token = true → s'.stored token = true
  missed : s.missed = true → s'.missed = true

def Steady (A : FactoryStore H → Prop) : Prop := ∀ {s s'}, Grows s s' → A s → A s'

variable {cfg} {s s' : FactoryStore H} {w : World H (FactoryStore H)}
  {o : Answers (FactoryReply H)} {call : FactoryCall β} {answer : Except Failure β} {token : Address}
  {A : FactoryStore H → Prop}

theorem Grows.refl (s : FactoryStore H) : Grows s s := ⟨rfl, rfl, fun _ h => h, fun h => h⟩

theorem Grows.trans {s'' : FactoryStore H} (h : Grows s s') (h' : Grows s' s'') : Grows s s'' :=
  ⟨h'.window.trans h.window, h'.scanned.trans h.scanned, fun t ht => h'.stored t (h.stored t ht),
    fun hm => h'.missed (h.missed hm)⟩

theorem Steady.excused (token : Address) : Steady fun s => cfg.Excused s token :=
  fun hgrows => .imp hgrows.missed (.imp_right (hgrows.stored token))

theorem stored_iff : s.stored token = true ↔ ∃ row ∈ s.tokens, row.address = token := by
  simp [FactoryStore.stored]

theorem miss_grows (s : FactoryStore H) : Grows s (cfg.miss s) := by
  unfold miss
  split
  · exact ⟨rfl, rfl, fun _ h => h, fun _ => rfl⟩
  · exact .refl s

theorem miss_tokens (s : FactoryStore H) : (cfg.miss s).tokens = s.tokens := by
  unfold miss
  split <;> rfl

theorem miss_preparing (s : FactoryStore H) : (cfg.miss s).preparing = s.preparing := by
  unfold miss
  split <;> rfl

theorem miss_excused (h : s.preparing = some token) : cfg.Excused (cfg.miss s) token := by
  unfold miss
  split
  · exact .inl rfl
  · rename_i hmissed
    refine .inr ?_
    cases hexists : cfg.launchExists token with
    | false => exact .inl rfl
    | true => exact .inr (by simpa [h, hexists] using hmissed)

theorem prepare_grows (s : FactoryStore H) (call : FactoryCall β) : Grows s (s.prepare call) := by
  cases call <;> exact ⟨rfl, rfl, fun _ h => h, fun h => h⟩

theorem prepare_tokens (s : FactoryStore H) (call : FactoryCall β) :
    (s.prepare call).tokens = s.tokens := by
  cases call <;> rfl

theorem unscan_eq (h : call.deletes = false) : s.unscan call = s := by
  cases call <;> first | rfl | cases h

theorem noteOwn_eq (h : call.deletes = false) (applied : Bool) :
    cfg.noteOwn s applied call answer =
      if call.givesUp answer then cfg.miss (s.prepare call) else s.prepare call := by
  simp only [noteOwn, unscan_eq h, ite_self]

theorem noteOwn_grows (h : call.deletes = false) (applied : Bool) :
    Grows s (cfg.noteOwn s applied call answer) := by
  rw [noteOwn_eq h]
  split
  · exact (prepare_grows s call).trans (miss_grows _)
  · exact prepare_grows s call

theorem noteOwn_tokens (h : call.deletes = false) (applied : Bool) :
    (cfg.noteOwn s applied call answer).tokens = s.tokens := by
  rw [noteOwn_eq h]
  split
  · rw [miss_tokens, prepare_tokens]
  · exact prepare_tokens s call

theorem noteOwn_reading (h : call.deletes = false) (applied : Bool)
    (hprepare : (s.prepare call).preparing = some token) :
    (cfg.noteOwn s applied call answer).preparing = some token ∧
      (call.givesUp answer = true → cfg.Excused (cfg.noteOwn s applied call answer) token) := by
  rw [noteOwn_eq h]
  split
  · exact ⟨(miss_preparing _).trans hprepare, fun _ => miss_excused hprepare⟩
  · rename_i hgives
    exact ⟨hprepare, fun h => absurd h hgives⟩

theorem exec_own_ok (h : o.fault = none) : cfg.exec (.ext call) o w =
    ((backend.ext call o w.base).1, { w with
      base := cfg.noteOwn (backend.ext call o w.base).2 true call
        (backend.ext call o w.base).1 }) := by
  simp [exec, Backend.exec_ok _ h, Backend.perform, note, Answers.applied, h]

theorem exec_own_fault {fault : Fault} (h : o.fault = some fault) : cfg.exec (.ext call) o w =
    (.error fault.failure, { w with
      base := cfg.noteOwn (if fault.applied then (backend.ext call o w.base).2 else w.base)
        fault.applied call (.error fault.failure) }) := by
  cases happlied : fault.applied <;>
    simp [exec, Backend.exec_fault _ h, Backend.perform, note, Answers.applied, h, happlied]

theorem insertToken_stored {row : Token} (hinj : Function.Injective cfg.curveOf)
    {tokens : List Token} (hrow : row.curveAddress = cfg.curveOf row.address)
    (htokens : ∀ row ∈ tokens, row.curveAddress = cfg.curveOf row.address) :
    ∃ r ∈ insertToken tokens row, r.address = row.address := by
  unfold insertToken
  split
  · rename_i h
    obtain ⟨r, hr, hconflict⟩ := List.any_eq_true.mp h
    refine ⟨r, hr, ?_⟩
    simp only [Token.conflicts, Bool.or_eq_true, decide_eq_true_eq] at hconflict
    refine hconflict.elim id fun hcurve => hinj ?_
    rw [← htokens r hr, hcurve, hrow]
  · exact ⟨row, by simp, rfl⟩

theorem mem_insertToken {tokens : List Token} {row r : Token} (h : r ∈ insertToken tokens row) :
    r ∈ tokens ∨ r = row := by
  unfold insertToken at h
  split at h
  · exact .inl h
  · simpa using h

theorem mem_insertToken_of_mem {tokens : List Token} {row r : Token} (h : r ∈ tokens) :
    r ∈ insertToken tokens row := by
  unfold insertToken
  split
  · exact h
  · exact List.mem_append_left _ h

theorem mem_insertTokens_of_mem {tokens rows : List Token} {r : Token} (h : r ∈ tokens) :
    r ∈ rows.foldl insertToken tokens := by
  induction rows generalizing tokens with
  | nil => exact h
  | cons row rows ih => exact ih (mem_insertToken_of_mem h)

theorem insertTokens_curves {tokens rows : List Token}
    (hrows : ∀ row ∈ rows, row.curveAddress = cfg.curveOf row.address)
    (htokens : ∀ row ∈ tokens, row.curveAddress = cfg.curveOf row.address) :
    ∀ row ∈ rows.foldl insertToken tokens, row.curveAddress = cfg.curveOf row.address := by
  induction rows generalizing tokens with
  | nil => exact htokens
  | cons row rows ih =>
    refine ih (fun r hr => hrows r (List.mem_cons_of_mem _ hr)) fun r hr => ?_
    cases mem_insertToken hr with
    | inl hmem => exact htokens r hmem
    | inr heq => exact heq ▸ hrows row List.mem_cons_self

theorem insertTokens_stored (hinj : Function.Injective cfg.curveOf) {tokens rows : List Token}
    (hrows : ∀ row ∈ rows, row.curveAddress = cfg.curveOf row.address)
    (htokens : ∀ row ∈ tokens, row.curveAddress = cfg.curveOf row.address) :
    ∀ row ∈ rows, ∃ r ∈ rows.foldl insertToken tokens, r.address = row.address := by
  induction rows generalizing tokens with
  | nil => exact fun _ h => nomatch h
  | cons row rows ih =>
    have hrow := hrows row List.mem_cons_self
    have hrest : ∀ r ∈ rows, r.curveAddress = cfg.curveOf r.address :=
      fun r hr => hrows r (List.mem_cons_of_mem _ hr)
    have hinsert : ∀ r ∈ [row].foldl insertToken tokens, r.curveAddress = cfg.curveOf r.address :=
      insertTokens_curves (by simpa using hrow) htokens
    intro x hx
    rcases List.mem_cons.mp hx with rfl | hx
    · obtain ⟨r, hr, haddress⟩ := insertToken_stored hinj hrow htokens
      have hmem : r ∈ rows.foldl insertToken (insertToken tokens x) := mem_insertTokens_of_mem hr
      exact ⟨r, hmem, haddress⟩
    · exact ih hrest hinsert x hx

theorem ext_grows (hcall : call.deletes = false) : Grows s (backend.ext call o s).2 := by
  cases call with
  | deleteTokensAbove _ => cases hcall
  | createTokens rows =>
    refine ⟨rfl, rfl, fun token h => ?_, fun h => h⟩
    obtain ⟨row, hrow, haddress⟩ := stored_iff.mp h
    exact stored_iff.mpr ⟨row, mem_insertTokens_of_mem hrow, haddress⟩
  | createCreators _ => exact ⟨rfl, rfl, fun _ h => h, fun h => h⟩
  | setPhase address phase =>
    simp only [backend]
    split
    · refine ⟨rfl, rfl, fun token h => ?_, fun h => h⟩
      obtain ⟨row, hrow, haddress⟩ := stored_iff.mp h
      refine stored_iff.mpr ⟨_, List.mem_map_of_mem hrow, ?_⟩
      split <;> exact haddress
    · exact .refl s
  | _ => exact .refl s

theorem ext_curves (hcall : call.deletes = false) (hrows : cfg.OwnRows call)
    (h : ∀ row ∈ s.tokens, row.curveAddress = cfg.curveOf row.address) :
    ∀ row ∈ (backend.ext call o s).2.tokens, row.curveAddress = cfg.curveOf row.address := by
  cases call with
  | deleteTokensAbove _ => cases hcall
  | createTokens rows => exact insertTokens_curves hrows h
  | setPhase address phase =>
    simp only [backend]
    split
    · intro row hmap
      obtain ⟨row, hrow, rfl⟩ := List.mem_map.mp hmap
      split <;> exact h row hrow
    · exact h
  | _ => exact h

theorem Inv.grows (h : cfg.Inv s) (hgrows : Grows s s')
    (hcurves : ∀ row ∈ s'.tokens, row.curveAddress = cfg.curveOf row.address) : cfg.Inv s' where
  recorded := by
    rw [hgrows.scanned]
    exact fun log hlog args hargs hexists =>
      hgrows.stored _ (h.recorded log hlog args hargs hexists)
  curves := hcurves

theorem exec_own (hcall : call.deletes = false) (hrows : cfg.OwnRows call) (h : cfg.Inv w.base) :
    Grows w.base (cfg.exec (.ext call) o w).2.base ∧ cfg.Inv (cfg.exec (.ext call) o w).2.base := by
  obtain ⟨s, applied, hgrows, hcurves, heq⟩ : ∃ s applied, Grows w.base s ∧
      (∀ row ∈ s.tokens, row.curveAddress = cfg.curveOf row.address) ∧
      (cfg.exec (.ext call) o w).2.base =
        cfg.noteOwn s applied call (cfg.exec (.ext call) o w).1 := by
    cases hfault : o.fault with
    | none =>
      rw [exec_own_ok hfault]
      exact ⟨_, true, ext_grows hcall, ext_curves hcall hrows h.curves, rfl⟩
    | some fault =>
      rw [exec_own_fault hfault]
      cases fault.applied with
      | false => exact ⟨_, false, .refl _, h.curves, rfl⟩
      | true => exact ⟨_, true, ext_grows hcall, ext_curves hcall hrows h.curves, rfl⟩
  rw [heq]
  have hnote : Grows w.base (cfg.noteOwn s applied call (cfg.exec (.ext call) o w).1) :=
    hgrows.trans (noteOwn_grows hcall applied)
  refine ⟨hnote, h.grows hnote ?_⟩
  rw [noteOwn_tokens hcall]
  exact hcurves

def With (cfg : FactoryConfig H) (A : FactoryStore H → Prop) (w : World H (FactoryStore H)) :
    Prop :=
  cfg.Inv w.base ∧ A w.base

theorem With.kept : cfg.protocol.Kept (cfg.With A) where
  stable := fun h heq => heq ▸ h
  keep := And.left

theorem own {B : Except Failure β → FactoryStore H → Prop} (hcall : call.deletes = false)
    (hrows : cfg.OwnRows call)
    (h : ∀ w o, cfg.With A w → Grows w.base (cfg.exec (.ext call) o w).2.base →
      B (cfg.exec (.ext call) o w).1 (cfg.exec (.ext call) o w).2.base) :
    cfg.protocol.Triple (cfg.With A) call.await fun r => cfg.With (B r) := by
  refine .await With.kept (fun _ => With.kept) fun w o hw _ => ⟨trivial, ?_⟩
  obtain ⟨hgrows, hinv⟩ := exec_own (o := o) hcall hrows hw.1
  exact ⟨hinv, h w o hw hgrows⟩

theorem own_steady (hA : Steady A) (hcall : call.deletes = false) (hrows : cfg.OwnRows call) :
    cfg.protocol.Triple (cfg.With A) call.await fun _ => cfg.With A :=
  own hcall hrows fun _ _ hw hgrows => hA hgrows hw.2

theorem ext_read (h : call.isRead = true) : (backend.ext call o s).2 = s := by
  cases call <;> first | rfl | cases h

theorem deletes_of_read (h : call.isRead = true) : call.deletes = false := by
  cases call <;> first | rfl | cases h

theorem ownRows_of_read (h : call.isRead = true) : cfg.OwnRows call := by
  cases call with
  | createTokens _ => cases h
  | _ => trivial

theorem exec_read (h : call.isRead = true) : ∃ applied, (cfg.exec (.ext call) o w).2.base =
    cfg.noteOwn w.base applied call (cfg.exec (.ext call) o w).1 := by
  cases hfault : o.fault with
  | none =>
    rw [exec_own_ok hfault, ext_read h]
    exact ⟨true, rfl⟩
  | some fault =>
    rw [exec_own_fault hfault, ext_read h, ite_self]
    exact ⟨fault.applied, rfl⟩

variable {args : TokenLaunched} {raw : RawLog H}

def Reading (A : FactoryStore H → Prop) (token : Address) (s : FactoryStore H) : Prop :=
  A s ∧ s.preparing = some token

theorem read_triple {P : FactoryStore H → Prop} (h : call.isRead = true) (hA : Steady A)
    (hP : ∀ s, P s → A s ∧ (s.prepare call).preparing = some token) :
    cfg.protocol.Triple (cfg.With P) call.await fun r => cfg.With fun s =>
      Reading A token s ∧ (call.givesUp r = true → cfg.Excused s token) := by
  refine own (deletes_of_read h) (ownRows_of_read h) fun w o hw hgrows => ?_
  obtain ⟨hholds, hprepare⟩ := hP w.base hw.2
  obtain ⟨applied, heq⟩ : ∃ applied, (cfg.exec (.ext call) o w).2.base =
    cfg.noteOwn w.base applied call (cfg.exec (.ext call) o w).1 := exec_read h
  have hholds := hA hgrows hholds
  rw [heq] at hholds ⊢
  obtain ⟨hpreparing, hexcused⟩ := noteOwn_reading (deletes_of_read h) applied hprepare
  exact ⟨⟨hholds, hpreparing⟩, hexcused⟩

theorem describeLaunch_ok {launch : LaunchedToken GraduationPhase} {metadata : TokenMetadata}
    {curveState : CurveState} {decimals : Nat} {input : LaunchRecordInput}
    (h : describeLaunch args raw launch metadata curveState decimals = .ok input) :
    input.address = args.token ∧ input.curveAddress = args.curve := by
  obtain ⟨_, -, h⟩ := bind_eq_ok.mp h
  obtain ⟨_, -, h⟩ := bind_eq_ok.mp h
  obtain ⟨_, -, h⟩ := bind_eq_ok.mp h
  cases h
  exact ⟨rfl, rfl⟩

theorem degenerate_of_error {launch : LaunchedToken GraduationPhase} {metadata : TokenMetadata}
    {curveState : CurveState} {decimals : Nat} {error : JsError}
    (h : describeLaunch args raw launch metadata curveState decimals = .error error) :
    curveState.phantomQuote + curveState.graduationThreshold = 0 := by
  by_contra hne
  obtain ⟨price, hprice⟩ :=
    priceFromReserves_ok curveState.pricingQuoteReserve curveState.tokenReserve
  obtain ⟨marketCap, hmarketCap⟩ := marketCapFromPrice_ok price metadata.totalSupply
  simp only [describeLaunch, computeReservedTokens, if_neg hne, mulDiv_ne_zero _ _ hne, ok_bind,
    hprice, hmarketCap] at h
  cases h

def Answered (cfg : FactoryConfig H) (s : FactoryStore H) (args : TokenLaunched) :
    Option LaunchRecordInput → Prop
  | some input => input.address = args.token ∧ input.curveAddress = args.curve
  | none => cfg.Excused s args.token

theorem Answered.grows {input : Option LaunchRecordInput} (hgrows : Grows s s')
    (h : cfg.Answered s args input) : cfg.Answered s' args input := by
  cases input with
  | some _ => exact h
  | none => exact Steady.excused _ hgrows h

def Described (cfg : FactoryConfig H) (A : FactoryStore H → Prop) (args : TokenLaunched) :
    Except Failure (Option LaunchRecordInput) → FactoryStore H → Prop
  | .ok input, s => A s ∧ cfg.Answered s args input
  | .error _, s => A s ∧ cfg.Excused s args.token

theorem read_bind {α : Type} {f : β → FactoryProgram H α} {P : FactoryStore H → Prop}
    {post : Except Failure α → World H (FactoryStore H) → Prop} (h : call.isRead = true)
    (hA : Steady A) (hP : ∀ s, P s → A s ∧ (s.prepare call).preparing = some token)
    (hf : ∀ a, cfg.protocol.Triple (cfg.With fun s => Reading A token s ∧
      (call.givesUp (.ok a) = true → cfg.Excused s token)) (f a) post)
    (he : ∀ e w, cfg.With (fun s => A s ∧ (call.givesUp (.error e) = true → cfg.Excused s token)) w →
      post (.error e) w) :
    cfg.protocol.Triple (cfg.With P) (call.await >>= f) post :=
  .bind (read_triple h hA hP) hf
    fun e w hw => he e w ⟨hw.1, hw.2.1.1, hw.2.2⟩

theorem optional_triple (h : call.isRead = true)
    (hprepare : ∀ s : FactoryStore H, s.prepare call = s)
    (hA : Steady A) :
    cfg.protocol.Triple (cfg.With (Reading A token)) (Async.attempt call.await)
      fun r w => cfg.With (Reading A token) w ∧ r.isOk = true :=
  .attempt ((read_triple h hA fun s hs => by rwa [hprepare]).imp (fun _ hs => hs)
    fun _ _ hs => ⟨⟨hs.1, hs.2.1⟩, rfl⟩)

theorem returns {α : Type} {a : α} :
    cfg.protocol.Triple (cfg.With A) (.done (.ok a)) fun r w => cfg.With A w ∧ r.isOk = true :=
  .done With.kept fun _ hs => ⟨hs, rfl⟩

theorem readPairTokenDecimals_triple (hA : Steady A) {pairToken : Address} :
    cfg.protocol.Triple (cfg.With (Reading A token)) (readPairTokenDecimals pairToken)
      fun r w => cfg.With (Reading A token) w ∧ r.isOk = true := by
  unfold readPairTokenDecimals
  split
  · exact returns
  · refine .bind (optional_triple rfl (fun _ => rfl) hA) (fun decimals => ?_) fun _ _ hs => hs
    cases decimals <;> exact returns.imp (fun _ hs => hs.1) fun _ _ hs => hs

theorem readLaunchCalldata_triple (hA : Steady A) {transactionHash : Hex} :
    cfg.protocol.Triple (cfg.With (Reading A token)) (readLaunchCalldata transactionHash)
      fun r w => cfg.With (Reading A token) w ∧ r.isOk = true := by
  refine .bind (optional_triple rfl (fun _ => rfl) hA) (fun input => ?_) fun _ _ hs => hs
  cases input <;> exact returns.imp (fun _ hs => hs.1) fun _ _ hs => hs

def Launched (cfg : FactoryConfig H) (A : FactoryStore H → Prop) (token : Address) :
    Except Failure (LaunchedToken GraduationPhase) → FactoryStore H → Prop
  | .ok launch, s => Reading A token s ∧ (launch.exists_ = false → cfg.Excused s token)
  | .error _, s => A s ∧ cfg.Excused s token

theorem readLaunchedToken_triple (hA : Steady A) :
    cfg.protocol.Triple (cfg.With A) (readLaunchedToken token)
      fun r => cfg.With (Launched cfg A token r) := by
  refine .bind (read_triple rfl hA fun _ hs => ⟨hs, rfl⟩) (fun launched => ?_)
    fun _ _ hs => ⟨hs.1, hs.2.1.1, hs.2.2 rfl⟩
  cases hphase : parseGraduationPhase launched.phase with
  | some phase =>
    exact .done With.kept fun _ hs => ⟨hs.1, hs.2.1, fun hexists =>
      hs.2.2 (by simp [FactoryCall.givesUp, show launched.exists_ = false from hexists])⟩
  | none =>
    exact .done With.kept fun _ hs =>
      ⟨hs.1, hs.2.1.1, hs.2.2 (by simp [FactoryCall.givesUp, hphase])⟩

theorem described_triple {launch : LaunchedToken GraduationPhase} {metadata : TokenMetadata}
    {curveState : CurveState} {decimals : Nat} :
    cfg.protocol.Triple (cfg.With fun s => A s ∧
        (curveState.phantomQuote + curveState.graduationThreshold = 0 → cfg.Excused s args.token))
      (do
        let input ← fromJs (describeLaunch args raw launch metadata curveState decimals)
        return some input)
      fun r => cfg.With (Described cfg A args r) := by
  cases hinput : describeLaunch args raw launch metadata curveState decimals with
  | ok input => exact .done With.kept fun _ hs => ⟨hs.1, hs.2.1, describeLaunch_ok hinput⟩
  | error _ =>
    exact .done With.kept fun _ hs => ⟨hs.1, hs.2.1, hs.2.2 (degenerate_of_error hinput)⟩

theorem readLaunch_triple (hA : Steady A) :
    cfg.protocol.Triple (cfg.With A) (readLaunch args raw)
      fun r => cfg.With (Described cfg A args r) := by
  refine .bind (readLaunchedToken_triple hA) (fun launch => ?_) fun _ _ hs => hs
  split
  · rename_i hexists
    exact .done With.kept fun _ hs => ⟨hs.1, hs.2.1.1, hs.2.2 hexists⟩
  refine read_bind rfl hA (fun _ hs => hs.1) (fun metadata => ?_) fun _ _ hs =>
    ⟨hs.1, hs.2.1, hs.2.2 rfl⟩
  refine read_bind rfl hA (fun _ hs => hs.1) (fun curveState => ?_)
    fun _ _ hs => ⟨hs.1, hs.2.1, hs.2.2 rfl⟩
  -- From here on, degenerate economics have an excuse.
  have hdegenerate : Steady fun s => A s ∧
      (curveState.phantomQuote + curveState.graduationThreshold = 0 → cfg.Excused s args.token) :=
    fun hgrows h => ⟨hA hgrows h.1, fun heq => Steady.excused _ hgrows (h.2 heq)⟩
  refine .imp (P := cfg.With (Reading (fun s => A s ∧
    (curveState.phantomQuote + curveState.graduationThreshold = 0 → cfg.Excused s args.token))
    args.token)) ?_ (fun _ hs => ⟨hs.1, ⟨hs.2.1.1, fun heq => hs.2.2 (decide_eq_true heq)⟩, hs.2.1.2⟩)
    fun _ _ hs => hs
  refine .bind (readPairTokenDecimals_triple hdegenerate) (fun decimals => ?_)
    fun _ _ hs => absurd hs.2 Bool.false_ne_true
  refine .imp (read_bind rfl hdegenerate (fun _ hs => hs) (fun _ => ?_)
    fun _ _ hs => ⟨hs.1, hs.2.1.1, hs.2.2 rfl⟩) (fun _ hs => hs.1) fun _ _ hs => hs
  refine .imp (.bind (readLaunchCalldata_triple hdegenerate) (fun _ => ?_)
    fun _ _ hs => absurd hs.2 Bool.false_ne_true) (fun _ hs => ⟨hs.1, hs.2.1⟩) fun _ _ hs => hs
  exact described_triple.imp (fun _ hs => ⟨hs.1.1, hs.1.2.1⟩) fun _ _ hs => hs

theorem prepareLaunch_triple (hA : Steady A) :
    cfg.protocol.Triple (cfg.With A) (prepareLaunch args raw) fun r => cfg.With fun s =>
      A s ∧ ∃ input, r = .ok input ∧ cfg.Answered s args input := by
  refine .bind (.attempt (Q := fun r w => ∃ prepared, r = .ok prepared ∧
    cfg.With (Described cfg A args prepared) w) ((readLaunch_triple hA).imp (fun _ hs => hs)
      fun r _ hs => ⟨r, rfl, hs⟩)) (fun prepared => ?_) fun _ _ ⟨_, heq, _⟩ => nomatch heq
  refine .imp (P := cfg.With (Described cfg A args prepared)) ?_
    (fun _ ⟨_, heq, hs⟩ => Except.ok.inj heq ▸ hs) fun _ _ hs => hs
  cases prepared with
  | ok input => exact .done With.kept fun _ hs => ⟨hs.1, hs.2.1, input, rfl, hs.2.2⟩
  | error _ => exact .done With.kept fun _ hs => ⟨hs.1, hs.2.1, none, rfl, hs.2.2⟩

theorem prepareLaunches_triple (hA : Steady A) {entries : List (TokenLaunched × RawLog H)} :
    cfg.protocol.Triple (cfg.With A) (prepareLaunches entries) fun r => cfg.With fun s =>
      A s ∧ ∃ prepared, r = .ok prepared ∧
        List.Forall₂ (fun entry input => cfg.Answered s entry.1 input) entries prepared := by
  induction entries generalizing A with
  | nil => exact .done With.kept fun _ hs => ⟨hs.1, hs.2, [], rfl, .nil⟩
  | cons entry entries ih =>
    refine .bind (prepareLaunch_triple hA) (fun input => ?_) fun _ _ ⟨_, _, _, heq, _⟩ =>
      nomatch heq
    have hA' : Steady fun s => A s ∧ cfg.Answered s entry.1 input :=
      fun hgrows h => ⟨hA hgrows h.1, h.2.grows hgrows⟩
    refine .imp (.bind (ih hA') (fun inputs => ?_) fun _ _ ⟨_, _, _, heq, _⟩ => nomatch heq)
      (fun _ ⟨hinv, hs, _, heq, hanswered⟩ => ⟨hinv, hs, Except.ok.inj heq ▸ hanswered⟩)
      fun _ _ hs => hs
    exact .done With.kept fun _ ⟨hinv, ⟨hs, hinput⟩, _, heq, hinputs⟩ =>
      ⟨hinv, hs, _, rfl, .cons hinput (Except.ok.inj heq ▸ hinputs)⟩

end FactoryConfig

end Stunks.Indexer
