import Stunks.Indexer.TradeBooks

namespace Stunks.Indexer

open Database Pons

variable {H α β : Type}

section programs

variable {decodePonsLog : RawLog H → Option PonsEvent} {deps : CurveProcessorDeps}
  {tokens : List TradedToken} {logs : List (RawLog H)}

def Call.isAdd : Call H (CurveCall H) β → Prop
  | .ext call => call.isDelete = false
  | _ => False

theorem await_only {call : CurveCall H α} (h : call.isDelete = false) :
    call.await.Only Call.isAdd :=
  ⟨h, fun _ => trivial⟩

theorem throwing_only {x : Except JsError α} : (throwing x : CurveProgram H α).Only Call.isAdd := by
  cases x <;> trivial

theorem collectTrades_only :
    (collectTrades decodePonsLog deps tokens logs).Only Call.isAdd := by
  induction logs with
  | nil => trivial
  | cons raw logs ih =>
    unfold collectTrades
    split
    · exact ih
    · split
      · refine .bind ih fun pending => ?_
        split <;> trivial
      · split
        · exact ih
        · split
          · exact .bind ih fun _ => trivial
          · refine .bind throwing_only fun _ => .bind throwing_only fun _ => ?_
            exact .bind (await_only rfl) fun _ => .bind ih fun _ => trivial

theorem readStates_only {ids : List (Address × Option TradedToken)} :
    (readStates ids : CurveProgram H _).Only Call.isAdd := by
  induction ids with
  | nil => trivial
  | cons entry rest ih =>
    obtain ⟨id, token⟩ := entry
    cases token with
    | none => exact .bind ih fun _ => trivial
    | some token => exact .bind (.attempt (await_only rfl)) fun _ => .bind ih fun _ => trivial

theorem refreshTokenStatsBatch_only {ids : List Address} :
    (refreshTokenStatsBatch deps ids : CurveProgram H Unit).Only Call.isAdd := by
  unfold refreshTokenStatsBatch
  split
  · trivial
  · refine .bind (await_only rfl) fun _ => .bind (await_only rfl) fun _ => ?_
    refine .bind (await_only rfl) fun _ => .bind (await_only rfl) fun _ => ?_
    refine .bind readStates_only fun _ => .bind throwing_only fun _ => ?_
    exact .bind (await_only rfl) fun _ => trivial

theorem readPhase_only {token : Address} :
    (readPhase token : CurveProgram H Unit).Only Call.isAdd := by
  refine .bind (await_only rfl) fun launch => ?_
  split
  · trivial
  · split
    · trivial
    · exact await_only rfl

theorem syncPhasesFromChain_only {ids : List Address} :
    (syncPhasesFromChain ids : CurveProgram H Unit).Only Call.isAdd := by
  induction ids with
  | nil => trivial
  | cons token rest ih => exact .bind (.bind (.attempt readPhase_only) fun _ => trivial) fun _ => ih

theorem collectTrades_yields : (collectTrades decodePonsLog deps tokens logs).Yields fun pending =>
    ∀ raw ∈ logs, ((decodePonsLog raw).bind tradeArgs).isSome = true →
      (tokenByCurve tokens raw.address).isSome = true →
        raw.key ∈ pending.trades.map CurveTrade.key := by
  induction logs with
  | nil => exact fun _ hraw => by cases hraw
  | cons log logs ih =>
    unfold collectTrades
    split
    · rename_i hdecode
      refine ih.imp fun pending hpending raw hraw htrade => ?_
      rcases List.mem_cons.mp hraw with rfl | hraw
      · simp [hdecode] at htrade
      · exact hpending raw hraw htrade
    · rename_i event hdecode
      split
      · rename_i hphase
        refine .bind ih fun pending hpending => ?_
        have hall : ∀ raw ∈ log :: logs, ((decodePonsLog raw).bind tradeArgs).isSome = true →
            (tokenByCurve tokens raw.address).isSome = true →
              raw.key ∈ pending.trades.map CurveTrade.key := by
          intro raw hraw htrade
          rcases List.mem_cons.mp hraw with rfl | hraw
          · simp [hdecode, tradeArgs_of_changesPhase hphase] at htrade
          · exact hpending raw hraw htrade
        split
        · exact hall
        · exact hall
      · split
        · rename_i hargs
          refine ih.imp fun pending hpending raw hraw htrade => ?_
          rcases List.mem_cons.mp hraw with rfl | hraw
          · simp [hdecode, hargs] at htrade
          · exact hpending raw hraw htrade
        · split
          · rename_i htoken
            refine .bind ih fun pending hpending raw hraw htrade hfound => ?_
            rcases List.mem_cons.mp hraw with rfl | hraw
            · simp [htoken] at hfound
            · exact hpending raw hraw htrade hfound
          · rename_i token htoken
            have htrue {x : Except JsError Int} :
                (throwing x : CurveProgram H Int).Yields fun _ => True := by
              cases x <;> trivial
            refine .bind htrue fun price _ => .bind htrue fun marketCap _ => ?_
            refine .await_bind fun timestamp =>
              .bind ih fun pending hpending raw hraw htrade hfound => ?_
            rcases List.mem_cons.mp hraw with rfl | hraw
            · exact List.mem_cons_self
            · exact List.mem_cons_of_mem _ (hpending raw hraw htrade hfound)

end programs

def IndexRows.Lasts (Q : IndexRows H → Prop) : Prop := ∀ s t, IndexRows.Grows s t → Q s → Q t

namespace TradeConfig

variable [DecidableEq H] (cfg : TradeConfig H)

def protocol : Protocol (Call H (IndexCall H)) Failure (Answers IndexReply) (IndexWorld H) where
  exec := cfg.indexBackend.exec
  allow _ _ _ := True
  rely v w := cfg.Inv v → cfg.Gives v w
  guar := cfg.Gives
  keep := cfg.Inv
  refl w _ := .refl w
  trans h h' hv := (h hv).trans (h' ((h hv).inv hv))

def Held (Q : IndexRows H → Prop) (w : IndexWorld H) : Prop := cfg.Inv w ∧ Q w.base

def Returns (Q : IndexRows H → Prop) (post : α → IndexRows H → Prop) (r : Except Failure α)
    (w : IndexWorld H) : Prop :=
  cfg.Held Q w ∧ ∀ a, r = .ok a → post a w.base

def Stored (lo hi : Nat) (s : IndexRows H) : Prop :=
  ∀ raw, cfg.Due lo hi raw → raw.key ∈ s.trades.map CurveTrade.key

section windows

variable {cfg} {Q : IndexRows H → Prop} {w : IndexWorld H} {lo hi : Nat} {logs : List (RawLog H)}
  {v : IndexWorld H}

theorem Held.gives (hQ : IndexRows.Lasts Q) (h : cfg.Held Q v) (hgives : cfg.Gives v w) :
    cfg.Held Q w :=
  ⟨hgives.inv h.1, hQ _ _ hgives.grows h.2⟩

theorem kept (hQ : IndexRows.Lasts Q) : cfg.protocol.Kept (cfg.Held Q) where
  stable h hgives := h.gives hQ (hgives h.1)
  keep h := h.1

theorem kept_returns {post : α → IndexRows H → Prop} (hQ : IndexRows.Lasts Q)
    (hpost : ∀ a, IndexRows.Lasts (post a)) (r : Except Failure α) :
    cfg.protocol.Kept (cfg.Returns Q post r) where
  stable h hgives :=
    ⟨h.1.gives hQ (hgives h.1.1), fun a ha => hpost a _ _ (hgives h.1.1).grows (h.2 a ha)⟩
  keep h := h.1.1

omit [DecidableEq H] in
theorem stored_lasts : IndexRows.Lasts (cfg.Stored lo hi) :=
  fun _ _ hgrows h raw hraw => hgrows.trades (h raw hraw)

theorem adds_triple {p : CurveProgram H α} (hp : p.Only Call.isAdd) (hQ : IndexRows.Lasts Q) :
    (cfg.protocol.through Call.ofCurve).Triple (cfg.Held Q) p fun _ => cfg.Held Q := by
  refine .only (kept hQ).through hp fun c w o hadd hw _ => ?_
  cases c with
  | ext call =>
    have hgives : cfg.Gives w (cfg.indexBackend.exec (.ext (.inr call)) o w).2 := gives_curve hadd
    exact ⟨hgives, hw.gives hQ hgives⟩
  | _ => exact hadd.elim

theorem findManyByCurves_triple (hQ : IndexRows.Lasts Q) (hlisted : ∀ s, Q s → cfg.Listed hi s)
    (hlogs : ∀ raw, cfg.Due lo hi raw → raw ∈ logs) :
    (cfg.protocol.through Call.ofCurve).Triple (cfg.Held Q)
      (CurveCall.findManyByCurves (logs.map RawLog.address)).await
      (cfg.Returns Q fun tokens _ =>
        ∀ raw, cfg.Due lo hi raw → (tokenByCurve tokens raw.address).isSome = true) := by
  refine .await (kept hQ).through (fun r => (kept_returns hQ (fun _ _ _ _ h => h) r).through)
    fun w o hw _ => ?_
  have hgives : cfg.Gives w (cfg.indexBackend.exec
      (.ext (.inr (.findManyByCurves (logs.map RawLog.address)))) o w).2 := gives_curve rfl
  refine ⟨hgives, hw.gives hQ hgives, fun tokens hok raw hraw => ?_⟩
  rcases @Backend.exec_ext _ _ _ _ _ cfg.indexBackend
    (.inr (.findManyByCurves (logs.map RawLog.address))) o w with ⟨⟨error, herror⟩, -⟩ | ⟨-, hanswer⟩
  · cases hok.symm.trans herror
  · cases hanswer tokens hok
    obtain ⟨launch, hlaunch, hcurve⟩ := List.any_eq_true.mp hraw.launched
    simp only [Bool.and_eq_true, decide_eq_true_eq] at hcurve
    have hbefore := cfg.deployed raw hraw.onChain launch hlaunch hcurve.2
    obtain ⟨row, hrow, hlisting⟩ := List.mem_map.mp
      (hlisted _ hw.2 launch hlaunch hcurve.1 (hbefore.trans hraw.hi))
    have haddress : row.token.curveAddress = raw.address :=
      (congrArg (fun x => x.1.2.1) hlisting).trans hcurve.2
    refine List.find?_isSome.mpr
      ⟨row.token, List.mem_reverse.mpr (List.mem_filter.mpr ⟨?_, ?_⟩), ?_⟩
    · exact List.mem_map_of_mem hrow
    · simpa [haddress] using ⟨raw, hlogs raw hraw, rfl⟩
    · simp [haddress]

theorem recordMany_triple {trades : List (CurveTrade H)} (hQ : IndexRows.Lasts Q) :
    (cfg.protocol.through Call.ofCurve).Triple (cfg.Held Q) (recordTrades trades)
      (cfg.Returns Q fun _ s => trades.map CurveTrade.key ⊆ s.trades.map CurveTrade.key) := by
  have hlasts : IndexRows.Lasts fun s : IndexRows H =>
      trades.map CurveTrade.key ⊆ s.trades.map CurveTrade.key :=
    fun _ _ hgrows h => List.Subset.trans h hgrows.trades
  unfold recordTrades
  split
  · refine .await (kept hQ).through (fun r => (kept_returns hQ (fun _ => hlasts) r).through)
      fun w o hw _ => ?_
    have hgives : cfg.Gives w (cfg.indexBackend.exec (.ext (.inr (.recordMany trades))) o w).2 :=
      gives_curve rfl
    refine ⟨hgives, hw.gives hQ hgives, fun count hok key hkey => ?_⟩
    rcases @Backend.exec_ext _ _ _ _ _ cfg.indexBackend (.inr (.recordMany trades)) o w with
      ⟨⟨error, herror⟩, -⟩ | ⟨hbase, -⟩
    · cases hok.symm.trans herror
    · obtain ⟨trade, htrade, rfl⟩ := List.mem_map.mp hkey
      obtain ⟨row, hrow, hsame⟩ := @Table.exists_key_insertMany _ _ _ CurveTrade.key w.base.trades
        _ _ htrade
      refine List.mem_map.mpr ⟨row, ?_, hsame⟩
      have htrades := congrArg IndexRows.trades hbase
      exact htrades ▸ hrow
  · rename_i hnone
    refine .done (kept hQ).through fun w hw => ⟨hw, fun _ _ => ?_⟩
    rw [List.eq_nil_of_length_eq_zero (by omega : trades.length = 0)]
    exact List.nil_subset _

theorem Returns.failed {post : α → IndexRows H → Prop} {error : Failure} (h : cfg.Held Q w) :
    cfg.Returns Q post (.error error) w :=
  ⟨h, fun _ hok => by cases hok⟩

omit [DecidableEq H] in
theorem lasts_and {Q' : IndexRows H → Prop} (hQ : IndexRows.Lasts Q) (hQ' : IndexRows.Lasts Q') :
    IndexRows.Lasts fun s => Q s ∧ Q' s :=
  fun s t hgrows h => ⟨hQ s t hgrows h.1, hQ' s t hgrows h.2⟩

theorem processCurveLogs_triple {deps : CurveProcessorDeps} (hQ : IndexRows.Lasts Q)
    (hlisted : ∀ s, Q s → cfg.Listed hi s) (hlogs : ∀ raw, cfg.Due lo hi raw → raw ∈ logs) :
    (cfg.protocol.through Call.ofCurve).Triple (cfg.Held Q)
      (processCurveLogs cfg.decodePonsLog deps logs) (cfg.Returns Q fun _ => cfg.Stored lo hi) := by
  refine .bind (adds_triple (await_only rfl) hQ) (fun _ => ?_) fun _ _ h => .failed h
  refine .bind (findManyByCurves_triple hQ hlisted hlogs) (fun tokens => ?_)
    fun _ _ h => .failed h.1
  rintro w ⟨hw, hfound⟩
  have hcollect : (cfg.protocol.through Call.ofCurve).Triple (cfg.Held Q)
      (collectTrades cfg.decodePonsLog deps tokens logs) _ :=
    (adds_triple collectTrades_only hQ).yields collectTrades_yields
  refine (hcollect.bind (fun pending => ?_) fun _ _ h => .failed h.1) w hw
  rintro w ⟨hw, hpending⟩
  refine ((recordMany_triple hQ).bind (fun inserted => ?_) fun _ _ h => .failed h.1) w hw
  rintro w ⟨hw, hstored⟩
  have hwindow : cfg.Stored lo hi w.base := fun raw hraw => hstored inserted rfl
    (hpending pending rfl raw (hlogs raw hraw) hraw.isTrade (hfound tokens rfl raw hraw))
  refine (Protocol.Triple.imp (adds_triple ?_ (lasts_and hQ stored_lasts)) (fun _ h => h) ?_) w
    ⟨hw.1, hw.2, hwindow⟩
  · exact .bind refreshTokenStatsBatch_only fun _ => .bind syncPhasesFromChain_only fun _ => trivial
  · exact fun r t h => ⟨⟨h.1, h.2.1⟩, fun _ _ => h.2.2⟩

theorem processTrades_triple (hQ : IndexRows.Lasts Q) (hlisted : ∀ s, Q s → cfg.Listed hi s)
    (hlogs : ∀ raw, cfg.Due lo hi raw → raw ∈ logs) :
    cfg.protocol.Triple (cfg.Held Q) (cfg.processTrades logs)
      (cfg.Returns Q fun _ => cfg.Stored lo hi) := by
  refine .bind (Q := fun _ => cfg.Held Q) ?_ (fun now => ?_) fun _ _ h => .failed h
  · refine .await (kept hQ) (fun _ => kept hQ) fun w o hw _ => ?_
    have hgives : cfg.Gives w (cfg.indexBackend.exec (.ext (.inl .now)) o w).2 := (gives_read rfl).1
    exact ⟨hgives, hw.gives hQ hgives⟩
  · refine .bind (.lift (processCurveLogs_triple hQ hlisted hlogs)) (fun result => ?_)
      fun _ _ h => .failed h.1
    refine .done (kept_returns hQ (fun _ => stored_lasts) (.ok result)) ?_
    exact fun w h => ⟨h.1, fun _ _ => h.2 result rfl⟩

/-- The factory's processor: if it gets through, `tokens` has every launch of the window. -/
theorem processLaunches_triple (hQ : IndexRows.Lasts Q) (hlo : cfg.startBlock ≤ lo) :
    cfg.protocol.Triple (cfg.Held Q) (processLaunches (lo + 1, hi)) (cfg.Returns Q fun _ s =>
      ∀ launch ∈ cfg.window (lo + 1) hi, launch.listing ∈ s.tokens.map TokenRow.listing) := by
  refine .bind (Q := fun _ => cfg.Held Q) ?_ (fun _ => ?_) fun _ _ h => .failed h
  · refine .await (kept hQ) (fun _ => kept hQ) fun w o hw _ => ?_
    have hgives : cfg.Gives w
        (cfg.indexBackend.exec (.ext (.inl (.recordLaunches (lo + 1) hi))) o w).2 :=
      gives_recordLaunches (by omega)
    exact ⟨hgives, hw.gives hQ hgives⟩
  · refine .await (kept hQ) (kept_returns hQ fun _ _ _ hgrows h launch hlaunch =>
      hgrows.tokens (h launch hlaunch)) fun w o hw _ => ?_
    have hread : (cfg.launchExec o.ext w.base (.syncPhases (lo + 1) hi)).2 = w.base := by
      simp only [launchExec]
      split <;> rfl
    obtain ⟨hgives, hbase⟩ := gives_read hread
    refine ⟨hgives, hw.gives hQ hgives, fun _ hok launch hlaunch => ?_⟩
    rcases @Backend.exec_ext _ _ _ _ _ cfg.indexBackend (.inl (.syncPhases (lo + 1) hi)) o w with
      ⟨⟨error, herror⟩, -⟩ | ⟨-, hanswer⟩
    · cases hok.symm.trans herror
    · have hall := hanswer () hok
      simp only [indexBackend, launchExec] at hall
      split at hall
      · rename_i hevery
        obtain ⟨row, hrow, haddress⟩ :=
          List.any_eq_true.mp (List.all_eq_true.mp hevery launch hlaunch)
        have hlisting := List.mem_map_of_mem (f := TokenRow.listing) hrow
        obtain ⟨other, hother, -, hsame⟩ := hw.1.listings _ hlisting
        have haddress : other.address = launch.address :=
          (congrArg (fun x => x.1.1) hsame).trans (of_decide_eq_true haddress)
        obtain rfl : other = launch := List.inj_on_of_nodup_map cfg.unique hother
          (List.mem_filter.mp hlaunch).1 haddress
        rw [← hbase] at hlisting
        exact hsame ▸ hlisting
      · cases hall

end windows

end TradeConfig

end Stunks.Indexer
