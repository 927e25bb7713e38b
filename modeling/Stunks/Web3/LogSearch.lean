import Stunks.Lib.Bisection
import Stunks.Web3.LogRange

namespace Stunks.Web3.AdaptiveLogWindow

open Bisection

variable {limit : Nat}

def scan (limit : Nat) (w : AdaptiveLogWindow) : AdaptiveLogWindow :=
  if w.current ≤ limit then w.onSuccess else w.onRejected

def rejections (limit : Nat) : Nat → AdaptiveLogWindow → Nat
  | 0, _ => 0
  | n + 1, w => (if w.current ≤ limit then 0 else 1) + rejections limit n (w.scan limit)

theorem scan_of_le {w : AdaptiveLogWindow} (h : w.span ≤ limit) : w.scan limit = w.onSuccess :=
  if_pos h

theorem scan_of_lt {w : AdaptiveLogWindow} (h : limit < w.span) : w.scan limit = w.onRejected :=
  if_neg (Nat.not_le.mpr h)

structure Sound (limit : Nat) (w : AdaptiveLogWindow) : Prop where
  lastGood : w.lastGood ≤ limit
  knownCeiling : ∀ ceiling, w.knownCeiling = some ceiling → limit < ceiling

theorem Sound.scan {w : AdaptiveLogWindow} (h : w.Sound limit) : (w.scan limit).Sound limit := by
  rcases Nat.lt_or_ge limit w.span with hspan | hspan
  · rw [scan_of_lt hspan]
    refine ⟨h.lastGood, ?_⟩
    intro ceiling hceiling
    exact Option.some.inj hceiling ▸ lt_rejectedCeiling hspan h.knownCeiling
  · rw [scan_of_le hspan]
    obtain ⟨value, n, hw⟩ := w.onSuccess_cases
    refine ⟨?_, ?_⟩
    · rw [onSuccess_lastGood]
      exact max_le h.lastGood hspan
    · intro ceiling hceiling
      rw [hw] at hceiling
      change w.noteSuccess.ceiling = some ceiling at hceiling
      rw [noteSuccess_ceiling] at hceiling
      obtain ⟨hold, -⟩ := Option.filter_eq_some_iff.mp hceiling
      exact h.knownCeiling ceiling hold

structure Reaches (limit : Nat) (w : AdaptiveLogWindow) : Prop where
  minSpan : w.minSpan ≤ limit
  maxSpan : limit < w.maxSpan

theorem Reaches.onSuccess {w : AdaptiveLogWindow} (h : w.Reaches limit) :
    w.onSuccess.Reaches limit := by
  obtain ⟨hmin, hmax⟩ := w.onSuccess_bounds
  exact ⟨hmin.trans_le h.minSpan, h.maxSpan.trans_eq hmax.symm⟩

theorem clamp_le_maxSpan {w : AdaptiveLogWindow} (h : w.minSpan ≤ w.maxSpan) (value : Nat) :
    w.clamp value ≤ w.maxSpan := by
  unfold clamp
  split
  · exact h
  · split <;> omega

theorem Reaches.clamp_limit {w : AdaptiveLogWindow} (h : w.Reaches limit) :
    w.clamp limit = limit := by
  have hmin := h.minSpan
  have hmax := h.maxSpan
  unfold clamp
  rw [if_neg (by omega), if_neg (by omega)]

theorem Reaches.clamp_succ {w : AdaptiveLogWindow} (h : w.Reaches limit) :
    w.clamp (limit + 1) = limit + 1 := by
  have hmin := h.minSpan
  have hmax := h.maxSpan
  unfold clamp
  rw [if_neg (by omega), if_neg (by omega)]

/-- `count` scans into the settled cycle: the limit, and after every
`ceilingReprobeInterval` successes one probe above it. -/
structure Cycling (limit count : Nat) (w : AdaptiveLogWindow) : Prop where
  reaches : w.Reaches limit
  lastGood : w.lastGood = limit
  ceiling : w.ceiling = some (limit + 1)
  successes : w.successesAtSettled = count % (ceilingReprobeInterval + 1) % ceilingReprobeInterval
  span : w.span =
    if count % (ceilingReprobeInterval + 1) = ceilingReprobeInterval then limit + 1 else limit

theorem Cycling.settled {count : Nat} {w : AdaptiveLogWindow} (h : w.Cycling limit count) :
    w.settled = true := by
  unfold AdaptiveLogWindow.settled
  simp [h.ceiling, h.lastGood]

theorem Cycling.probe {count : Nat} {w : AdaptiveLogWindow} (h : w.Cycling limit count)
    (hprobe : count % (ceilingReprobeInterval + 1) = ceilingReprobeInterval) :
    (w.scan limit).Cycling limit (count + 1) := by
  have hspan : w.span = limit + 1 := by rw [h.span, if_pos hprobe]
  have hnext : (count + 1) % (ceilingReprobeInterval + 1) = 0 := by
    unfold ceilingReprobeInterval at hprobe ⊢
    omega
  have hceiling : w.rejectedCeiling = limit + 1 := by
    rw [rejectedCeiling_of_some h.ceiling, hspan, min_self]
  rw [scan_of_lt (by omega)]
  refine ⟨⟨h.reaches.minSpan, h.reaches.maxSpan⟩, h.lastGood, ?_, ?_, ?_⟩
  · exact congrArg some hceiling
  · rw [hnext]
    rfl
  · change w.clamp ((w.lastGood + w.rejectedCeiling) / 2) = _
    have hmid : (limit + (limit + 1)) / 2 = limit := by omega
    rw [hnext, h.lastGood, hceiling, hmid, h.reaches.clamp_limit]
    rfl

theorem Cycling.success {count : Nat} {w : AdaptiveLogWindow} (h : w.Cycling limit count)
    (hprobe : count % (ceilingReprobeInterval + 1) ≠ ceilingReprobeInterval) :
    (w.scan limit).Cycling limit (count + 1) := by
  have hspan : w.span = limit := by rw [h.span, if_neg hprobe]
  have hnoted : w.noteSuccess = { w with lastGood := limit } := by
    rw [noteSuccess_of_lt h.ceiling (by omega), h.lastGood, hspan, max_self]
  have hcount := h.successes
  have hreaches : (w.scan limit).Reaches limit := by
    rw [scan_of_le hspan.le]
    exact h.reaches.onSuccess
  have hceiling : w.noteSuccess.ceiling = some (limit + 1) := by
    rw [hnoted]
    exact h.ceiling
  rw [scan_of_le hspan.le, onSuccess_of_le hceiling (by rw [hnoted])] at hreaches ⊢
  rw [hnoted] at hreaches ⊢
  refine ⟨hreaches, rfl, h.ceiling, ?_, ?_⟩
  · simp only
    unfold ceilingReprobeInterval at hprobe hcount ⊢
    split <;> omega
  · change w.clamp _ = _
    by_cases hlast : w.successesAtSettled + 1 ≥ ceilingReprobeInterval
    · have hnext : (count + 1) % (ceilingReprobeInterval + 1) = ceilingReprobeInterval := by
        unfold ceilingReprobeInterval at hprobe hcount hlast ⊢
        omega
      rw [if_pos hlast, if_pos hnext, h.reaches.clamp_succ]
    · have hnext : (count + 1) % (ceilingReprobeInterval + 1) ≠ ceilingReprobeInterval := by
        unfold ceilingReprobeInterval at hprobe hcount hlast ⊢
        omega
      rw [if_neg hlast, if_neg hnext, h.reaches.clamp_limit]

theorem Cycling.next {count : Nat} {w : AdaptiveLogWindow} (h : w.Cycling limit count) :
    (w.scan limit).Cycling limit (count + 1) := by
  by_cases hprobe : count % (ceilingReprobeInterval + 1) = ceilingReprobeInterval
  · exact h.probe hprobe
  · exact h.success hprobe

theorem Cycling.scans {count : Nat} {w : AdaptiveLogWindow} (h : w.Cycling limit count)
    (n : Nat) : ((scan limit)^[n] w).Cycling limit (count + n) := by
  induction n with
  | zero => exact h
  | succ n ih =>
    rw [Function.iterate_succ_apply']
    exact ih.next

structure Aimed (b : Bracket limit) (w : AdaptiveLogWindow) : Prop where
  reaches : w.Reaches limit
  lastGood : w.lastGood = b.good
  ceiling : w.ceiling = some b.bad
  successes : w.successesAtSettled = 0
  span : w.span = w.clamp b.mid
  bad_le : b.bad ≤ w.maxSpan

theorem Aimed.settled_iff {b : Bracket limit} {w : AdaptiveLogWindow} (h : w.Aimed b) :
    w.settled = true ↔ b.gap ≤ 1 := by
  unfold AdaptiveLogWindow.settled
  simp [h.ceiling, h.lastGood, Bracket.gap]

theorem Aimed.cycling {b : Bracket limit} {w : AdaptiveLogWindow} (h : w.Aimed b)
    (hgap : b.gap ≤ 1) : w.Cycling limit 0 where
  reaches := h.reaches
  lastGood := h.lastGood.trans (b.good_of_gap hgap)
  ceiling := h.ceiling.trans (congrArg some (b.bad_of_gap hgap))
  successes := h.successes
  span := by
    rw [h.span, b.mid_of_gap hgap, h.reaches.clamp_limit]
    rfl

theorem Aimed.span_eq {b : Bracket limit} {w : AdaptiveLogWindow} (h : w.Aimed b) :
    w.span = max w.minSpan b.mid := by
  have hmid := b.mid_lt_bad
  have hbad := h.bad_le
  have hmin := h.reaches.minSpan
  have hmax := h.reaches.maxSpan
  rw [h.span]
  unfold clamp
  split
  · omega
  · rw [if_neg (by omega)]
    omega

theorem Aimed.rejected {b : Bracket limit} {w : AdaptiveLogWindow} (h : w.Aimed b)
    (hspan : limit < w.span) : (w.scan limit).Aimed (b.lower hspan) := by
  have hceiling := rejectedCeiling_of_some h.ceiling
  rw [scan_of_lt hspan]
  refine ⟨⟨h.reaches.minSpan, h.reaches.maxSpan⟩, h.lastGood, ?_, rfl, ?_, ?_⟩
  · exact congrArg some hceiling
  · change w.clamp ((w.lastGood + w.rejectedCeiling) / 2) = w.clamp (b.lower hspan).mid
    rw [h.lastGood, hceiling]
    rfl
  · exact (min_le_right ..).trans h.bad_le

theorem Aimed.gap_rejected {b : Bracket limit} {w : AdaptiveLogWindow} (h : w.Aimed b)
    (hspan : limit < w.span) : 2 * (b.lower hspan).gap ≤ b.gap := by
  have hmid := h.span_eq
  have hmin := h.reaches.minSpan
  exact b.gap_lower_le (by omega) hspan

theorem Aimed.noted {b : Bracket limit} {w : AdaptiveLogWindow} (h : w.Aimed b)
    (hspan : w.span ≤ limit) :
    w.noteSuccess = { w with lastGood := (b.raise hspan).good } := by
  rw [noteSuccess_of_lt h.ceiling (hspan.trans_lt b.lt_bad), h.lastGood]
  rfl

theorem Aimed.succeeded {b : Bracket limit} {w : AdaptiveLogWindow} (h : w.Aimed b)
    (hspan : w.span ≤ limit) (hgap : 1 < (b.raise hspan).gap) :
    (w.scan limit).Aimed (b.raise hspan) := by
  have hnoted := h.noted hspan
  have hlt : (b.raise hspan).good + 1 < b.bad := by
    change 1 < b.bad - (b.raise hspan).good at hgap
    omega
  have hceiling : w.noteSuccess.ceiling = some b.bad := by
    rw [hnoted]
    exact h.ceiling
  rw [scan_of_le hspan, onSuccess_of_lt hceiling (by rw [hnoted]; exact hlt), hnoted]
  exact ⟨⟨h.reaches.minSpan, h.reaches.maxSpan⟩, rfl, h.ceiling, h.successes, rfl, h.bad_le⟩

theorem Aimed.closed {b : Bracket limit} {w : AdaptiveLogWindow} (h : w.Aimed b)
    (hspan : w.span ≤ limit) (hopen : 1 < b.gap) (hgap : (b.raise hspan).gap ≤ 1) :
    w.span = limit ∧ (w.scan limit).Cycling limit 1 := by
  have hnoted := h.noted hspan
  have hgood : max b.good w.span = limit := (b.raise hspan).good_of_gap hgap
  have hbad : b.bad = limit + 1 := (b.raise hspan).bad_of_gap hgap
  have hmid := b.good_lt_mid hopen
  have hspan_eq := h.span_eq
  have hprobes : ¬ w.successesAtSettled + 1 ≥ ceilingReprobeInterval := by
    rw [h.successes]
    decide
  have hceiling : w.noteSuccess.ceiling = some b.bad := by
    rw [hnoted]
    exact h.ceiling
  have hle : b.bad ≤ w.noteSuccess.lastGood + 1 := by
    rw [hnoted, hbad]
    exact Nat.add_le_add_right hgood.ge 1
  refine ⟨by omega, ?_⟩
  rw [scan_of_le hspan, onSuccess_of_le hceiling hle, hnoted]
  refine ⟨⟨h.reaches.minSpan, h.reaches.maxSpan⟩, hgood, ?_, ?_, ?_⟩
  · exact h.ceiling.trans (congrArg some hbad)
  · simp only
    rw [if_neg hprobes, h.successes]
    rfl
  · change w.clamp _ = _
    rw [if_neg hprobes]
    change w.clamp (max b.good w.span) = _
    rw [hgood, h.reaches.clamp_limit]
    rfl

/-- The search from `w` is over after `start + counted` scans: the first one at the limit for
good is the `start`-th, and it has been counted when it was itself the success that ended
the search. -/
structure Ends (limit start counted : Nat) (w : AdaptiveLogWindow) : Prop where
  counted_le : counted ≤ 1
  first : ((scan limit)^[start] w).current = limit
  cycling : ((scan limit)^[start + counted] w).Cycling limit counted
  unsettled : ∀ n < start + counted, ((scan limit)^[n] w).settled = false

theorem Ends.after {start counted : Nat} {w : AdaptiveLogWindow}
    (h : (w.scan limit).Ends limit start counted) (hw : w.settled = false) :
    w.Ends limit (start + 1) counted := by
  have hsum : start + 1 + counted = start + counted + 1 := by omega
  refine ⟨h.counted_le, h.first, ?_, ?_⟩
  · rw [hsum]
    exact h.cycling
  · intro n hn
    cases n with
    | zero => exact hw
    | succ n => exact h.unsettled n (by omega)

theorem Ends.settled_iff {start counted : Nat} {w : AdaptiveLogWindow}
    (h : w.Ends limit start counted) (n : Nat) :
    ((scan limit)^[n] w).settled = true ↔ start + counted ≤ n := by
  refine ⟨?_, ?_⟩
  · intro hsettled
    by_contra hlt
    rw [h.unsettled n (by omega)] at hsettled
    cases hsettled
  · intro hle
    obtain ⟨m, rfl⟩ := Nat.exists_eq_add_of_le' hle
    rw [Function.iterate_add_apply]
    exact (h.cycling.scans m).settled

theorem Ends.current {start counted : Nat} {w : AdaptiveLogWindow}
    (h : w.Ends limit start counted) (n : Nat) :
    ((scan limit)^[start + n] w).current =
      if n % (ceilingReprobeInterval + 1) = ceilingReprobeInterval then limit + 1 else limit := by
  rcases Nat.lt_or_ge n counted with hlt | hle
  · obtain rfl : n = 0 := by have := h.counted_le; omega
    exact h.first
  · obtain ⟨m, rfl⟩ := Nat.exists_eq_add_of_le hle
    have hsum : start + (counted + m) = m + (start + counted) := by omega
    rw [hsum, Function.iterate_add_apply]
    exact (h.cycling.scans m).span

theorem rejections_succ_of_le {w : AdaptiveLogWindow} (h : w.current ≤ limit) (n : Nat) :
    rejections limit (n + 1) w = rejections limit n (w.scan limit) := by
  rw [rejections, if_pos h, Nat.zero_add]

theorem rejections_succ_of_lt {w : AdaptiveLogWindow} (h : limit < w.current) (n : Nat) :
    rejections limit (n + 1) w = rejections limit n (w.scan limit) + 1 := by
  rw [rejections, if_neg (Nat.not_le.mpr h), Nat.add_comm]

/-- By the gap of the bracket, which every scan narrows and every rejection halves. -/
theorem Aimed.ends {b : Bracket limit} {w : AdaptiveLogWindow} (h : w.Aimed b) :
    ∃ start counted, w.Ends limit start counted ∧
      rejections limit (start + counted) w ≤ b.gap.log2 := by
  induction hg : b.gap using Nat.strong_induction_on generalizing b w with
  | _ gap ih =>
    subst hg
    rcases Nat.lt_or_ge 1 b.gap with hopen | hclosed
    · have hw : w.settled = false := by
        rw [← Bool.not_eq_true, h.settled_iff]
        omega
      rcases Nat.lt_or_ge limit w.span with hspan | hspan
      · have hhalf := h.gap_rejected hspan
        have hpos := (b.lower hspan).gap_pos
        obtain ⟨start, counted, hends, hcount⟩ := ih _ (by omega) (h.rejected hspan) rfl
        refine ⟨start + 1, counted, hends.after hw, ?_⟩
        rw [Nat.succ_add, rejections_succ_of_lt hspan]
        exact (Nat.succ_le_succ hcount).trans (log2_succ_le hpos hhalf)
      · have hmid : b.mid ≤ w.span := h.span_eq ▸ le_max_right ..
        have hless := b.gap_raise_lt hopen hmid hspan
        rcases Nat.lt_or_ge 1 (b.raise hspan).gap with hagain | hdone
        · obtain ⟨start, counted, hends, hcount⟩ := ih _ hless (h.succeeded hspan hagain) rfl
          refine ⟨start + 1, counted, hends.after hw, ?_⟩
          rw [Nat.succ_add, rejections_succ_of_le hspan]
          exact hcount.trans (log2_mono hless.le)
        · obtain ⟨hlimit, hcycling⟩ := h.closed hspan hopen hdone
          refine ⟨0, 1, ⟨le_rfl, hlimit, hcycling, ?_⟩, ?_⟩
          · intro n hn
            obtain rfl : n = 0 := by omega
            exact hw
          · rw [Nat.zero_add, rejections_succ_of_le hspan]
            exact Nat.zero_le _
    · have hcycling := h.cycling hclosed
      exact ⟨0, 0, ⟨Nat.zero_le _, hcycling.span, hcycling, by omega⟩, Nat.zero_le _⟩

structure Growing (limit : Nat) (w : AdaptiveLogWindow) : Prop where
  reaches : w.Reaches limit
  lastGood_le : w.lastGood ≤ limit
  lastGood_le_span : w.lastGood ≤ w.span
  ceiling : w.ceiling = none
  successes : w.successesAtSettled = 0
  span_le : w.span ≤ w.maxSpan

theorem Growing.settled {w : AdaptiveLogWindow} (h : w.Growing limit) : w.settled = false := by
  unfold AdaptiveLogWindow.settled
  rw [h.ceiling]

theorem Growing.succeeded {w : AdaptiveLogWindow} (h : w.Growing limit) (hspan : w.span ≤ limit) :
    (w.scan limit).Growing limit ∧ w.span < (w.scan limit).span := by
  have hmin := h.reaches.minSpan
  have hmax := h.reaches.maxSpan
  have hnoted : w.noteSuccess = { w with lastGood := w.span } := by
    rw [noteSuccess_of_none h.ceiling, max_eq_right h.lastGood_le_span]
  have hgrown : w.span < w.clamp (w.span + w.span / 4 + 1) :=
    lt_clamp (hspan.trans_lt hmax) (by omega)
  rw [scan_of_le hspan, onSuccess_of_none (by rw [hnoted]; exact h.ceiling), hnoted]
  exact ⟨⟨⟨hmin, hmax⟩, hspan, hgrown.le, h.ceiling, h.successes,
    clamp_le_maxSpan (hmin.trans hmax.le) _⟩, hgrown⟩

theorem Growing.rejected {w : AdaptiveLogWindow} (h : w.Growing limit) (hspan : limit < w.span) :
    (w.scan limit).Aimed ⟨w.lastGood, w.span, h.lastGood_le, hspan⟩ := by
  have hceiling : w.rejectedCeiling = w.span := by
    unfold rejectedCeiling
    rw [h.ceiling]
  rw [scan_of_lt hspan]
  refine ⟨⟨h.reaches.minSpan, h.reaches.maxSpan⟩, rfl, congrArg some hceiling, rfl, ?_, h.span_le⟩
  change w.clamp ((w.lastGood + w.rejectedCeiling) / 2) = w.clamp ((w.lastGood + w.span) / 2)
  rw [hceiling]

theorem Growing.ends {w : AdaptiveLogWindow} (h : w.Growing limit) :
    ∃ first start counted, first < start + counted ∧ w.Ends limit start counted ∧
      (∀ n < first, ((scan limit)^[n] w).current ≤ limit) ∧
      limit < ((scan limit)^[first] w).current ∧
      rejections limit (start + counted) w ≤ 1 + ((scan limit)^[first] w).current.log2 := by
  induction hleft : limit + 1 - w.span using Nat.strong_induction_on generalizing w with
  | _ left ih =>
    subst hleft
    rcases Nat.lt_or_ge limit w.span with hspan | hspan
    · obtain ⟨start, counted, hends, hcount⟩ := (h.rejected hspan).ends
      refine ⟨0, start + 1, counted, by omega, hends.after h.settled, by omega, hspan, ?_⟩
      rw [Nat.succ_add, rejections_succ_of_lt hspan, Nat.add_comm 1]
      exact Nat.succ_le_succ (hcount.trans (log2_mono (Nat.sub_le ..)))
    · obtain ⟨hgrowing, hgrown⟩ := h.succeeded hspan
      obtain ⟨first, start, counted, hlt, hends, hbelow, habove, hcount⟩ :=
        ih _ (by omega) hgrowing rfl
      refine ⟨first + 1, start + 1, counted, by omega, hends.after h.settled, ?_, habove, ?_⟩
      · intro n hn
        cases n with
        | zero => exact hspan
        | succ n => exact hbelow n (by omega)
      · rw [Nat.succ_add, rejections_succ_of_le hspan]
        exact hcount

/-- Against a constant limit the search brackets it throughout, ends within two rejections
and the binary logarithm of the first span rejected, and then stays at the limit: of the
scans from `start` on, only every one after `ceilingReprobeInterval` successes probes above
it, and the scan after that is back. -/
theorem scan_settles {initialSpan minSpan maxSpan : Nat} {w : AdaptiveLogWindow}
    (hcreate : create initialSpan minSpan maxSpan = .ok w) (hmin : minSpan ≤ limit)
    (hmax : limit < maxSpan) (hinitial : initialSpan ≤ maxSpan) :
    (∀ n, ((scan limit)^[n] w).Sound limit) ∧
    ∃ first start settledAt, first < settledAt ∧ start ≤ settledAt ∧ settledAt ≤ start + 1 ∧
      (∀ n < first, ((scan limit)^[n] w).current ≤ limit) ∧
      limit < ((scan limit)^[first] w).current ∧
      rejections limit settledAt w ≤ 2 + ((scan limit)^[first] w).current.log2 ∧
      (∀ n, ((scan limit)^[n] w).settled = true ↔ settledAt ≤ n) ∧
      ∀ n, ((scan limit)^[start + n] w).current =
        if n % (ceilingReprobeInterval + 1) = ceilingReprobeInterval then limit + 1
        else limit := by
  obtain ⟨hpos, rfl⟩ := create_eq hcreate
  refine ⟨?_, ?_⟩
  · intro n
    refine Function.Iterate.rec (Sound limit) ⟨Nat.zero_le _, ?_⟩ (fun _ h => h.scan) n
    intro ceiling hceiling
    cases hceiling
  · have hgrowing : Growing limit ⟨initialSpan, 0, none, 0, minSpan, maxSpan⟩ :=
      ⟨⟨hmin, hmax⟩, Nat.zero_le _, Nat.zero_le _, rfl, rfl, hinitial⟩
    obtain ⟨first, start, counted, hlt, hends, hbelow, habove, hcount⟩ := hgrowing.ends
    have hcounted := hends.counted_le
    exact ⟨first, start, start + counted, hlt, by omega, by omega, hbelow, habove, by omega,
      hends.settled_iff, hends.current⟩

/-- A free plan's hard limit, from the default window. -/
theorem scan_settles_hardLimit : ∃ w, create 100 10 10000 = .ok w ∧
    ∃ settledAt, ((scan 100)^[settledAt] w).settled = true ∧ rejections 100 settledAt w ≤ 8 := by
  have hcreate : create 100 10 10000 = .ok ⟨100, 0, none, 0, 10, 10000⟩ := rfl
  obtain ⟨-, first, start, settledAt, hlt, -, -, hbelow, habove, hcount, hsettled, -⟩ :=
    scan_settles hcreate (by decide : 10 ≤ 100) (by decide) (by decide)
  obtain rfl : first = 1 := by
    match first with
    | 0 => exact absurd habove (by decide)
    | 1 => rfl
    | first + 2 => exact absurd (hbelow 1 (by omega)) (by decide)
  exact ⟨_, hcreate, settledAt, (hsettled settledAt).mpr le_rfl, hcount.trans (by decide)⟩

end Stunks.Web3.AdaptiveLogWindow
