import Stunks.Utils.Money

/-! `log-range.ts`: the adaptive window, a binary search for the span an endpoint tolerates. -/

namespace Stunks.Web3

/-- Successful scans at the settled span before one probe above it. -/
def ceilingReprobeInterval : Nat := 200

structure AdaptiveLogWindow where
  span : Nat
  lastGood : Nat
  ceiling : Option Nat
  successesAtSettled : Nat
  minSpan : Nat
  maxSpan : Nat
  deriving DecidableEq

namespace AdaptiveLogWindow

def create (initialSpan minSpan maxSpan : Nat) : Except JsError AdaptiveLogWindow :=
  if initialSpan = 0 then .error (.error "AdaptiveLogWindow: initialSpan must be positive")
  else .ok {
    span := initialSpan, lastGood := 0, ceiling := none, successesAtSettled := 0
    minSpan, maxSpan }

def current (w : AdaptiveLogWindow) : Nat := w.span

def knownCeiling (w : AdaptiveLogWindow) : Option Nat := w.ceiling

def settled (w : AdaptiveLogWindow) : Bool :=
  match w.ceiling with
  | none => false
  | some ceiling => ceiling - w.lastGood ≤ 1

def clamp (w : AdaptiveLogWindow) (value : Nat) : Nat :=
  if value < w.minSpan then w.minSpan else if value > w.maxSpan then w.maxSpan else value

/-- The smaller of the window and the known ceiling. -/
def rejectedCeiling (w : AdaptiveLogWindow) : Nat :=
  match w.ceiling with
  | none => w.span
  | some ceiling => if w.span < ceiling then w.span else ceiling

def onRejected (w : AdaptiveLogWindow) : AdaptiveLogWindow :=
  let ceiling := w.rejectedCeiling
  { w with
    ceiling := some ceiling
    successesAtSettled := 0
    span := w.clamp ((w.lastGood + ceiling) / 2) }

def noteSuccess (w : AdaptiveLogWindow) : AdaptiveLogWindow :=
  let lastGood := if w.span > w.lastGood then w.span else w.lastGood
  match w.ceiling with
  | none => { w with lastGood }
  | some ceiling =>
    if w.span ≥ ceiling then { w with lastGood, ceiling := none, successesAtSettled := 0 }
    else { w with lastGood }

def onSuccess (w : AdaptiveLogWindow) : AdaptiveLogWindow :=
  let w := w.noteSuccess
  match w.ceiling with
  | none => { w with span := w.clamp (w.span + w.span / 4 + 1) }
  | some ceiling =>
    if ceiling > w.lastGood + 1 then
      { w with span := w.clamp ((w.lastGood + ceiling) / 2) }
    else
      let successesAtSettled := w.successesAtSettled + 1
      if successesAtSettled ≥ ceilingReprobeInterval then
        { w with successesAtSettled := 0, span := w.clamp ceiling }
      else { w with successesAtSettled, span := w.clamp w.lastGood }

theorem create_eq {initialSpan minSpan maxSpan : Nat} {w : AdaptiveLogWindow}
    (h : create initialSpan minSpan maxSpan = .ok w) :
    0 < initialSpan ∧ w = {
      span := initialSpan, lastGood := 0, ceiling := none, successesAtSettled := 0
      minSpan, maxSpan } := by
  unfold create at h
  split at h
  · cases h
  · cases h
    exact ⟨by omega, rfl⟩

@[simp] theorem onRejected_lastGood (w : AdaptiveLogWindow) :
    w.onRejected.lastGood = w.lastGood := rfl

theorem clamp_le (w : AdaptiveLogWindow) (value : Nat) : w.clamp value ≤ max w.minSpan value := by
  unfold clamp
  split
  · exact le_max_left ..
  · split <;> omega

theorem clamp_pos {w : AdaptiveLogWindow} (hmin : 0 < w.minSpan) (hmax : 0 < w.maxSpan)
    (value : Nat) : 0 < w.clamp value := by
  unfold clamp
  split
  · exact hmin
  · split <;> omega

theorem lt_clamp {w : AdaptiveLogWindow} {limit value : Nat} (hmax : limit < w.maxSpan)
    (h : limit < value) : limit < w.clamp value := by
  unfold clamp
  split
  · omega
  · split <;> omega

theorem rejectedCeiling_le (w : AdaptiveLogWindow) : w.rejectedCeiling ≤ w.span := by
  unfold rejectedCeiling
  cases w.ceiling with
  | none => exact le_rfl
  | some ceiling => simp only; split <;> omega

theorem lt_rejectedCeiling {w : AdaptiveLogWindow} {limit : Nat} (hspan : limit < w.span)
    (hceiling : ∀ ceiling, w.ceiling = some ceiling → limit < ceiling) :
    limit < w.rejectedCeiling := by
  unfold rejectedCeiling
  cases hw : w.ceiling with
  | none => exact hspan
  | some ceiling =>
    have := hceiling ceiling hw
    simp only
    split <;> omega

theorem rejectedCeiling_of_some {w : AdaptiveLogWindow} {ceiling : Nat}
    (h : w.ceiling = some ceiling) : w.rejectedCeiling = min w.span ceiling := by
  unfold rejectedCeiling
  rw [h]
  simp only
  split <;> omega

theorem onRejected_span_lt {w : AdaptiveLogWindow} {limit : Nat} (hmin : w.minSpan ≤ limit)
    (hgood : w.lastGood ≤ limit) (hspan : limit < w.span) : w.onRejected.span < w.span := by
  have hc := w.rejectedCeiling_le
  have hle : w.onRejected.span ≤ max w.minSpan ((w.lastGood + w.rejectedCeiling) / 2) :=
    w.clamp_le _
  omega

theorem noteSuccess_lastGood (w : AdaptiveLogWindow) :
    w.noteSuccess.lastGood = max w.lastGood w.span := by
  have hraise : (if w.span > w.lastGood then w.span else w.lastGood) = max w.lastGood w.span := by
    split <;> omega
  unfold noteSuccess
  cases w.ceiling with
  | none => exact hraise
  | some ceiling =>
    simp only
    split <;> exact hraise

theorem noteSuccess_bounds (w : AdaptiveLogWindow) :
    w.noteSuccess.minSpan = w.minSpan ∧ w.noteSuccess.maxSpan = w.maxSpan := by
  unfold noteSuccess
  cases w.ceiling with
  | none => exact ⟨rfl, rfl⟩
  | some ceiling =>
    simp only
    split <;> exact ⟨rfl, rfl⟩

@[simp] theorem noteSuccess_span (w : AdaptiveLogWindow) : w.noteSuccess.span = w.span := by
  unfold noteSuccess
  cases w.ceiling with
  | none => rfl
  | some ceiling =>
    simp only
    split <;> rfl

theorem noteSuccess_ceiling (w : AdaptiveLogWindow) :
    w.noteSuccess.ceiling = w.ceiling.filter (w.span < ·) := by
  unfold noteSuccess
  cases hw : w.ceiling with
  | none => rfl
  | some ceiling =>
    rw [Option.filter_some]
    by_cases h : w.span ≥ ceiling
    · simp [h, Nat.not_lt.mpr h]
    · simp [h, Nat.lt_of_not_le h]

section Success

variable {w : AdaptiveLogWindow} {ceiling : Nat}

theorem noteSuccess_of_none (h : w.ceiling = none) :
    w.noteSuccess = { w with lastGood := max w.lastGood w.span } := by
  rw [← noteSuccess_lastGood]
  unfold noteSuccess
  simp only [h]

theorem noteSuccess_of_lt (h : w.ceiling = some ceiling) (hlt : w.span < ceiling) :
    w.noteSuccess = { w with lastGood := max w.lastGood w.span } := by
  rw [← noteSuccess_lastGood]
  unfold noteSuccess
  simp only [h]
  rw [if_neg (Nat.not_le.mpr hlt)]

theorem onSuccess_of_none (h : w.noteSuccess.ceiling = none) :
    w.onSuccess = { w.noteSuccess with
      span := w.noteSuccess.clamp (w.span + w.span / 4 + 1) } := by
  unfold onSuccess
  simp only [h, noteSuccess_span]

theorem onSuccess_of_lt (h : w.noteSuccess.ceiling = some ceiling)
    (hgap : w.noteSuccess.lastGood + 1 < ceiling) :
    w.onSuccess = { w.noteSuccess with
      span := w.noteSuccess.clamp ((w.noteSuccess.lastGood + ceiling) / 2) } := by
  unfold onSuccess
  simp only [h]
  rw [if_pos hgap]

theorem onSuccess_of_le (h : w.noteSuccess.ceiling = some ceiling)
    (hgap : ceiling ≤ w.noteSuccess.lastGood + 1) :
    w.onSuccess =
      let probes := w.noteSuccess.successesAtSettled + 1 ≥ ceilingReprobeInterval
      { w.noteSuccess with
        successesAtSettled := if probes then 0 else w.noteSuccess.successesAtSettled + 1
        span := w.noteSuccess.clamp (if probes then ceiling else w.noteSuccess.lastGood) } := by
  unfold onSuccess
  simp only [h]
  rw [if_neg (Nat.not_lt.mpr hgap)]
  split <;> rfl

end Success

theorem onSuccess_cases (w : AdaptiveLogWindow) : ∃ value successesAtSettled,
    w.onSuccess =
      { w.noteSuccess with span := w.noteSuccess.clamp value, successesAtSettled } := by
  cases h : w.noteSuccess.ceiling with
  | none => exact ⟨_, _, onSuccess_of_none h⟩
  | some ceiling =>
    rcases Nat.lt_or_ge (w.noteSuccess.lastGood + 1) ceiling with hgap | hgap
    · exact ⟨_, _, onSuccess_of_lt h hgap⟩
    · exact ⟨_, _, onSuccess_of_le h hgap⟩

theorem onSuccess_bounds (w : AdaptiveLogWindow) :
    w.onSuccess.minSpan = w.minSpan ∧ w.onSuccess.maxSpan = w.maxSpan := by
  obtain ⟨value, n, h⟩ := w.onSuccess_cases
  rw [h]
  exact w.noteSuccess_bounds

@[simp] theorem onSuccess_lastGood (w : AdaptiveLogWindow) :
    w.onSuccess.lastGood = max w.lastGood w.span := by
  obtain ⟨value, n, h⟩ := w.onSuccess_cases
  rw [h]
  exact w.noteSuccess_lastGood

structure Bounded (w : AdaptiveLogWindow) : Prop where
  minSpan : w.minSpan = 10
  maxSpan : w.maxSpan = 10000
  span : 0 < w.span

theorem Bounded.onSuccess {w : AdaptiveLogWindow} (h : w.Bounded) : w.onSuccess.Bounded := by
  obtain ⟨value, n, hw⟩ := w.onSuccess_cases
  obtain ⟨hmin, hmax⟩ := w.noteSuccess_bounds
  have hmin' : w.noteSuccess.minSpan = 10 := hmin.trans h.minSpan
  have hmax' : w.noteSuccess.maxSpan = 10000 := hmax.trans h.maxSpan
  rw [hw]
  exact ⟨hmin', hmax', clamp_pos (by omega) (by omega) value⟩

theorem Bounded.onRejected {w : AdaptiveLogWindow} (h : w.Bounded) : w.onRejected.Bounded :=
  ⟨h.minSpan, h.maxSpan, clamp_pos (by have := h.minSpan; omega) (by have := h.maxSpan; omega) _⟩

structure Overstated (limit : Nat) (w : AdaptiveLogWindow) : Prop where
  maxSpan : limit < w.maxSpan
  lastGood : limit < w.lastGood
  span : limit < w.span
  ceiling : ∀ ceiling, w.ceiling = some ceiling → limit < ceiling

theorem Overstated.onRejected {limit : Nat} {w : AdaptiveLogWindow} (h : w.Overstated limit) :
    w.onRejected.Overstated limit := by
  have hc : limit < w.rejectedCeiling := lt_rejectedCeiling h.span h.ceiling
  have hgood := h.lastGood
  refine ⟨h.maxSpan, hgood, lt_clamp h.maxSpan (by omega), ?_⟩
  intro ceiling hceiling
  exact Option.some.inj hceiling ▸ hc

end AdaptiveLogWindow

end Stunks.Web3
