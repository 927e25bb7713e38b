import Stunks.Lib.Bisection
import Stunks.Web3.LogRange

namespace Stunks.Web3

open Bisection

inductive ScanResult
  | succeeded
  | rejected
  deriving DecidableEq

namespace AdaptiveLogWindow

def note (w : AdaptiveLogWindow) : ScanResult → AdaptiveLogWindow
  | .succeeded => w.onSuccess
  | .rejected => w.onRejected

def noteAll (w : AdaptiveLogWindow) (results : List ScanResult) : AdaptiveLogWindow :=
  results.foldl note w

def Recovers (limit : Nat) (w : AdaptiveLogWindow) : Prop :=
  ∃ n, (onRejected^[n] w).current ≤ limit

/-- Of rejections in a row, each narrows the window until it is down to `limit`. -/
def Narrows (limit : Nat) (w : AdaptiveLogWindow) : Prop :=
  ∀ n, limit < (onRejected^[n] w).current →
    (onRejected^[n + 1] w).current < (onRejected^[n] w).current

theorem Narrows.recovers {limit : Nat} {w : AdaptiveLogWindow} (h : w.Narrows limit) :
    w.Recovers limit :=
  exists_iterate_le w h

theorem not_recovers {limit : Nat} {w : AdaptiveLogWindow} (h : w.Overstated limit) :
    ¬ w.Recovers limit := by
  rintro ⟨n, hn⟩
  have hover := Function.Iterate.rec (Overstated limit) h (fun _ h => h.onRejected) n
  exact Nat.not_le.mpr hover.span hn

section Repeated

variable (w : AdaptiveLogWindow) (n : Nat)

@[simp] theorem iterate_onRejected_lastGood : (onRejected^[n] w).lastGood = w.lastGood :=
  congrFun (Function.iterate_invariant (f := onRejected) (g := lastGood) rfl n) w

@[simp] theorem iterate_onRejected_minSpan : (onRejected^[n] w).minSpan = w.minSpan :=
  congrFun (Function.iterate_invariant (f := onRejected) (g := minSpan) rfl n) w

@[simp] theorem iterate_onRejected_maxSpan : (onRejected^[n] w).maxSpan = w.maxSpan :=
  congrFun (Function.iterate_invariant (f := onRejected) (g := maxSpan) rfl n) w

end Repeated

theorem narrows_of_lastGood {limit : Nat} {w : AdaptiveLogWindow} (hmin : w.minSpan ≤ limit)
    (hgood : w.lastGood ≤ limit) : w.Narrows limit := by
  intro n hn
  rw [Function.iterate_succ_apply']
  exact onRejected_span_lt (by simpa using hmin) (by simpa using hgood) hn

theorem clamp_le_of_maxSpan {w : AdaptiveLogWindow} {limit : Nat} (hmin : w.minSpan ≤ limit)
    (hmax : w.maxSpan ≤ limit) (value : Nat) : w.clamp value ≤ limit := by
  unfold clamp
  split
  · exact hmin
  · split <;> omega

theorem narrows_of_maxSpan {limit : Nat} {w : AdaptiveLogWindow} (hmin : w.minSpan ≤ limit)
    (hmax : w.maxSpan ≤ limit) : w.Narrows limit := by
  intro n hn
  rw [Function.iterate_succ_apply']
  refine lt_of_le_of_lt ?_ hn
  exact clamp_le_of_maxSpan (by simpa using hmin) (by simpa using hmax) _

structure Floored (w : AdaptiveLogWindow) : Prop where
  span : min w.lastGood w.maxSpan ≤ w.span
  ceiling : ∀ ceiling, w.ceiling = some ceiling → min w.lastGood w.maxSpan ≤ ceiling

theorem le_clamp (w : AdaptiveLogWindow) (value : Nat) : min value w.maxSpan ≤ w.clamp value := by
  unfold clamp
  split
  · omega
  · split <;> omega

theorem Floored.create {initialSpan minSpan maxSpan : Nat} {w : AdaptiveLogWindow}
    (h : AdaptiveLogWindow.create initialSpan minSpan maxSpan = .ok w) : w.Floored := by
  obtain ⟨-, rfl⟩ := create_eq h
  exact ⟨by simp, fun ceiling hceiling => by cases hceiling⟩

theorem Floored.onRejected {w : AdaptiveLogWindow} (h : w.Floored) : w.onRejected.Floored := by
  have hc : min w.lastGood w.maxSpan ≤ w.rejectedCeiling := by
    unfold rejectedCeiling
    cases hw : w.ceiling with
    | none => exact h.span
    | some ceiling =>
      have := h.span
      have := h.ceiling ceiling hw
      simp only
      split <;> assumption
  refine ⟨?_, ?_⟩
  · have hclamp := w.le_clamp ((w.lastGood + w.rejectedCeiling) / 2)
    change min w.lastGood w.maxSpan ≤ w.clamp ((w.lastGood + w.rejectedCeiling) / 2)
    omega
  · intro ceiling hceiling
    exact Option.some.inj hceiling ▸ hc

theorem Floored.noteSuccess {w : AdaptiveLogWindow} (h : w.Floored) :
    min w.noteSuccess.lastGood w.maxSpan ≤ w.span ∧
      ∀ ceiling, w.noteSuccess.ceiling = some ceiling →
        min w.noteSuccess.lastGood w.maxSpan ≤ ceiling := by
  have hspan := h.span
  rw [noteSuccess_lastGood, noteSuccess_ceiling]
  refine ⟨by omega, ?_⟩
  intro ceiling hceiling
  obtain ⟨hw, hlt⟩ := Option.filter_eq_some_iff.mp hceiling
  have := h.ceiling ceiling hw
  have := of_decide_eq_true hlt
  omega

theorem Floored.onSuccess {w : AdaptiveLogWindow} (h : w.Floored) : w.onSuccess.Floored := by
  obtain ⟨hspan, hceiling⟩ := h.noteSuccess
  have hmax := w.noteSuccess_bounds.2
  have hclamp := w.noteSuccess.le_clamp
  cases hc : w.noteSuccess.ceiling with
  | none =>
    rw [onSuccess_of_none hc]
    refine ⟨?_, fun ceiling hsome => by simp [hc] at hsome⟩
    have := hclamp (w.span + w.span / 4 + 1)
    simp only
    omega
  | some ceiling =>
    have hbad := hceiling ceiling hc
    have hkept : ∀ bad, w.noteSuccess.ceiling = some bad →
        min w.noteSuccess.lastGood w.noteSuccess.maxSpan ≤ bad := by
      rw [hmax]
      exact hceiling
    rcases Nat.lt_or_ge (w.noteSuccess.lastGood + 1) ceiling with hgap | hgap
    · rw [onSuccess_of_lt hc hgap]
      refine ⟨?_, hkept⟩
      have := hclamp ((w.noteSuccess.lastGood + ceiling) / 2)
      simp only
      omega
    · rw [onSuccess_of_le hc hgap]
      refine ⟨?_, hkept⟩
      simp only
      refine le_trans (le_min ?_ (min_le_right ..)) (hclamp _)
      split <;> omega

theorem Floored.noteAll {w : AdaptiveLogWindow} (h : w.Floored) (results : List ScanResult) :
    (w.noteAll results).Floored := by
  induction results generalizing w with
  | nil => exact h
  | cons result results ih =>
    cases result with
    | succeeded => exact ih h.onSuccess
    | rejected => exact ih h.onRejected

theorem noteAll_bounds (w : AdaptiveLogWindow) (results : List ScanResult) :
    (w.noteAll results).minSpan = w.minSpan ∧ (w.noteAll results).maxSpan = w.maxSpan := by
  induction results generalizing w with
  | nil => exact ⟨rfl, rfl⟩
  | cons result results ih =>
    cases result with
    | succeeded =>
      obtain ⟨hmin, hmax⟩ := ih w.onSuccess
      obtain ⟨hmin', hmax'⟩ := w.onSuccess_bounds
      exact ⟨hmin.trans hmin', hmax.trans hmax'⟩
    | rejected => exact ih w.onRejected

theorem Floored.overstated {limit : Nat} {w : AdaptiveLogWindow} (h : w.Floored)
    (hgood : limit < w.lastGood) (hmax : limit < w.maxSpan) : w.Overstated limit where
  maxSpan := hmax
  lastGood := hgood
  span := (lt_min hgood hmax).trans_le h.span
  ceiling := fun ceiling hceiling => (lt_min hgood hmax).trans_le (h.ceiling ceiling hceiling)

/-- Rejections bring a window down to a new limit exactly when no wider span has been taken
for good: `lastGood` outlives the limit it was learned under. -/
theorem noteAll_recovers_iff {initialSpan minSpan maxSpan limit : Nat} {w : AdaptiveLogWindow}
    (hcreate : create initialSpan minSpan maxSpan = .ok w) (results : List ScanResult)
    (hlimit : minSpan ≤ limit) :
    let reached := w.noteAll results
    (reached.Recovers limit ↔ reached.lastGood ≤ limit ∨ reached.maxSpan ≤ limit) ∧
      (reached.Narrows limit ↔ reached.lastGood ≤ limit ∨ reached.maxSpan ≤ limit) := by
  intro reached
  have hmin : reached.minSpan ≤ limit := by
    obtain ⟨-, rfl⟩ := create_eq hcreate
    rw [(noteAll_bounds _ results).1]
    exact hlimit
  have hfloored : reached.Floored := (Floored.create hcreate).noteAll results
  have hcondition : reached.Recovers limit →
      reached.lastGood ≤ limit ∨ reached.maxSpan ≤ limit := by
    intro hrecovers
    by_contra hover
    push Not at hover
    exact not_recovers (hfloored.overstated hover.1 hover.2) hrecovers
  have hnarrows : reached.lastGood ≤ limit ∨ reached.maxSpan ≤ limit →
      reached.Narrows limit := by
    rintro (hgood | hmax)
    · exact narrows_of_lastGood hmin hgood
    · exact narrows_of_maxSpan hmin hmax
  exact ⟨⟨hcondition, fun h => (hnarrows h).recovers⟩,
    ⟨fun h => hcondition h.recovers, hnarrows⟩⟩

/-- The span that failed while it was the best one known is narrowed, and can be again. -/
theorem noteAll_recovers_hardLimit : ∃ w, create 100 10 10000 = .ok w ∧
    (w.noteAll [.succeeded, .rejected]).Recovers 100 ∧
      (w.noteAll [.succeeded, .rejected]).Narrows 100 := by
  have hcreate : create 100 10 10000 = .ok ⟨100, 0, none, 0, 10, 10000⟩ := rfl
  refine ⟨_, hcreate, ?_⟩
  obtain ⟨hrecovers, hnarrows⟩ :=
    noteAll_recovers_iff hcreate [.succeeded, .rejected] (by decide : 10 ≤ 100)
  exact ⟨hrecovers.mpr (by decide), hnarrows.mpr (by decide)⟩

/-- One scan of 100 blocks goes through, and the limit drops to 50. -/
theorem lowered_limit_not_recovers : ∃ w, create 100 10 10000 = .ok w ∧
    ¬ (w.noteAll [.succeeded]).Recovers 50 ∧ ¬ (w.noteAll [.succeeded]).Narrows 50 := by
  refine ⟨_, rfl, ?_⟩
  have hover : ¬ Recovers 50 (noteAll ⟨100, 0, none, 0, 10, 10000⟩ [.succeeded]) :=
    not_recovers ⟨by decide, by decide, by decide, fun ceiling hceiling => by cases hceiling⟩
  exact ⟨hover, fun h => hover h.recovers⟩

end AdaptiveLogWindow

end Stunks.Web3
