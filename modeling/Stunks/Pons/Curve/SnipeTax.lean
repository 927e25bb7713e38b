import Mathlib.Algebra.Order.Group.Int

/-! `curve/snipe-tax.ts`: the decay of the tax, and when a quote has to be simulated. -/

namespace Stunks.Pons

def shiftSteps : Int := 14

/-- Local reimplementation of the decay.  `elapsedSeconds` counts from the curve's `launchedAt`. -/
def computeSnipeTaxBps (startBps windowSeconds elapsedSeconds : Int) (recipientExempt : Bool) :
    Int :=
  if recipientExempt then 0
  else if windowSeconds ≤ 0 then 0
  else if elapsedSeconds < 0 then startBps
  else if elapsedSeconds ≥ windowSeconds then 0
  else
    let shift := (elapsedSeconds * shiftSteps).tdiv windowSeconds
    if shift ≥ 256 then 0 else startBps >>> shift.toNat

def isWithinSnipeWindow (launchedAt windowSeconds nowSeconds : Int) : Bool :=
  let elapsed := nowSeconds - launchedAt
  0 ≤ elapsed && elapsed < windowSeconds

def requiresSimulation (launchedAt windowSeconds nowSeconds : Int) (recipientExempt : Bool) :
    Bool :=
  if recipientExempt then false else isWithinSnipeWindow launchedAt windowSeconds nowSeconds

section

variable {startBps windowSeconds launchedAt nowSeconds : Int} {recipientExempt : Bool}

theorem requiresSimulation_iff :
    requiresSimulation launchedAt windowSeconds nowSeconds recipientExempt = true ↔
      recipientExempt = false ∧ launchedAt ≤ nowSeconds ∧
        nowSeconds - launchedAt < windowSeconds := by
  cases recipientExempt <;> simp [requiresSimulation, isWithinSnipeWindow]

theorem computeSnipeTaxBps_of_behind (hwindow : 0 < windowSeconds)
    (hbehind : nowSeconds < launchedAt) :
    computeSnipeTaxBps startBps windowSeconds (nowSeconds - launchedAt) false = startBps := by
  rw [computeSnipeTaxBps, if_neg (by decide), if_neg (by omega), if_pos (by omega)]

theorem open_of_computeSnipeTaxBps_pos {elapsedSeconds : Int}
    (h : 0 < computeSnipeTaxBps startBps windowSeconds elapsedSeconds recipientExempt) :
    recipientExempt = false ∧ 0 < windowSeconds ∧ elapsedSeconds < windowSeconds := by
  unfold computeSnipeTaxBps at h
  split at h
  · omega
  rename_i hexempt
  split at h
  · omega
  rename_i hwindow
  refine ⟨Bool.not_eq_true _ ▸ hexempt, not_le.mp hwindow, ?_⟩
  split at h
  · omega
  split at h <;> omega

theorem requiresSimulation_of_taxed (hclock : launchedAt ≤ nowSeconds)
    (htax : 0 < computeSnipeTaxBps startBps windowSeconds (nowSeconds - launchedAt)
      recipientExempt) :
    requiresSimulation launchedAt windowSeconds nowSeconds recipientExempt = true :=
  have ⟨hexempt, _, hopen⟩ := open_of_computeSnipeTaxBps_pos htax
  requiresSimulation_iff.mpr ⟨hexempt, hclock, hopen⟩

/-- A tax that the decay charges is simulated, exactly if the clock is not behind the launch of
a curve that taxes. -/
theorem simulated_of_taxed_iff (hstart : 0 ≤ startBps) :
    (0 < computeSnipeTaxBps startBps windowSeconds (nowSeconds - launchedAt) recipientExempt →
        requiresSimulation launchedAt windowSeconds nowSeconds recipientExempt = true) ↔
      recipientExempt = true ∨ windowSeconds ≤ 0 ∨ startBps = 0 ∨ launchedAt ≤ nowSeconds := by
  constructor
  · intro h
    by_contra hno
    simp only [not_or, not_le, Bool.not_eq_true] at hno
    obtain ⟨rfl, hwindow, htaxes, hbehind⟩ := hno
    rw [computeSnipeTaxBps_of_behind hwindow hbehind] at h
    have hlaunched := (requiresSimulation_iff.mp (h (by omega))).2.1
    omega
  · intro h htax
    by_cases hclock : launchedAt ≤ nowSeconds
    · exact requiresSimulation_of_taxed hclock htax
    obtain ⟨rfl, hwindow, -⟩ := open_of_computeSnipeTaxBps_pos htax
    rw [computeSnipeTaxBps_of_behind hwindow (not_le.mp hclock)] at htax
    simp only [Bool.false_eq_true, false_or] at h
    omega

end

/-- One second into the window, on the launch's own rate. -/
theorem simulated_of_taxed_iff_open :
    (0 < computeSnipeTaxBps 9900 3 (101 - 100) false → requiresSimulation 100 3 101 false = true) ↔
      false = true ∨ (3 : Int) ≤ 0 ∨ (9900 : Int) = 0 ∨ (100 : Int) ≤ 101 :=
  simulated_of_taxed_iff (by decide)

/-- A clock one second behind the launch: the decay charges the full rate. -/
theorem clock_behind_not_simulated : ¬∀ startBps windowSeconds launchedAt nowSeconds : Int,
    ∀ recipientExempt : Bool, 0 ≤ startBps →
      0 < computeSnipeTaxBps startBps windowSeconds (nowSeconds - launchedAt) recipientExempt →
        requiresSimulation launchedAt windowSeconds nowSeconds recipientExempt = true :=
  fun h => absurd (h 9900 3 100 99 false (by decide) (by decide)) (by decide)

end Stunks.Pons
