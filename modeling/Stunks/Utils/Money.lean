import Mathlib.Algebra.Order.Group.Int
import Mathlib.Tactic.Linarith

/-! Integer money helpers.  A `bigint` is an `Int`, and its division truncates
toward zero and rejects a zero divisor. -/

namespace Stunks

inductive JsError
  | error (message : String)
  | money (message : String)
  | range (message : String)
  | snipeTaxNotModellable (feeBps creatorTaxBps snipeTaxBps : Int)
  deriving DecidableEq

def JsError.message : JsError → String
  | error message => message
  | money message => message
  | range message => message
  | snipeTaxNotModellable feeBps creatorTaxBps snipeTaxBps =>
    s!"Combined deductions exceed 100% (fee {feeBps} + creatorTax {creatorTaxBps} + " ++
      s!"snipeTax {snipeTaxBps} bps). Pons's behaviour in this regime is not verified, " ++
      "so this quote must come from eth_call simulation, not local math."

@[simp] theorem ok_bind {ε α β : Type} (a : α) (f : α → Except ε β) :
    (Except.ok a >>= f) = f a := rfl

@[simp] theorem error_bind {ε α β : Type} (e : ε) (f : α → Except ε β) :
    (Except.error e >>= f) = .error e := rfl

theorem bind_eq_ok {ε α β : Type} {x : Except ε α} {f : α → Except ε β} {b : β} :
    (x >>= f) = .ok b ↔ ∃ a, x = .ok a ∧ f a = .ok b := by
  cases x <;> simp

theorem map_eq_ok {ε α β : Type} {x : Except ε α} {f : α → β} {b : β} :
    x.map f = .ok b ↔ ∃ a, x = .ok a ∧ f a = b := by
  cases x <;> simp [Except.map]

def Returns {α : Type} (post : α → Prop) (x : Except JsError α) : Prop := ∃ a, x = .ok a ∧ post a

theorem Returns.ok {α : Type} {post : α → Prop} {a : α} (h : post a) : Returns post (.ok a) :=
  ⟨a, rfl, h⟩

theorem Returns.bind {α β : Type} {mid : α → Prop} {post : β → Prop} {x : Except JsError α}
    {f : α → Except JsError β} (hx : Returns mid x) (hf : ∀ a, mid a → Returns post (f a)) :
    Returns post (x >>= f) := by
  obtain ⟨a, rfl, ha⟩ := hx
  exact hf a ha

theorem Returns.imp {α : Type} {p q : α → Prop} {x : Except JsError α} (hx : Returns p x)
    (h : ∀ a, p a → q a) : Returns q x := by
  obtain ⟨a, ha, hp⟩ := hx
  exact ⟨a, ha, h a hp⟩

namespace Utils

def basisPoints : Int := 10000

/-- `bigint` division. -/
def divide (a b : Int) : Except JsError Int :=
  if b = 0 then .error (.range "Division by zero") else .ok (a.tdiv b)

def applyBps (amount bps : Int) : Except JsError Int :=
  if amount < 0 then .error (.money "applyBps: amount must be non-negative")
  else if bps < 0 then .error (.money "applyBps: bps must be non-negative")
  else divide (amount * bps) basisPoints

def subtractBps (amount bps : Int) : Except JsError Int := do
  return amount - (← applyBps amount bps)

def ceilDiv (numerator denominator : Int) : Except JsError Int :=
  if denominator = 0 then .error (.money "ceilDiv: division by zero")
  else if numerator = 0 then .ok 0
  else divide (numerator + denominator - 1) denominator

def mulDiv (x y d : Int) : Except JsError Int :=
  if d = 0 then .error (.money "mulDiv: division by zero") else divide (x * y) d

def ratioBps (part whole : Int) : Int :=
  if whole ≤ 0 then 0 else (part * basisPoints).tdiv whole

def bigintMin (a b : Int) : Int := if a < b then a else b

/-- A JavaScript number: the integer it is, if it is one, and how it prints. -/
structure JsNumber where
  integer : Option Int
  shown : String

def JsNumber.ofNat (n : Nat) : JsNumber where
  integer := some n
  shown := toString n

def JsNumber.ofInt (n : Int) : JsNumber where
  integer := some n
  shown := toString n

def slippageOutOfRange (slippageBps : JsNumber) : JsError :=
  .money s!"applySlippageFloor: slippageBps out of range: {slippageBps.shown}"

def applySlippageFloor (expectedOut : Int) (slippageBps : JsNumber) : Except JsError Int :=
  match slippageBps.integer with
  | none => .error (slippageOutOfRange slippageBps)
  | some bps =>
    if bps < 0 ∨ bps > 10000 then .error (slippageOutOfRange slippageBps)
    else subtractBps expectedOut bps

def share (amount bps : Int) : Int := amount * bps / basisPoints

theorem divide_of_nonneg {a b : Int} (ha : 0 ≤ a) (hb : 0 < b) : divide a b = .ok (a / b) := by
  rw [divide, if_neg (by omega), Int.tdiv_eq_ediv_of_nonneg ha]

theorem applyBps_of_nonneg {amount bps : Int} (ha : 0 ≤ amount) (hb : 0 ≤ bps) :
    applyBps amount bps = .ok (share amount bps) := by
  rw [applyBps, if_neg (by omega), if_neg (by omega)]
  exact divide_of_nonneg (mul_nonneg ha hb) (by decide)

theorem applyBps_ok {amount bps y : Int} (h : applyBps amount bps = .ok y) :
    0 ≤ amount ∧ 0 ≤ bps := by
  unfold applyBps at h
  split at h
  · cases h
  · split at h
    · cases h
    · omega

theorem share_nonneg {amount bps : Int} (ha : 0 ≤ amount) (hb : 0 ≤ bps) : 0 ≤ share amount bps :=
  Int.ediv_nonneg (mul_nonneg ha hb) (by decide)

theorem share_mul_le (amount bps : Int) : share amount bps * basisPoints ≤ amount * bps :=
  Int.ediv_mul_le _ (by decide)

theorem share_le {amount bps : Int} (ha : 0 ≤ amount) (hb : bps ≤ basisPoints) :
    share amount bps ≤ amount := by
  have h := share_mul_le amount bps
  have : amount * bps ≤ amount * basisPoints := by gcongr
  unfold basisPoints at *
  omega

theorem ceilDiv_of_pos {n d : Int} (hn : 0 < n) (hd : 0 < d) :
    ceilDiv n d = .ok ((n + d - 1) / d) := by
  rw [ceilDiv, if_neg (by omega), if_neg (by omega), divide_of_nonneg (by omega) hd]

theorem basisPoints_le_ratioBps {part whole : Int} (hwhole : 0 < whole) (h : whole ≤ part) :
    basisPoints ≤ ratioBps part whole := by
  have hmul : basisPoints * whole ≤ part * basisPoints := by
    rw [mul_comm]
    exact mul_le_mul_of_nonneg_right h (by decide)
  rw [ratioBps, if_neg (by omega),
    Int.tdiv_eq_ediv_of_nonneg (mul_nonneg (hwhole.le.trans h) (by decide))]
  exact Int.le_ediv_of_mul_le hwhole hmul

theorem bigintMin_cases (a b : Int) :
    (a < b ∧ bigintMin a b = a) ∨ (b ≤ a ∧ bigintMin a b = b) := by
  unfold bigintMin
  split
  · exact .inl ⟨‹_›, rfl⟩
  · exact .inr ⟨not_lt.mp ‹_›, rfl⟩

theorem applySlippageFloor_of_mem {expectedOut bps : Int} {slippageBps : JsNumber}
    (hbps : slippageBps.integer = some bps) (h : 0 ≤ expectedOut) (hlo : 0 ≤ bps)
    (hhi : bps ≤ 10000) :
    applySlippageFloor expectedOut slippageBps = .ok (expectedOut - share expectedOut bps) := by
  simp only [applySlippageFloor, hbps]
  rw [if_neg (by omega), subtractBps, applyBps_of_nonneg h hlo]
  rfl

theorem applySlippageFloor_le {expectedOut floor : Int} {slippageBps : JsNumber}
    (h : applySlippageFloor expectedOut slippageBps = .ok floor) : floor ≤ expectedOut := by
  unfold applySlippageFloor at h
  split at h
  · cases h
  split at h
  · cases h
  obtain ⟨y, hy, h⟩ := bind_eq_ok.mp h
  obtain ⟨hamount, hbps⟩ := applyBps_ok hy
  rw [applyBps_of_nonneg hamount hbps] at hy
  obtain rfl := Except.ok.inj hy
  obtain rfl := Except.ok.inj h
  have := share_nonneg hamount hbps
  omega

theorem applySlippageFloor_of_notMem (expectedOut : Int) {slippageBps : JsNumber}
    (h : ∀ bps, slippageBps.integer = some bps → bps < 0 ∨ 10000 < bps) :
    applySlippageFloor expectedOut slippageBps = .error (slippageOutOfRange slippageBps) := by
  unfold applySlippageFloor
  split
  · rfl
  · rename_i bps hbps
    exact if_pos (h bps hbps)

end Utils

end Stunks
