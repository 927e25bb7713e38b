import Stunks.Pons.Trade.Bundle

namespace Stunks.Pons

open Utils ConstantProduct

namespace PlanBundleArgs

variable {args : PlanBundleArgs} {r : Reserves}

structure Modellable (args : PlanBundleArgs) : Prop where
  feeBps : 0 ≤ args.feeBps
  creatorTaxBps : 0 ≤ args.creatorTaxBps
  total : args.feeBps + args.creatorTaxBps + 0 < basisPoints

def net (args : PlanBundleArgs) (amountIn : Int) : Int :=
  (args.buyInput args.reserves amountIn).netOf amountIn

def fill (args : PlanBundleArgs) (q t amountIn : Int) : Int :=
  min (t - args.reservedTokens) (out (args.net amountIn) q t)

theorem modellable_of_buy {a : Int} {step : CurveBuyMathResult} (h : args.buy r a = .ok step) :
    args.Modellable := by
  have hn := CurveBuyMathInput.nonNeg_of_ok h
  have hf := CurveBuyMathInput.fillable_of_ok h
  exact ⟨hn.feeBps, hn.creatorTaxBps, hf.tax⟩

theorem net_pos (hm : args.Modellable) {a : Int} (ha : 0 < a) : 0 < args.net a :=
  CurveBuyMathInput.netOf_pos
    (show (args.buyInput args.reserves a).totalTaxBps < basisPoints from hm.total) ha

theorem lt_of_buy {a : Int} {step : CurveBuyMathResult} (h : args.buy r a = .ok step) :
    args.reservedTokens < r.tokenReserve := (CurveBuyMathInput.fillable_of_ok h).sellable

theorem buy_eq (hm : args.Modellable) (hr : r.Positive) {a : Int} (ha : 0 < a)
    (hlt : args.reservedTokens < r.tokenReserve) : ∃ step, args.buy r a = .ok step ∧
      step.tokensOut = args.fill r.pricingQuoteReserve r.tokenReserve a ∧
      let z := rest (args.net a) r.pricingQuoteReserve r.tokenReserve
      (args.reservedTokens ≤ z → r.afterBuy step = ⟨r.pricingQuoteReserve + args.net a, z⟩) ∧
        (z < args.reservedTokens → (r.afterBuy step).tokenReserve = args.reservedTokens) := by
  have hn : (args.buyInput r a).NonNeg := ⟨hm.feeBps, hm.creatorTaxBps, le_rfl⟩
  have hf : (args.buyInput r a).Fillable := ⟨ha, hm.total, hr.quote, hr.token, hlt⟩
  have heq := CurveBuyMathInput.computeCurveBuy_eq hn hf
  have hsell : (args.buyInput r a).sellable = r.tokenReserve - args.reservedTokens := rfl
  have hout : (args.buyInput r a).unclampedOut =
    out (args.net a) r.pricingQuoteReserve r.tokenReserve := rfl
  rw [hsell, hout] at heq
  split at heq
  · rename_i hc
    refine ⟨_, heq, (min_eq_left hc.le).symm, fun hz => ?_, fun _ => ?_⟩
    · unfold rest at hz
      omega
    · simp only [Reserves.afterBuy, CurveBuyMathInput.filled]
      omega
  · rename_i hc
    refine ⟨_, heq, (min_eq_right (not_lt.mp hc)).symm, fun _ => rfl, fun hz => ?_⟩
    unfold rest at hz
    omega

def fills (args : PlanBundleArgs) : Int → Int → List Int → List Int
  | _, _, [] => []
  | q, t, a :: as => args.fill q t a :: args.fills (q + args.net a) (rest (args.net a) q t) as

theorem runBuys_cons_ok {a : Int} {as : List Int} {steps : List CurveBuyMathResult}
    {last : Reserves} (h : args.runBuys r (a :: as) = .ok (steps, last)) :
    ∃ step steps', args.buy r a = .ok step ∧
      args.runBuys (r.afterBuy step) as = .ok (steps', last) ∧ steps = step :: steps' := by
  obtain ⟨step, hstep, h⟩ := bind_eq_ok.mp h
  obtain ⟨⟨steps', last'⟩, hrest, h⟩ := bind_eq_ok.mp h
  cases h
  exact ⟨step, steps', hstep, hrest, rfl⟩

theorem runBuys_cons {a : Int} {as : List Int} {step : CurveBuyMathResult}
    {steps : List CurveBuyMathResult} {last : Reserves} (hstep : args.buy r a = .ok step)
    (hrest : args.runBuys (r.afterBuy step) as = .ok (steps, last)) :
    args.runBuys r (a :: as) = .ok (step :: steps, last) := by
  simp only [runBuys, hstep, hrest, ok_bind]
  rfl

theorem nets_nonneg (hm : args.Modellable) {as : List Int} (has : ∀ a ∈ as, 0 < a) :
    ∀ x ∈ as.map args.net, 0 ≤ x := by
  intro x hx
  obtain ⟨a, ha, rfl⟩ := List.mem_map.mp hx
  exact (net_pos hm (has a ha)).le

theorem runBuys_eq (hm : args.Modellable) (hr : r.Positive) {as : List Int}
    (has : ∀ a ∈ as, 0 < a)
    (hlt : args.reservedTokens <
      restAll r.pricingQuoteReserve r.tokenReserve (as.map args.net)) :
    ∃ steps, args.runBuys r as = .ok (steps, ⟨r.pricingQuoteReserve + (as.map args.net).sum,
        restAll r.pricingQuoteReserve r.tokenReserve (as.map args.net)⟩) ∧
      steps.map (·.tokensOut) = args.fills r.pricingQuoteReserve r.tokenReserve as := by
  induction as generalizing r with
  | nil =>
    refine ⟨[], ?_, rfl⟩
    simp [runBuys]
  | cons a as ih =>
    have ha := has a List.mem_cons_self
    have htail : ∀ b ∈ as, 0 < b := fun b hb => has b (List.mem_cons_of_mem _ hb)
    have hnet := net_pos hm ha
    have hpos := rest_pos hnet.le hr.quote hr.token
    have hle : restAll (r.pricingQuoteReserve + args.net a)
        (rest (args.net a) r.pricingQuoteReserve r.tokenReserve) (as.map args.net) ≤
        rest (args.net a) r.pricingQuoteReserve r.tokenReserve :=
      restAll_le (nets_nonneg hm htail) (add_pos hr.quote hnet) hpos
    have hrest := rest_le hnet.le hr.quote hr.token.le
    simp only [List.map_cons, restAll] at hlt
    obtain ⟨step, hstep, hout, hfull, -⟩ := buy_eq hm hr ha (by omega)
    have hafter := hfull (by omega)
    obtain ⟨steps, hsteps, houts⟩ :=
      ih (r := r.afterBuy step) (hafter ▸ ⟨add_pos hr.quote hnet, hpos⟩)
      htail (by rw [hafter]; exact hlt)
    refine ⟨step :: steps, runBuys_cons hstep ?_, ?_⟩
    · rw [hsteps, hafter]
      simp only [List.map_cons, List.sum_cons, restAll, add_assoc]
    · rw [List.map_cons, hout, houts, hafter]
      rfl

theorem runBuys_append {as bs : List Int} {steps steps' : List CurveBuyMathResult}
    {mid last : Reserves} (has : args.runBuys r as = .ok (steps, mid))
    (hbs : args.runBuys mid bs = .ok (steps', last)) :
    args.runBuys r (as ++ bs) = .ok (steps ++ steps', last) := by
  induction as generalizing r steps with
  | nil =>
    cases has
    exact hbs
  | cons a as ih =>
    obtain ⟨step, steps'', hstep, hrest, rfl⟩ := runBuys_cons_ok has
    exact runBuys_cons hstep (ih hrest)

theorem runBuys_lt {a : Int} {as : List Int} {steps : List CurveBuyMathResult} {last : Reserves}
    (h : args.runBuys r (as ++ [a]) = .ok (steps, last)) :
    args.reservedTokens < r.tokenReserve := by
  cases as with
  | nil =>
    obtain ⟨step, _, hstep, -⟩ := runBuys_cons_ok h
    exact lt_of_buy hstep
  | cons b as =>
    obtain ⟨step, _, hstep, -⟩ := runBuys_cons_ok h
    exact lt_of_buy hstep

/-- Only the last buy of a run can be clamped: one that is leaves nothing for the next. -/
theorem runBuys_restAll_lt (hm : args.Modellable) (hr : r.Positive) {a : Int} {as : List Int}
    (has : ∀ a ∈ as, 0 < a) {steps : List CurveBuyMathResult} {last : Reserves}
    (h : args.runBuys r (as ++ [a]) = .ok (steps, last)) :
    args.reservedTokens < restAll r.pricingQuoteReserve r.tokenReserve (as.map args.net) := by
  induction as generalizing r steps with
  | nil => exact runBuys_lt h
  | cons b as ih =>
    have hb := has b List.mem_cons_self
    have hnet := net_pos hm hb
    obtain ⟨step, steps', hstep, hrest, -⟩ := runBuys_cons_ok h
    obtain ⟨step', hstep', -, hfull, hclamped⟩ := buy_eq hm hr hb (lt_of_buy hstep)
    obtain rfl : step = step' := Except.ok.inj (hstep.symm.trans hstep')
    have hnext := runBuys_lt hrest
    have hafter := hfull (by
      by_contra hz
      have := hclamped (not_le.mp hz)
      omega)
    rw [hafter] at hrest
    exact ih ⟨add_pos hr.quote hnet, rest_pos hnet.le hr.quote hr.token⟩
      (fun c hc => has c (List.mem_cons_of_mem _ hc)) hrest

theorem fills_append (q t : Int) (as bs : List Int) :
    args.fills q t (as ++ bs) = args.fills q t as ++
      args.fills (q + (as.map args.net).sum) (restAll q t (as.map args.net)) bs := by
  induction as generalizing q t with
  | nil => simp [fills]
  | cons a as ih =>
    simp only [List.cons_append, fills, ih, List.map_cons, List.sum_cons, restAll, add_assoc]

theorem runBuys_concat (hm : args.Modellable) (hr : r.Positive) {a : Int} {as : List Int}
    (has : ∀ a ∈ as, 0 < a) (ha : 0 < a)
    (hlt : args.reservedTokens <
      restAll r.pricingQuoteReserve r.tokenReserve (as.map args.net)) :
    ∃ steps last, args.runBuys r (as ++ [a]) = .ok (steps, last) ∧
      steps.map (·.tokensOut) = args.fills r.pricingQuoteReserve r.tokenReserve (as ++ [a]) := by
  obtain ⟨steps, hsteps, houts⟩ := runBuys_eq hm hr has hlt
  have hnets := nets_nonneg hm has
  obtain ⟨step, hstep, hout, -⟩ := buy_eq hm
    (r := ⟨_, restAll r.pricingQuoteReserve r.tokenReserve (as.map args.net)⟩)
    ⟨add_sum_pos hr.quote hnets, restAll_pos hnets hr.quote hr.token⟩ ha hlt
  refine ⟨steps ++ [step], _, runBuys_append hsteps (runBuys_cons hstep rfl), ?_⟩
  rw [List.map_append, houts, fills_append, List.map_singleton, hout]
  rfl

theorem fill_anti (hm : args.Modellable) {a q q' t t' : Int} (ha : 0 < a) (hq : 0 < q)
    (hqq : q ≤ q') (ht' : 0 ≤ t') (htt : t' ≤ t) : args.fill q' t' a ≤ args.fill q t a :=
  min_le_min (by omega) (out_mono_reserves (net_pos hm ha).le hq hqq ht' htt)

end PlanBundleArgs

def PlannedBuy.toRecipient (buy : PlannedBuy) : BundleRecipient where
  address := buy.recipient
  amountIn := buy.amountIn

structure Accepted (args : PlanBundleArgs) (plan : BundlePlan) : Prop where
  nonempty : args.recipients ≠ []
  amounts : ∀ x ∈ args.recipients, 0 < x.amountIn
  distinct : (args.recipients.map fun x => toLowerCase x.address).Nodup
  recipients : plan.buys.map (·.toRecipient) = args.recipients
  floors : ∀ b ∈ plan.buys, ∃ floor, args.worstCaseFloor b.toRecipient = .ok floor ∧
    applySlippageFloor floor args.slippageBps = .ok b.minOut

theorem checkRecipients_ok {seen : List AddressText} {rs : List BundleRecipient}
    (h : checkRecipients seen rs = .ok ()) :
    (∀ x ∈ rs, 0 < x.amountIn) ∧ (rs.map fun x => toLowerCase x.address).Nodup ∧
      ∀ x ∈ rs, toLowerCase x.address ∉ seen := by
  induction rs generalizing seen with
  | nil => simp
  | cons x rs ih =>
    simp only [checkRecipients] at h
    split at h
    · cases h
    rename_i hfresh
    split at h
    · cases h
    rename_i hamount
    obtain ⟨hamounts, hnodup, hseen⟩ := ih h
    refine ⟨?_, ?_, ?_⟩
    · exact List.forall_mem_cons.mpr ⟨by omega, hamounts⟩
    · refine List.nodup_cons.mpr ⟨?_, hnodup⟩
      intro hmem
      obtain ⟨y, hy, heq⟩ := List.mem_map.mp hmem
      exact hseen y hy (heq ▸ List.mem_cons_self)
    · refine List.forall_mem_cons.mpr ⟨hfresh, fun y hy hmem => ?_⟩
      exact hseen y hy (List.mem_cons_of_mem _ hmem)

theorem expectedPass_ok {args : PlanBundleArgs} {rs : List BundleRecipient} {n : Nat}
    {r : Reserves} {plan : BundlePlan} (h : args.expectedPass n r rs = .ok plan) :
    plan.buys.map (·.toRecipient) = rs := by
  induction rs generalizing n r plan with
  | nil =>
    cases h
    rfl
  | cons x rs ih =>
    simp only [PlanBundleArgs.expectedPass] at h
    split at h
    · cases h
    · cases h
    · obtain ⟨later, hlater, h⟩ := bind_eq_ok.mp h
      cases h
      simp only [List.map_cons, ih hlater]
      rfl

theorem mapM_forall₂ {α β ε : Type} {f : α → Except ε β} {as : List α} {bs : List β}
    (h : as.mapM f = .ok bs) : List.Forall₂ (fun a b => f a = .ok b) as bs := by
  induction as generalizing bs with
  | nil =>
    cases h
    exact .nil
  | cons a as ih =>
    rw [List.mapM_cons] at h
    obtain ⟨b, hb, h⟩ := bind_eq_ok.mp h
    obtain ⟨bs', hbs, h⟩ := bind_eq_ok.mp h
    cases h
    exact .cons hb (ih hbs)

theorem withFloors_ok {args : PlanBundleArgs} {pre fs : List Int} {buys out : List PlannedBuy}
    {P : BundleRecipient → Int → Prop} (h : args.withFloors (pre ++ fs) pre.length buys = .ok out)
    (hfs : List.Forall₂ P (buys.map (·.toRecipient)) fs) :
    out.map (·.toRecipient) = buys.map (·.toRecipient) ∧
      ∀ b ∈ out, ∃ floor, P b.toRecipient floor ∧
        applySlippageFloor floor args.slippageBps = .ok b.minOut := by
  induction buys generalizing pre fs out with
  | nil =>
    cases h
    simp
  | cons buy buys ih =>
    cases hfs with
    | cons hhead htail =>
      rename_i f fs
      simp only [PlanBundleArgs.withFloors] at h
      obtain ⟨minOut, hmin, h⟩ := bind_eq_ok.mp h
      obtain ⟨later, hlater, h⟩ := bind_eq_ok.mp h
      cases h
      rw [show pre ++ f :: fs = (pre ++ [f]) ++ fs by simp,
        show pre.length + 1 = (pre ++ [f]).length by simp] at hlater
      obtain ⟨hmap, hfloors⟩ := ih hlater htail
      refine ⟨by rw [List.map_cons, List.map_cons, hmap]; rfl,
        List.forall_mem_cons.mpr ⟨?_, hfloors⟩⟩
      exact ⟨f, hhead, by simpa using hmin⟩

theorem priced_ok {args : PlanBundleArgs} {expected : BundlePlan} {floors : List Int}
    (h : args.priced = .ok (expected, floors)) : args.recipients ≠ [] ∧
      checkRecipients [] args.recipients = .ok () ∧
      args.expectedPass 0 args.reserves args.recipients = .ok expected ∧
      args.worstCaseFloors = .ok floors := by
  simp only [PlanBundleArgs.priced] at h
  split at h
  · cases h
  rename_i hne
  split at h
  · cases h
  obtain ⟨_, hrecipients, h⟩ := bind_eq_ok.mp h
  obtain ⟨_, -, h⟩ := bind_eq_ok.mp h
  obtain ⟨_, hexpected, h⟩ := bind_eq_ok.mp h
  obtain ⟨_, hfloors, h⟩ := bind_eq_ok.mp h
  cases h
  exact ⟨mt List.length_eq_zero_iff.mpr hne, hrecipients, hexpected, hfloors⟩

theorem accepted_of_ok {args : PlanBundleArgs} {plan : BundlePlan}
    (h : planBundle args = .ok (.ok plan)) : Accepted args plan := by
  unfold planBundle at h
  split at h
  · cases h
  · rename_i expected floors hpriced
    obtain ⟨buys, hbuys, h⟩ := bind_eq_ok.mp h
    cases h
    obtain ⟨hne, hrecipients, hexpected, hfloors⟩ := priced_ok hpriced
    obtain ⟨hamounts, hnodup, -⟩ := checkRecipients_ok hrecipients
    have hmap := expectedPass_ok hexpected
    have hbuys' : args.withFloors ([] ++ floors) ([] : List Int).length expected.buys = .ok buys :=
      hbuys
    obtain ⟨hsame, hfloor⟩ := withFloors_ok hbuys' (hmap ▸ mapM_forall₂ hfloors)
    exact ⟨hne, hamounts, hnodup, hsame.trans hmap, hfloor⟩

/-- Executed in this order, every buy lands and yields its own `minOut`. -/
def MeetsFloors (args : PlanBundleArgs) (order : List PlannedBuy) : Prop :=
  ∃ steps last, args.runBuys args.reserves (order.map (·.amountIn)) = .ok (steps, last) ∧
    List.Forall₂ (fun buy step => buy.minOut ≤ step.tokensOut) order steps

namespace PlanBundleArgs

def otherNets (args : PlanBundleArgs) (target : BundleRecipient) : List Int :=
  (args.othersOf target).map fun other => args.net other.amountIn

def plannedReserve (args : PlanBundleArgs) (target : BundleRecipient) : Int :=
  restAll args.pricingQuoteReserve args.tokenReserve (args.otherNets target)

/-- The lowest that any order of the other buys can leave. -/
def worstReserve (args : PlanBundleArgs) (target : BundleRecipient) : Int :=
  lowest args.pricingQuoteReserve args.tokenReserve (args.otherNets target)

def fillBehind (args : PlanBundleArgs) (target : BundleRecipient) (t : Int) : Int :=
  args.fill (args.pricingQuoteReserve + (args.otherNets target).sum) t target.amountIn

/-- The worst order sells `target` something, and costs it no more than its slippage. -/
structure RoundsWithin (args : PlanBundleArgs) (target : BundleRecipient) : Prop where
  sellable : args.reservedTokens < args.worstReserve target
  slippage : args.fillBehind target (args.plannedReserve target)
    - args.fillBehind target (args.worstReserve target)
      ≤ share (args.fillBehind target (args.plannedReserve target))
        (args.slippageBps.integer.getD 0)

variable {args : PlanBundleArgs}

theorem runBuys_domain {r : Reserves} {a : Int} {as : List Int} {steps : List CurveBuyMathResult}
    {last : Reserves} (h : args.runBuys r (as ++ [a]) = .ok (steps, last)) :
    args.Modellable ∧ r.Positive := by
  have hfirst : ∀ {b bs steps}, args.runBuys r (b :: bs) = .ok (steps, last) →
      args.Modellable ∧ r.Positive := by
    intro b bs steps h
    obtain ⟨step, _, hstep, -⟩ := runBuys_cons_ok h
    have hf := CurveBuyMathInput.fillable_of_ok hstep
    exact ⟨modellable_of_buy hstep, hf.quote, hf.token⟩
  cases as with
  | nil => exact hfirst h
  | cons b as => exact hfirst h

theorem worstCaseFloor_eq {target : BundleRecipient} {floor : Int}
    (hamounts : ∀ x ∈ args.recipients, 0 < x.amountIn) (ht : target ∈ args.recipients)
    (h : args.worstCaseFloor target = .ok floor) : args.Modellable ∧ args.reserves.Positive ∧
      floor = args.fillBehind target (args.plannedReserve target) := by
  unfold worstCaseFloor at h
  split at h
  · cases h
  rename_i steps reserves hothers
  split at h
  · cases h
  rename_i step hstep
  cases h
  have hlast : args.runBuys (reserves.afterBuy step) [] = .ok ([], reserves.afterBuy step) := rfl
  have hrun := runBuys_append hothers (runBuys_cons hstep hlast)
  have hpos : ∀ a ∈ (args.othersOf target).map (·.amountIn), 0 < a := by
    intro a ha
    obtain ⟨x, hx, rfl⟩ := List.mem_map.mp ha
    exact hamounts x (List.mem_filter.mp hx).1
  obtain ⟨hm, hr⟩ := runBuys_domain hrun
  have hlt := runBuys_restAll_lt hm hr hpos hrun
  obtain ⟨steps', hsteps', -⟩ := runBuys_eq hm hr hpos hlt
  obtain ⟨-, rfl⟩ := Prod.mk.inj (Except.ok.inj (hothers.symm.trans hsteps'))
  have hnets := nets_nonneg hm hpos
  have hbehind : Reserves.Positive ⟨_, restAll args.reserves.pricingQuoteReserve
      args.reserves.tokenReserve (((args.othersOf target).map (·.amountIn)).map args.net)⟩ :=
    ⟨add_sum_pos hr.quote hnets, restAll_pos hnets hr.quote hr.token⟩
  obtain ⟨step', hstep', hout, -⟩ := buy_eq hm hbehind (hamounts target ht) hlt
  obtain rfl := Except.ok.inj (hstep.symm.trans hstep')
  refine ⟨hm, hr, ?_⟩
  rw [hout, fillBehind, plannedReserve, otherNets, List.map_map]
  rfl

theorem fills_forall₂_iff {q t : Int} {order : List PlannedBuy} :
    List.Forall₂ (fun buy filled => buy.minOut ≤ filled) order
        (args.fills q t (order.map (·.amountIn))) ↔
      ∀ pre buy post, order = pre ++ buy :: post →
        let nets := pre.map fun b => args.net b.amountIn
        buy.minOut ≤ args.fill (q + nets.sum) (restAll q t nets) buy.amountIn := by
  induction order generalizing q t with
  | nil => simp [fills]
  | cons b order ih =>
    rw [List.map_cons, fills, List.forall₂_cons, ih]
    constructor
    · rintro ⟨hhead, htail⟩ pre buy post heq
      cases pre with
      | nil =>
        obtain ⟨rfl, rfl⟩ := List.cons.inj heq
        simpa using hhead
      | cons c pre =>
        obtain ⟨rfl, hrest⟩ := List.cons.inj heq
        simpa [restAll, add_assoc] using htail pre buy post hrest
    · intro h
      refine ⟨by simpa using h [] b order rfl, fun pre buy post heq => ?_⟩
      simpa [restAll, add_assoc] using h (b :: pre) buy post (by rw [heq]; rfl)

end PlanBundleArgs

namespace Accepted

variable {args : PlanBundleArgs} {plan : BundlePlan}

theorem mem_recipients (h : Accepted args plan) {b : PlannedBuy} (hb : b ∈ plan.buys) :
    b.toRecipient ∈ args.recipients := h.recipients ▸ List.mem_map_of_mem hb

theorem minOut_eq (h : Accepted args plan) {b : PlannedBuy} (hb : b ∈ plan.buys) :
    args.Modellable ∧ args.reserves.Positive ∧
      let planned := args.fillBehind b.toRecipient (args.plannedReserve b.toRecipient)
      b.minOut = planned - share planned (args.slippageBps.integer.getD 0) := by
  obtain ⟨floor, hfloor, hmin⟩ := h.floors b hb
  obtain ⟨hm, hr, rfl⟩ := PlanBundleArgs.worstCaseFloor_eq h.amounts (h.mem_recipients hb) hfloor
  refine ⟨hm, hr, ?_⟩
  unfold applySlippageFloor at hmin
  split at hmin
  · cases hmin
  · rename_i bps hbps
    split at hmin
    · cases hmin
    obtain ⟨y, hy, hmin⟩ := bind_eq_ok.mp hmin
    obtain ⟨hnn, hbps0⟩ := applyBps_ok hy
    rw [applyBps_of_nonneg hnn hbps0] at hy
    obtain rfl := Except.ok.inj hy
    obtain hmin := Except.ok.inj hmin
    rw [hbps, Option.getD_some, ← hmin]

theorem othersOf_perm (h : Accepted args plan) {pre post : List PlannedBuy} {b : PlannedBuy}
    (hperm : (pre ++ b :: post).Perm plan.buys) :
    (args.othersOf b.toRecipient).Perm ((pre ++ post).map (·.toRecipient)) := by
  have hrec : args.recipients.Perm (b.toRecipient :: (pre ++ post).map (·.toRecipient)) := by
    rw [← h.recipients]
    exact ((List.perm_middle.symm.trans hperm).map _).symm
  have hnodup := (hrec.map fun x => toLowerCase x.address).nodup_iff.mp h.distinct
  have hfresh := (List.nodup_cons.mp hnodup).1
  have hfilter := hrec.filter fun other =>
    toLowerCase other.address ≠ toLowerCase b.toRecipient.address
  have hkeep : ((pre ++ post).map (·.toRecipient)).filter (fun other =>
      toLowerCase other.address ≠ toLowerCase b.toRecipient.address) =
        (pre ++ post).map (·.toRecipient) := by
    refine List.filter_eq_self.mpr fun x hx => decide_eq_true fun heq => hfresh ?_
    exact List.mem_map.mpr ⟨x, hx, heq⟩
  rw [List.filter_cons_of_neg (by simp), hkeep] at hfilter
  exact hfilter

theorem otherNets_perm (h : Accepted args plan) {pre post : List PlannedBuy} {b : PlannedBuy}
    (hperm : (pre ++ b :: post).Perm plan.buys) :
    (args.otherNets b.toRecipient).Perm ((pre ++ post).map fun c => args.net c.amountIn) := by
  have := (h.othersOf_perm hperm).map fun x => args.net x.amountIn
  rwa [List.map_map] at this

theorem amountIn_pos (h : Accepted args plan) {b : PlannedBuy} (hb : b ∈ plan.buys) :
    0 < b.amountIn := h.amounts _ (h.mem_recipients hb)

theorem nets_nonneg (h : Accepted args plan) (hm : args.Modellable) {bs : List PlannedBuy}
    (hbs : ∀ b ∈ bs, b ∈ plan.buys) : ∀ x ∈ bs.map fun b => args.net b.amountIn, 0 ≤ x := by
  intro x hx
  obtain ⟨b, hb, rfl⟩ := List.mem_map.mp hx
  exact (PlanBundleArgs.net_pos hm (h.amountIn_pos (hbs b hb))).le

theorem worstReserve_le (h : Accepted args plan) (hm : args.Modellable)
    (hr : args.reserves.Positive)
    {pre post : List PlannedBuy} {b : PlannedBuy} (hperm : (pre ++ b :: post).Perm plan.buys) :
    args.worstReserve b.toRecipient ≤ restAll args.pricingQuoteReserve args.tokenReserve
      (pre.map fun c => args.net c.amountIn) := by
  have hmem : ∀ c ∈ pre ++ b :: post, c ∈ plan.buys := fun c hc => hperm.mem_iff.mp hc
  have hpre := h.nets_nonneg hm fun c hc => hmem c (List.mem_append_left _ hc)
  have hpost := h.nets_nonneg hm fun c hc =>
    hmem c (List.mem_append_right _ (List.mem_cons_of_mem _ hc))
  calc args.worstReserve b.toRecipient
      ≤ restAll args.pricingQuoteReserve args.tokenReserve
          ((pre ++ post).map fun c => args.net c.amountIn) :=
        (lowest_spec _ _ _).2 _ (h.otherNets_perm hperm).symm
    _ ≤ restAll args.pricingQuoteReserve args.tokenReserve
          (pre.map fun c => args.net c.amountIn) := by
        rw [List.map_append, restAll_append]
        exact restAll_le hpost (add_sum_pos hr.quote hpre) (restAll_pos hpre hr.quote hr.token)

theorem worstReserve_pos (h : Accepted args plan) (hm : args.Modellable)
    (hr : args.reserves.Positive) {b : PlannedBuy} (hb : b ∈ plan.buys) :
    0 < args.worstReserve b.toRecipient := by
  obtain ⟨pre, post, heq⟩ := List.append_of_mem hb
  obtain ⟨⟨ys, hys, hlow⟩, -⟩ := lowest_spec args.pricingQuoteReserve args.tokenReserve
    (args.otherNets b.toRecipient)
  rw [PlanBundleArgs.worstReserve, ← hlow]
  have hsplit : (pre ++ b :: post).Perm plan.buys := by rw [heq]
  refine restAll_pos (fun x hx => ?_) hr.quote hr.token
  have hx' := (hys.trans (h.otherNets_perm hsplit)).mem_iff.mp hx
  refine h.nets_nonneg hm (fun c hc => ?_) x hx'
  rw [heq]
  simp only [List.mem_append, List.mem_cons] at hc ⊢
  tauto

/-- Behind any of the others a buy is filled at least as well as behind all of them. -/
theorem fillBehind_le (h : Accepted args plan) (hm : args.Modellable) (hr : args.reserves.Positive)
    {pre post : List PlannedBuy} {b : PlannedBuy} (hperm : (pre ++ b :: post).Perm plan.buys) :
    args.fillBehind b.toRecipient (args.worstReserve b.toRecipient) ≤
      let nets := pre.map fun c => args.net c.amountIn
      args.fill (args.pricingQuoteReserve + nets.sum)
        (restAll args.pricingQuoteReserve args.tokenReserve nets) b.amountIn := by
  have hmem : ∀ c ∈ pre ++ b :: post, c ∈ plan.buys := fun c hc => hperm.mem_iff.mp hc
  have hb := hmem b (by simp)
  have hpre := h.nets_nonneg hm fun c hc => hmem c (List.mem_append_left _ hc)
  have hpost := List.sum_nonneg (h.nets_nonneg hm fun c hc =>
    hmem c (List.mem_append_right _ (List.mem_cons_of_mem _ hc)))
  have hsum := (h.otherNets_perm hperm).sum_eq
  rw [List.map_append, List.sum_append] at hsum
  exact PlanBundleArgs.fill_anti hm (h.amountIn_pos hb) (add_sum_pos hr.quote hpre) (by omega)
    (h.worstReserve_pos hm hr hb).le (h.worstReserve_le hm hr hperm)

theorem order_runs (h : Accepted args plan) {order : List PlannedBuy}
    (hperm : order.Perm plan.buys)
    (hsell : ∀ b ∈ plan.buys, args.reservedTokens < args.worstReserve b.toRecipient) :
    ∃ steps last, args.runBuys args.reserves (order.map (·.amountIn)) = .ok (steps, last) ∧
      steps.map (·.tokensOut) =
        args.fills args.pricingQuoteReserve args.tokenReserve (order.map (·.amountIn)) := by
  rcases List.eq_nil_or_concat order with rfl | ⟨init, b, rfl⟩
  · have hnil : plan.buys = [] := List.nil_perm.mp hperm
    have := h.nonempty
    rw [← h.recipients, hnil] at this
    exact absurd rfl this
  · rw [List.concat_eq_append] at hperm ⊢
    have hmem : ∀ c ∈ init ++ [b], c ∈ plan.buys := fun c hc => hperm.mem_iff.mp hc
    have hb := hmem b (by simp)
    obtain ⟨hm, hr, -⟩ := h.minOut_eq hb
    have hle := h.worstReserve_le hm hr hperm
    rw [List.map_append, List.map_singleton]
    refine PlanBundleArgs.runBuys_concat hm hr (fun a ha => ?_) (h.amountIn_pos hb) ?_
    · obtain ⟨c, hc, rfl⟩ := List.mem_map.mp ha
      exact h.amountIn_pos (hmem c (List.mem_append_left _ hc))
    · rw [List.map_map]
      exact (hsell b hb).trans_le hle

theorem exists_worst_order (h : Accepted args plan) {b : PlannedBuy} (hb : b ∈ plan.buys) :
    ∃ init : List PlannedBuy, (init ++ [b]).Perm plan.buys ∧
      restAll args.pricingQuoteReserve args.tokenReserve
        (init.map fun c => args.net c.amountIn) = args.worstReserve b.toRecipient := by
  obtain ⟨pre, post, heq⟩ := List.append_of_mem hb
  have hsplit : (pre ++ b :: post).Perm plan.buys := by rw [heq]
  obtain ⟨⟨ys, hys, hlow⟩, -⟩ := lowest_spec args.pricingQuoteReserve args.tokenReserve
    (args.otherNets b.toRecipient)
  obtain ⟨init, rfl, hinit⟩ := (congrFun (congrFun (List.eq_map_comp_perm _) _) _).mpr
    (hys.trans (h.otherNets_perm hsplit))
  refine ⟨init, ?_, hlow⟩
  calc (init ++ [b]).Perm (b :: init) := List.perm_append_singleton b init
    _ |>.Perm (b :: (pre ++ post)) := hinit.cons b
    _ |>.Perm (pre ++ b :: post) := List.perm_middle.symm
    _ |>.Perm plan.buys := hsplit

theorem roundsWithin_of_meets (h : Accepted args plan) {b : PlannedBuy} (hb : b ∈ plan.buys)
    (hall : ∀ order, order.Perm plan.buys → MeetsFloors args order) :
    args.RoundsWithin b.toRecipient := by
  obtain ⟨hm, hr, hmin⟩ := h.minOut_eq hb
  obtain ⟨init, hperm, hworst⟩ := h.exists_worst_order hb
  obtain ⟨steps, last, hrun, hmeets⟩ := hall _ hperm
  have hmem : ∀ c ∈ init ++ [b], c ∈ plan.buys := fun c hc => hperm.mem_iff.mp hc
  have hpos : ∀ a ∈ init.map (·.amountIn), 0 < a := by
    intro a ha
    obtain ⟨c, hc, rfl⟩ := List.mem_map.mp ha
    exact h.amountIn_pos (hmem c (List.mem_append_left _ hc))
  rw [List.map_append, List.map_singleton] at hrun
  have hlt := PlanBundleArgs.runBuys_restAll_lt hm hr hpos hrun
  obtain ⟨steps', last', hrun', houts⟩ :=
    PlanBundleArgs.runBuys_concat hm hr hpos (h.amountIn_pos hb) hlt
  obtain ⟨rfl, -⟩ := Prod.mk.inj (Except.ok.inj (hrun.symm.trans hrun'))
  rw [List.map_map] at hlt
  have hfills := List.forall₂_map_right_iff.mpr hmeets
  have hamounts : (init ++ [b]).map (·.amountIn) = init.map (·.amountIn) ++ [b.amountIn] := by simp
  rw [houts, ← hamounts, PlanBundleArgs.fills_forall₂_iff] at hfills
  have hlast := hfills init b [] rfl
  have hothers := h.otherNets_perm hperm
  rw [List.append_nil] at hothers
  have hsum := hothers.sum_eq
  have hreserves : restAll args.reserves.pricingQuoteReserve args.reserves.tokenReserve
      (init.map fun c => args.net c.amountIn) = args.worstReserve b.toRecipient := hworst
  simp only at hlast hmin
  rw [hreserves] at hlast
  refine ⟨hreserves ▸ hlt, ?_⟩
  have hbehind : args.fillBehind b.toRecipient (args.worstReserve b.toRecipient) =
      args.fill (args.reserves.pricingQuoteReserve + (init.map fun c => args.net c.amountIn).sum)
        (args.worstReserve b.toRecipient) b.amountIn := by
    rw [PlanBundleArgs.fillBehind, hsum]
    rfl
  omega

end Accepted

/-- Every order of an accepted bundle meets its floors exactly when each recipient's worst
order still sells it something and costs it no more than its slippage. -/
theorem every_order_meets_iff {args : PlanBundleArgs} {plan : BundlePlan}
    (h : planBundle args = .ok (.ok plan)) :
    (∀ order, order.Perm plan.buys → MeetsFloors args order) ↔
      ∀ target ∈ args.recipients, args.RoundsWithin target := by
  have hacc := accepted_of_ok h
  constructor
  · intro hall target ht
    rw [← hacc.recipients] at ht
    obtain ⟨b, hb, rfl⟩ := List.mem_map.mp ht
    exact hacc.roundsWithin_of_meets hb hall
  · intro hrounds order hperm
    have hround : ∀ b ∈ plan.buys, args.RoundsWithin b.toRecipient :=
      fun b hb => hrounds _ (hacc.mem_recipients hb)
    obtain ⟨steps, last, hrun, houts⟩ := hacc.order_runs hperm fun b hb => (hround b hb).sellable
    refine ⟨steps, last, hrun, ?_⟩
    have hfills : List.Forall₂ (fun buy filled => buy.minOut ≤ filled) order
        (steps.map (·.tokensOut)) := by
      rw [houts, PlanBundleArgs.fills_forall₂_iff]
      intro pre b post heq
      have hsplit : (pre ++ b :: post).Perm plan.buys := heq ▸ hperm
      have hb := hsplit.mem_iff.mp (by simp : b ∈ pre ++ b :: post)
      obtain ⟨hm, hr, hmin⟩ := hacc.minOut_eq hb
      have hslip := (hround b hb).slippage
      have hfill := hacc.fillBehind_le hm hr hsplit
      simp only at hmin hfill ⊢
      omega
    exact List.forall₂_map_right_iff.mp hfills

def pairArgs : PlanBundleArgs where
  recipients := [{ address := ['0', 'x', 'a'], amountIn := 200 },
    { address := ['0', 'x', 'b'], amountIn := 300 }]
  pricingQuoteReserve := 1000
  tokenReserve := 100000
  reservedTokens := 1000
  feeBps := 100
  creatorTaxBps := 100
  slippageBps := .ofNat 500
  exemptAddresses := [['0', 'x', 'A'], ['0', 'x', 'B']]

def pairPlan : BundlePlan where
  buys := [
    { recipient := ['0', 'x', 'a'], amountIn := 200, order := 0
      expectedOut := 16387, minOut := 9657 },
    { recipient := ['0', 'x', 'b'], amountIn := 300, order := 1
      expectedOut := 16498, minOut := 15674 }]
  totalIn := 500
  totalExpectedOut := 32885
  warnings := []

theorem every_order_meets_iff_pair :
    (∀ order, order.Perm pairPlan.buys → MeetsFloors pairArgs order) ↔
      ∀ target ∈ pairArgs.recipients, pairArgs.RoundsWithin target :=
  every_order_meets_iff (by decide)

def launchArgs : PlanBundleArgs where
  recipients := [{ address := ['0', 'x', 'a'], amountIn := 290000000000000000 },
    { address := ['0', 'x', 'b'], amountIn := 330000000000000000 },
    { address := ['0', 'x', 'c'], amountIn := 70000000000000000 }]
  pricingQuoteReserve := 1680000000000000000
  tokenReserve := 1000000000000000000000000000
  reservedTokens := 285714285714285714285714285
  feeBps := 100
  creatorTaxBps := 100
  slippageBps := .ofNat 0
  exemptAddresses := [['0', 'x', 'a'], ['0', 'x', 'b'], ['0', 'x', 'c']]

def launchBuys : List PlannedBuy := [
  { recipient := ['0', 'x', 'a'], amountIn := 290000000000000000, order := 0
    expectedOut := 144689950106913756236635780, minOut := 97798333092450739509563039 },
  { recipient := ['0', 'x', 'b'], amountIn := 330000000000000000, order := 1
    expectedOut := 120915925046085019773156141, minOut := 113433803273375465888834872 },
  { recipient := ['0', 'x', 'c'], amountIn := 70000000000000000, order := 2
    expectedOut := 21381647128641152688960306, minOut := 21381647128641152688960306 }]

def launchPlan : BundlePlan where
  buys := launchBuys
  totalIn := 690000000000000000
  totalExpectedOut := 286987522281639928698752227
  warnings := []

/-- In the reverse order the first wallet gets one token unit less than its floor. -/
theorem launch_reversed_misses : planBundle launchArgs = .ok (.ok launchPlan) ∧
    launchBuys.reverse.Perm launchPlan.buys ∧ ¬MeetsFloors launchArgs launchBuys.reverse := by
  refine ⟨by decide, List.reverse_perm _, ?_⟩
  rintro ⟨steps, last, hrun, hmeets⟩
  have hout : (launchArgs.runBuys launchArgs.reserves (launchBuys.reverse.map (·.amountIn))).map
      (fun p => p.1.map (·.tokensOut)) = .ok [39231385108086469175340272,
        149957804081102720013848917, 97798333092450739509563038] := by decide
  rw [hrun] at hout
  have hsteps : steps.map (·.tokensOut) = _ := Except.ok.inj hout
  have hfills : List.Forall₂ (fun (buy : PlannedBuy) filled => buy.minOut ≤ filled)
      launchBuys.reverse (steps.map (·.tokensOut)) := List.forall₂_map_right_iff.mpr hmeets
  rw [hsteps] at hfills
  simp [launchBuys] at hfills

end Stunks.Pons
