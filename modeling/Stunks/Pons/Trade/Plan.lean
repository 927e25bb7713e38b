import Stunks.Pons.Trade.Floors

namespace Stunks.Pons

open Utils ConstantProduct

theorem checkExempt_ok {exempt : List AddressText} {rs : List BundleRecipient}
    (h : checkExempt exempt rs = .ok ()) : ∀ x ∈ rs, toLowerCase x.address ∈ exempt := by
  induction rs with
  | nil => simp
  | cons x rs ih =>
    simp only [checkExempt] at h
    split at h
    · cases h
    rename_i hmem
    exact List.forall_mem_cons.mpr ⟨not_not.mp hmem, ih h⟩

namespace PlanBundleArgs

variable {args : PlanBundleArgs} {r : Reserves}

structure Expected (args : PlanBundleArgs) (r : Reserves) (rs : List BundleRecipient)
    (index : Nat) (plan : BundlePlan) : Prop where
  run : ∃ steps last, args.runBuys r (rs.map (·.amountIn)) = .ok (steps, last) ∧
    plan.buys.map (·.expectedOut) = steps.map (·.tokensOut)
  order : plan.buys.map (·.order) = List.range' index rs.length
  totalIn : plan.totalIn = (rs.map (·.amountIn)).sum
  totalExpectedOut : plan.totalExpectedOut = (plan.buys.map (·.expectedOut)).sum

theorem expected_of_ok {rs : List BundleRecipient} {index : Nat} {plan : BundlePlan}
    (h : args.expectedPass index r rs = .ok plan) : args.Expected r rs index plan := by
  induction rs generalizing index r plan with
  | nil =>
    cases h
    exact ⟨⟨[], r, rfl, rfl⟩, rfl, rfl, rfl⟩
  | cons x rs ih =>
    simp only [expectedPass] at h
    split at h
    · cases h
    · cases h
    · rename_i step hstep
      obtain ⟨later, hlater, h⟩ := bind_eq_ok.mp h
      cases h
      obtain ⟨⟨steps, last, hrun, houts⟩, horder, hin, hout⟩ := ih hlater
      refine ⟨⟨step :: steps, last, runBuys_cons hstep hrun, ?_⟩, ?_, ?_, ?_⟩
      · rw [List.map_cons, List.map_cons, houts]
      · rw [List.map_cons, horder, List.length_cons, List.range'_succ]
      · rw [List.map_cons, List.sum_cons, hin]
      · rw [List.map_cons, List.sum_cons, hout]

theorem runBuys_sum_le {a : Int} {as : List Int} {steps : List CurveBuyMathResult}
    {last : Reserves} (h : args.runBuys r (a :: as) = .ok (steps, last)) :
    (steps.map (·.tokensOut)).sum ≤ r.tokenReserve - args.reservedTokens := by
  induction as generalizing r a steps with
  | nil =>
    obtain ⟨step, steps', hstep, hrest, rfl⟩ := runBuys_cons_ok h
    cases hrest
    have hle : step.tokensOut ≤ r.tokenReserve - args.reservedTokens :=
      (CurveBuyMathInput.fills_of_ok hstep).tokensOut_le
    simpa using hle
  | cons b as ih =>
    obtain ⟨step, steps', hstep, hrest, rfl⟩ := runBuys_cons_ok h
    have hle : (steps'.map (·.tokensOut)).sum ≤
        r.tokenReserve - step.tokensOut - args.reservedTokens := ih hrest
    rw [List.map_cons, List.sum_cons]
    omega

theorem runBuys_fills (hm : args.Modellable) (hr : r.Positive) {as : List Int}
    (has : ∀ a ∈ as, 0 < a) {steps : List CurveBuyMathResult} {last : Reserves}
    (h : args.runBuys r as = .ok (steps, last)) :
    steps.map (·.tokensOut) = args.fills r.pricingQuoteReserve r.tokenReserve as := by
  rcases List.eq_nil_or_concat as with rfl | ⟨init, a, rfl⟩
  · cases h
    rfl
  · rw [List.concat_eq_append] at h has ⊢
    have hinit : ∀ x ∈ init, 0 < x := fun x hx => has x (List.mem_append_left _ hx)
    have ha : 0 < a := has a (by simp)
    obtain ⟨steps', last', hrun, houts⟩ :=
      runBuys_concat hm hr hinit ha (runBuys_restAll_lt hm hr hinit h)
    obtain ⟨rfl, -⟩ := Prod.mk.inj (Except.ok.inj (h.symm.trans hrun))
    exact houts

end PlanBundleArgs

theorem withFloors_same {args : PlanBundleArgs} {floors : List Int} {index : Nat}
    {buys out : List PlannedBuy} (h : args.withFloors floors index buys = .ok out) :
    out.map (·.expectedOut) = buys.map (·.expectedOut) ∧
      out.map (·.order) = buys.map (·.order) := by
  induction buys generalizing index out with
  | nil =>
    cases h
    exact ⟨rfl, rfl⟩
  | cons buy buys ih =>
    simp only [PlanBundleArgs.withFloors] at h
    obtain ⟨minOut, -, h⟩ := bind_eq_ok.mp h
    obtain ⟨later, hlater, h⟩ := bind_eq_ok.mp h
    cases h
    obtain ⟨hexpected, horder⟩ := ih hlater
    exact ⟨by rw [List.map_cons, List.map_cons, hexpected],
      by rw [List.map_cons, List.map_cons, horder]⟩

theorem checkExempt_of_priced {args : PlanBundleArgs} {expected : BundlePlan} {floors : List Int}
    (h : args.priced = .ok (expected, floors)) :
    checkExempt (args.exemptAddresses.map toLowerCase) args.recipients = .ok () := by
  simp only [PlanBundleArgs.priced] at h
  split at h
  · cases h
  split at h
  · cases h
  obtain ⟨_, -, h⟩ := bind_eq_ok.mp h
  obtain ⟨_, hexempt, -⟩ := bind_eq_ok.mp h
  exact hexempt

theorem expected_of_accepted {args : PlanBundleArgs} {plan : BundlePlan}
    (h : planBundle args = .ok (.ok plan)) :
    args.Expected args.reserves args.recipients 0 plan ∧
      ∀ x ∈ args.recipients, toLowerCase x.address ∈ args.exemptAddresses.map toLowerCase := by
  unfold planBundle at h
  split at h
  · cases h
  · rename_i expected floors hpriced
    obtain ⟨buys, hbuys, h⟩ := bind_eq_ok.mp h
    cases h
    obtain ⟨-, -, hexpected, -⟩ := priced_ok hpriced
    obtain ⟨⟨steps, last, hrun, houts⟩, horder, hin, hout⟩ :=
      PlanBundleArgs.expected_of_ok hexpected
    obtain ⟨hsame, hsameOrder⟩ := withFloors_same hbuys
    exact ⟨⟨⟨steps, last, hrun, hsame.trans houts⟩, hsameOrder.trans horder, hin,
      hsame ▸ hout⟩, checkExempt_ok (checkExempt_of_priced hpriced)⟩

namespace Accepted

variable {args : PlanBundleArgs} {plan : BundlePlan}

theorem othersOf_eq (h : Accepted args plan) {pre post : List PlannedBuy} {b : PlannedBuy}
    (heq : plan.buys = pre ++ b :: post) :
    args.othersOf b.toRecipient = (pre ++ post).map (·.toRecipient) := by
  have hdistinct := h.distinct
  rw [← h.recipients, heq, List.map_map, List.map_append, List.map_cons] at hdistinct
  have hfresh := (List.nodup_cons.mp ((List.nodup_middle).mp hdistinct)).1
  have hkeep : ∀ c ∈ pre ++ post, toLowerCase c.toRecipient.address ≠
      toLowerCase b.toRecipient.address := by
    intro c hc hsame
    rw [← List.map_append] at hfresh
    exact hfresh (List.mem_map.mpr ⟨c, hc, hsame⟩)
  have hfilter : ∀ {cs : List PlannedBuy}, (∀ c ∈ cs, c ∈ pre ++ post) →
      (cs.map (·.toRecipient)).filter (fun other =>
        toLowerCase other.address ≠ toLowerCase b.toRecipient.address) =
          cs.map (·.toRecipient) := by
    intro cs hcs
    refine List.filter_eq_self.mpr fun x hx => ?_
    obtain ⟨c, hc, rfl⟩ := List.mem_map.mp hx
    exact decide_eq_true (hkeep c (hcs c hc))
  rw [PlanBundleArgs.othersOf, ← h.recipients, heq, List.map_append, List.map_cons,
    List.filter_append, List.filter_cons_of_neg (by simp),
    hfilter fun c hc => List.mem_append_left _ hc,
    hfilter fun c hc => List.mem_append_right _ hc, List.map_append]

theorem otherNets_eq (h : Accepted args plan) {pre post : List PlannedBuy} {b : PlannedBuy}
    (heq : plan.buys = pre ++ b :: post) : args.otherNets b.toRecipient =
      (pre.map fun c => args.net c.amountIn) ++ post.map fun c => args.net c.amountIn := by
  rw [PlanBundleArgs.otherNets, h.othersOf_eq heq, List.map_map, List.map_append]
  rfl

/-- The floor of `b` is priced behind the buys before it and more: it is no more than what `b`
is filled with behind the ones before it. -/
theorem minOut_le_fill (h : Accepted args plan) {pre post : List PlannedBuy} {b : PlannedBuy}
    (heq : plan.buys = pre ++ b :: post) :
    let nets := pre.map fun c => args.net c.amountIn
    b.minOut ≤ args.fill (args.pricingQuoteReserve + nets.sum)
      (restAll args.pricingQuoteReserve args.tokenReserve nets) b.amountIn := by
  intro nets
  have hmem : ∀ c ∈ pre ++ b :: post, c ∈ plan.buys := fun c hc => heq ▸ hc
  have hb := hmem b (by simp)
  obtain ⟨floor, hfloor, hmin⟩ := h.floors b hb
  obtain ⟨hm, hr, rfl⟩ := PlanBundleArgs.worstCaseFloor_eq h.amounts (h.mem_recipients hb) hfloor
  have hpre : ∀ x ∈ nets, 0 ≤ x := h.nets_nonneg hm fun c hc => hmem c (List.mem_append_left _ hc)
  have hpost := h.nets_nonneg hm fun c hc =>
    hmem c (List.mem_append_right _ (List.mem_cons_of_mem _ hc))
  have hq := add_sum_pos hr.quote hpre
  have ht := restAll_pos hpre hr.quote hr.token
  have hothers := h.otherNets_eq heq
  have hplanned : args.plannedReserve b.toRecipient = restAll (args.pricingQuoteReserve + nets.sum)
      (restAll args.pricingQuoteReserve args.tokenReserve nets)
      (post.map fun c => args.net c.amountIn) := by
    rw [PlanBundleArgs.plannedReserve, hothers, restAll_append]
  have hsum : (args.otherNets b.toRecipient).sum = nets.sum +
      (post.map fun c => args.net c.amountIn).sum := by
    rw [hothers, List.sum_append]
  have hpostSum := List.sum_nonneg hpost
  calc b.minOut
      ≤ args.fillBehind b.toRecipient (args.plannedReserve b.toRecipient) :=
        applySlippageFloor_le hmin
    _ ≤ args.fill (args.pricingQuoteReserve + nets.sum)
          (restAll args.pricingQuoteReserve args.tokenReserve nets) b.amountIn := by
        refine PlanBundleArgs.fill_anti hm (h.amountIn_pos hb) hq (by omega) ?_ ?_
        · rw [hplanned]
          exact (restAll_pos hpost hq ht).le
        · rw [hplanned]
          exact restAll_le hpost hq ht

theorem minOut_le_expectedOut (h : Accepted args plan)
    (hexpected : args.Expected args.reserves args.recipients 0 plan) :
    ∀ b ∈ plan.buys, b.minOut ≤ b.expectedOut := by
  obtain ⟨steps, last, hrun, houts⟩ := hexpected.run
  have hamounts : args.recipients.map (·.amountIn) = plan.buys.map (·.amountIn) := by
    rw [← h.recipients, List.map_map]
    rfl
  intro b hb
  obtain ⟨hm, hr, -⟩ := h.minOut_eq hb
  have hfills := PlanBundleArgs.runBuys_fills hm hr (fun a ha => by
    obtain ⟨x, hx, rfl⟩ := List.mem_map.mp ha
    exact h.amounts x hx) hrun
  have hall : List.Forall₂ (fun (buy : PlannedBuy) filled => buy.minOut ≤ filled) plan.buys
      (plan.buys.map (·.expectedOut)) := by
    rw [houts, hfills, hamounts, PlanBundleArgs.fills_forall₂_iff]
    intro pre buy post heq
    exact h.minOut_le_fill heq
  have hself := List.forall₂_map_right_iff.mp hall
  exact List.forall₂_same.mp hself b hb

end Accepted

/-- What an accepted plan promises is what the curve can sell, and no floor is above it. -/
theorem planBundle_sound {args : PlanBundleArgs} {plan : BundlePlan}
    (h : planBundle args = .ok (.ok plan)) :
    (∀ b ∈ plan.buys, b.minOut ≤ b.expectedOut) ∧
      (plan.totalExpectedOut = (plan.buys.map (·.expectedOut)).sum ∧
        plan.totalExpectedOut ≤ args.tokenReserve - args.reservedTokens) ∧
      plan.totalIn = (args.recipients.map (·.amountIn)).sum ∧
      (plan.buys.map (·.toRecipient) = args.recipients ∧
        plan.buys.map (·.order) = List.range args.recipients.length) ∧
      (∀ b ∈ plan.buys, ∃ x ∈ args.exemptAddresses, toLowerCase x = toLowerCase b.recipient) ∧
      plan.buys.Pairwise fun b b' => toLowerCase b.recipient ≠ toLowerCase b'.recipient := by
  have hacc := accepted_of_ok h
  obtain ⟨hexpected, hexempt⟩ := expected_of_accepted h
  refine ⟨hacc.minOut_le_expectedOut hexpected, ⟨hexpected.totalExpectedOut, ?_⟩,
    hexpected.totalIn, ⟨hacc.recipients, ?_⟩, ?_, ?_⟩
  · obtain ⟨steps, last, hrun, houts⟩ := hexpected.run
    obtain ⟨x, rs, hrs⟩ := List.exists_cons_of_ne_nil hacc.nonempty
    rw [hrs, List.map_cons] at hrun
    rw [hexpected.totalExpectedOut, houts]
    exact PlanBundleArgs.runBuys_sum_le hrun
  · rw [hexpected.order, List.range_eq_range']
  · intro b hb
    exact List.mem_map.mp (hexempt _ (hacc.mem_recipients hb))
  · have hdistinct := hacc.distinct
    rw [← hacc.recipients, List.map_map] at hdistinct
    exact List.pairwise_map.mp hdistinct

theorem planBundle_sound_pair :
    (∀ b ∈ pairPlan.buys, b.minOut ≤ b.expectedOut) ∧
      (pairPlan.totalExpectedOut = (pairPlan.buys.map (·.expectedOut)).sum ∧
        pairPlan.totalExpectedOut ≤ pairArgs.tokenReserve - pairArgs.reservedTokens) ∧
      pairPlan.totalIn = (pairArgs.recipients.map (·.amountIn)).sum ∧
      (pairPlan.buys.map (·.toRecipient) = pairArgs.recipients ∧
        pairPlan.buys.map (·.order) = List.range pairArgs.recipients.length) ∧
      (∀ b ∈ pairPlan.buys, ∃ x ∈ pairArgs.exemptAddresses,
        toLowerCase x = toLowerCase b.recipient) ∧
      pairPlan.buys.Pairwise fun b b' => toLowerCase b.recipient ≠ toLowerCase b'.recipient :=
  planBundle_sound (by decide)

end Stunks.Pons
