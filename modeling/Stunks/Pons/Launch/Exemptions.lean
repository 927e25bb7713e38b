import Stunks.Pons.Trade.Bundle
import Stunks.Utils.Text

/-! `launch/exemptions.ts`: the snipe-tax exemptions of a launch, which are written once. -/

namespace Stunks.Pons

structure ViemAddress where
  isAddress : AddressText → Bool
  getAddress : AddressText → AddressText

def isHexDigit (c : Char) : Bool :=
  c.isDigit || ('a' ≤ c && c ≤ 'f') || ('A' ≤ c && c ≤ 'F')

/-- `/^0x[a-fA-F0-9]{40}$/` -/
def isHexAddress (text : AddressText) : Bool :=
  text.take 2 = ['0', 'x'] && (text.drop 2).length = 40 &&
    (text.drop 2).all isHexDigit

/-- What its documentation says of them: an address is a hex text, and its checksum is a way of
writing it that depends on its digits alone, which is itself an address. -/
structure ViemAddress.Documented (viem : ViemAddress) : Prop where
  hex : ∀ {text}, viem.isAddress text = true → isHexAddress text = true
  case : ∀ {text}, viem.isAddress text = true →
    toLowerCase (viem.getAddress text) = toLowerCase text
  checksum : ∀ {text}, viem.isAddress text = true → viem.isAddress (viem.getAddress text) = true
  digits : ∀ {text text'}, viem.isAddress text = true → viem.isAddress text' = true →
    toLowerCase text = toLowerCase text' → viem.getAddress text = viem.getAddress text'

def zeroAddress : AddressText := '0' :: 'x' :: List.replicate 40 '0'

def maxDeclarableSnipeExemptions : Nat := 31

def maxSnipeExemptionsOnChain : Nat := 32

theorem isSpace_of_isHexDigit {c : Char} (h : isHexDigit c = true) : Pattern.isSpace c = false := by
  simp only [isHexDigit, Bool.or_eq_true, Bool.and_eq_true, Char.isDigit_iff_toNat,
    decide_eq_true_eq, Char.le_def, UInt32.le_iff_toNat_le] at h
  have hval : c.val.toNat = c.toNat := rfl
  simp only [Char.isValue, Char.reduceToNat, Char.reduceVal, UInt32.reduceToNat] at h
  exact isSpace_of_visible (by omega) (by omega)

structure ExemptionValidationInput where
  addresses : List AddressText
  deployer : AddressText
  creatorFeeRecipient : Option AddressText

structure ExemptionValidationResult where
  addresses : List AddressText
  errors : List String
  warnings : List String
  slotsUsed : Nat
  slotsRemaining : Int

local instance : LawfulBEq AddressText := inferInstance

structure Exemptions where
  errors : List String
  warnings : List String
  normalised : List AddressText
  seen : List AddressText

def ExemptionValidationInput.autoExempt (input : ExemptionValidationInput) : List AddressText :=
  match input.creatorFeeRecipient with
  | none => [toLowerCase input.deployer]
  | some recipient =>
    if recipient ≠ [] ∧ toLowerCase recipient ≠ toLowerCase input.deployer then
      [toLowerCase input.deployer, toLowerCase recipient]
    else [toLowerCase input.deployer]

def Exemptions.entry (viem : ViemAddress) (autoExempt : List AddressText) (s : Exemptions) :
    AddressText × Nat → Exemptions
  | (raw, index) =>
    let trimmed := trim raw
    if trimmed = [] then s
    else if viem.isAddress trimmed = false then
      let shown := String.ofList trimmed
      { s with errors := s.errors ++ [s!"Entry {index + 1} is not a valid address: {shown}"] }
    else
      let checksummed := viem.getAddress trimmed
      let lower := toLowerCase checksummed
      let shown := String.ofList checksummed
      if lower = toLowerCase zeroAddress then
        { s with errors := s.errors ++
          [s!"Entry {index + 1} is the zero address, which cannot receive tokens."] }
      else if lower ∈ s.seen then
        { s with warnings := s.warnings ++
          [s!"{shown} appears more than once; the duplicate was removed."] }
      else if lower ∈ autoExempt then
        { s with warnings := s.warnings ++
          [s!"{shown} is exempted automatically as the launching wallet, so it does " ++
            "not need a slot. It was removed to free one."] }
      else
        { s with seen := s.seen ++ [lower], normalised := s.normalised ++ [checksummed] }

def Exemptions.run (viem : ViemAddress) (autoExempt entries : List AddressText) : Exemptions :=
  entries.zipIdx.foldl (Exemptions.entry viem autoExempt) ⟨[], [], [], []⟩

def tooManyExemptions (declared : Nat) : String :=
  let excess := declared - maxDeclarableSnipeExemptions
  s!"{declared} addresses is more than Pons allows. You can declare at most " ++
    s!"{maxDeclarableSnipeExemptions}: the protocol ceiling is " ++
    s!"{maxSnipeExemptionsOnChain} and the launch router reserves one slot for the " ++
    s!"buy recipient. Remove {excess} " ++
    "address(es). This limit is checked on-chain only after the launch fee is taken, " ++
    "so exceeding it would cost you the fee."

def validateSnipeExemptions (viem : ViemAddress) (input : ExemptionValidationInput) :
    ExemptionValidationResult :=
  let s := Exemptions.run viem input.autoExempt input.addresses
  let declared := s.normalised.length
  { addresses := s.normalised
    errors := s.errors ++
      if declared > maxDeclarableSnipeExemptions then [tooManyExemptions declared] else []
    warnings := s.warnings
    slotsUsed := declared
    slotsRemaining := max 0 ((maxDeclarableSnipeExemptions : Int) - declared) }

def ViemAddress.usable (viem : ViemAddress) (text : AddressText) : Bool :=
  viem.isAddress text && toLowerCase text ≠ zeroAddress

/-- The checksums of the usable entries, in the order they were typed. -/
def ViemAddress.candidates (viem : ViemAddress) (entries : List AddressText) : List AddressText :=
  ((entries.map trim).filter viem.usable).map viem.getAddress

def ViemAddress.declared (viem : ViemAddress) (autoExempt entries : List AddressText) :
    List AddressText :=
  (viem.candidates entries).filter fun address => toLowerCase address ∉ autoExempt

theorem toLowerCase_zeroAddress : toLowerCase zeroAddress = zeroAddress := by decide

theorem eraseDups_concat (as : List AddressText) (b : AddressText) : (as ++ [b]).eraseDups =
    if b ∈ as then as.eraseDups else as.eraseDups ++ [b] := by
  rw [List.eraseDups_append]
  by_cases hb : b ∈ as
  · simp [List.removeAll, hb]
  · simp [List.removeAll, hb, List.eraseDups_cons]

theorem eraseDups_of_nodup {as : List AddressText} (h : as.Nodup) : as.eraseDups = as := by
  induction as using List.reverseRecOn with
  | nil => rfl
  | append_singleton as b ih =>
    obtain ⟨has, -, hdisjoint⟩ := List.nodup_append.mp h
    rw [eraseDups_concat, if_neg fun hb => hdisjoint b hb b (List.mem_singleton_self b) rfl, ih has]

theorem nodup_eraseDups (as : List AddressText) : as.eraseDups.Nodup := by
  induction as using List.reverseRecOn with
  | nil => exact List.nodup_nil
  | append_singleton as b ih =>
    rw [eraseDups_concat]
    split
    · exact ih
    · rename_i hb
      refine List.nodup_append.mpr ⟨ih, List.nodup_singleton b, ?_⟩
      rintro a ha b' hb' rfl
      obtain rfl := List.mem_singleton.mp hb'
      exact hb (List.mem_eraseDups.mp ha)

section Concat

variable {viem : ViemAddress} {autoExempt entries : List AddressText} {raw : AddressText}

theorem candidates_concat_of_not (h : viem.usable (trim raw) = false) :
    viem.candidates (entries ++ [raw]) = viem.candidates entries := by
  simp [ViemAddress.candidates, List.filter_append, h]

theorem candidates_concat (h : viem.usable (trim raw) = true) :
    viem.candidates (entries ++ [raw]) =
      viem.candidates entries ++ [viem.getAddress (trim raw)] := by
  simp [ViemAddress.candidates, List.filter_append, h]

theorem declared_concat (h : viem.usable (trim raw) = true) :
    viem.declared autoExempt (entries ++ [raw]) = viem.declared autoExempt entries ++
      if toLowerCase (viem.getAddress (trim raw)) ∈ autoExempt then []
      else [viem.getAddress (trim raw)] := by
  rw [ViemAddress.declared, candidates_concat h, List.filter_append, ViemAddress.declared,
    List.filter_singleton]
  by_cases hauto : toLowerCase (viem.getAddress (trim raw)) ∈ autoExempt
  · simp [hauto]
  · simp [hauto]

structure Exemptions.Entered (viem : ViemAddress) (autoExempt entries : List AddressText)
    (s : Exemptions) : Prop where
  seen : s.seen = s.normalised.map toLowerCase
  normalised : s.normalised = (viem.declared autoExempt entries).eraseDups
  errors : s.errors = [] ↔ ∀ raw ∈ entries, trim raw ≠ [] → viem.usable (trim raw) = true
  warnings : s.warnings = [] ↔ (viem.candidates entries).Nodup ∧
    ∀ address ∈ viem.candidates entries, toLowerCase address ∉ autoExempt

theorem Exemptions.Entered.refused {s : Exemptions}
    (h : s.Entered viem autoExempt entries) (hraw : viem.usable (trim raw) = false)
    {errors : List String}
    (herrors : errors = [] ↔ s.errors = [] ∧ trim raw = []) :
    { s with errors := errors }.Entered viem autoExempt (entries ++ [raw]) where
  seen := h.seen
  normalised := by rw [ViemAddress.declared, candidates_concat_of_not hraw, h.normalised,
    ViemAddress.declared]
  errors := by
    rw [herrors, h.errors]
    simp [or_imp, forall_and, hraw]
  warnings := by rw [candidates_concat_of_not hraw, h.warnings]

theorem Exemptions.Entered.warned {s : Exemptions} (h : s.Entered viem autoExempt entries)
    (hraw : viem.usable (trim raw) = true) (warning : String)
    (hslot : viem.getAddress (trim raw) ∈ viem.declared autoExempt entries ∨
      toLowerCase (viem.getAddress (trim raw)) ∈ autoExempt) :
    { s with warnings := s.warnings ++ [warning] }.Entered viem autoExempt (entries ++ [raw]) where
  seen := h.seen
  normalised := by
    rw [declared_concat hraw]
    split
    · rw [List.append_nil, h.normalised]
    · rename_i hauto
      rw [eraseDups_concat, if_pos (hslot.resolve_right hauto), h.normalised]
  errors := by
    rw [h.errors]
    simp [or_imp, forall_and, hraw]
  warnings := by
    rw [candidates_concat hraw]
    refine iff_of_false (by simp) fun ⟨hnodup, hnone⟩ => ?_
    rcases hslot with hdeclared | hauto
    · exact (List.nodup_append.mp hnodup).2.2 _ (List.mem_of_mem_filter hdeclared) _
        (List.mem_singleton_self _) rfl
    · exact hnone _ (by simp) hauto

theorem Exemptions.Entered.added {s : Exemptions} (h : s.Entered viem autoExempt entries)
    (hraw : viem.usable (trim raw) = true)
    (hnew : viem.getAddress (trim raw) ∉ viem.declared autoExempt entries)
    (hauto : toLowerCase (viem.getAddress (trim raw)) ∉ autoExempt) :
    { s with
      seen := s.seen ++ [toLowerCase (viem.getAddress (trim raw))]
      normalised := s.normalised ++ [viem.getAddress (trim raw)] }.Entered
      viem autoExempt (entries ++ [raw]) where
  seen := by rw [h.seen, List.map_append, List.map_singleton]
  normalised := by
    rw [declared_concat hraw, if_neg hauto, eraseDups_concat, if_neg hnew, h.normalised]
  errors := by
    rw [h.errors]
    simp [or_imp, forall_and, hraw]
  warnings := by
    rw [h.warnings, candidates_concat hraw, List.nodup_append]
    constructor
    · rintro ⟨hnodup, hnone⟩
      refine ⟨⟨hnodup, by simp, ?_⟩, by simpa [or_imp, forall_and, hauto] using hnone⟩
      rintro a ha b hb rfl
      obtain rfl := List.mem_singleton.mp hb
      exact hnew (List.mem_filter.mpr ⟨ha, by simpa using hauto⟩)
    · rintro ⟨⟨hnodup, -, -⟩, hnone⟩
      exact ⟨hnodup, fun address haddress => hnone address (List.mem_append_left _ haddress)⟩

end Concat

section Documented

variable {viem : ViemAddress} (hviem : viem.Documented) {autoExempt entries : List AddressText}

include hviem

theorem ne_nil_of_isAddress {text : AddressText} (h : viem.isAddress text = true) : text ≠ [] := by
  rintro rfl
  exact absurd (hviem.hex h) (by decide)

theorem usable_nil : viem.usable [] = false := by
  rw [ViemAddress.usable, Bool.and_eq_false_iff]
  exact .inl (Bool.eq_false_iff.mpr fun haddress => ne_nil_of_isAddress hviem haddress rfl)

theorem getAddress_inj {text text' : AddressText} (h : viem.isAddress text = true)
    (h' : viem.isAddress text' = true)
    (hlower : toLowerCase (viem.getAddress text) = toLowerCase (viem.getAddress text')) :
    viem.getAddress text = viem.getAddress text' := by
  rw [hviem.case h, hviem.case h'] at hlower
  exact hviem.digits h h' hlower

theorem usable_iff {text : AddressText} : viem.usable text = true ↔
    viem.isAddress text = true ∧ toLowerCase (viem.getAddress text) ≠ zeroAddress := by
  rw [ViemAddress.usable, Bool.and_eq_true, decide_eq_true_eq]
  exact and_congr_right fun h => by rw [hviem.case h]

theorem exists_of_mem_candidates {address : AddressText} (h : address ∈ viem.candidates entries) :
    ∃ text, viem.isAddress text = true ∧ viem.getAddress text = address ∧
      toLowerCase address ≠ zeroAddress := by
  obtain ⟨text, htext, rfl⟩ := List.mem_map.mp h
  obtain ⟨haddress, hzero⟩ := (usable_iff hviem).mp (List.mem_filter.mp htext).2
  exact ⟨text, haddress, rfl, hzero⟩

theorem mem_seen_iff {s : Exemptions} (h : s.Entered viem autoExempt entries) {text : AddressText}
    (htext : viem.isAddress text = true) : toLowerCase (viem.getAddress text) ∈ s.seen ↔
      viem.getAddress text ∈ viem.declared autoExempt entries := by
  rw [h.seen, h.normalised, List.mem_map]
  constructor
  · rintro ⟨address, haddress, hlower⟩
    rw [List.mem_eraseDups] at haddress
    obtain ⟨text', htext', rfl, -⟩ :=
      exists_of_mem_candidates hviem (List.mem_of_mem_filter haddress)
    rwa [← getAddress_inj hviem htext' htext hlower]
  · exact fun hmem => ⟨_, List.mem_eraseDups.mpr hmem, rfl⟩

theorem entered_entry {s : Exemptions} (h : s.Entered viem autoExempt entries) (raw : AddressText)
    (index : Nat) :
    (s.entry viem autoExempt (raw, index)).Entered viem autoExempt (entries ++ [raw]) := by
  simp only [Exemptions.entry]
  split
  · rename_i hblank
    exact h.refused (by rw [hblank, usable_nil hviem]) (by simp [hblank])
  rename_i hblank
  split
  · rename_i hinvalid
    exact h.refused (by simp [ViemAddress.usable, hinvalid]) (by simp [hblank])
  rename_i hvalid
  have haddress : viem.isAddress (trim raw) = true := by simpa using hvalid
  rw [toLowerCase_zeroAddress]
  split
  · rename_i hzero
    have hraw : viem.usable (trim raw) = false :=
      Bool.eq_false_iff.mpr fun husable => ((usable_iff hviem).mp husable).2 hzero
    exact h.refused hraw (by simp [hblank])
  rename_i hzero
  have hraw : viem.usable (trim raw) = true := (usable_iff hviem).mpr ⟨haddress, hzero⟩
  have hseen := mem_seen_iff hviem h haddress
  split
  · rename_i hmem
    exact h.warned hraw _ (.inl (hseen.mp hmem))
  rename_i hnew
  split
  · rename_i hauto
    exact h.warned hraw _ (.inr hauto)
  · rename_i hauto
    exact h.added hraw (fun hmem => hnew (hseen.mpr hmem)) hauto

theorem entered_run (autoExempt entries : List AddressText) :
    (Exemptions.run viem autoExempt entries).Entered viem autoExempt entries := by
  induction entries using List.reverseRecOn with
  | nil => exact ⟨rfl, rfl, by simp [Exemptions.run], by simp [Exemptions.run, ViemAddress.candidates]⟩
  | append_singleton entries raw ih =>
    rw [Exemptions.run, List.zipIdx_append, List.foldl_append]
    exact entered_entry hviem ih raw _

theorem addresses_eq (input : ExemptionValidationInput) :
    (validateSnipeExemptions viem input).addresses =
      (viem.declared input.autoExempt input.addresses).eraseDups :=
  (entered_run hviem input.autoExempt input.addresses).normalised

theorem errors_eq_nil_iff (input : ExemptionValidationInput) :
    (validateSnipeExemptions viem input).errors = [] ↔
      (∀ raw ∈ input.addresses, trim raw ≠ [] → viem.usable (trim raw) = true) ∧
        (validateSnipeExemptions viem input).addresses.length ≤ maxDeclarableSnipeExemptions := by
  rw [← (entered_run hviem input.autoExempt input.addresses).errors]
  simp [validateSnipeExemptions]

theorem warnings_eq_nil_iff (input : ExemptionValidationInput) :
    (validateSnipeExemptions viem input).warnings = [] ↔
      (viem.candidates input.addresses).Nodup ∧
        ∀ address ∈ viem.candidates input.addresses, toLowerCase address ∉ input.autoExempt :=
  (entered_run hviem input.autoExempt input.addresses).warnings

theorem getAddress_getAddress {text : AddressText} (h : viem.isAddress text = true) :
    viem.getAddress (viem.getAddress text) = viem.getAddress text :=
  hviem.digits (hviem.checksum h) h (hviem.case h)

theorem trim_of_isAddress {text : AddressText} (h : viem.isAddress text = true) :
    trim text = text := by
  have hhex := hviem.hex h
  rw [isHexAddress, Bool.and_eq_true, Bool.and_eq_true, decide_eq_true_eq] at hhex
  obtain ⟨⟨hlead, -⟩, hdigits⟩ := hhex
  refine trim_of_forall fun c hc => ?_
  rw [← List.take_append_drop 2 text, List.mem_append, hlead] at hc
  rcases hc with hc | hc
  · have hlead : ['0', 'x'].any Pattern.isSpace = false := by decide
    exact Bool.eq_false_of_not_eq_true (List.any_eq_false.mp hlead c hc)
  · exact isSpace_of_isHexDigit (List.all_eq_true.mp hdigits c hc)

theorem of_mem_declared {address : AddressText}
    (h : address ∈ viem.declared autoExempt entries) :
    viem.isAddress address = true ∧ viem.getAddress address = address ∧
      toLowerCase address ≠ zeroAddress ∧ toLowerCase address ∉ autoExempt := by
  obtain ⟨hmem, hauto⟩ := List.mem_filter.mp h
  obtain ⟨text, htext, rfl, hzero⟩ := exists_of_mem_candidates hviem hmem
  exact ⟨hviem.checksum htext, getAddress_getAddress hviem htext, hzero, by simpa using hauto⟩

theorem candidates_of_declared {addresses : List AddressText}
    (h : ∀ address ∈ addresses, address ∈ viem.declared autoExempt entries) :
    viem.candidates addresses = addresses := by
  have htrim : addresses.map trim = addresses := by
    refine (List.map_congr_left fun address haddress => ?_).trans (List.map_id _)
    exact trim_of_isAddress hviem (of_mem_declared hviem (h address haddress)).1
  have husable : addresses.filter viem.usable = addresses := by
    rw [List.filter_eq_self]
    intro address haddress
    obtain ⟨hvalid, hchecksum, hzero, -⟩ := of_mem_declared hviem (h address haddress)
    rw [usable_iff hviem, hchecksum]
    exact ⟨hvalid, hzero⟩
  rw [ViemAddress.candidates, htrim, husable]
  refine (List.map_congr_left fun address haddress => ?_).trans (List.map_id _)
  exact (of_mem_declared hviem (h address haddress)).2.1

end Documented

theorem mem_autoExempt {input : ExemptionValidationInput} {lower : AddressText} :
    lower ∈ input.autoExempt ↔ lower = toLowerCase input.deployer ∨
      ∃ recipient, input.creatorFeeRecipient = some recipient ∧ recipient ≠ [] ∧
        lower = toLowerCase recipient := by
  rw [ExemptionValidationInput.autoExempt]
  cases input.creatorFeeRecipient with
  | none => simp
  | some recipient =>
    dsimp only
    split
    · rename_i h
      simp [h.1]
    · rename_i h
      simp only [List.mem_singleton, Option.some.injEq, exists_eq_left', not_and_or, not_not] at h ⊢
      refine ⟨.inl, ?_⟩
      rintro (hdeployer | ⟨hne, hrecipient⟩)
      · exact hdeployer
      · rw [hrecipient, h.resolve_left hne]

def ExemptionValidationInput.Exempts (input : ExemptionValidationInput) (address : AddressText) :
    Prop :=
  toLowerCase address = toLowerCase input.deployer ∨
    ∃ recipient, input.creatorFeeRecipient = some recipient ∧
      toLowerCase address = toLowerCase recipient

def ViemAddress.Refuses (viem : ViemAddress) (raw : AddressText) : Prop :=
  trim raw ≠ [] ∧ (viem.isAddress (trim raw) = false ∨ toLowerCase (trim raw) = zeroAddress)

structure ViemAddress.Accepts (viem : ViemAddress) (input : ExemptionValidationInput)
    (addresses : List AddressText) : Prop where
  checksummed : ∀ a ∈ addresses, viem.isAddress a = true ∧ viem.getAddress a = a
  nonzero : ∀ a ∈ addresses, toLowerCase a ≠ zeroAddress
  distinct : (addresses.map toLowerCase).Nodup
  disjoint : ∀ a ∈ addresses, ¬input.Exempts a
  count : addresses.length ≤ maxDeclarableSnipeExemptions
  order : addresses = (((input.addresses.map trim).filter fun text =>
    text ≠ [] ∧ toLowerCase text ∉ input.autoExempt).map viem.getAddress).eraseDups
  complete : ∀ raw ∈ input.addresses, trim raw ≠ [] →
    viem.getAddress (trim raw) ∈ addresses ∨ input.Exempts (trim raw)

theorem not_refuses_iff {viem : ViemAddress} {raw : AddressText} :
    ¬viem.Refuses raw ↔ (trim raw ≠ [] → viem.usable (trim raw) = true) := by
  rw [ViemAddress.Refuses, ViemAddress.usable]
  simp [not_or]

section Validated

variable {viem : ViemAddress} (hviem : viem.Documented) (input : ExemptionValidationInput)

include hviem

theorem not_exempts_of_isAddress {address : AddressText} (h : viem.isAddress address = true) :
    toLowerCase address ∉ input.autoExempt ↔ ¬input.Exempts address := by
  rw [mem_autoExempt, ExemptionValidationInput.Exempts]
  refine not_congr (or_congr_right ⟨?_, ?_⟩)
  · rintro ⟨recipient, hsome, -, hlower⟩
    exact ⟨recipient, hsome, hlower⟩
  · rintro ⟨recipient, hsome, hlower⟩
    refine ⟨recipient, hsome, ?_, hlower⟩
    rintro rfl
    exact ne_nil_of_isAddress hviem h (List.map_eq_nil_iff.mp hlower)

theorem errors_ne_nil_iff : (validateSnipeExemptions viem input).errors ≠ [] ↔
    (∃ raw ∈ input.addresses, viem.Refuses raw) ∨
      maxDeclarableSnipeExemptions < (validateSnipeExemptions viem input).addresses.length := by
  rw [ne_eq, errors_eq_nil_iff hviem, not_and_or, not_le]
  refine or_congr_left ?_
  simp only [not_forall, exists_prop, ← not_refuses_iff, not_not]

theorem declared_of_no_errors
    (h : ∀ raw ∈ input.addresses, trim raw ≠ [] → viem.usable (trim raw) = true) :
    viem.declared input.autoExempt input.addresses = ((input.addresses.map trim).filter fun text =>
      text ≠ [] ∧ toLowerCase text ∉ input.autoExempt).map viem.getAddress := by
  rw [ViemAddress.declared, ViemAddress.candidates, List.filter_map, List.filter_filter]
  congr 1
  refine List.filter_congr fun text htext => ?_
  obtain ⟨raw, hraw, rfl⟩ := List.mem_map.mp htext
  by_cases hblank : trim raw = []
  · simp [hblank, usable_nil hviem]
  · have husable := h raw hraw hblank
    have haddress := ((usable_iff hviem).mp husable).1
    simp [husable, hblank, hviem.case haddress]

theorem accepts_of_no_errors (h : (validateSnipeExemptions viem input).errors = []) :
    viem.Accepts input (validateSnipeExemptions viem input).addresses := by
  obtain ⟨husable, hcount⟩ := (errors_eq_nil_iff hviem input).mp h
  have hdeclared {a : AddressText} (ha : a ∈ (validateSnipeExemptions viem input).addresses) :=
    of_mem_declared hviem (List.mem_eraseDups.mp (addresses_eq hviem input ▸ ha))
  have horder := (addresses_eq hviem input).trans
    (congrArg List.eraseDups (declared_of_no_errors hviem input husable))
  refine ⟨fun a ha => ⟨(hdeclared ha).1, (hdeclared ha).2.1⟩, fun a ha => (hdeclared ha).2.2.1, ?_,
    fun a ha => (not_exempts_of_isAddress hviem input (hdeclared ha).1).mp (hdeclared ha).2.2.2,
    hcount, horder, fun raw hraw hblank => ?_⟩
  · refine List.Nodup.map_on (fun a ha b hb hlower => ?_) ?_
    · obtain ⟨haddress, hsum, -, -⟩ := hdeclared ha
      obtain ⟨haddress', hsum', -, -⟩ := hdeclared hb
      rw [← hsum, ← hsum', hviem.digits haddress haddress' hlower]
    · rw [addresses_eq hviem]
      exact nodup_eraseDups _
  · by_cases hexempt : input.Exempts (trim raw)
    · exact .inr hexempt
    · have haddress := ((usable_iff hviem).mp (husable raw hraw hblank)).1
      have hauto := (not_exempts_of_isAddress hviem input haddress).mpr hexempt
      rw [horder, List.mem_eraseDups]
      exact .inl (List.mem_map_of_mem (List.mem_filter.mpr
        ⟨List.mem_map_of_mem hraw, by simpa using ⟨hblank, hauto⟩⟩))

theorem validate_again (again : ExemptionValidationInput)
    (hagain : again = { input with addresses := (validateSnipeExemptions viem input).addresses }) :
    (validateSnipeExemptions viem again).addresses = again.addresses ∧
      (validateSnipeExemptions viem again).warnings = [] ∧
      (again.addresses.length ≤ maxDeclarableSnipeExemptions →
        (validateSnipeExemptions viem again).errors = []) := by
  have hauto : again.autoExempt = input.autoExempt := by
    rw [hagain]
    rfl
  have hmem : ∀ a ∈ again.addresses, a ∈ viem.declared input.autoExempt input.addresses := by
    rw [hagain]
    intro a ha
    exact List.mem_eraseDups.mp (addresses_eq hviem input ▸ ha)
  have hnodup : again.addresses.Nodup := by
    rw [hagain, addresses_eq hviem]
    exact nodup_eraseDups _
  have hcandidates := candidates_of_declared hviem hmem
  have hdeclared : viem.declared again.autoExempt again.addresses = again.addresses := by
    rw [ViemAddress.declared, hcandidates, List.filter_eq_self]
    intro a ha
    have := (of_mem_declared hviem (hmem a ha)).2.2.2
    simpa [hauto] using this
  have haddresses : (validateSnipeExemptions viem again).addresses = again.addresses := by
    rw [addresses_eq hviem, hdeclared, eraseDups_of_nodup hnodup]
  refine ⟨haddresses, ?_, fun hcount => ?_⟩
  · rw [warnings_eq_nil_iff hviem, hcandidates, hauto]
    exact ⟨hnodup, fun a ha => (of_mem_declared hviem (hmem a ha)).2.2.2⟩
  · rw [errors_eq_nil_iff hviem, haddresses]
    refine ⟨fun raw hraw _ => ?_, hcount⟩
    obtain ⟨haddress, hsum, hzero, -⟩ := of_mem_declared hviem (hmem raw hraw)
    rw [trim_of_isAddress hviem haddress, usable_iff hviem, hsum]
    exact ⟨haddress, hzero⟩

/-- A list without errors may be written with the launch, the errors are exactly the entries that
must stop it and too long a list, and a validated list validates as itself. -/
theorem validateSnipeExemptions_sound :
    ((validateSnipeExemptions viem input).errors = [] →
        viem.Accepts input (validateSnipeExemptions viem input).addresses) ∧
      let result := validateSnipeExemptions viem input
      let again := validateSnipeExemptions viem { input with addresses := result.addresses }
      (result.errors ≠ [] ↔ (∃ raw ∈ input.addresses, viem.Refuses raw) ∨
        maxDeclarableSnipeExemptions < result.addresses.length) ∧
      again.addresses = result.addresses ∧ again.warnings = [] ∧
      (result.addresses.length ≤ maxDeclarableSnipeExemptions → again.errors = []) :=
  ⟨accepts_of_no_errors hviem input, errors_ne_nil_iff hviem input,
    validate_again hviem input _ rfl⟩

end Validated

def letterless : ViemAddress where
  isAddress text := isHexAddress text && (text.drop 2).all Char.isDigit
  getAddress text := text

theorem toLower_of_isDigit {c : Char} (h : c.isDigit = true) : c.toLower = c := by
  have hrange := Char.isDigit_iff_toNat.mp h
  simp only [Char.isValue, Char.reduceToNat] at hrange
  refine dif_neg ?_
  rintro ⟨hlo, -⟩
  have hval : c.val.toNat = c.toNat := rfl
  have hupper := UInt32.le_iff_toNat_le.mp hlo
  simp only [Char.isValue, Char.reduceVal, UInt32.reduceToNat] at hupper
  omega

theorem toLowerCase_letterless {text : AddressText} (h : letterless.isAddress text = true) :
    toLowerCase text = text := by
  obtain ⟨hhex, hdigits⟩ := Bool.and_eq_true_iff.mp h
  rw [isHexAddress, Bool.and_eq_true, Bool.and_eq_true, decide_eq_true_eq] at hhex
  have hrest : (text.drop 2).map Char.toLower = text.drop 2 := by
    refine (List.map_congr_left fun c hc => ?_).trans (List.map_id _)
    exact toLower_of_isDigit (List.all_eq_true.mp hdigits c hc)
  rw [toLowerCase, ← List.take_append_drop 2 text, List.map_append, hrest, hhex.1.1]
  rfl

theorem letterless_documented : letterless.Documented where
  hex h := (Bool.and_eq_true_iff.mp h).1
  case _ := rfl
  checksum h := h
  digits h h' hlower := by
    rw [toLowerCase_letterless h, toLowerCase_letterless h'] at hlower
    exact hlower

def twoWallets : ExemptionValidationInput where
  addresses := [[], ' ' :: '0' :: 'x' :: List.replicate 40 '1', '0' :: 'x' :: List.replicate 40 '2']
  deployer := '0' :: 'x' :: List.replicate 40 '3'
  creatorFeeRecipient := none

theorem validateSnipeExemptions_sound_twoWallets :
    let result := validateSnipeExemptions letterless twoWallets
    let again := validateSnipeExemptions letterless
      { twoWallets with addresses := result.addresses }
    (result.errors = [] → letterless.Accepts twoWallets result.addresses) ∧
      (result.errors ≠ [] ↔ (∃ raw ∈ twoWallets.addresses, letterless.Refuses raw) ∨
        maxDeclarableSnipeExemptions < result.addresses.length) ∧
      again.addresses = result.addresses ∧ again.warnings = [] ∧
      (result.addresses.length ≤ maxDeclarableSnipeExemptions → again.errors = []) :=
  validateSnipeExemptions_sound letterless_documented twoWallets

def manyWallets : ExemptionValidationInput where
  addresses := (List.range 32).map fun n =>
    '0' :: 'x' :: List.replicate 38 '1' ++ [Nat.digitChar (n / 10), Nat.digitChar (n % 10)]
  deployer := '0' :: 'x' :: List.replicate 40 '3'
  creatorFeeRecipient := none

set_option maxRecDepth 8000 in
theorem manyWallets_refused_again : letterless.Documented ∧
    let result := validateSnipeExemptions letterless manyWallets
    let again := validateSnipeExemptions letterless
      { manyWallets with addresses := result.addresses }
    again.errors ≠ [] := by
  refine ⟨letterless_documented, ?_⟩
  have hlength : (validateSnipeExemptions letterless manyWallets).addresses.length = 32 := by
    decide +kernel
  intro result again
  have hagain : again.addresses = result.addresses :=
    (validate_again letterless_documented manyWallets _ rfl).1
  refine (errors_ne_nil_iff letterless_documented _).mpr (.inr ?_)
  change maxDeclarableSnipeExemptions < again.addresses.length
  rw [hagain, hlength]
  decide

end Stunks.Pons
