import Stunks.Pons.Launch.Exemptions
import Stunks.Pons.Launch.Fields
import Stunks.Pons.Launch.ImageUrl
import Stunks.Pons.Trade.Service
import Stunks.Utils.Units

/-! `launch/builder.ts`: the transaction of a launch, from what its creator typed. -/

namespace Stunks.Pons

open Utils

inductive SocialKey
  | website
  | twitter
  | telegram
  | discord
  | farcaster
  deriving DecidableEq

def SocialKey.text : SocialKey → String
  | website => "website"
  | twitter => "twitter"
  | telegram => "telegram"
  | discord => "discord"
  | farcaster => "farcaster"

structure LaunchSocials where
  entries : List (SocialKey × Option ArgText)
  nodup : (entries.map Prod.fst).Nodup

structure BuildLaunchInput where
  name : ArgText
  symbol : ArgText
  logo : ArgText
  description : Option ArgText
  socials : Option LaunchSocials
  creator : AddressText
  creatorFeeRecipient : Option AddressText
  creatorTaxBps : JsNumber
  buybackEnabled : Bool
  launchConfigId : Int
  pairToken : AddressText
  devBuyAmount : Int
  minTokensOut : Int
  devBuyRecipient : Option AddressText
  whitelist : List AddressText
  salt : Option (List UInt8)

structure BuiltLaunch where
  to_ : AddressText
  data : List Char
  value : Int
  launchFee : Int
  expectedEconomics : BitVec 256
  salt : List UInt8
  whitelist : List AddressText
  warnings : List String

inductive BuildLaunchResult
  | launch (launch : BuiltLaunch)
  | errors (errors : List String)

/-- `LIMITS`, in UTF-16 code units -/
structure LaunchLimits where
  name : Nat := 64
  symbol : Nat := 16
  logo : Nat := 256
  description : Nat := 512
  social : Nat := 256

def limits : LaunchLimits := {}

structure FactoryParameters where
  launchFee : BitVec 256
  launchEnabled : Bool
  maxCreatorTaxBps : BitVec 256
  snipeTaxStartBps : BitVec 256
  snipeTaxSeconds : BitVec 256
  owner : BitVec 160

/-- Reads that are made together fail with the error of the first that fails. -/
structure LaunchClient where
  readFactoryParameters : (factory : AddressText) → Except ClientError FactoryParameters
  readPairTokenApproved : (factory pairToken : AddressText) → Except ClientError Bool
  previewLaunchEconomics : (factory : AddressText) → (launchConfigId : Int) →
    (pairToken : AddressText) → Except ClientError (BitVec 256)
  dateNow : Nat

structure LaunchTools extends ViemAddress where
  keccak256 : List UInt8 → BitVec 256
  /-- `Number(bps) / 100` -/
  percent : Nat → String

inductive LaunchFault
  | client (error : ClientError)
  | encoding (error : JsError)

def isNativeText (pairToken : AddressText) : Bool :=
  toLowerCase pairToken = toLowerCase zeroAddress

def requiredText (what : String) (text : ArgText) : List String :=
  if trim text.val = [] then [s!"Token {what} is required."] else []

def boundedText (what : String) (limit : Nat) (text : ArgText) : List String :=
  if utf16Length text.val > limit then [s!"{what} must be {limit} characters or fewer."] else []

def httpScheme : List Char := ['h', 't', 't', 'p', ':', '/', '/']

/-- `/^https?:\/\//i` -/
def isWebLink (text : List Char) : Bool :=
  let lower := text.map Char.toLower
  httpScheme.isPrefixOf lower || httpsScheme.isPrefixOf lower

def linkErrors : SocialKey × Option ArgText → List String
  | (_, none) => []
  | (key, some link) =>
    boundedText s!"{key.text} link" limits.social link ++
      if link.val ≠ [] ∧ isWebLink link.val = false then
        [s!"{key.text} link must start with http:// or https://"] else []

theorem blank_length_lt : ([] : List Char).length < 2 ^ 53 := by decide

def blankText : ArgText := ⟨[], blank_length_lt⟩

namespace BuildLaunchInput

variable (input : BuildLaunchInput)

/-- `input.socials?.[key] ?? ""` -/
def social (key : SocialKey) : ArgText :=
  ((input.socials.bind fun socials => socials.entries.lookup key).join).getD blankText

def descriptionText : ArgText := input.description.getD blankText

def taxErrors (percent : Nat → String) (maxCreatorTaxBps : Nat) : List String :=
  let whole := "Creator tax must be a whole number of basis points."
  match input.creatorTaxBps.integer with
  | none => [whole]
  | some bps =>
    if bps < 0 then [whole]
    else if bps > maxCreatorTaxBps then
      [s!"Creator tax cannot exceed {maxCreatorTaxBps} bps ({percent maxCreatorTaxBps}%), " ++
        "which is the protocol's current ceiling."]
    else []

def buyErrors : List String :=
  (if input.devBuyAmount < 0 then ["Opening buy cannot be negative."] else []) ++
    if input.devBuyAmount = 0 ∧ input.minTokensOut > 0 then
      ["A minimum output was set but no opening buy amount was given."] else []

end BuildLaunchInput

def validateLaunchInput (percent : Nat → String) (input : BuildLaunchInput)
    (maxCreatorTaxBps : Nat) : List String :=
  requiredText "name" input.name ++ boundedText "Name" limits.name input.name ++
    requiredText "symbol" input.symbol ++ boundedText "Symbol" limits.symbol input.symbol ++
    requiredText "image" input.logo ++ boundedText "Image URI" limits.logo input.logo ++
    boundedText "Description" limits.description input.descriptionText ++
    input.taxErrors percent maxCreatorTaxBps ++ input.buyErrors ++
    (input.socials.elim [] LaunchSocials.entries).flatMap linkErrors

def hexNumber (digits : List Char) : Nat :=
  digits.foldl (fun n c => n * 16 + (hexValue c).getD 0) 0

def addressWord (text : AddressText) : BitVec 160 := BitVec.ofNat 160 (hexNumber (text.drop 2))

def encodeAddress (viem : ViemAddress) (text : AddressText) : Except JsError (BitVec 160) :=
  if viem.isAddress text then .ok (addressWord text)
  else
    let shown := String.ofList text
    .error (.error s!"Address \"{shown}\" is invalid.")

def encodeUint (size : Nat) (value : Int) : Except JsError (BitVec size) := do
  let _ ← encodeWord size value
  return BitVec.ofInt size value

def encodeNumber (size : Nat) (value : JsNumber) : Except JsError (BitVec size) :=
  match value.integer with
  | some n => encodeUint size n
  | none => .error (.range (s!"The number {value.shown} cannot be converted to a BigInt because " ++
      "it is not an integer"))

def encodeBytes32 (bytes : List UInt8) : Except JsError (BitVec 256) :=
  if bytes.length = 32 then .ok (BitVec.ofNat 256 (Abi.readBE bytes))
  else
    let shown := String.ofList ('0' :: 'x' :: hexOfBytes bytes)
    .error (.error (s!"Size of bytes \"{shown}\" (bytes{bytes.length}) does not match " ++
      "expected size (bytes32)."))

namespace BuildLaunchInput

variable (input : BuildLaunchInput)

def socialsArg : SocialsArg where
  website := input.social .website
  twitter := input.social .twitter
  telegram := input.social .telegram
  discord := input.social .discord
  farcaster := input.social .farcaster

/-- The salt, or one of its own for this creator, symbol and moment. -/
def saltBytes (keccak256 : List UInt8 → BitVec 256) (now : Nat) : List UInt8 :=
  input.salt.getD (Abi.word (keccak256 (Utf8.encode ("stunks:".toList ++ input.creator ++
    ':' :: (input.symbol.val ++ ':' :: (toString now).toList)))).toNat)

def exemptionInput : ExemptionValidationInput where
  addresses := input.whitelist
  deployer := input.creator
  creatorFeeRecipient := input.creatorFeeRecipient

def encode (viem : ViemAddress) (expectedEconomics : BitVec 256) (salt : List UInt8)
    (exemptions : List AddressText) : Except JsError LaunchAndBuy := do
  let creatorFeeRecipient ← encodeAddress viem (input.creatorFeeRecipient.getD input.creator)
  let creatorTaxBps ← encodeNumber 16 input.creatorTaxBps
  let salt ← encodeBytes32 salt
  let launchConfigId ← encodeUint 256 input.launchConfigId
  let pairToken ← encodeAddress viem input.pairToken
  let quoteIn ← encodeUint 256 input.devBuyAmount
  let minTokensOut ← encodeUint 256 input.minTokensOut
  let recipient ← encodeAddress viem (input.devBuyRecipient.getD input.creator)
  let snipeTaxExemptions ← exemptions.mapM (encodeAddress viem)
  return {
    tokenParams := {
      name := input.name
      symbol := input.symbol
      logo := input.logo
      description := input.descriptionText
      socials := input.socialsArg
      creatorFeeRecipient
      creatorTaxBps
      buybackEnabled := input.buybackEnabled
      expectedEconomics
      salt }
    launchConfigId, pairToken, quoteIn, minTokensOut, recipient, snipeTaxExemptions }

def warnings (exemptions : ExemptionValidationResult) : List String :=
  exemptions.warnings ++
    (if isNativeText input.pairToken = false ∧ input.devBuyAmount > 0 then
      ["This launch is paired with an ERC-20. Approve the router for the opening buy " ++
        "BEFORE launching — an approval afterwards costs time inside the anti-snipe window."]
      else []) ++
    (if ['h', 't', 't', 'p'].isPrefixOf input.logo.val then
      ["Using a gateway URL makes your token's on-chain metadata depend permanently on " ++
        "one company's endpoint. An ipfs:// URI does not."] else []) ++
    if exemptions.slotsUsed > 0 ∧ input.devBuyAmount = 0 then
      ["You declared a whitelist but no opening buy. The whitelist only helps wallets " ++
        "that actually buy inside the anti-snipe window."] else []

end BuildLaunchInput

/-- The value that the contract compares with `!=`. -/
def launchValue (launchFee devBuyAmount : Int) (pairToken : AddressText) : Int :=
  if isNativeText pairToken then launchFee + devBuyAmount else launchFee

def pairNotApproved : String :=
  "The selected pair asset is not currently approved by the Pons factory. " ++
    "Choose a verified pair and try again."

def launchesDisabled : String :=
  "Launches are currently disabled at the protocol level by Pons."

def LaunchClient.pairApproved (client : LaunchClient) (factory pairToken : AddressText) :
    Except ClientError Bool :=
  if isNativeText pairToken then .ok true else client.readPairTokenApproved factory pairToken

def buildLaunchTransaction (tools : LaunchTools) (client : LaunchClient)
    (factory router : AddressText) (input : BuildLaunchInput) :
    Except LaunchFault BuildLaunchResult := do
  let params ← (client.readFactoryParameters factory).mapError .client
  let pairApproved ← (client.pairApproved factory input.pairToken).mapError .client
  if pairApproved = false then return .errors [pairNotApproved]
  else if params.launchEnabled = false then return .errors [launchesDisabled]
  else
    let exemptions := validateSnipeExemptions tools.toViemAddress input.exemptionInput
    let errors := validateLaunchInput tools.percent input params.maxCreatorTaxBps.toNat ++
      exemptions.errors
    if errors.length > 0 then return .errors errors
    else
      let expectedEconomics ← (client.previewLaunchEconomics factory input.launchConfigId
        input.pairToken).mapError .client
      let salt := input.saltBytes tools.keccak256 client.dateNow
      let args ← (input.encode tools.toViemAddress expectedEconomics salt
        exemptions.addresses).mapError .encoding
      return .launch {
        to_ := router
        data := args.calldata
        value := launchValue params.launchFee.toNat input.devBuyAmount input.pairToken
        launchFee := params.launchFee.toNat
        expectedEconomics
        salt
        whitelist := exemptions.addresses
        warnings := input.warnings exemptions }

structure RequiredText (limit : Nat) (text : ArgText) : Prop where
  nonblank : trim text.val ≠ []
  short : utf16Length text.val ≤ limit

structure WebLink (link : ArgText) : Prop where
  short : utf16Length link.val ≤ limits.social
  web : link.val ≠ [] → isWebLink link.val = true

structure BuildLaunchInput.Valid (input : BuildLaunchInput) (maxCreatorTaxBps : Nat) : Prop where
  name : RequiredText limits.name input.name
  symbol : RequiredText limits.symbol input.symbol
  logo : RequiredText limits.logo input.logo
  description : utf16Length input.descriptionText.val ≤ limits.description
  tax : ∃ bps : Nat, input.creatorTaxBps.integer = some (bps : Int) ∧ bps ≤ maxCreatorTaxBps
  buy : 0 ≤ input.devBuyAmount
  floor : input.devBuyAmount = 0 → input.minTokensOut ≤ 0
  links : ∀ key link, (key, some link) ∈ input.socials.elim [] LaunchSocials.entries → WebLink link

section validate

variable {what : String} {limit : Nat} {text : ArgText} {input : BuildLaunchInput}
  {percent : Nat → String} {maxCreatorTaxBps : Nat}

theorem requiredText_eq_nil : requiredText what text = [] ↔ trim text.val ≠ [] := by
  rw [requiredText]
  split <;> simp [*]

theorem boundedText_eq_nil : boundedText what limit text = [] ↔ utf16Length text.val ≤ limit := by
  rw [boundedText]
  split
  · simp only [List.cons_ne_nil, false_iff]
    omega
  · simp only [true_iff]
    omega

theorem linkErrors_eq_nil {key : SocialKey} {link : ArgText} :
    linkErrors (key, some link) = [] ↔ WebLink link := by
  rw [linkErrors, List.append_eq_nil_iff, boundedText_eq_nil]
  constructor
  · rintro ⟨hshort, hweb⟩
    refine ⟨hshort, fun hne => ?_⟩
    by_contra hfalse
    rw [if_pos ⟨hne, Bool.eq_false_of_not_eq_true hfalse⟩] at hweb
    cases hweb
  · rintro ⟨hshort, hweb⟩
    refine ⟨hshort, if_neg ?_⟩
    rintro ⟨hne, hfalse⟩
    rw [hweb hne] at hfalse
    cases hfalse

namespace BuildLaunchInput

theorem taxErrors_eq_nil : input.taxErrors percent maxCreatorTaxBps = [] ↔
    ∃ bps : Nat, input.creatorTaxBps.integer = some (bps : Int) ∧ bps ≤ maxCreatorTaxBps := by
  simp only [taxErrors]
  cases input.creatorTaxBps.integer with
  | none => simp
  | some bps =>
    rcases lt_or_ge bps 0 with hneg | hpos
    · simp only [if_pos hneg, List.cons_ne_nil, false_iff]
      rintro ⟨n, hn, -⟩
      have := Option.some.inj hn
      omega
    · obtain ⟨n, rfl⟩ := Int.eq_ofNat_of_zero_le hpos
      simp only [if_neg (not_lt.mpr hpos), Option.some.injEq, Nat.cast_inj, exists_eq_left']
      split <;> simp <;> omega

theorem buyErrors_eq_nil : input.buyErrors = [] ↔
    0 ≤ input.devBuyAmount ∧ (input.devBuyAmount = 0 → input.minTokensOut ≤ 0) := by
  rw [buyErrors, List.append_eq_nil_iff]
  refine and_congr ?_ ?_ <;> simp

end BuildLaunchInput

theorem validateLaunchInput_eq_nil :
    validateLaunchInput percent input maxCreatorTaxBps = [] ↔ input.Valid maxCreatorTaxBps := by
  have hlinks : (input.socials.elim [] LaunchSocials.entries).flatMap linkErrors = [] ↔
      ∀ key link, (key, some link) ∈ input.socials.elim [] LaunchSocials.entries →
        WebLink link := by
    rw [List.flatMap_eq_nil_iff]
    constructor
    · exact fun h key link hmem => linkErrors_eq_nil.mp (h _ hmem)
    · rintro h ⟨key, link⟩ hmem
      cases link with
      | none => rfl
      | some link => exact linkErrors_eq_nil.mpr (h key link hmem)
  simp only [validateLaunchInput, List.append_eq_nil_iff, requiredText_eq_nil, boundedText_eq_nil,
    BuildLaunchInput.taxErrors_eq_nil, BuildLaunchInput.buyErrors_eq_nil, hlinks]
  constructor
  · rintro ⟨⟨⟨⟨⟨⟨⟨⟨⟨hname, hname'⟩, hsymbol⟩, hsymbol'⟩, hlogo⟩, hlogo'⟩, hdescription⟩, htax⟩,
      hbuy, hfloor⟩, hlinks⟩
    exact ⟨⟨hname, hname'⟩, ⟨hsymbol, hsymbol'⟩, ⟨hlogo, hlogo'⟩, hdescription, htax, hbuy, hfloor,
      hlinks⟩
  · rintro ⟨⟨hname, hname'⟩, ⟨hsymbol, hsymbol'⟩, ⟨hlogo, hlogo'⟩, hdescription, htax, hbuy, hfloor,
      hlinks⟩
    exact ⟨⟨⟨⟨⟨⟨⟨⟨⟨hname, hname'⟩, hsymbol⟩, hsymbol'⟩, hlogo⟩, hlogo'⟩, hdescription⟩, htax⟩,
      hbuy, hfloor⟩, hlinks⟩

end validate

section encode

variable {viem : ViemAddress} {text : AddressText} {size : Nat} {value : Int}

theorem encodeAddress_eq_ok {word : BitVec 160} : encodeAddress viem text = .ok word ↔
    viem.isAddress text = true ∧ addressWord text = word := by
  rw [encodeAddress]
  split <;> simp [*]

theorem encodeUint_eq_ok {word : BitVec size} : encodeUint size value = .ok word ↔
    (0 ≤ value ∧ value < 2 ^ size) ∧ BitVec.ofInt size value = word := by
  rw [encodeUint, encodeWord]
  split
  · rename_i hout
    rw [error_bind]
    refine iff_of_false (by simp) fun h => ?_
    omega
  · rename_i hin
    rw [ok_bind]
    have hrange : 0 ≤ value ∧ value < 2 ^ size := by omega
    exact ⟨fun h => ⟨hrange, Except.ok.inj h⟩, fun h => congrArg Except.ok h.2⟩

theorem encodeNumber_eq_ok {number : JsNumber} {word : BitVec size} :
    encodeNumber size number = .ok word ↔ ∃ n, number.integer = some n ∧
      (0 ≤ n ∧ n < 2 ^ size) ∧ BitVec.ofInt size n = word := by
  rw [encodeNumber]
  cases number.integer with
  | none => simp
  | some n => simp [encodeUint_eq_ok]

theorem encodeBytes32_eq_ok {bytes : List UInt8} {word : BitVec 256} :
    encodeBytes32 bytes = .ok word ↔
      bytes.length = 32 ∧ BitVec.ofNat 256 (Abi.readBE bytes) = word := by
  rw [encodeBytes32]
  split <;> simp [*]

theorem mapM_encodeAddress {texts : List AddressText}
    (h : ∀ text ∈ texts, viem.isAddress text = true) :
    texts.mapM (encodeAddress viem) = .ok (texts.map addressWord) := by
  induction texts with
  | nil => rfl
  | cons text texts ih =>
    obtain ⟨htext, htexts⟩ := List.forall_mem_cons.mp h
    rw [List.mapM_cons, encodeAddress_eq_ok.mpr ⟨htext, rfl⟩, ok_bind, ih htexts, ok_bind]
    rfl

end encode

namespace BuildLaunchInput

variable (input : BuildLaunchInput)

def args (expectedEconomics : BitVec 256) (salt : List UInt8) (exemptions : List AddressText) :
    LaunchAndBuy where
  tokenParams := {
    name := input.name
    symbol := input.symbol
    logo := input.logo
    description := input.descriptionText
    socials := input.socialsArg
    creatorFeeRecipient := addressWord (input.creatorFeeRecipient.getD input.creator)
    creatorTaxBps := BitVec.ofInt 16 (input.creatorTaxBps.integer.getD 0)
    buybackEnabled := input.buybackEnabled
    expectedEconomics
    salt := BitVec.ofNat 256 (Abi.readBE salt) }
  launchConfigId := BitVec.ofInt 256 input.launchConfigId
  pairToken := addressWord input.pairToken
  quoteIn := BitVec.ofInt 256 input.devBuyAmount
  minTokensOut := BitVec.ofInt 256 input.minTokensOut
  recipient := addressWord (input.devBuyRecipient.getD input.creator)
  snipeTaxExemptions := exemptions.map addressWord

structure Encodable (viem : ViemAddress) (salt : List UInt8) : Prop where
  feeRecipient : viem.isAddress (input.creatorFeeRecipient.getD input.creator) = true
  tax : ∃ bps, input.creatorTaxBps.integer = some bps ∧ 0 ≤ bps ∧ bps < 2 ^ 16
  salt : salt.length = 32
  config : 0 ≤ input.launchConfigId ∧ input.launchConfigId < 2 ^ 256
  pair : viem.isAddress input.pairToken = true
  buy : 0 ≤ input.devBuyAmount ∧ input.devBuyAmount < 2 ^ 256
  floor : 0 ≤ input.minTokensOut ∧ input.minTokensOut < 2 ^ 256
  recipient : viem.isAddress (input.devBuyRecipient.getD input.creator) = true

variable {input} {viem : ViemAddress} {expectedEconomics : BitVec 256} {salt : List UInt8}
  {exemptions : List AddressText} {args : LaunchAndBuy}

theorem encode_eq_ok (h : ∀ text ∈ exemptions, viem.isAddress text = true) :
    input.encode viem expectedEconomics salt exemptions = .ok args ↔
      input.Encodable viem salt ∧ input.args expectedEconomics salt exemptions = args := by
  simp only [encode, bind_eq_ok, encodeAddress_eq_ok, encodeNumber_eq_ok, encodeBytes32_eq_ok,
    encodeUint_eq_ok, mapM_encodeAddress h, Except.ok.injEq]
  constructor
  · rintro ⟨_, ⟨hfee, rfl⟩, _, ⟨bps, hbps, hrange, rfl⟩, _, ⟨hsalt, rfl⟩, _, ⟨hconfig, rfl⟩, _,
      ⟨hpair, rfl⟩, _, ⟨hbuy, rfl⟩, _, ⟨hfloor, rfl⟩, _, ⟨hrecipient, rfl⟩, _, rfl, hargs⟩
    refine ⟨⟨hfee, ⟨bps, hbps, hrange⟩, hsalt, hconfig, hpair, hbuy, hfloor, hrecipient⟩, ?_⟩
    rw [BuildLaunchInput.args, hbps]
    exact Except.ok.inj hargs
  · rintro ⟨⟨hfee, ⟨bps, hbps, hrange⟩, hsalt, hconfig, hpair, hbuy, hfloor, hrecipient⟩, rfl⟩
    refine ⟨_, ⟨hfee, rfl⟩, _, ⟨bps, hbps, hrange, rfl⟩, _, ⟨hsalt, rfl⟩, _, ⟨hconfig, rfl⟩, _,
      ⟨hpair, rfl⟩, _, ⟨hbuy, rfl⟩, _, ⟨hfloor, rfl⟩, _, ⟨hrecipient, rfl⟩, _, rfl, ?_⟩
    rw [BuildLaunchInput.args, hbps]
    rfl

end BuildLaunchInput

section words

theorem hexValue_of_isHexDigit {c : Char} (h : isHexDigit c = true) :
    ∃ v < 16, hexValue c = some v := by
  simp only [isHexDigit, Bool.or_eq_true, Bool.and_eq_true, Char.isDigit_iff_toNat,
    decide_eq_true_eq, Char.le_def, UInt32.le_iff_toNat_le] at h
  have hval : c.val.toNat = c.toNat := rfl
  simp only [Char.isValue, Char.reduceToNat, Char.reduceVal, UInt32.reduceToNat] at h
  simp only [hexValue, Char.le_def, UInt32.le_iff_toNat_le, Char.isValue, Char.reduceToNat,
    Char.reduceVal, UInt32.reduceToNat]
  split
  · exact ⟨_, by omega, rfl⟩
  split
  · exact ⟨_, by omega, rfl⟩
  split
  · exact ⟨_, by omega, rfl⟩
  · omega

theorem toLower_of_hexValue {c : Char} {v : Nat} (h : hexValue c = some v) :
    c.toLower = hexDigit v := by
  have hlt : c.toNat < 128 := by
    by_contra hbig
    have hval : c.val.toNat = c.toNat := rfl
    simp only [hexValue, Char.le_def, UInt32.le_iff_toNat_le, Char.isValue, Char.reduceVal,
      UInt32.reduceToNat] at h
    rw [if_neg (by omega), if_neg (by omega), if_neg (by omega)] at h
    cases h
  have hall : ∀ k : Fin 128, (hexValue (Char.ofNat k)).all
      (fun v => (Char.ofNat k).toLower = hexDigit v) = true := by decide
  have hc := hall ⟨c.toNat, hlt⟩
  simpa [Char.ofNat_toNat, h] using hc

theorem hexNumber_concat (digits : List Char) (c : Char) :
    hexNumber (digits ++ [c]) = hexNumber digits * 16 + (hexValue c).getD 0 := by
  simp [hexNumber]

theorem hexNumber_lt {digits : List Char} (h : digits.all isHexDigit = true) :
    hexNumber digits < 16 ^ digits.length := by
  induction digits using List.reverseRecOn with
  | nil => decide
  | append_singleton digits c ih =>
    rw [List.all_append, Bool.and_eq_true] at h
    obtain ⟨v, hv, hvalue⟩ := hexValue_of_isHexDigit (by simpa using h.2)
    have hdigits := ih h.1
    rw [hexNumber_concat, hvalue, List.length_append, List.length_singleton, Nat.pow_succ,
      Option.getD_some]
    omega

theorem hexNumber_inj {digits digits' : List Char} (h : digits.all isHexDigit = true)
    (h' : digits'.all isHexDigit = true) (hlength : digits.length = digits'.length)
    (heq : hexNumber digits = hexNumber digits') :
    digits.map Char.toLower = digits'.map Char.toLower := by
  induction digits using List.reverseRecOn generalizing digits' with
  | nil => rw [List.length_eq_zero_iff.mp hlength.symm]
  | append_singleton digits c ih =>
    obtain rfl | ⟨digits', c', rfl⟩ := digits'.eq_nil_or_concat
    · simp at hlength
    rw [List.concat_eq_append] at *
    rw [List.all_append, Bool.and_eq_true] at h h'
    obtain ⟨v, hv, hvalue⟩ := hexValue_of_isHexDigit (c := c) (by simpa using h.2)
    obtain ⟨v', hv', hvalue'⟩ := hexValue_of_isHexDigit (c := c') (by simpa using h'.2)
    rw [hexNumber_concat, hexNumber_concat, hvalue, hvalue', Option.getD_some,
      Option.getD_some] at heq
    obtain rfl : v = v' := by omega
    have hrest := ih h.1 h'.1 (by simpa using hlength) (by omega)
    rw [List.map_append, List.map_append, hrest, List.map_singleton, List.map_singleton,
      toLower_of_hexValue hvalue, toLower_of_hexValue hvalue']

theorem hexNumber_toLower {digits : List Char} (h : digits.all isHexDigit = true) :
    hexNumber (digits.map Char.toLower) = hexNumber digits := by
  induction digits using List.reverseRecOn with
  | nil => rfl
  | append_singleton digits c ih =>
    rw [List.all_append, Bool.and_eq_true] at h
    obtain ⟨v, hv, hvalue⟩ := hexValue_of_isHexDigit (c := c) (by simpa using h.2)
    rw [List.map_append, List.map_singleton, hexNumber_concat, hexNumber_concat, ih h.1,
      toLower_of_hexValue hvalue, hexValue_hexDigit hv, hvalue]

variable {text text' : AddressText}

theorem of_isHexAddress (h : isHexAddress text = true) :
    text = '0' :: 'x' :: text.drop 2 ∧ (text.drop 2).length = 40 ∧
      (text.drop 2).all isHexDigit = true := by
  rw [isHexAddress, Bool.and_eq_true, Bool.and_eq_true, decide_eq_true_eq, decide_eq_true_eq] at h
  obtain ⟨⟨hlead, hlength⟩, hdigits⟩ := h
  refine ⟨?_, hlength, hdigits⟩
  have hsplit := List.take_append_drop 2 text
  rw [hlead] at hsplit
  exact hsplit.symm

theorem addressWord_inj (h : isHexAddress text = true) (h' : isHexAddress text' = true) :
    addressWord text = addressWord text' ↔ toLowerCase text = toLowerCase text' := by
  obtain ⟨htext, hlength, hdigits⟩ := of_isHexAddress h
  obtain ⟨htext', hlength', hdigits'⟩ := of_isHexAddress h'
  have hsize : 2 ^ 160 = 16 ^ 40 := by decide
  have hword {digits : List Char} (hdigits : digits.all isHexDigit = true)
      (hlength : digits.length = 40) : hexNumber digits % 2 ^ 160 = hexNumber digits := by
    have hlt := hexNumber_lt hdigits
    rw [hlength, ← hsize] at hlt
    exact Nat.mod_eq_of_lt hlt
  have hlower : toLowerCase text = toLowerCase text' ↔
      (text.drop 2).map Char.toLower = (text'.drop 2).map Char.toLower := by
    rw [htext, htext']
    simp [toLowerCase]
  rw [hlower, addressWord, addressWord, ← BitVec.toNat_inj, BitVec.toNat_ofNat, BitVec.toNat_ofNat,
    hword hdigits hlength, hword hdigits' hlength']
  constructor
  · exact hexNumber_inj hdigits hdigits' (hlength.trans hlength'.symm)
  · intro hmap
    rw [← hexNumber_toLower hdigits, ← hexNumber_toLower hdigits', hmap]

theorem addressWord_eq_zero_iff (h : isHexAddress text = true) :
    addressWord text = 0 ↔ toLowerCase text = zeroAddress := by
  have hword : addressWord zeroAddress = 0 := by decide
  rw [← hword, addressWord_inj h (by decide), toLowerCase_zeroAddress]

end words

namespace ViemAddress.Accepts

variable {viem : ViemAddress} (hviem : viem.Documented) {input : ExemptionValidationInput}
  {addresses : List AddressText} (h : viem.Accepts input addresses)

include hviem h

theorem hex {a : AddressText} (ha : a ∈ addresses) : isHexAddress a = true :=
  hviem.hex (h.checksummed a ha).1

theorem words_nodup : (addresses.map addressWord).Nodup := by
  refine List.Nodup.map_on (fun a ha b hb heq => ?_) h.distinct.of_map
  have hlower := (addressWord_inj (h.hex hviem ha) (h.hex hviem hb)).mp heq
  exact List.inj_on_of_nodup_map h.distinct ha hb hlower

theorem zero_notMem_words : 0 ∉ addresses.map addressWord := by
  intro hmem
  obtain ⟨a, ha, heq⟩ := List.mem_map.mp hmem
  exact h.nonzero a ha ((addressWord_eq_zero_iff (h.hex hviem ha)).mp heq)

theorem exempt_notMem_words {wallet : AddressText} (hwallet : viem.isAddress wallet = true)
    (hexempt : input.Exempts wallet) : addressWord wallet ∉ addresses.map addressWord := by
  intro hmem
  obtain ⟨a, ha, heq⟩ := List.mem_map.mp hmem
  have hlower := (addressWord_inj (h.hex hviem ha) (hviem.hex hwallet)).mp heq
  refine h.disjoint a ha ?_
  rwa [ExemptionValidationInput.Exempts, hlower]

end ViemAddress.Accepts

structure Launchable (tools : LaunchTools) (client : LaunchClient) (factory : AddressText)
    (input : BuildLaunchInput) (params : FactoryParameters) (economics : BitVec 256) : Prop where
  read : client.readFactoryParameters factory = .ok params
  approved : client.pairApproved factory input.pairToken = .ok true
  enabled : params.launchEnabled = true
  valid : input.Valid params.maxCreatorTaxBps.toNat
  entries : ∀ raw ∈ input.whitelist, ¬tools.Refuses raw
  count : (validateSnipeExemptions tools.toViemAddress input.exemptionInput).addresses.length ≤
    maxDeclarableSnipeExemptions
  economics : client.previewLaunchEconomics factory input.launchConfigId input.pairToken =
    .ok economics
  encodable : input.Encodable tools.toViemAddress (input.saltBytes tools.keccak256 client.dateNow)

/-- What a built launch has its wallet sign: the words of what was typed, and the value that the
contract computes from them. -/
structure BuiltLaunch.Exact (launch : BuiltLaunch) (tools : LaunchTools) (client : LaunchClient)
    (router : AddressText) (input : BuildLaunchInput) (params : FactoryParameters)
    (economics : BitVec 256) (args : LaunchAndBuy) : Prop where
  target : launch.to_ = router
  data : launch.data = args.calldata
  texts : args.tokenParams.name = input.name ∧ args.tokenParams.symbol = input.symbol ∧
    args.tokenParams.logo = input.logo ∧ args.tokenParams.description = input.descriptionText ∧
    args.tokenParams.socials = input.socialsArg
  creatorFeeRecipient : args.tokenParams.creatorFeeRecipient =
    addressWord (input.creatorFeeRecipient.getD input.creator)
  buybackEnabled : args.tokenParams.buybackEnabled = input.buybackEnabled
  salt : launch.salt = input.saltBytes tools.keccak256 client.dateNow ∧ launch.salt.length = 32 ∧
    args.tokenParams.salt = BitVec.ofNat 256 (Abi.readBE launch.salt)
  launchConfigId : (args.launchConfigId.toNat : Int) = input.launchConfigId
  pairToken : args.pairToken = addressWord input.pairToken
  recipient : args.recipient = addressWord (input.devBuyRecipient.getD input.creator)
  launchFee : launch.launchFee = params.launchFee.toNat
  value : launch.value = launch.launchFee +
    if args.pairToken = 0 then (args.quoteIn.toNat : Int) else 0
  quoteIn : (args.quoteIn.toNat : Int) = input.devBuyAmount
  minTokensOut : (args.minTokensOut.toNat : Int) = input.minTokensOut
  floor : args.quoteIn = 0 → args.minTokensOut = 0
  tax : input.creatorTaxBps.integer = some (args.tokenParams.creatorTaxBps.toNat : Int) ∧
    args.tokenParams.creatorTaxBps.toNat ≤ params.maxCreatorTaxBps.toNat
  economics : launch.expectedEconomics = economics ∧ args.tokenParams.expectedEconomics = economics
  exemptions : args.snipeTaxExemptions = launch.whitelist.map addressWord
  count : args.snipeTaxExemptions.length ≤ maxDeclarableSnipeExemptions
  distinct : args.snipeTaxExemptions.Nodup
  nonzero : 0 ∉ args.snipeTaxExemptions
  notExempt : args.tokenParams.creatorFeeRecipient ∉ args.snipeTaxExemptions

section build

variable {tools : LaunchTools} {client : LaunchClient} {factory router : AddressText}
  {input : BuildLaunchInput} {params : FactoryParameters} {economics : BitVec 256}
  {launch : BuiltLaunch} {percent : Nat → String} {maxCreatorTaxBps : Nat}

def BuildLaunchInput.built (tools : LaunchTools) (client : LaunchClient) (router : AddressText)
    (input : BuildLaunchInput) (params : FactoryParameters) (economics : BitVec 256) :
    BuiltLaunch :=
  let exemptions := validateSnipeExemptions tools.toViemAddress input.exemptionInput
  let salt := input.saltBytes tools.keccak256 client.dateNow
  { to_ := router
    data := (input.args economics salt exemptions.addresses).calldata
    value := launchValue params.launchFee.toNat input.devBuyAmount input.pairToken
    launchFee := params.launchFee.toNat
    expectedEconomics := economics
    salt
    whitelist := exemptions.addresses
    warnings := input.warnings exemptions }

theorem mapError_eq_ok {ε δ α : Type} {x : Except ε α} {f : ε → δ} {a : α} :
    x.mapError f = .ok a ↔ x = .ok a := by
  cases x <;> simp [Except.mapError]

theorem errors_length_iff {exemptions : ExemptionValidationResult} :
    ¬(validateLaunchInput percent input maxCreatorTaxBps ++ exemptions.errors).length > 0 ↔
      input.Valid maxCreatorTaxBps ∧ exemptions.errors = [] := by
  rw [gt_iff_lt, List.length_pos_iff, not_not, List.append_eq_nil_iff]
  rw [validateLaunchInput_eq_nil]

theorem Launchable.no_errors (hviem : tools.Documented)
    (h : Launchable tools client factory input params economics) :
    (validateSnipeExemptions tools.toViemAddress input.exemptionInput).errors = [] :=
  (errors_eq_nil_iff hviem _).mpr ⟨fun raw hraw => not_refuses_iff.mp (h.entries raw hraw), h.count⟩

theorem buildLaunchTransaction_eq_launch (hviem : tools.Documented) :
    buildLaunchTransaction tools client factory router input = .ok (.launch launch) ↔
      ∃ params economics, Launchable tools client factory input params economics ∧
        launch = input.built tools client router params economics := by
  have hexempt (h : (validateSnipeExemptions tools.toViemAddress input.exemptionInput).errors = []) :
      ∀ a ∈ (validateSnipeExemptions tools.toViemAddress input.exemptionInput).addresses,
        tools.isAddress a = true :=
    fun a ha => ((accepts_of_no_errors hviem _ h).checksummed a ha).1
  simp only [buildLaunchTransaction, bind_eq_ok, mapError_eq_ok]
  constructor
  · rintro ⟨params, hparams, approved, happroved, h⟩
    split at h
    · cases h
    rename_i hpair
    split at h
    · cases h
    rename_i henabled
    split at h
    · cases h
    rename_i herrors
    obtain ⟨hvalid, hnone⟩ := errors_length_iff.mp herrors
    simp only [bind_eq_ok, mapError_eq_ok, BuildLaunchInput.encode_eq_ok (hexempt hnone)] at h
    obtain ⟨economics, heconomics, args, ⟨hencodable, rfl⟩, h⟩ := h
    obtain ⟨hentries, hcount⟩ := (errors_eq_nil_iff hviem _).mp hnone
    refine ⟨params, economics, ⟨hparams, ?_, by simpa using henabled, hvalid,
      fun raw hraw => not_refuses_iff.mpr (hentries raw hraw), hcount, heconomics, hencodable⟩, ?_⟩
    · rw [happroved]
      simpa using hpair
    · cases h
      rfl
  · rintro ⟨params, economics, h, rfl⟩
    have hnone := h.no_errors hviem
    refine ⟨params, h.read, true, h.approved, ?_⟩
    rw [if_neg (by decide), if_neg (by simp [h.enabled]), if_neg]
    · simp only [bind_eq_ok, mapError_eq_ok, BuildLaunchInput.encode_eq_ok (hexempt hnone)]
      exact ⟨economics, h.economics, _, ⟨h.encodable, rfl⟩, rfl⟩
    · exact errors_length_iff.mpr ⟨h.valid, hnone⟩

theorem toNat_ofInt {size : Nat} {value : Int} (h : 0 ≤ value ∧ value < 2 ^ size) :
    ((BitVec.ofInt size value).toNat : Int) = value := by
  have hmod : value % ((2 ^ size : Nat) : Int) = value := by
    rw [Nat.cast_pow]
    exact Int.emod_eq_of_lt h.1 h.2
  rw [BitVec.toNat_ofInt, hmod, Int.toNat_of_nonneg h.1]

theorem Launchable.exact (hviem : tools.Documented)
    (h : Launchable tools client factory input params economics) :
    ∃ args, (input.built tools client router params economics).Exact tools client router input
      params economics args := by
  have haccepts := accepts_of_no_errors hviem _ (h.no_errors hviem)
  obtain ⟨bps, hbps, hmax⟩ := h.valid.tax
  obtain ⟨bps', hbps', hrange⟩ := h.encodable.tax
  obtain rfl : (bps : Int) = bps' := Option.some.inj (hbps.symm.trans hbps')
  have htax : ((BitVec.ofInt 16 bps).toNat : Int) = bps := toNat_ofInt hrange
  have hbuy := toNat_ofInt h.encodable.buy
  have hfloor := toNat_ofInt h.encodable.floor
  have hpair := addressWord_eq_zero_iff (hviem.hex h.encodable.pair)
  have hrecipient : input.exemptionInput.Exempts (input.creatorFeeRecipient.getD input.creator) := by
    rw [ExemptionValidationInput.Exempts]
    cases hnone : input.creatorFeeRecipient with
    | none => exact .inl rfl
    | some recipient => exact .inr ⟨recipient, hnone, rfl⟩
  refine ⟨input.args economics (input.saltBytes tools.keccak256 client.dateNow)
    (validateSnipeExemptions tools.toViemAddress input.exemptionInput).addresses, ?_⟩
  exact {
    target := rfl
    data := rfl
    texts := ⟨rfl, rfl, rfl, rfl, rfl⟩
    creatorFeeRecipient := rfl
    buybackEnabled := rfl
    salt := ⟨rfl, h.encodable.salt, rfl⟩
    launchConfigId := toNat_ofInt h.encodable.config
    pairToken := rfl
    recipient := rfl
    launchFee := rfl
    value := by
      simp only [BuildLaunchInput.built, BuildLaunchInput.args, launchValue, isNativeText,
        decide_eq_true_eq, hpair, toLowerCase_zeroAddress, hbuy]
      split <;> simp
    quoteIn := hbuy
    minTokensOut := hfloor
    floor := fun hzero => by
      have hnone : input.devBuyAmount = 0 := by
        rw [← hbuy]
        exact_mod_cast congrArg BitVec.toNat hzero
      have hle := h.valid.floor hnone
      have heq : input.minTokensOut = 0 := le_antisymm hle h.encodable.floor.1
      simp [BuildLaunchInput.args, heq]
    tax := by
      simp only [BuildLaunchInput.args, hbps, Option.getD_some]
      refine ⟨congrArg some htax.symm, ?_⟩
      have : (BitVec.ofInt 16 (bps : Int)).toNat = bps := by exact_mod_cast htax
      omega
    economics := ⟨rfl, rfl⟩
    exemptions := rfl
    count := by
      simp only [BuildLaunchInput.args, List.length_map]
      exact h.count
    distinct := haccepts.words_nodup hviem
    nonzero := haccepts.zero_notMem_words hviem
    notExempt := haccepts.exempt_notMem_words hviem h.encodable.feeRecipient hrecipient }

theorem errors_ne_nil {errors : List String}
    (h : buildLaunchTransaction tools client factory router input = .ok (.errors errors)) :
    errors ≠ [] := by
  simp only [buildLaunchTransaction, bind_eq_ok, mapError_eq_ok] at h
  obtain ⟨params, -, approved, -, h⟩ := h
  split at h
  · cases h
    exact List.cons_ne_nil _ _
  split at h
  · cases h
    exact List.cons_ne_nil _ _
  split at h
  · rename_i hsome
    cases h
    exact List.length_pos_iff.mp hsome
  · simp only [bind_eq_ok, mapError_eq_ok] at h
    obtain ⟨_, -, _, -, h⟩ := h
    cases h

end build

section sample

def sampleTools : LaunchTools where
  toViemAddress := letterless
  keccak256 _ := 4096
  percent _ := "10"

def sampleParams : FactoryParameters where
  launchFee := 500
  launchEnabled := true
  maxCreatorTaxBps := 1000
  snipeTaxStartBps := 9900
  snipeTaxSeconds := 3
  owner := 7

def sampleClient : LaunchClient where
  readFactoryParameters _ := .ok sampleParams
  readPairTokenApproved _ _ := .ok false
  previewLaunchEconomics _ _ _ := .ok 4096
  dateNow := 9

def sampleInput : BuildLaunchInput where
  name := sampleLaunch.tokenParams.name
  symbol := sampleLaunch.tokenParams.symbol
  logo := sampleLaunch.tokenParams.logo
  description := none
  socials := some { entries := [(.website, some (argText "https://a".toList))], nodup := by simp }
  creator := '0' :: 'x' :: List.replicate 40 '3'
  creatorFeeRecipient := none
  creatorTaxBps := .ofNat 200
  buybackEnabled := true
  launchConfigId := 3
  pairToken := zeroAddress
  devBuyAmount := 40
  minTokensOut := 8
  devBuyRecipient := some ('0' :: 'x' :: List.replicate 40 '5')
  whitelist := ['0' :: 'x' :: List.replicate 40 '1']
  salt := none

theorem sampleInput_launchable (factory : AddressText) : Launchable sampleTools sampleClient factory
    sampleInput sampleParams 4096 where
  read := rfl
  approved := rfl
  enabled := rfl
  valid := {
    name := ⟨by decide, by decide⟩
    symbol := ⟨by decide, by decide⟩
    logo := ⟨by decide, by decide⟩
    description := by decide
    tax := ⟨200, rfl, by decide⟩
    buy := by decide
    floor := by decide
    links := fun key link hmem => by
      obtain ⟨-, hlink⟩ := Prod.mk.inj (List.mem_singleton.mp hmem)
      obtain rfl := Option.some.inj hlink
      exact ⟨by decide, by decide⟩ }
  entries := List.forall_mem_singleton.mpr (not_refuses_iff.mpr (by decide))
  count := by decide
  economics := rfl
  encodable := {
    feeRecipient := by decide
    tax := ⟨200, rfl, by decide, by decide⟩
    salt := by decide
    config := by decide
    pair := by decide
    buy := by decide
    floor := by decide
    recipient := by decide }

end sample

end Stunks.Pons
