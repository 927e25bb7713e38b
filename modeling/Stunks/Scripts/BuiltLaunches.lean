import Stunks.Pons.Launch.Builder
import Stunks.Scripts.BackfillMetadata

namespace Stunks.Pons

theorem length_le_utf16Length (text : List Char) : text.length ≤ utf16Length text := by
  induction text with
  | nil => exact Nat.le_refl 0
  | cons c text ih =>
    have hunits : 1 ≤ Pattern.units c := by
      unfold Pattern.units
      split <;> decide
    rw [List.length_cons, utf16Length]
    omega

/-- No control character but for those of white space. -/
def PlainText (text : ArgText) : Prop := ∀ c ∈ text.val, isControl c = false

theorem RequiredText.scannable {limit : Nat} {text : ArgText} (h : RequiredText limit text)
    (hplain : PlainText text) (hlimit : limit ≤ 512) : Scannable text.val where
  nonempty hnil := h.nonblank (by rw [hnil]; rfl)
  length_le := by
    have hbytes := Utf8.encode_length_le text.val
    have hunits := length_le_utf16Length text.val
    have hshort := h.short
    rw [maxStringBytes]
    omega
  plain := hplain

theorem carried_of_short {text : ArgText} (hshort : utf16Length text.val ≤ 512)
    (hplain : PlainText text) : Carried text.val where
  length_le := by
    have hbytes := Utf8.encode_length_le text.val
    have hunits := length_le_utf16Length text.val
    rw [maxStringBytes]
    omega
  plain := hplain

namespace BuildLaunchInput

variable (input : BuildLaunchInput)

def fields : List (List Char) :=
  [input.descriptionText, input.social .website, input.social .twitter, input.social .telegram,
    input.social .discord, input.social .farcaster].map Subtype.val

/-- What was typed is text, and the amounts leave the highest byte free. -/
structure Plain : Prop where
  name : PlainText input.name
  symbol : PlainText input.symbol
  logo : PlainText input.logo
  description : PlainText input.descriptionText
  socials : ∀ key, PlainText (input.social key)
  buy : input.devBuyAmount < 2 ^ 248
  floor : input.minTokensOut < 2 ^ 248

theorem social_eq (key : SocialKey) : input.social key = blankText ∨
    (key, some (input.social key)) ∈ input.socials.elim [] LaunchSocials.entries := by
  unfold social
  cases input.socials with
  | none => exact .inl rfl
  | some socials =>
    simp only [Option.bind_some, Option.elim_some]
    cases hfound : socials.entries.lookup key with
    | none => exact .inl rfl
    | some link =>
      obtain ⟨before, after, hentries, -⟩ := List.lookup_eq_some_iff.mp hfound
      cases link with
      | none => exact .inl rfl
      | some link => exact .inr (by simp [hentries])

variable {input}

theorem Valid.social_short {maxCreatorTaxBps : Nat} (h : input.Valid maxCreatorTaxBps)
    (key : SocialKey) : utf16Length (input.social key).val ≤ 256 := by
  rcases input.social_eq key with hblank | hmem
  · rw [hblank]
    exact Nat.zero_le 256
  · exact (h.links key _ hmem).short

end BuildLaunchInput

section readable

variable {tools : LaunchTools} {client : LaunchClient} {factory : AddressText}
  {input : BuildLaunchInput} {params : FactoryParameters} {economics : BitVec 256}

theorem Launchable.readable (h : Launchable tools client factory input params economics)
    (hplain : input.Plain) (hlarge : maxStringBytes < economics.toNat)
    (hbyte : economics.toNat % 2 ^ 248 ≠ 0) (salt : List UInt8) (exemptions : List AddressText) :
    (input.args economics salt exemptions).Readable where
  name := h.valid.name.scannable hplain.name (by decide)
  symbol := h.valid.symbol.scannable hplain.symbol (by decide)
  logo := h.valid.logo.scannable hplain.logo (by decide)
  texts := by
    have hsocial (key : SocialKey) : Carried (input.social key).val :=
      carried_of_short ((h.valid.social_short key).trans (by decide)) (hplain.socials key)
    simp only [TokenParams.texts, SocialsArg.texts, List.forall_mem_cons]
    exact ⟨carried_of_short h.valid.description hplain.description, hsocial .website,
      hsocial .twitter, hsocial .telegram, hsocial .discord, hsocial .farcaster, by simp⟩
  quoteIn := by
    have hword := toNat_ofInt h.encodable.buy
    have hlt := hplain.buy
    simp only [BuildLaunchInput.args]
    omega
  minTokensOut := by
    have hword := toNat_ofInt h.encodable.floor
    have hlt := hplain.floor
    simp only [BuildLaunchInput.args]
    omega
  large := hlarge
  byte := hbyte

theorem launch_metadata {args : LaunchAndBuy} (h : args.Readable) :
    ∃ metadata, extractLaunchMetadata args.calldata args.identity = some metadata ∧
      metadata.logo = args.tokenParams.logo.val ∧
      metadata.fields = movedUp args.tokenParams.fields := by
  obtain ⟨metadata, hmetadata, hfields⟩ := launch_fields h
  refine ⟨metadata, hmetadata, ?_, hfields⟩
  obtain ⟨a, b, c, next, hfound⟩ :=
    args.findStrings h.name h.symbol h.logo h.quoteIn h.minTokensOut h.large h.byte
  simp only [extractLaunchMetadata, findCalldataStrings_calldata, hfound, afterAnchor,
    LaunchAndBuy.identity] at hmetadata
  rw [if_neg (not_or.mpr ⟨h.name.nonempty, h.symbol.nonempty⟩)] at hmetadata
  simp only [true_and, if_true, List.map_cons, List.getD_cons_zero,
    if_neg h.logo.nonempty] at hmetadata
  rw [← Option.some.inj hmetadata]

end readable

end Stunks.Pons

namespace Stunks.Scripts.BackfillMetadata

open Pons

def Recovered.columns (recovered : Recovered) : List (Option (List Char)) :=
  [recovered.description, recovered.websiteUrl, recovered.twitterUrl, recovered.telegramUrl,
    recovered.discordUrl, recovered.farcasterUrl]

structure StoresInput (parse : UrlParser) (input : BuildLaunchInput) (recovered : Recovered) :
    Prop where
  imageUrl : recovered.imageUrl = normaliseImageUrl parse input.logo.val
  columns : recovered.columns = (movedUp input.fields).map orNull
  /-- Each in its own column, unless a blank one stands before another. -/
  inPlace : (input.fields.Pairwise fun first later => first = [] → later = []) →
    recovered.columns = input.fields.map orNull

section built

variable {tools : LaunchTools} {client : LaunchClient} {factory router : AddressText}
  {input : BuildLaunchInput} {launch : BuiltLaunch} {parse : UrlParser}

theorem examine_built (hviem : tools.Documented)
    (hbuilt : buildLaunchTransaction tools client factory router input = .ok (.launch launch))
    (hplain : input.Plain) (hlarge : maxStringBytes < launch.expectedEconomics.toNat)
    (hbyte : launch.expectedEconomics.toNat % 2 ^ 248 ≠ 0) :
    StoresInput parse input
      (examine parse launch.data { name := input.name.val, symbol := input.symbol.val }) := by
  obtain ⟨params, economics, h, rfl⟩ := (buildLaunchTransaction_eq_launch hviem).mp hbuilt
  have hreadable := h.readable hplain hlarge hbyte
    (input.saltBytes tools.keccak256 client.dateNow)
    (validateSnipeExemptions tools.toViemAddress input.exemptionInput).addresses
  obtain ⟨metadata, hmetadata, hlogo, hfields⟩ := launch_metadata hreadable
  have hexamine : examine parse (input.built tools client router params economics).data
      { name := input.name.val, symbol := input.symbol.val } =
        { imageUrl := normaliseImageUrl parse metadata.logo
          description := orNull metadata.description
          websiteUrl := orNull metadata.socials.website
          twitterUrl := orNull metadata.socials.twitter
          telegramUrl := orNull metadata.socials.telegram
          discordUrl := orNull metadata.socials.discord
          farcasterUrl := orNull metadata.socials.farcaster } := by
    have hfound : extractLaunchMetadata (input.built tools client router params economics).data
        { name := input.name.val, symbol := input.symbol.val } = some metadata := hmetadata
    simp only [examine, hfound]
  have hcolumns : (examine parse (input.built tools client router params economics).data
      { name := input.name.val, symbol := input.symbol.val }).columns =
        (movedUp input.fields).map orNull := by
    rw [hexamine, show input.fields = _ from rfl]
    exact congrArg (List.map orNull) hfields
  refine ⟨?_, hcolumns, fun hplace => ?_⟩
  · rw [hexamine]
    exact congrArg (normaliseImageUrl parse) hlogo
  · rw [hcolumns, movedUp_eq_iff.mpr hplace]

/-- Wherever the indexer and any runs of the backfill are cut off: a row of a launch that was built
here says what was typed if it has been examined, and nothing else if it has not. -/
theorem built_launch_stored (hviem : tools.Documented)
    (hbuilt : buildLaunchTransaction tools client factory router input = .ok (.launch launch))
    (hplain : input.Plain) (hlarge : maxStringBytes < launch.expectedEconomics.toNat)
    (hbyte : launch.expectedEconomics.toNat % 2 ^ 248 ≠ 0)
    {calldata : Nat → List Char} {args : Nat → Args} {tokens : List Token} {nextId : Nat}
    (h : Sound parse calldata (.start tokens nextId))
    {ls : List (System.Label Nat Answer World.Event)} {c : System.Config Nat Call Unit Nat World}
    (hrun : (World.system parse calldata args).Run (fun _ _ => True) (.rest (.start tokens nextId))
      ls c) {token : Token} (htoken : token ∈ c.world.tokens) (hname : token.name = input.name.val)
    (hsymbol : token.symbol = input.symbol.val)
    (hdata : calldata token.launchTxHash = launch.data) :
    (token.metadataCheckedAt ≠ none → StoresInput parse input token.recovered) ∧
      (token.recovered = .blank ∨ StoresInput parse input token.recovered) := by
  have hstored : Told parse calldata token → StoresInput parse input token.recovered := by
    intro htold
    have hidentity : token.identity = { name := input.name.val, symbol := input.symbol.val } := by
      rw [Token.identity, hname, hsymbol]
    rw [htold, hdata, hidentity]
    exact examine_built hviem hbuilt hplain hlarge hbyte
  have hfair := (over_run h hrun 0).1.fair token htoken
  exact ⟨fun hchecked => hstored (hfair.checked hchecked), hfair.blank.imp_right hstored⟩

end built

section sample

theorem plainText_of_all {text : ArgText} (h : (text.val.all fun c => !isControl c) = true) :
    PlainText text :=
  fun c hc => by simpa using List.all_eq_true.mp h c hc

theorem sampleInput_plain : sampleInput.Plain where
  name := plainText_of_all (by decide)
  symbol := plainText_of_all (by decide)
  logo := plainText_of_all (by decide)
  description := plainText_of_all (by decide)
  socials key := by cases key <;> exact plainText_of_all (by decide)
  buy := by decide
  floor := by decide

def sampleBuilt : BuiltLaunch := sampleInput.built sampleTools sampleClient [] sampleParams 4096

def sampleToken : Token where
  id := 0
  chainId := robinhoodChainId
  name := sampleInput.name.val
  symbol := sampleInput.symbol.val
  launchTxHash := 9
  launchBlock := 5
  recovered := examine (fun _ => none) sampleBuilt.data
    { name := sampleInput.name.val, symbol := sampleInput.symbol.val }
  metadataCheckedAt := some 7

theorem happens_sampleToken : World.happens (fun _ => none) (fun _ => sampleBuilt.data)
    (.launched robinhoodChainId sampleInput.name.val sampleInput.symbol.val 9 5 (some 7))
    (.start [] 0) = .start [sampleToken] 1 := by
  simp only [World.happens, Option.map_some, Option.getD_some, recoverLaunchMetadata_some]
  rfl

theorem built_launch_stored_sample :
    (World.system (fun _ => none) (fun _ => sampleBuilt.data) fun _ => sampleArgs).Run
      (fun _ _ => True) (.rest (.start [] 0)) [.env (.launched robinhoodChainId
        sampleInput.name.val sampleInput.symbol.val 9 5 (some 7))] (.rest (.start [sampleToken] 1)) ∧
      StoresInput (fun _ => none) sampleInput sampleToken.recovered := by
  have hbuilt : buildLaunchTransaction sampleTools sampleClient [] [] sampleInput =
      .ok (.launch sampleBuilt) :=
    (buildLaunchTransaction_eq_launch letterless_documented).mpr
      ⟨_, _, sampleInput_launchable [], rfl⟩
  have hstart : Sound (fun _ => none) (fun _ => sampleBuilt.data) (.start [] 0) :=
    ⟨List.nodup_nil, fun _ h => absurd h List.not_mem_nil, fun _ h => absurd h List.not_mem_nil⟩
  have hrun : (World.system (fun _ => none) (fun _ => sampleBuilt.data) fun _ => sampleArgs).Run
      (fun _ _ => True) (.rest (.start [] 0)) [.env (.launched robinhoodChainId
        sampleInput.name.val sampleInput.symbol.val 9 5 (some 7))]
      (.rest (.start [sampleToken] 1)) := by
    refine .cons ⟨trivial, ?_⟩ .nil
    rw [← happens_sampleToken]
    rfl
  have hmem : sampleToken ∈ (World.start [sampleToken] 1).tokens := List.mem_singleton_self _
  exact ⟨hrun, (built_launch_stored letterless_documented hbuilt sampleInput_plain (by decide)
    (by decide) hstart hrun hmem rfl rfl rfl).1 (Option.some_ne_none _)⟩

end sample

end Stunks.Scripts.BackfillMetadata
