import Stunks.Pons.Launch.Metadata

/-! `abi/hook.ts`: the calldata of `launchAndBuy`. -/

namespace Stunks.Pons

/-- A string has fewer than `2 ^ 53` code units. -/
abbrev ArgText := { text : List Char // text.length < 2 ^ 53 }

structure SocialsArg where
  website : ArgText
  twitter : ArgText
  telegram : ArgText
  discord : ArgText
  farcaster : ArgText

structure TokenParams where
  name : ArgText
  symbol : ArgText
  logo : ArgText
  description : ArgText
  socials : SocialsArg
  creatorFeeRecipient : BitVec 160
  creatorTaxBps : BitVec 16
  buybackEnabled : Bool
  expectedEconomics : BitVec 256
  salt : BitVec 256

structure LaunchAndBuy where
  tokenParams : TokenParams
  launchConfigId : BitVec 256
  pairToken : BitVec 160
  quoteIn : BitVec 256
  minTokensOut : BitVec 256
  recipient : BitVec 160
  snipeTaxExemptions : List (BitVec 160)

open Abi

def encodeText (text : ArgText) : Encoded := string (Utf8.encode text.val)

def SocialsArg.encode (socials : SocialsArg) : Encoded :=
  tuple [encodeText socials.website, encodeText socials.twitter, encodeText socials.telegram,
    encodeText socials.discord, encodeText socials.farcaster]

def TokenParams.encode (params : TokenParams) : Encoded :=
  tuple [encodeText params.name, encodeText params.symbol, encodeText params.logo,
    encodeText params.description, params.socials.encode, uint params.creatorFeeRecipient.toNat,
    uint params.creatorTaxBps.toNat, uint params.buybackEnabled.toNat,
    uint params.expectedEconomics.toNat, uint params.salt.toNat]

def LaunchAndBuy.encode (args : LaunchAndBuy) : Encoded :=
  tuple [args.tokenParams.encode, uint args.launchConfigId.toNat, uint args.pairToken.toNat,
    uint args.quoteIn.toNat, uint args.minTokensOut.toNat, uint args.recipient.toNat,
    array (args.snipeTaxExemptions.map fun exemption => uint exemption.toNat)]

def launchAndBuySelector : List UInt8 := [0xf8, 0x5f, 0x8e, 0x41]

def hexDigit (n : Nat) : Char := if n < 10 then Char.ofNat (48 + n) else Char.ofNat (87 + n)

def hexOfBytes (bytes : List UInt8) : List Char :=
  bytes.flatMap fun b => [hexDigit (b.toNat / 16), hexDigit (b.toNat % 16)]

def LaunchAndBuy.calldata (args : LaunchAndBuy) : List Char :=
  ['0', 'x'] ++ hexOfBytes (launchAndBuySelector ++ args.encode.bytes)

section hex

theorem hexValue_hexDigit {n : Nat} (h : n < 16) : hexValue (hexDigit n) = some n := by
  have hall : ∀ k : Fin 16, hexValue (hexDigit k) = some k.val := by decide
  exact hall ⟨n, h⟩

theorem bytesOfHex_hexOfBytes (bytes : List UInt8) : bytesOfHex (hexOfBytes bytes) = bytes := by
  induction bytes with
  | nil => rfl
  | cons b bytes ih =>
    have hb : b.toNat < 256 := b.toNat_lt
    have hjoin : b.toNat / 16 * 16 + b.toNat % 16 = b.toNat := by omega
    simp only [hexOfBytes, List.flatMap_cons, List.cons_append, List.nil_append, bytesOfHex,
      hexValue_hexDigit (show b.toNat / 16 < 16 by omega),
      hexValue_hexDigit (show b.toNat % 16 < 16 by omega), hjoin, UInt8.ofNat_toNat]
    exact congrArg _ ih

theorem length_hexOfBytes (bytes : List UInt8) : (hexOfBytes bytes).length = 2 * bytes.length := by
  induction bytes with
  | nil => rfl
  | cons b bytes ih =>
    simp only [hexOfBytes, List.flatMap_cons, List.length_append, List.length_cons,
      List.length_nil] at ih ⊢
    omega

end hex

section layout

@[simp] theorem encodeText_dynamic (text : ArgText) : (encodeText text).dynamic = true := rfl

@[simp] theorem SocialsArg.encode_dynamic (socials : SocialsArg) :
    socials.encode.dynamic = true := rfl

@[simp] theorem TokenParams.encode_dynamic (params : TokenParams) :
    params.encode.dynamic = true := rfl

theorem encodeText_length_le (text : ArgText) : (encodeText text).bytes.length ≤ 2 ^ 56 := by
  have hstring := length_string (Utf8.encode text.val)
  have hencode := Utf8.encode_length_le text.val
  have htext := text.property
  simp only [encodeText]
  omega

theorem SocialsArg.encode_length_le (socials : SocialsArg) :
    socials.encode.bytes.length ≤ 2 ^ 59 := by
  have hwebsite := encodeText_length_le socials.website
  have htwitter := encodeText_length_le socials.twitter
  have htelegram := encodeText_length_le socials.telegram
  have hdiscord := encodeText_length_le socials.discord
  have hfarcaster := encodeText_length_le socials.farcaster
  simp only [SocialsArg.encode, tuple, List.length_append, length_heads]
  simp [tails, Encoded.headSize, List.filter_cons]
  omega

theorem TokenParams.encode_bytes (params : TokenParams) :
    let symbolAt := 320 + (encodeText params.name).bytes.length
    let logoAt := symbolAt + (encodeText params.symbol).bytes.length
    let descriptionAt := logoAt + (encodeText params.logo).bytes.length
    let socialsAt := descriptionAt + (encodeText params.description).bytes.length
    params.encode.bytes = [320, symbolAt, logoAt, descriptionAt, socialsAt,
        params.creatorFeeRecipient.toNat, params.creatorTaxBps.toNat].flatMap word ++
      (word params.buybackEnabled.toNat ++ (word params.expectedEconomics.toNat ++
        (word params.salt.toNat ++ ((encodeText params.name).bytes ++
          ((encodeText params.symbol).bytes ++ ((encodeText params.logo).bytes ++
            ((encodeText params.description).bytes ++ params.socials.encode.bytes))))))) := by
  simp [TokenParams.encode, tuple, heads, tails, Encoded.headSize, List.filter_cons]

def LaunchAndBuy.exemptions (args : LaunchAndBuy) : List UInt8 :=
  (array (args.snipeTaxExemptions.map fun exemption => uint exemption.toNat)).bytes

theorem LaunchAndBuy.encode_bytes (args : LaunchAndBuy) :
    args.encode.bytes = word 224 ++ ([args.launchConfigId.toNat, args.pairToken.toNat,
        args.quoteIn.toNat, args.minTokensOut.toNat, args.recipient.toNat,
        224 + args.tokenParams.encode.bytes.length].flatMap word ++
      (args.tokenParams.encode.bytes ++ args.exemptions)) := by
  rw [LaunchAndBuy.exemptions]
  simp [LaunchAndBuy.encode, tuple, heads, tails, Encoded.headSize, List.filter_cons]

end layout

section recover

variable {args : LaunchAndBuy}

theorem two_pow_248 : 2 ^ 248 = 256 ^ 31 := by decide

theorem lt_of_bitVec {k : Nat} (x : BitVec k) (h : k ≤ 248) : x.toNat < 256 ^ 31 :=
  two_pow_248 ▸ Nat.lt_of_lt_of_le x.isLt (Nat.pow_le_pow_right (by decide) h)

theorem lt_of_uint256 (x : BitVec 256) : x.toNat < 256 ^ 32 :=
  Nat.lt_of_lt_of_le x.isLt (by decide)

theorem stringAt_first {n : Nat} {pairToken : BitVec 160} {rest : List UInt8} :
    stringAt (word 224 ++ (word n ++ (word pairToken.toNat ++ rest))) = none := by
  rw [stringAt_word (by decide), if_pos (by decide)]
  refine textOfLength_zero ?_
  rw [word_eq_zero_cons (lt_of_bitVec pairToken (by decide)), List.take_append, length_word]
  exact List.mem_append_right _ List.mem_cons_self

theorem TokenParams.offsets_lt (params : TokenParams) :
    320 + (encodeText params.name).bytes.length + (encodeText params.symbol).bytes.length +
        (encodeText params.logo).bytes.length + (encodeText params.description).bytes.length <
      256 ^ 31 := by
  have hname := encodeText_length_le params.name
  have hsymbol := encodeText_length_le params.symbol
  have hlogo := encodeText_length_le params.logo
  have hdescription := encodeText_length_le params.description
  exact Nat.lt_of_le_of_lt (show _ ≤ 2 ^ 60 by omega) (by decide)

theorem TokenParams.encode_length_lt (params : TokenParams) :
    224 + params.encode.bytes.length < 256 ^ 31 := by
  have hname := encodeText_length_le params.name
  have hsymbol := encodeText_length_le params.symbol
  have hlogo := encodeText_length_le params.logo
  have hdescription := encodeText_length_le params.description
  have hsocials := params.socials.encode_length_le
  have hlength : params.encode.bytes.length = 320 + ((encodeText params.name).bytes.length +
      ((encodeText params.symbol).bytes.length + ((encodeText params.logo).bytes.length +
        ((encodeText params.description).bytes.length + params.socials.encode.bytes.length)))) := by
    rw [params.encode_bytes]
    simp
    omega
  exact Nat.lt_of_le_of_lt (show _ ≤ 2 ^ 61 by omega) (by decide)

def LaunchAndBuy.words (args : LaunchAndBuy) : List Nat :=
  let params := args.tokenParams
  let symbolAt := 320 + (encodeText params.name).bytes.length
  let logoAt := symbolAt + (encodeText params.symbol).bytes.length
  let descriptionAt := logoAt + (encodeText params.logo).bytes.length
  let socialsAt := descriptionAt + (encodeText params.description).bytes.length
  [args.quoteIn.toNat, args.minTokensOut.toNat, args.recipient.toNat,
    224 + params.encode.bytes.length, 320, symbolAt, logoAt, descriptionAt, socialsAt,
    params.creatorFeeRecipient.toNat, params.creatorTaxBps.toNat]

def LaunchAndBuy.afterLogo (args : LaunchAndBuy) : List UInt8 :=
  (encodeText args.tokenParams.description).bytes ++
    (args.tokenParams.socials.encode.bytes ++ args.exemptions)

theorem LaunchAndBuy.layout (args : LaunchAndBuy) : args.encode.bytes =
    word 224 ++ ((args.launchConfigId.toNat :: args.pairToken.toNat :: args.words).flatMap word ++
      (word args.tokenParams.buybackEnabled.toNat ++
        (word args.tokenParams.expectedEconomics.toNat ++ (word args.tokenParams.salt.toNat ++
          ((encodeText args.tokenParams.name).bytes ++
            ((encodeText args.tokenParams.symbol).bytes ++
            ((encodeText args.tokenParams.logo).bytes ++ args.afterLogo))))))) := by
  rw [args.encode_bytes, LaunchAndBuy.afterLogo]
  nth_rewrite 2 [args.tokenParams.encode_bytes]
  simp [LaunchAndBuy.words]

theorem LaunchAndBuy.words_lt (args : LaunchAndBuy) (hquote : args.quoteIn.toNat < 2 ^ 248)
    (hmin : args.minTokensOut.toNat < 2 ^ 248) : ∀ n ∈ args.words, n < 256 ^ 31 := by
  have hoffsets := args.tokenParams.offsets_lt
  have htuple := args.tokenParams.encode_length_lt
  have hrecipient := lt_of_bitVec args.recipient (by decide)
  have hfee := lt_of_bitVec args.tokenParams.creatorFeeRecipient (by decide)
  have htax := lt_of_bitVec args.tokenParams.creatorTaxBps (by decide)
  rw [two_pow_248] at hquote hmin
  simp only [LaunchAndBuy.words, List.forall_mem_cons]
  generalize 256 ^ 31 = top at *
  refine ⟨hquote, hmin, hrecipient, htuple, by omega, by omega, by omega, by omega, by omega, hfee,
    htax, nofun⟩

theorem LaunchAndBuy.findStrings (args : LaunchAndBuy)
    (hname : Scannable args.tokenParams.name.val) (hsymbol : Scannable args.tokenParams.symbol.val)
    (hlogo : Scannable args.tokenParams.logo.val) (hquote : args.quoteIn.toNat < 2 ^ 248)
    (hmin : args.minTokensOut.toNat < 2 ^ 248)
    (hlarge : maxStringBytes < args.tokenParams.expectedEconomics.toNat)
    (hbyte : args.tokenParams.expectedEconomics.toNat % 2 ^ 248 ≠ 0) :
    ∃ a b c next, Pons.findStrings 0 args.encode.bytes =
      { start := a, text := args.tokenParams.name.val } ::
        { start := b, text := args.tokenParams.symbol.val } ::
          { start := c, text := args.tokenParams.logo.val } ::
            Pons.findStrings next args.afterLogo := by
  have hlayout := args.layout
  have hpair := lt_of_bitVec args.pairToken (by decide)
  have hflag : args.tokenParams.buybackEnabled.toNat < 256 ^ 31 := by
    cases args.tokenParams.buybackEnabled <;> decide
  have hsize : (Utf8.encode args.tokenParams.name.val).length < 256 ^ 31 :=
    Nat.lt_of_le_of_lt hname.length_le (by decide)
  rw [two_pow_248] at hbyte
  have hskip : Pons.findStrings 0 args.encode.bytes =
      Pons.findStrings 544 ((encodeText args.tokenParams.name).bytes ++
        ((encodeText args.tokenParams.symbol).bytes ++
          ((encodeText args.tokenParams.logo).bytes ++ args.afterLogo))) := by
    have hoffset : 0 + 32 + 32 * ((args.pairToken.toNat :: args.words).length + 1) + 32 + 32 + 32 =
        544 := by simp [LaunchAndBuy.words]
    rw [hlayout, ← hoffset]
    refine (findStrings_none (length_word _) ?_).trans ?_
    · simp only [List.flatMap_cons, List.append_assoc]
      exact stringAt_first
    refine (findStrings_words (lt_of_uint256 _) ?_ hflag).trans ?_
    · exact List.forall_mem_cons.mpr ⟨hpair, args.words_lt hquote hmin⟩
    refine (findStrings_none (length_word _) (stringAt_flag _ hbyte)).trans ?_
    refine (findStrings_none (length_word _) (stringAt_big (lt_of_uint256 _) hlarge)).trans ?_
    refine findStrings_none (length_word _) ?_
    rw [encodeText, string, List.append_assoc]
    exact stringAt_words (lt_of_uint256 _) hsize
  obtain ⟨b, hb⟩ := hname.findStrings 544
  obtain ⟨c, hc⟩ := hsymbol.findStrings b
  obtain ⟨d, hd⟩ := hlogo.findStrings c
  exact ⟨544, b, c, _, by rw [hskip, encodeText, hb, encodeText, hc, encodeText, hd]⟩

theorem findCalldataStrings_calldata (args : LaunchAndBuy) :
    findCalldataStrings args.calldata = Pons.findStrings 0 args.encode.bytes := by
  have hhex : (hexOfBytes (launchAndBuySelector ++ args.encode.bytes)).drop 8 =
      hexOfBytes args.encode.bytes := by
    rw [hexOfBytes, List.flatMap_append]
    exact List.drop_left' rfl
  have hdrop : args.calldata.drop 2 = hexOfBytes (launchAndBuySelector ++ args.encode.bytes) := rfl
  have hlong : ¬(hexOfBytes (launchAndBuySelector ++ args.encode.bytes)).length ≤ 8 := by
    rw [length_hexOfBytes, args.encode_bytes]
    simp [launchAndBuySelector]
    omega
  simp only [findCalldataStrings]
  rw [if_pos (show ['0', 'x'].isPrefixOf args.calldata = true from rfl), hdrop, if_neg hlong, hhex,
    bytesOfHex_hexOfBytes]

/-- The image field of a launch comes back as it was typed. -/
theorem launch_logo_recovered (args : LaunchAndBuy)
    (hname : Scannable args.tokenParams.name.val) (hsymbol : Scannable args.tokenParams.symbol.val)
    (hlogo : Scannable args.tokenParams.logo.val) (hquote : args.quoteIn.toNat < 2 ^ 248)
    (hmin : args.minTokensOut.toNat < 2 ^ 248)
    (hlarge : maxStringBytes < args.tokenParams.expectedEconomics.toNat)
    (hbyte : args.tokenParams.expectedEconomics.toNat % 2 ^ 248 ≠ 0) :
    ∃ metadata, extractLaunchMetadata args.calldata
        { name := args.tokenParams.name.val, symbol := args.tokenParams.symbol.val } =
          some metadata ∧
      metadata.logo = args.tokenParams.logo.val := by
  obtain ⟨a, b, c, next, hfound⟩ :=
    args.findStrings hname hsymbol hlogo hquote hmin hlarge hbyte
  simp only [extractLaunchMetadata, findCalldataStrings_calldata, hfound, afterAnchor]
  rw [if_neg (not_or.mpr ⟨hname.nonempty, hsymbol.nonempty⟩)]
  simp [hlogo.nonempty]

end recover

section sample

def argText (text : List Char) (h : text.length < 2 ^ 53 := by decide) : ArgText := ⟨text, h⟩

def sampleLaunch : LaunchAndBuy where
  tokenParams := {
    name := argText ['N']
    symbol := argText ['é', '€']
    logo := argText ['i', 'p', 'f', 's', ':', '/', '/', 'c', 'i', 'd']
    description := argText []
    socials := {
      website := argText [], twitter := argText [], telegram := argText [], discord := argText []
      farcaster := argText [] }
    creatorFeeRecipient := 3
    creatorTaxBps := 100
    buybackEnabled := true
    expectedEconomics := 4096
    salt := 7 }
  launchConfigId := 1
  pairToken := 0
  quoteIn := 1000
  minTokensOut := 5
  recipient := 9
  snipeTaxExemptions := [9]

theorem launch_logo_recovered_sample :
    ∃ metadata, extractLaunchMetadata sampleLaunch.calldata
        { name := ['N'], symbol := ['é', '€'] } = some metadata ∧
      metadata.logo = ['i', 'p', 'f', 's', ':', '/', '/', 'c', 'i', 'd'] :=
  launch_logo_recovered sampleLaunch
    ⟨by decide, by decide, List.forall_iff_forall_mem.mp (by decide)⟩
    ⟨by decide, by decide, List.forall_iff_forall_mem.mp (by decide)⟩
    ⟨by decide, by decide, List.forall_iff_forall_mem.mp (by decide)⟩
    (by decide) (by decide) (by decide) (by decide)

end sample

end Stunks.Pons
