import Mathlib.Data.List.GetD
import Stunks.Pons.Launch.Calldata

namespace Stunks.Pons

open Abi Utf8

/-- The fields with the blank ones taken out, and as many blanks behind them. -/
def movedUp (fields : List (List Char)) : List (List Char) :=
  (List.range fields.length).map fun position => (fields.filter (· ≠ [])).getD position []

section movedUp

variable {fields : List (List Char)}

theorem filter_getD_iff :
    (∀ i, (fields.filter (· ≠ [])).getD i [] = fields.getD i []) ↔
      fields.Pairwise fun first later => first = [] → later = [] := by
  induction fields with
  | nil => simp
  | cons text fields ih =>
    rw [List.pairwise_cons]
    by_cases hblank : text = []
    · have hfilter : (text :: fields).filter (· ≠ []) = fields.filter (· ≠ []) := by
        simp [hblank]
      rw [hfilter]
      constructor
      · intro h
        have hfirst := h 0
        rw [List.getD_cons_zero, hblank] at hfirst
        have hall : ∀ later ∈ fields, later = [] := by
          intro later hlater
          by_contra hne
          have hkept : later ∈ fields.filter (· ≠ []) :=
            List.mem_filter.mpr ⟨hlater, by simpa using hne⟩
          obtain ⟨found, rest, heq⟩ := List.exists_cons_of_ne_nil (List.ne_nil_of_mem hkept)
          have hmem : found ∈ fields.filter (· ≠ []) := heq ▸ List.mem_cons_self
          rw [heq, List.getD_cons_zero] at hfirst
          simpa [hfirst] using (List.mem_filter.mp hmem).2
        refine ⟨fun later hlater _ => hall later hlater, ?_⟩
        exact List.pairwise_of_forall_mem_list fun _ _ later hlater _ => hall later hlater
      · rintro ⟨hhead, -⟩ i
        have hall : ∀ later ∈ text :: fields, later = [] :=
          List.forall_mem_cons.mpr ⟨hblank, fun later hlater => hhead later hlater hblank⟩
        have hnone : fields.filter (· ≠ []) = [] :=
          List.filter_eq_nil_iff.mpr fun later hlater => by
            simp [hall later (List.mem_cons_of_mem _ hlater)]
        rw [hnone, List.getD_nil, List.getD_eq_getElem?_getD]
        cases hget : (text :: fields)[i]? with
        | none => rfl
        | some later => exact (hall later (List.mem_of_getElem? hget)).symm
    · have hfilter : (text :: fields).filter (· ≠ []) = text :: fields.filter (· ≠ []) := by
        simp [hblank]
      rw [hfilter]
      constructor
      · intro h
        exact ⟨fun _ _ hfirst => absurd hfirst hblank, ih.mp fun i => h (i + 1)⟩
      · rintro ⟨-, hrest⟩ i
        cases i with
        | zero => rfl
        | succ i => exact ih.mpr hrest i

/-- Moving up changes nothing exactly when no blank stands before a field that is not. -/
theorem movedUp_eq_iff :
    movedUp fields = fields ↔ fields.Pairwise fun first later => first = [] → later = [] := by
  rw [← filter_getD_iff]
  constructor
  · intro h i
    rcases Nat.lt_or_ge i fields.length with hlt | hge
    · have hget := congrArg (·.getD i []) h
      simpa [movedUp, List.getD_eq_getElem?_getD, hlt] using hget
    · have hshort := List.length_filter_le (fun text : List Char => decide (text ≠ [])) fields
      rw [List.getD_eq_default _ _ hge, List.getD_eq_default _ _ (Nat.le_trans hshort hge)]
  · intro h
    refine List.ext_getElem (by simp [movedUp]) fun i _ hlt => ?_
    have hget := h i
    rw [List.getD_eq_getElem _ _ hlt] at hget
    simpa [movedUp] using hget

end movedUp

structure Carried (text : List Char) : Prop where
  length_le : (encode text).length ≤ maxStringBytes
  plain : ∀ c ∈ text, isControl c = false

theorem Carried.scannable {text : List Char} (h : Carried text) (hne : text ≠ []) :
    Scannable text :=
  ⟨hne, h.length_le, h.plain⟩

section scan

variable {rest : List UInt8}

theorem findStrings_blank (start : Nat) :
    findStrings start ((string (encode [])).bytes ++ rest) = findStrings (start + 32) rest := by
  have hbytes : (string (encode [])).bytes = word 0 := by
    simp [string, encode, padded]
  rw [hbytes]
  refine findStrings_none (length_word _) ?_
  rw [stringAt_word (by decide), if_pos (by decide)]
  rfl

theorem findStrings_texts {texts : List ArgText} (h : ∀ text ∈ texts, Carried text.val)
    (start : Nat) (rest : List UInt8) : ∃ found next,
      findStrings start (texts.flatMap (fun text => (encodeText text).bytes) ++ rest) =
        found ++ findStrings next rest ∧
      found.map FoundString.text = (texts.map Subtype.val).filter (· ≠ []) := by
  induction texts generalizing start with
  | nil => exact ⟨[], start, rfl, rfl⟩
  | cons text texts ih =>
    obtain ⟨htext, htexts⟩ := List.forall_mem_cons.mp h
    simp only [List.flatMap_cons, List.append_assoc, List.map_cons]
    by_cases hblank : text.val = []
    · obtain ⟨found, next, hfound, hmap⟩ := ih htexts (start + 32)
      refine ⟨found, next, ?_, by rw [hmap, hblank]; rfl⟩
      rw [encodeText, hblank, findStrings_blank, hfound]
    · obtain ⟨behind, hbehind⟩ := @Scannable.findStrings
        (texts.flatMap (fun text => (encodeText text).bytes) ++ rest) _
        (htext.scannable hblank) start
      obtain ⟨found, next, hfound, hmap⟩ := ih htexts behind
      refine ⟨{ start := start, text := text.val } :: found, next, ?_, ?_⟩
      · rw [encodeText, hbehind, hfound, List.cons_append]
      · rw [List.map_cons, hmap, List.filter_cons_of_pos (by simpa using hblank)]

theorem stringAt_last {n : Nat} (hn : n < 256 ^ 32) : stringAt (word n ++ []) = none := by
  rw [stringAt_word hn]
  split
  · cases n with
    | zero => rfl
    | succ n =>
      refine Option.eq_none_iff_forall_ne_some.mpr fun text htext => ?_
      have hbody := (textOfLength_eq_some_iff.mp htext).body
      simp at hbody
  · rfl

theorem findStrings_addresses {ns : List Nat} (h : ∀ n ∈ ns, n < 256 ^ 31) (start : Nat) :
    findStrings start (ns.flatMap word) = [] := by
  induction ns generalizing start with
  | nil =>
    rw [List.flatMap_nil, findStrings, dif_neg (by decide)]
  | cons n ns ih =>
    obtain ⟨hn, hns⟩ := List.forall_mem_cons.mp h
    have hlt : n < 256 ^ 32 := Nat.lt_of_lt_of_le hn (by decide)
    rw [List.flatMap_cons, findStrings_none (length_word n) ?_, ih hns]
    cases ns with
    | nil => exact stringAt_last hlt
    | cons m ns =>
      rw [List.flatMap_cons]
      exact stringAt_words hlt (hns m List.mem_cons_self)

theorem findStrings_array {ns : List Nat} (h : ∀ n ∈ ns, n < 256 ^ 31) (start : Nat) :
    findStrings start (array (ns.map uint)).bytes = [] := by
  have hlength : word (ns.map uint).length = word ((ns.map uint).length % 256 ^ 32) := word_mod _
  have hlt : (ns.map uint).length % 256 ^ 32 < 256 ^ 32 := Nat.mod_lt _ (by decide)
  simp only [array, tuple_uints]
  rw [hlength, findStrings_none (length_word _) ?_, findStrings_addresses h]
  cases ns with
  | nil => exact stringAt_last hlt
  | cons n ns =>
    rw [List.flatMap_cons]
    exact stringAt_words hlt (h n List.mem_cons_self)

end scan

def SocialsArg.texts (socials : SocialsArg) : List ArgText :=
  [socials.website, socials.twitter, socials.telegram, socials.discord, socials.farcaster]

def TokenParams.texts (params : TokenParams) : List ArgText :=
  params.description :: params.socials.texts

def TokenParams.fields (params : TokenParams) : List (List Char) := params.texts.map Subtype.val

def LaunchMetadata.fields (metadata : LaunchMetadata) : List (List Char) :=
  [metadata.description, metadata.socials.website, metadata.socials.twitter,
    metadata.socials.telegram, metadata.socials.discord, metadata.socials.farcaster]

theorem SocialsArg.encode_bytes (socials : SocialsArg) :
    let twitterAt := 160 + (encodeText socials.website).bytes.length
    let telegramAt := twitterAt + (encodeText socials.twitter).bytes.length
    let discordAt := telegramAt + (encodeText socials.telegram).bytes.length
    let farcasterAt := discordAt + (encodeText socials.discord).bytes.length
    socials.encode.bytes = [160, twitterAt, telegramAt, discordAt, farcasterAt].flatMap word ++
      socials.texts.flatMap fun text => (encodeText text).bytes := by
  simp [SocialsArg.encode, SocialsArg.texts, tuple, heads, tails, Encoded.headSize,
    List.filter_cons]

theorem SocialsArg.findStrings (socials : SocialsArg) (start : Nat) (rest : List UInt8) :
    ∃ next, Pons.findStrings start (socials.encode.bytes ++ rest) =
      Pons.findStrings next (socials.texts.flatMap (fun text => (encodeText text).bytes) ++ rest) := by
  have hwebsite := encodeText_length_le socials.website
  have htwitter := encodeText_length_le socials.twitter
  have htelegram := encodeText_length_le socials.telegram
  have hdiscord := encodeText_length_le socials.discord
  have hbig : 2 ^ 60 < 256 ^ 31 := by decide
  have hcount : (Utf8.encode socials.website.val).length < 256 ^ 31 := by
    have := Utf8.encode_length_le socials.website.val
    have := socials.website.property
    exact Nat.lt_of_le_of_lt (show _ ≤ 2 ^ 60 by omega) hbig
  have hlead : socials.texts.flatMap (fun text => (encodeText text).bytes) ++ rest =
      word (Utf8.encode socials.website.val).length ++ (padded (Utf8.encode socials.website.val) ++
        (socials.texts.tail.flatMap (fun text => (encodeText text).bytes) ++ rest)) := by
    simp [SocialsArg.texts, encodeText, string]
  rw [socials.encode_bytes, List.append_assoc, hlead]
  refine ⟨_, findStrings_words (by decide) ?_ hcount⟩
  simp only [List.forall_mem_cons]
  generalize 256 ^ 31 = top at *
  refine ⟨by omega, by omega, by omega, by omega, ?_⟩
  simp

/-- Behind the logo the scan finds the fields that are not blank, in order, and no more. -/
theorem LaunchAndBuy.findStrings_afterLogo (args : LaunchAndBuy)
    (h : ∀ text ∈ args.tokenParams.texts, Carried text.val) (start : Nat) :
    (Pons.findStrings start args.afterLogo).map FoundString.text =
      args.tokenParams.fields.filter (· ≠ []) := by
  obtain ⟨hdescription, hsocials⟩ := List.forall_mem_cons.mp h
  obtain ⟨found, next, hfound, hmap⟩ := findStrings_texts
    (List.forall_mem_singleton.mpr hdescription) start
    (args.tokenParams.socials.encode.bytes ++ args.exemptions)
  obtain ⟨next', hskip⟩ := args.tokenParams.socials.findStrings next args.exemptions
  obtain ⟨found', next'', hfound', hmap'⟩ := findStrings_texts hsocials next' args.exemptions
  have hnone : Pons.findStrings next'' args.exemptions = [] := by
    have huints : (args.snipeTaxExemptions.map fun exemption => uint exemption.toNat) =
        (args.snipeTaxExemptions.map BitVec.toNat).map uint := by simp
    rw [LaunchAndBuy.exemptions, huints]
    refine findStrings_array (fun n hn => ?_) next''
    obtain ⟨exemption, -, rfl⟩ := List.mem_map.mp hn
    exact lt_of_bitVec exemption (by decide)
  have hall : Pons.findStrings start args.afterLogo = found ++ found' := by
    simp only [List.flatMap_cons, List.flatMap_nil, List.append_nil] at hfound
    rw [LaunchAndBuy.afterLogo, hfound, hskip, hfound', hnone, List.append_nil]
  rw [hall, List.map_append, hmap, hmap', TokenParams.fields, TokenParams.texts,
    ← List.filter_append]
  rfl

/-- A launch whose strings are texts, and whose words before them cannot pass as one. -/
structure LaunchAndBuy.Readable (args : LaunchAndBuy) : Prop where
  name : Scannable args.tokenParams.name.val
  symbol : Scannable args.tokenParams.symbol.val
  logo : Scannable args.tokenParams.logo.val
  texts : ∀ text ∈ args.tokenParams.texts, Carried text.val
  quoteIn : args.quoteIn.toNat < 2 ^ 248
  minTokensOut : args.minTokensOut.toNat < 2 ^ 248
  large : maxStringBytes < args.tokenParams.expectedEconomics.toNat
  byte : args.tokenParams.expectedEconomics.toNat % 2 ^ 248 ≠ 0

def LaunchAndBuy.identity (args : LaunchAndBuy) : LaunchIdentity where
  name := args.tokenParams.name.val
  symbol := args.tokenParams.symbol.val

section recover

variable {args : LaunchAndBuy}

theorem launch_fields (h : args.Readable) :
    ∃ metadata, extractLaunchMetadata args.calldata args.identity = some metadata ∧
      metadata.fields = movedUp args.tokenParams.fields := by
  obtain ⟨a, b, c, next, hfound⟩ :=
    args.findStrings h.name h.symbol h.logo h.quoteIn h.minTokensOut h.large h.byte
  have hafter := args.findStrings_afterLogo h.texts next
  simp only [extractLaunchMetadata, findCalldataStrings_calldata, hfound, afterAnchor,
    LaunchAndBuy.identity]
  rw [if_neg (not_or.mpr ⟨h.name.nonempty, h.symbol.nonempty⟩)]
  simp only [true_and, if_true, List.map_cons, List.getD_cons_zero, if_neg h.logo.nonempty,
    List.getD_cons_succ, hafter]
  exact ⟨_, rfl, rfl⟩

/-- Every field comes back in its own place exactly when no blank one stands before one that
is not. -/
theorem launch_fields_recovered_iff (h : args.Readable) :
    (∃ metadata, extractLaunchMetadata args.calldata args.identity = some metadata ∧
      metadata.fields = args.tokenParams.fields) ↔
        args.tokenParams.fields.Pairwise fun first later => first = [] → later = [] := by
  obtain ⟨metadata, hmetadata, hfields⟩ := launch_fields h
  rw [← movedUp_eq_iff, ← hfields, hmetadata]
  constructor
  · rintro ⟨found, hfound, heq⟩
    obtain rfl := Option.some.inj hfound
    exact heq
  · exact fun heq => ⟨metadata, rfl, heq⟩

end recover

section sample

def linkedLaunch (discord farcaster : ArgText) : LaunchAndBuy :=
  { sampleLaunch with
    tokenParams := { sampleLaunch.tokenParams with
      description := argText ['d']
      socials := {
        website := argText ['w'], twitter := argText ['t'], telegram := argText ['g']
        discord, farcaster } } }

theorem carried_blank : Carried [] := ⟨by decide, by simp⟩

theorem carried_letter {c : Char} (hc : isControl c = false) : Carried [c] where
  length_le := Nat.le_trans (Utf8.encode_length_le [c]) (show 4 ≤ maxStringBytes by decide)
  plain := List.forall_mem_singleton.mpr hc

theorem linkedLaunch_readable {discord farcaster : ArgText} (hdiscord : Carried discord.val)
    (hfarcaster : Carried farcaster.val) : (linkedLaunch discord farcaster).Readable where
  name := show Scannable ['N'] from
    ⟨by decide, by decide, List.forall_iff_forall_mem.mp (by decide)⟩
  symbol := show Scannable ['é', '€'] from
    ⟨by decide, by decide, List.forall_iff_forall_mem.mp (by decide)⟩
  logo := show Scannable ['i', 'p', 'f', 's', ':', '/', '/', 'c', 'i', 'd'] from
    ⟨by decide, by decide, List.forall_iff_forall_mem.mp (by decide)⟩
  texts := by
    simp only [TokenParams.texts, SocialsArg.texts, List.forall_mem_cons]
    exact ⟨carried_letter (by decide), carried_letter (by decide), carried_letter (by decide),
      carried_letter (by decide), hdiscord, hfarcaster, by simp⟩
  quoteIn := show (1000 : BitVec 256).toNat < 2 ^ 248 by decide
  minTokensOut := show (5 : BitVec 256).toNat < 2 ^ 248 by decide
  large := show maxStringBytes < (4096 : BitVec 256).toNat by decide
  byte := show (4096 : BitVec 256).toNat % 2 ^ 248 ≠ 0 by decide

theorem launch_fields_recovered_iff_sample :
    (∃ metadata, extractLaunchMetadata (linkedLaunch (argText ['f']) (argText [])).calldata
        (linkedLaunch (argText ['f']) (argText [])).identity = some metadata ∧
      metadata.fields = (linkedLaunch (argText ['f']) (argText [])).tokenParams.fields) ↔
        (linkedLaunch (argText ['f']) (argText [])).tokenParams.fields.Pairwise
          fun first later => first = [] → later = [] :=
  launch_fields_recovered_iff (linkedLaunch_readable (carried_letter (by decide)) carried_blank)

/-- A blank Discord link takes the Farcaster link in its place. -/
theorem farcaster_in_discords_place :
    let args := linkedLaunch (argText []) (argText ['f'])
    args.Readable ∧
      (∃ metadata, extractLaunchMetadata args.calldata args.identity = some metadata ∧
        metadata.socials.discord = ['f'] ∧ metadata.socials.farcaster = []) ∧
      ¬∃ metadata, extractLaunchMetadata args.calldata args.identity = some metadata ∧
        metadata.fields = args.tokenParams.fields := by
  intro args
  have hreadable : args.Readable := linkedLaunch_readable carried_blank
    (carried_letter (by decide))
  obtain ⟨metadata, hmetadata, hfields⟩ := launch_fields hreadable
  have hmoved : movedUp args.tokenParams.fields = [['d'], ['w'], ['t'], ['g'], ['f'], []] := by
    decide
  rw [hmoved] at hfields
  simp only [LaunchMetadata.fields, List.cons.injEq] at hfields
  obtain ⟨-, -, -, -, hdiscord, hfarcaster, -⟩ := hfields
  refine ⟨hreadable, ⟨metadata, hmetadata, hdiscord, hfarcaster⟩, ?_⟩
  rintro ⟨found, hfound, heq⟩
  obtain rfl := Option.some.inj (hmetadata.symm.trans hfound)
  have hencoded : args.tokenParams.fields = [['d'], ['w'], ['t'], ['g'], [], ['f']] := rfl
  rw [hencoded] at heq
  simp only [LaunchMetadata.fields, List.cons.injEq] at heq
  rw [hdiscord] at heq
  simp at heq

end sample

end Stunks.Pons
