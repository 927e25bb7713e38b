import Stunks.Lib.Abi
import Stunks.Lib.Utf8

/-! `launch/metadata.ts`: what a launch says of its token, found in the calldata. -/

namespace Stunks.Pons

def maxStringBytes : Nat := 2048

structure FoundString where
  start : Nat
  text : List Char
  deriving DecidableEq

structure RecoveredSocials where
  website : List Char
  twitter : List Char
  telegram : List Char
  discord : List Char
  farcaster : List Char
  deriving DecidableEq

structure LaunchMetadata where
  logo : List Char
  description : List Char
  socials : RecoveredSocials
  deriving DecidableEq

structure LaunchIdentity where
  name : List Char
  symbol : List Char

def hexValue (c : Char) : Option Nat :=
  if '0' ≤ c ∧ c ≤ '9' then some (c.toNat - '0'.toNat)
  else if 'a' ≤ c ∧ c ≤ 'f' then some (c.toNat - 'a'.toNat + 10)
  else if 'A' ≤ c ∧ c ≤ 'F' then some (c.toNat - 'A'.toNat + 10)
  else none

/-- `Buffer.from(hex, "hex")`: it ends at the first pair that is no byte. -/
def bytesOfHex : List Char → List UInt8
  | high :: low :: hex =>
    match hexValue high, hexValue low with
    | some h, some l => UInt8.ofNat (h * 16 + l) :: bytesOfHex hex
    | _, _ => []
  | _ => []

/-- `/[\x00-\x08\x0e-\x1f]/` -/
def isControl (c : Char) : Bool := c.toNat ≤ 0x08 ∨ 0x0e ≤ c.toNat ∧ c.toNat ≤ 0x1f

/-- The text of `length` bytes that `rest` begins with, if these are one. -/
def textOfLength (length : Nat) (rest : List UInt8) : Option (List Char) :=
  if length = 0 ∨ length > maxStringBytes then none
  else
    let body := rest.take length
    if body.length ≠ length then none
    else
      let paddedTo := (length + 31) / 32 * 32
      let padding := (rest.drop length).take (paddedTo - length)
      if padding.length ≠ paddedTo - length then none
      else if padding.any (· ≠ 0) then none
      else
        let text := Utf8.decode body
        -- Bytes that are not text come back as a replacement of another length.
        if (Utf8.encode text).length ≠ length then none
        else if text.any isControl then none
        else some text

def stringAt (bytes : List UInt8) : Option (List Char) :=
  let head := bytes.take 32
  if (head.take 29).any (· ≠ 0) then none
  else textOfLength (Abi.readBE ((head.drop 29).take 3)) (bytes.drop 32)

/-- Every word is tried, from the offset `word` on. -/
def findStrings (word : Nat) (bytes : List UInt8) : List FoundString :=
  if h : 32 ≤ bytes.length then
    let found := (stringAt bytes).toList.map fun text => { start := word, text }
    found ++ findStrings (word + 32) (bytes.drop 32)
  else []
termination_by bytes.length
decreasing_by
  rw [List.length_drop]
  omega

def findCalldataStrings (calldata : List Char) : List FoundString :=
  let hex := if ['0', 'x'].isPrefixOf calldata then calldata.drop 2 else calldata
  if hex.length ≤ 8 then []
  else findStrings 0 (bytesOfHex (hex.drop 8))

/-- What follows the first name and symbol that stand side by side. -/
def afterAnchor (identity : LaunchIdentity) : List FoundString → Option (List FoundString)
  | first :: second :: rest =>
    if first.text = identity.name ∧ second.text = identity.symbol then some rest
    else afterAnchor identity (second :: rest)
  | _ => none

def extractLaunchMetadata (calldata : List Char) (identity : LaunchIdentity) :
    Option LaunchMetadata :=
  if identity.name = [] ∨ identity.symbol = [] then none
  else
    match afterAnchor identity (findCalldataStrings calldata) with
    | none => none
    | some strings =>
      let after := strings.map FoundString.text
      let field := fun position => after.getD position []
      let logo := field 0
      if logo = [] then none
      else some {
        logo
        description := field 1
        socials := { website := field 2, twitter := field 3, telegram := field 4
                     discord := field 5, farcaster := field 6 } }

section scan

open Abi Utf8

variable {bytes rest w : List UInt8} {text : List Char} {length n m : Nat}

structure ReadsAs (length : Nat) (rest : List UInt8) (text : List Char) : Prop where
  pos : 0 < length
  le : length ≤ maxStringBytes
  body : (rest.take length).length = length
  padding : ((rest.drop length).take ((length + 31) / 32 * 32 - length)).length =
    (length + 31) / 32 * 32 - length
  zeros : ∀ b ∈ (rest.drop length).take ((length + 31) / 32 * 32 - length), b = 0
  text_eq : decode (rest.take length) = text
  encodes : (encode text).length = length
  plain : ∀ c ∈ text, isControl c = false

theorem textOfLength_eq_some_iff :
    textOfLength length rest = some text ↔ ReadsAs length rest text := by
  constructor
  · intro h
    simp only [textOfLength, Option.ite_none_left_eq_some, Option.some.injEq] at h
    obtain ⟨hlength, hbody, hpadding, hzeros, hencodes, hplain, rfl⟩ := h
    exact {
      pos := by omega
      le := by omega
      body := not_not.mp hbody
      padding := not_not.mp hpadding
      zeros := by simpa using hzeros
      text_eq := rfl
      encodes := not_not.mp hencodes
      plain := by simpa using hplain }
  · rintro ⟨hpos, hle, hbody, hpadding, hzeros, rfl, hencodes, hplain⟩
    simp only [textOfLength, Option.ite_none_left_eq_some]
    refine ⟨by omega, not_not.mpr hbody, not_not.mpr hpadding, ?_, not_not.mpr hencodes, ?_, trivial⟩
    · simpa using hzeros
    · simpa using hplain

theorem stringAt_word (hn : n < 256 ^ 32) :
    stringAt (word n ++ rest) = if n < 256 ^ 3 then textOfLength n rest else none := by
  have hhead : (word n ++ rest).take 32 = word n := List.take_left' (length_word n)
  have hrest : (word n ++ rest).drop 32 = rest := List.drop_left' (length_word n)
  have hsplit := word_split 3 n (by decide)
  have htop : (word n).take 29 = bytesBE 29 (n / 256 ^ 3) := by
    rw [hsplit]
    exact List.take_left' (length_bytesBE ..)
  have hlow : ((word n).drop 29).take 3 = bytesBE 3 n := by
    rw [hsplit, List.drop_left' (length_bytesBE ..)]
    exact List.take_of_length_le (by simp)
  simp only [stringAt, hhead, hrest, htop, hlow, readBE_bytesBE]
  by_cases hsmall : n < 256 ^ 3
  · have hzero : ∀ b ∈ bytesBE 29 (n / 256 ^ 3), b = 0 := by
      rw [Nat.div_eq_of_lt hsmall, bytesBE_zero]
      exact fun b hb => List.eq_of_mem_replicate hb
    rw [if_pos hsmall, if_neg (by simpa using hzero), Nat.mod_eq_of_lt hsmall]
  · rw [if_neg hsmall, if_pos]
    by_contra hany
    have hzero : ∀ b ∈ bytesBE 29 (n / 256 ^ 3), b = 0 := by simpa using hany
    have hmod := bytesBE_eq_zero hzero
    omega

theorem textOfLength_zero (h : 0 ∈ rest.take length) : textOfLength length rest = none := by
  refine Option.eq_none_iff_forall_ne_some.mpr fun text htext => ?_
  have hreads := textOfLength_eq_some_iff.mp htext
  have hnull : Char.ofNat 0 ∈ text := hreads.text_eq ▸ null_mem_decodeFrom (by decide) h
  have hcontrol : isControl (Char.ofNat 0) = true := by decide
  rw [hreads.plain _ hnull] at hcontrol
  cases hcontrol

theorem stringAt_words (hn : n < 256 ^ 32) (hm : m < 256 ^ 31) :
    stringAt (word n ++ (word m ++ rest)) = none := by
  rw [stringAt_word hn]
  split
  · cases n with
    | zero => rfl
    | succ n =>
      refine textOfLength_zero ?_
      rw [word_eq_zero_cons hm, List.cons_append, List.take_succ_cons]
      exact List.mem_cons_self
  · rfl

theorem stringAt_of_ne_zero {b : UInt8} (hb : b ≠ 0) : stringAt (b :: bytes) = none := by
  have hany : (((b :: bytes).take 32).take 29).any (· ≠ 0) = true := by
    simp [hb]
  simp only [stringAt]
  rw [if_pos hany]

theorem stringAt_big (hn : n < 256 ^ 32) (hbig : maxStringBytes < n) :
    stringAt (word n ++ rest) = none := by
  rw [stringAt_word hn]
  split
  · unfold textOfLength
    rw [if_pos (.inr hbig)]
  · rfl

theorem stringAt_flag (flag : Bool) (hm : m % 256 ^ 31 ≠ 0) :
    stringAt (word flag.toNat ++ (word m ++ rest)) = none := by
  have hlt : flag.toNat < 256 ^ 3 := by cases flag <;> decide
  rw [stringAt_word (by omega), if_pos hlt]
  cases flag with
  | false => rfl
  | true =>
    refine Option.eq_none_iff_forall_ne_some.mpr fun text htext => hm ?_
    have hzeros := (textOfLength_eq_some_iff.mp htext).zeros
    have hpadding : ((word m ++ rest).drop 1).take 31 = bytesBE 31 m := by
      rw [word_split 31 m (by decide), List.append_assoc, List.drop_left' (length_bytesBE ..)]
      exact List.take_left' (length_bytesBE ..)
    exact bytesBE_eq_zero (hpadding ▸ hzeros)

theorem findStrings_word (start : Nat) (hw : w.length = 32) :
    findStrings start (w ++ rest) =
      ((stringAt (w ++ rest)).toList.map fun text => { start := start, text := text }) ++
        findStrings (start + 32) rest := by
  rw [findStrings, dif_pos (by simp [hw]), List.drop_left' hw]

theorem findStrings_none {start : Nat} (hw : w.length = 32) (h : stringAt (w ++ rest) = none) :
    findStrings start (w ++ rest) = findStrings (start + 32) rest := by
  rw [findStrings_word start hw, h]
  rfl

theorem findStrings_words {ms : List Nat} {start : Nat} (hn : n < 256 ^ 32)
    (hms : ∀ m ∈ ms, m < 256 ^ 31) (hm : m < 256 ^ 31) :
    findStrings start ((n :: ms).flatMap word ++ (word m ++ rest)) =
      findStrings (start + 32 * (ms.length + 1)) (word m ++ rest) := by
  induction ms generalizing n start with
  | nil =>
    simp only [List.flatMap_cons, List.flatMap_nil, List.append_nil]
    exact findStrings_none (length_word n) (stringAt_words hn hm)
  | cons k ms ih =>
    have hk : k < 256 ^ 31 := hms k List.mem_cons_self
    have hskip : stringAt (word n ++ ((k :: ms).flatMap word ++ (word m ++ rest))) = none := by
      rw [List.flatMap_cons, List.append_assoc]
      exact stringAt_words hn hk
    have hlength : start + 32 + 32 * (ms.length + 1) = start + 32 * ((k :: ms).length + 1) := by
      rw [List.length_cons]
      omega
    rw [List.flatMap_cons, List.append_assoc, ← hlength]
    refine (findStrings_none (length_word n) hskip).trans ?_
    exact ih (Nat.lt_of_lt_of_le hk (by decide)) fun m' hm' => hms m' (List.mem_cons_of_mem _ hm')

theorem findStrings_padded {body : List UInt8} {start : Nat} (hbody : ∀ b ∈ body, b ≠ 0) :
    findStrings start (padded body ++ rest) = findStrings (start + (padded body).length) rest := by
  induction hlength : body.length using Nat.strongRecOn generalizing body start with
  | _ length ih =>
    obtain _ | ⟨b, tail⟩ := body
    · simp [padded]
    · have hb : b ≠ 0 := hbody b List.mem_cons_self
      by_cases hshort : (b :: tail).length ≤ 32
      · have hword : (padded (b :: tail)).length = 32 := by
          have hpos : 0 < (b :: tail).length := Nat.succ_pos _
          rw [length_padded]
          omega
        rw [findStrings_none hword (stringAt_of_ne_zero hb), hword]
      · have hword : ((b :: tail).take 32).length = 32 := by
          rw [List.length_take]
          omega
        have hsplit : padded (b :: tail) = (b :: tail).take 32 ++ padded ((b :: tail).drop 32) := by
          rw [← padded_append hword, List.take_append_drop]
        have hnone : stringAt ((b :: tail).take 32 ++ (padded ((b :: tail).drop 32) ++ rest)) =
            none := by
          rw [List.take_succ_cons, List.cons_append]
          exact stringAt_of_ne_zero hb
        have hlt : ((b :: tail).drop 32).length < length := by
          rw [List.length_drop]
          omega
        rw [hsplit, List.append_assoc, findStrings_none hword hnone,
          ih _ hlt (fun b hb => hbody b (List.mem_of_mem_drop hb)) rfl, List.length_append, hword,
          Nat.add_assoc]

structure Scannable (text : List Char) : Prop where
  nonempty : text ≠ []
  length_le : (encode text).length ≤ maxStringBytes
  plain : ∀ c ∈ text, isControl c = false

theorem Scannable.readsAs (h : Scannable text) :
    ReadsAs (encode text).length (padded (encode text) ++ rest) text := by
  have hbody : (padded (encode text) ++ rest).take (encode text).length = encode text := by
    rw [padded, List.append_assoc]
    exact List.take_left
  have hcount : ((encode text).length + 31) / 32 * 32 - (encode text).length =
      (32 - (encode text).length % 32) % 32 := by omega
  have hpadding : ((padded (encode text) ++ rest).drop (encode text).length).take
      (((encode text).length + 31) / 32 * 32 - (encode text).length) =
        List.replicate ((32 - (encode text).length % 32) % 32) 0 := by
    rw [padded, List.append_assoc, List.drop_left, hcount]
    exact List.take_left' List.length_replicate
  exact {
    pos := List.length_pos_iff.mpr fun hnil => h.nonempty (by rw [← decode_encode text, hnil]; rfl)
    le := h.length_le
    body := by rw [hbody]
    padding := by rw [hpadding, List.length_replicate, hcount]
    zeros := fun b hb => List.eq_of_mem_replicate (hpadding ▸ hb)
    text_eq := by rw [hbody, decode_encode]
    encodes := rfl
    plain := h.plain }

theorem Scannable.findStrings (h : Scannable text) (start : Nat) :
    ∃ next, Pons.findStrings start ((string (encode text)).bytes ++ rest) =
      { start := start, text := text } :: Pons.findStrings next rest := by
  have hsmall : (encode text).length < 256 ^ 3 := Nat.lt_of_le_of_lt h.length_le (by decide)
  have hfound : stringAt (word (encode text).length ++ (padded (encode text) ++ rest)) =
      some text := by
    rw [stringAt_word (Nat.lt_of_lt_of_le hsmall (by decide)), if_pos hsmall]
    exact textOfLength_eq_some_iff.mpr h.readsAs
  have hplain : ∀ b ∈ encode text, b ≠ 0 := by
    refine fun b hb => ne_zero_of_mem_encode (fun c hc hzero => ?_) hb
    have hcontrol := h.plain c hc
    simp [isControl, hzero] at hcontrol
  refine ⟨start + 32 + (padded (encode text)).length, ?_⟩
  rw [string, List.append_assoc]
  refine (findStrings_word start (length_word _)).trans ?_
  rw [hfound, findStrings_padded hplain]
  rfl

end scan

end Stunks.Pons
