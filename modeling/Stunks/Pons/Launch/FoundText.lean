import Stunks.Lib.Replacement
import Stunks.Pons.Launch.Metadata

namespace Stunks.Pons

def argumentBytes (calldata : List Char) : List UInt8 :=
  bytesOfHex ((if ['0', 'x'].isPrefixOf calldata then calldata.drop 2 else calldata).drop 8)

/-- The body that follows a length word. -/
def bodyAt (bytes : List UInt8) (word : Nat) : List UInt8 :=
  ((bytes.drop word).drop 32).take (Abi.readBE ((((bytes.drop word).take 32).drop 29).take 3))

section found

open Utf8

variable {calldata : List Char} {bytes : List UInt8} {found : FoundString}

theorem stringAt_eq_some {text : List Char} (h : stringAt bytes = some text) :
    text = decode (bodyAt bytes 0) ∧ (encode text).length = (bodyAt bytes 0).length := by
  rw [stringAt] at h
  split at h
  · cases h
  · have hreads := textOfLength_eq_some_iff.mp h
    exact ⟨hreads.text_eq.symm, hreads.encodes.trans hreads.body.symm⟩

theorem stringAt_of_mem {start : Nat} (h : found ∈ findStrings start bytes) :
    start ≤ found.start ∧ stringAt (bytes.drop (found.start - start)) = some found.text := by
  induction start, bytes using findStrings.induct with
  | case1 start bytes hlength ih =>
    rw [findStrings, dif_pos hlength] at h
    rcases List.mem_append.mp h with h | h
    · obtain ⟨text, htext, rfl⟩ := List.mem_map.mp h
      refine ⟨Nat.le_refl start, ?_⟩
      rw [Nat.sub_self, List.drop_zero]
      exact Option.mem_toList.mp htext
    · obtain ⟨hle, htext⟩ := ih h
      refine ⟨by omega, ?_⟩
      rw [List.drop_drop] at htext
      rw [← htext]
      congr 2
      omega
  | case2 start bytes hlength =>
    rw [findStrings, dif_neg hlength] at h
    cases h

theorem findCalldataStrings_eq (calldata : List Char) :
    findCalldataStrings calldata = findStrings 0 (argumentBytes calldata) := by
  simp only [findCalldataStrings, argumentBytes]
  generalize (if ['0', 'x'].isPrefixOf calldata then calldata.drop 2 else calldata) = hex
  split
  · rename_i hshort
    rw [List.drop_eq_nil_of_le hshort, bytesOfHex, findStrings, dif_neg (by decide)]
    simp
  · rfl

theorem mem_findCalldataStrings {text : List Char} (hlength : 32 ≤ (argumentBytes calldata).length)
    (h : stringAt (argumentBytes calldata) = some text) :
    { start := 0, text := text } ∈ findCalldataStrings calldata := by
  rw [findCalldataStrings_eq, findStrings, dif_pos hlength, h]
  exact List.mem_append_left _ (List.mem_singleton_self _)

/-- A reported text is the bytes of its body, exactly if no character of four bytes in the body
is cut short after its third. -/
theorem encode_text_eq_iff (h : found ∈ findCalldataStrings calldata) :
    encode found.text = bodyAt (argumentBytes calldata) found.start ↔
      hasCut (bodyAt (argumentBytes calldata) found.start) = false := by
  rw [findCalldataStrings_eq] at h
  obtain ⟨htext, hlength⟩ := stringAt_eq_some (stringAt_of_mem h).2
  rw [htext] at hlength ⊢
  exact encode_decode_iff hlength

end found

def blobOf (body : List Char) : List Char :=
  ['0', 'x'] ++ List.replicate 71 '0' ++ ['3'] ++ body ++ List.replicate 58 '0'

theorem encode_text_eq_iff_abc :
    Utf8.encode ['a', 'b', 'c'] = bodyAt (argumentBytes (blobOf ['6', '1', '6', '2', '6', '3'])) 0 ↔
      Utf8.hasCut (bodyAt (argumentBytes (blobOf ['6', '1', '6', '2', '6', '3'])) 0) = false :=
  encode_text_eq_iff (show { start := 0, text := ['a', 'b', 'c'] } ∈ _ from
    mem_findCalldataStrings (by decide) (by decide))

/-- Three of a character's four bytes, which are no text, are reported as one. -/
theorem cut_reported_as_text : ¬∀ calldata, ∀ found ∈ findCalldataStrings calldata,
    Utf8.encode found.text = bodyAt (argumentBytes calldata) found.start := by
  intro h
  have hfound : { start := 0, text := [Utf8.replacement] } ∈
      findCalldataStrings (blobOf ['f', '0', '9', 'f', '9', '8']) :=
    mem_findCalldataStrings (by decide) (by decide)
  exact absurd (h _ _ hfound) (by decide)

end Stunks.Pons
