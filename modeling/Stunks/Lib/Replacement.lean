import Stunks.Lib.Utf8

namespace Utf8

/-- A character of four bytes begins, and is cut short after its third. -/
def startsCut : List UInt8 → Bool
  | b₁ :: b₂ :: b₃ :: rest =>
    0xF0 ≤ b₁.toNat && b₁.toNat ≤ 0xF4 &&
      (if b₁.toNat = 0xF0 then 0x90 else 0x80) ≤ b₂.toNat &&
      b₂.toNat ≤ (if b₁.toNat = 0xF4 then 0x8F else 0xBF) &&
      0x80 ≤ b₃.toNat && b₃.toNat ≤ 0xBF &&
      !rest.head?.any fun b => 0x80 ≤ b.toNat && b.toNat ≤ 0xBF
  | _ => false

def hasCut : List UInt8 → Bool
  | [] => false
  | b :: bytes => startsCut (b :: bytes) || hasCut bytes

/-- Bytes as characters and ill-formed parts, and the text these come to. -/
inductive Reads : List UInt8 → List Char → Prop
  | nil : Reads [] []
  | char (c : Char) {bytes text} : Reads bytes text → Reads (encodeChar c ++ bytes) (c :: text)
  | part {part bytes text} : part.length ≤ 3 → (part.length = 3 → startsCut (part ++ bytes) = true) →
      Reads bytes text → Reads (part ++ bytes) (replacement :: text)

inductive Pending : State → List UInt8 → Prop
  | none : Pending start []
  | two {b : UInt8} : 0xC2 ≤ b.toNat → b.toNat ≤ 0xDF →
      Pending { needed := 1, codePoint := b.toNat - 0xC0, lower := 0x80, upper := 0xBF } [b]
  | three {b : UInt8} : 0xE0 ≤ b.toNat → b.toNat ≤ 0xEF →
      Pending { needed := 2, codePoint := b.toNat - 0xE0
                lower := if b.toNat = 0xE0 then 0xA0 else 0x80
                upper := if b.toNat = 0xED then 0x9F else 0xBF } [b]
  | threeOf {b b₂ : UInt8} : 0xE0 ≤ b.toNat → b.toNat ≤ 0xEF →
      (if b.toNat = 0xE0 then 0xA0 else 0x80) ≤ b₂.toNat →
      b₂.toNat ≤ (if b.toNat = 0xED then 0x9F else 0xBF) →
      Pending { needed := 1, codePoint := (b.toNat - 0xE0) * 0x40 + (b₂.toNat - 0x80)
                lower := 0x80, upper := 0xBF } [b, b₂]
  | four {b : UInt8} : 0xF0 ≤ b.toNat → b.toNat ≤ 0xF4 →
      Pending { needed := 3, codePoint := b.toNat - 0xF0
                lower := if b.toNat = 0xF0 then 0x90 else 0x80
                upper := if b.toNat = 0xF4 then 0x8F else 0xBF } [b]
  | fourOf {b b₂ : UInt8} : 0xF0 ≤ b.toNat → b.toNat ≤ 0xF4 →
      (if b.toNat = 0xF0 then 0x90 else 0x80) ≤ b₂.toNat →
      b₂.toNat ≤ (if b.toNat = 0xF4 then 0x8F else 0xBF) →
      Pending { needed := 2, codePoint := (b.toNat - 0xF0) * 0x40 + (b₂.toNat - 0x80)
                lower := 0x80, upper := 0xBF } [b, b₂]
  | fourOfThree {b b₂ b₃ : UInt8} : 0xF0 ≤ b.toNat → b.toNat ≤ 0xF4 →
      (if b.toNat = 0xF0 then 0x90 else 0x80) ≤ b₂.toNat →
      b₂.toNat ≤ (if b.toNat = 0xF4 then 0x8F else 0xBF) → 0x80 ≤ b₃.toNat → b₃.toNat ≤ 0xBF →
      Pending { needed := 1
                codePoint := ((b.toNat - 0xF0) * 0x40 + (b₂.toNat - 0x80)) * 0x40 + (b₃.toNat - 0x80)
                lower := 0x80, upper := 0xBF } [b, b₂, b₃]

section Reads

variable {s : State} {part bytes : List UInt8} {b : UInt8} {text : List Char}

theorem toNat_char {n : Nat} (h : n.isValidChar) : (Char.ofNat n).toNat = n := by
  have hchar : Char.ofNat n = Char.ofNatAux n h := dif_pos h
  rw [hchar]
  rfl

theorem ofNat_byte {n : Nat} (h : n = b.toNat) : UInt8.ofNat n = b := by
  rw [h, UInt8.ofNat_toNat]

theorem Pending.stop (h : Pending s part)
    (hnext : ∀ b ∈ bytes.head?, ¬(s.lower ≤ b.toNat ∧ b.toNat ≤ s.upper)) :
    part.length ≤ 3 ∧ (part.length = 3 → startsCut (part ++ bytes) = true) := by
  cases h with
  | fourOfThree h₁ h₁' h₂ h₂' h₃ h₃' =>
    refine ⟨Nat.le_refl 3, fun _ => ?_⟩
    have hcut : (bytes.head?.any fun b => 0x80 ≤ b.toNat && b.toNat ≤ 0xBF) = false := by
      cases hhead : bytes.head? with
      | none => rfl
      | some b => simpa using hnext b hhead
    simp [startsCut, h₁, h₁', h₂, h₂', h₃, h₃', hcut]
  | _ => simp

theorem Pending.more (h : Pending s part) (hneeded : 1 < s.needed) (hlower : s.lower ≤ b.toNat)
    (hupper : b.toNat ≤ s.upper) :
    Pending { start with needed := s.needed - 1, codePoint := s.codePoint * 0x40 + (b.toNat - 0x80) }
      (part ++ [b]) := by
  cases h with
  | three h h' => exact .threeOf h h' hlower hupper
  | four h h' => exact .fourOf h h' hlower hupper
  | fourOf h h' h₂ h₂' => exact .fourOfThree h h' h₂ h₂' hlower hupper
  | none => exact absurd hneeded (Nat.not_lt_zero 1)
  | two | threeOf | fourOfThree => exact absurd hneeded (Nat.lt_irrefl 1)

theorem Pending.last (h : Pending s part) (hneeded : s.needed = 1) (hlower : s.lower ≤ b.toNat)
    (hupper : b.toNat ≤ s.upper) :
    encodeChar (Char.ofNat (s.codePoint * 0x40 + (b.toNat - 0x80))) = part ++ [b] := by
  cases h with
  | @two b₁ h h' =>
    dsimp only at hlower hupper ⊢
    rw [encodeChar, toNat_char (.inl (by omega))]
    rw [if_neg (by omega), if_pos (by omega), ofNat_byte (b := b₁) (by omega),
      ofNat_byte (b := b) (by omega)]
    rfl
  | @threeOf b₁ b₂ h h' h₂ h₂' =>
    dsimp only at hlower hupper ⊢
    have hlow : 0xA0 ≤ b₂.toNat ∨ 0xE0 < b₁.toNat := by split at h₂ <;> omega
    have hsurrogate : b₂.toNat ≤ 0x9F ∨ b₁.toNat ≠ 0xED := by split at h₂' <;> omega
    have hb₂ : 0x80 ≤ b₂.toNat ∧ b₂.toNat ≤ 0xBF := by
      constructor
      · split at h₂ <;> omega
      · split at h₂' <;> omega
    rw [encodeChar, toNat_char (by unfold Nat.isValidChar; omega)]
    rw [if_neg (by omega), if_neg (by omega), if_pos (by omega), ofNat_byte (b := b₁) (by omega),
      ofNat_byte (b := b₂) (by omega), ofNat_byte (b := b) (by omega)]
    rfl
  | @fourOfThree b₁ b₂ b₃ h h' h₂ h₂' h₃ h₃' =>
    dsimp only at hlower hupper ⊢
    have hlow : 0x90 ≤ b₂.toNat ∨ 0xF0 < b₁.toNat := by split at h₂ <;> omega
    have hhigh : b₂.toNat ≤ 0x8F ∨ b₁.toNat ≠ 0xF4 := by split at h₂' <;> omega
    have hb₂ : 0x80 ≤ b₂.toNat ∧ b₂.toNat ≤ 0xBF := by
      constructor
      · split at h₂ <;> omega
      · split at h₂' <;> omega
    rw [encodeChar, toNat_char (by unfold Nat.isValidChar; omega)]
    rw [if_neg (by omega), if_neg (by omega), if_neg (by omega), ofNat_byte (b := b₁) (by omega),
      ofNat_byte (b := b₂) (by omega), ofNat_byte (b := b₃) (by omega), ofNat_byte (b := b) (by omega)]
    rfl
  | none | three | four | fourOf => cases hneeded

theorem lead_cases (b : UInt8) :
    ((∃ c, (lead b.toNat) = ([c], start) ∧ encodeChar c = [b]) ∨
      lead b.toNat = ([replacement], start)) ∨
        (lead b.toNat).1 = [] ∧ Pending (lead b.toNat).2 [b] := by
  unfold lead
  split
  · rename_i hone
    refine .inl (.inl ⟨_, rfl, ?_⟩)
    rw [encodeChar, toNat_char (.inl (by omega)), if_pos hone, UInt8.ofNat_toNat]
  split
  · rename_i htwo
    exact .inr ⟨rfl, .two htwo.1 htwo.2⟩
  split
  · rename_i hthree
    exact .inr ⟨rfl, .three hthree.1 hthree.2⟩
  split
  · rename_i hfour
    exact .inr ⟨rfl, .four hfour.1 hfour.2⟩
  · exact .inl (.inr rfl)

theorem Pending.eq_start (h : Pending s part) (hneeded : s.needed = 0) : s = start ∧ part = [] := by
  cases h with
  | none => exact ⟨rfl, rfl⟩
  | _ => cases hneeded

theorem reads_lead (ih : ∀ {s part}, Pending s part → Reads (part ++ bytes) (decodeFrom s bytes)) :
    Reads (b :: bytes) ((lead b.toNat).1 ++ decodeFrom (lead b.toNat).2 bytes) := by
  obtain (⟨c, hlead, hchar⟩ | hlead) | ⟨hnone, hpending⟩ := lead_cases b
  · rw [hlead]
    have hread := Reads.char c (ih .none)
    rwa [hchar] at hread
  · rw [hlead]
    change Reads ([b] ++ bytes) _
    exact .part (by simp) (by simp) (ih .none)
  · rw [hnone]
    exact ih hpending

/-- What the decoder reads is characters, and a replacement for each ill-formed part. -/
theorem reads_decodeFrom (h : Pending s part) : Reads (part ++ bytes) (decodeFrom s bytes) := by
  induction bytes generalizing s part with
  | nil =>
    by_cases hneeded : s.needed = 0
    · obtain ⟨rfl, rfl⟩ := h.eq_start hneeded
      exact .nil
    · rw [decodeFrom, if_neg hneeded]
      obtain ⟨hlength, hcut⟩ := h.stop fun b (hb : b ∈ [].head?) => by simp at hb
      exact .part hlength hcut .nil
  | cons b bytes ih =>
    rw [decodeFrom, step]
    split
    · rename_i hneeded
      obtain ⟨-, rfl⟩ := h.eq_start hneeded
      exact reads_lead ih
    split
    · rename_i hneeded hin
      rw [← List.singleton_append (l := bytes), ← List.append_assoc]
      by_cases hlast : s.needed = 1
      · rw [if_pos hlast, ← h.last hlast hin.1 hin.2]
        exact .char _ (ih .none)
      · rw [if_neg hlast]
        exact ih (h.more (by omega) hin.1 hin.2)
    · -- the byte is read again, as a first one
      rename_i hneeded hout
      have hnext : ∀ b' ∈ (b :: bytes).head?, ¬(s.lower ≤ b'.toNat ∧ b'.toNat ≤ s.upper) := by
        simpa using hout
      obtain ⟨hlength, hcut⟩ := h.stop hnext
      exact .part hlength hcut (reads_lead ih)

theorem reads_decode (bytes : List UInt8) : Reads bytes (decode bytes) :=
  reads_decodeFrom .none

theorem Reads.length_le (h : Reads bytes text) : bytes.length ≤ (encode text).length := by
  induction h with
  | nil => exact Nat.le_refl 0
  | char c _ ih =>
    simp only [encode, List.flatMap_cons, List.length_append] at ih ⊢
    omega
  | part hlength _ _ ih =>
    have hthree : (encodeChar replacement).length = 3 := by decide
    simp only [encode, List.flatMap_cons, List.length_append, hthree] at ih ⊢
    omega

@[simp] theorem hasCut_cons (b : UInt8) (bytes : List UInt8) :
    hasCut (b :: bytes) = (startsCut (b :: bytes) || hasCut bytes) := rfl

theorem hasCut_append_right {front bytes : List UInt8} (h : hasCut (front ++ bytes) = false) :
    hasCut bytes = false := by
  induction front with
  | nil => exact h
  | cons b front ih => exact ih (Bool.or_eq_false_iff.mp h).2

theorem hasCut_of_startsCut (h : startsCut bytes = true) : hasCut bytes = true := by
  cases bytes with
  | nil => cases h
  | cons b bytes => rw [hasCut_cons, h, Bool.true_or]

theorem Reads.encode_eq (h : Reads bytes text) (hlength : (encode text).length = bytes.length)
    (hcut : hasCut bytes = false) : encode text = bytes := by
  induction h with
  | nil => rfl
  | char c _ ih =>
    simp only [encode, List.flatMap_cons, List.length_append] at hlength ih ⊢
    rw [ih (by omega) (hasCut_append_right hcut)]
  | part hpart hthree hread ih =>
    have hle := hread.length_le
    have hreplaced : (encodeChar replacement).length = 3 := by decide
    simp only [encode, List.flatMap_cons, List.length_append, hreplaced] at hlength hle
    have hstarts := hasCut_of_startsCut (hthree (by omega))
    rw [hcut] at hstarts
    cases hstarts

theorem startsCut_of_lt (h : b.toNat < 0xF0) : startsCut (b :: bytes) = false := by
  unfold startsCut
  split
  · rename_i heq
    obtain ⟨rfl, -⟩ := List.cons.inj heq
    have hlow : ¬0xF0 ≤ b.toNat := by omega
    simp [hlow]
  · rfl

theorem hasCut_cons_of_lt (h : b.toNat < 0xF0) : hasCut (b :: bytes) = hasCut bytes := by
  rw [hasCut_cons, startsCut_of_lt h, Bool.false_or]

theorem hasCut_encodeChar (c : Char) : hasCut (encodeChar c ++ bytes) = hasCut bytes := by
  have hvalid := toNat_cases c
  have hlt : ∀ {n}, n < 0xF0 → (UInt8.ofNat n).toNat < 0xF0 := fun {n} h => by
    rw [toNat_ofNat (by omega)]
    exact h
  simp only [encodeChar]
  generalize c.toNat = n at *
  split
  · exact hasCut_cons_of_lt (hlt (by omega))
  · split
    · rw [List.cons_append, hasCut_cons_of_lt (hlt (by omega))]
      exact hasCut_cons_of_lt (hlt (by omega))
    · split
      · rw [List.cons_append, hasCut_cons_of_lt (hlt (by omega)), List.cons_append,
          hasCut_cons_of_lt (hlt (by omega))]
        exact hasCut_cons_of_lt (hlt (by omega))
      · have hlast := toNat_ofNat (show 0x80 + n % 0x40 < 0x100 by omega)
        have hstarts (b₁ b₂ b₃ b₄ : UInt8) (h : 0x80 ≤ b₄.toNat) (h' : b₄.toNat ≤ 0xBF) :
            startsCut (b₁ :: b₂ :: b₃ :: b₄ :: bytes) = false := by simp [startsCut, h, h']
        simp only [List.cons_append, List.nil_append]
        rw [hasCut_cons, hstarts _ _ _ _ (by omega) (by omega), Bool.false_or,
          hasCut_cons_of_lt (hlt (by omega)), hasCut_cons_of_lt (hlt (by omega)),
          hasCut_cons_of_lt (hlt (by omega))]

theorem hasCut_encode (text : List Char) : hasCut (encode text) = false := by
  induction text with
  | nil => rfl
  | cons c text ih => rw [encode, List.flatMap_cons, hasCut_encodeChar, ← encode, ih]

/-- Bytes whose reading is as long as they are come back exactly if no character in them is cut
short after its third byte. -/
theorem encode_decode_iff (hlength : (encode (decode bytes)).length = bytes.length) :
    encode (decode bytes) = bytes ↔ hasCut bytes = false := by
  constructor
  · intro h
    rw [← h]
    exact hasCut_encode _
  · exact (reads_decode bytes).encode_eq hlength

end Reads

end Utf8
