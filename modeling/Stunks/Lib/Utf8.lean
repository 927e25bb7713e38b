/-! UTF-8: texts as bytes, and the decoder that puts U+FFFD in place of what is no text. -/

namespace Utf8

def encodeChar (c : Char) : List UInt8 :=
  let n := c.toNat
  if n < 0x80 then [UInt8.ofNat n]
  else if n < 0x800 then [UInt8.ofNat (0xC0 + n / 0x40), UInt8.ofNat (0x80 + n % 0x40)]
  else if n < 0x10000 then
    [UInt8.ofNat (0xE0 + n / 0x1000), UInt8.ofNat (0x80 + n / 0x40 % 0x40),
      UInt8.ofNat (0x80 + n % 0x40)]
  else
    [UInt8.ofNat (0xF0 + n / 0x40000), UInt8.ofNat (0x80 + n / 0x1000 % 0x40),
      UInt8.ofNat (0x80 + n / 0x40 % 0x40), UInt8.ofNat (0x80 + n % 0x40)]

def encode (text : List Char) : List UInt8 := text.flatMap encodeChar

/-- The bytes still needed of a character, what is read of it, and the bounds of its next byte. -/
structure State where
  needed : Nat
  codePoint : Nat
  lower : Nat
  upper : Nat

def start : State := { needed := 0, codePoint := 0, lower := 0x80, upper := 0xBF }

def replacement : Char := '\uFFFD'

def lead (b : Nat) : List Char × State :=
  if b < 0x80 then ([Char.ofNat b], start)
  else if 0xC2 ≤ b ∧ b ≤ 0xDF then ([], { start with needed := 1, codePoint := b - 0xC0 })
  else if 0xE0 ≤ b ∧ b ≤ 0xEF then
    ([], { needed := 2, codePoint := b - 0xE0
           lower := if b = 0xE0 then 0xA0 else 0x80, upper := if b = 0xED then 0x9F else 0xBF })
  else if 0xF0 ≤ b ∧ b ≤ 0xF4 then
    ([], { needed := 3, codePoint := b - 0xF0
           lower := if b = 0xF0 then 0x90 else 0x80, upper := if b = 0xF4 then 0x8F else 0xBF })
  else ([replacement], start)

/-- A byte that cannot continue a character is read again as a first one. -/
def step (s : State) (b : Nat) : List Char × State :=
  if s.needed = 0 then lead b
  else if s.lower ≤ b ∧ b ≤ s.upper then
    let codePoint := s.codePoint * 0x40 + (b - 0x80)
    if s.needed = 1 then ([Char.ofNat codePoint], start)
    else ([], { start with needed := s.needed - 1, codePoint })
  else
    let (text, s) := lead b
    (replacement :: text, s)

def decodeFrom (s : State) : List UInt8 → List Char
  | [] => if s.needed = 0 then [] else [replacement]
  | b :: bytes => (step s b.toNat).1 ++ decodeFrom (step s b.toNat).2 bytes

def decode : List UInt8 → List Char := decodeFrom start

theorem lower_lead (b : Nat) : 0 < (lead b).2.lower := by
  unfold lead
  repeat' split
  all_goals simp [start]

theorem lower_step (s : State) (b : Nat) : 0 < (step s b).2.lower := by
  unfold step
  split
  · exact lower_lead b
  · split
    · dsimp only
      split
      · simp [start]
      · simp [start]
    · exact lower_lead b

theorem decodeFrom_cons {s s' : State} {b : UInt8} {bytes : List UInt8} {text : List Char}
    (h : step s b.toNat = (text, s')) :
    decodeFrom s (b :: bytes) = text ++ decodeFrom s' bytes := by
  simp [decodeFrom, h]

theorem step_one {b : Nat} (h : b < 0x80) : step start b = ([Char.ofNat b], start) := by
  simp [step, lead, start, h]

theorem step_two {b : Nat} (h : 0xC2 ≤ b) (h' : b ≤ 0xDF) :
    step start b =
      ([], { needed := 1, codePoint := b - 0xC0, lower := 0x80, upper := 0xBF }) := by
  have hbig : ¬b < 0x80 := by omega
  simp [step, lead, start, hbig, h, h']

theorem step_three {b : Nat} (h : 0xE0 ≤ b) (h' : b ≤ 0xEF) :
    step start b = ([], { needed := 2, codePoint := b - 0xE0, lower := if b = 0xE0 then 0xA0 else 0x80,
                          upper := if b = 0xED then 0x9F else 0xBF }) := by
  have hbig : ¬b < 0x80 := by omega
  have htwo : ¬b ≤ 0xDF := by omega
  simp [step, lead, start, hbig, htwo, h, h']

theorem step_four {b : Nat} (h : 0xF0 ≤ b) (h' : b ≤ 0xF4) :
    step start b = ([], { needed := 3, codePoint := b - 0xF0, lower := if b = 0xF0 then 0x90 else 0x80,
                          upper := if b = 0xF4 then 0x8F else 0xBF }) := by
  have hbig : ¬b < 0x80 := by omega
  have htwo : ¬b ≤ 0xDF := by omega
  have hthree : ¬b ≤ 0xEF := by omega
  simp [step, lead, start, hbig, htwo, hthree, h, h']

theorem step_more {needed codePoint lower upper b : Nat} (hlower : lower ≤ b) (hupper : b ≤ upper) :
    step { needed := needed + 2, codePoint, lower, upper } b =
      ([], { needed := needed + 1, codePoint := codePoint * 0x40 + (b - 0x80), lower := 0x80,
             upper := 0xBF }) := by
  simp [step, start, hlower, hupper]

theorem step_last {codePoint lower upper b : Nat} (hlower : lower ≤ b) (hupper : b ≤ upper) :
    step { needed := 1, codePoint, lower, upper } b =
      ([Char.ofNat (codePoint * 0x40 + (b - 0x80))], start) := by
  simp [step, hlower, hupper]

theorem toNat_ofNat {n : Nat} (h : n < 0x100) : (UInt8.ofNat n).toNat = n :=
  UInt8.toNat_ofNat_of_lt h

theorem toNat_cases (c : Char) : c.toNat < 0xD800 ∨ 0xDFFF < c.toNat ∧ c.toNat < 0x110000 :=
  c.valid

theorem decode_encodeChar (c : Char) (bytes : List UInt8) :
    decode (encodeChar c ++ bytes) = c :: decode bytes := by
  have hvalid := toNat_cases c
  have hchar : ∀ {n}, n = c.toNat → [Char.ofNat n] ++ decode bytes = c :: decode bytes := by
    rintro _ rfl
    rw [Char.ofNat_toNat]
    rfl
  simp only [encodeChar, decode]
  generalize hn : c.toNat = n at *
  split
  · rename_i hone
    rw [List.cons_append, decodeFrom_cons (step_one (by rw [toNat_ofNat] <;> omega))]
    exact hchar (toNat_ofNat (by omega))
  · split
    · have hfirst := toNat_ofNat (show 0xC0 + n / 0x40 < 0x100 by omega)
      have hlast := toNat_ofNat (show 0x80 + n % 0x40 < 0x100 by omega)
      rw [List.cons_append, decodeFrom_cons (step_two (by omega) (by omega)), List.cons_append,
        decodeFrom_cons (step_last (by omega) (by omega))]
      exact hchar (by omega)
    · split
      · have hfirst := toNat_ofNat (show 0xE0 + n / 0x1000 < 0x100 by omega)
        have hsecond := toNat_ofNat (show 0x80 + n / 0x40 % 0x40 < 0x100 by omega)
        have hlast := toNat_ofNat (show 0x80 + n % 0x40 < 0x100 by omega)
        rw [List.cons_append, decodeFrom_cons (step_three (by omega) (by omega)), List.cons_append,
          decodeFrom_cons (step_more (by split <;> omega) (by split <;> omega)), List.cons_append,
          decodeFrom_cons (step_last (by omega) (by omega))]
        exact hchar (by omega)
      · have hfirst := toNat_ofNat (show 0xF0 + n / 0x40000 < 0x100 by omega)
        have hsecond := toNat_ofNat (show 0x80 + n / 0x1000 % 0x40 < 0x100 by omega)
        have hthird := toNat_ofNat (show 0x80 + n / 0x40 % 0x40 < 0x100 by omega)
        have hlast := toNat_ofNat (show 0x80 + n % 0x40 < 0x100 by omega)
        rw [List.cons_append, decodeFrom_cons (step_four (by omega) (by omega)), List.cons_append,
          decodeFrom_cons (step_more (by split <;> omega) (by split <;> omega)), List.cons_append,
          decodeFrom_cons (step_more (by omega) (by omega)),
          List.cons_append,
          decodeFrom_cons (step_last (by omega) (by omega))]
        exact hchar (by omega)

theorem decode_encode (text : List Char) : decode (encode text) = text := by
  induction text with
  | nil => rfl
  | cons c text ih =>
    rw [encode, List.flatMap_cons, decode_encodeChar]
    exact congrArg _ ih

theorem ne_zero_of_mem_encode {text : List Char} {b : UInt8} (htext : ∀ c ∈ text, c.toNat ≠ 0)
    (hb : b ∈ encode text) : b ≠ 0 := by
  obtain ⟨c, hc, hb⟩ := List.mem_flatMap.mp hb
  have hne := htext c hc
  have hvalid := toNat_cases c
  have hbyte : ∀ n, n ≠ 0 → n < 0x100 → UInt8.ofNat n ≠ 0 := by
    intro n hn hlt heq
    have := congrArg UInt8.toNat heq
    rw [toNat_ofNat hlt] at this
    exact hn this
  simp only [encodeChar] at hb
  split at hb
  · obtain rfl := List.mem_singleton.mp hb
    exact hbyte _ hne (by omega)
  · split at hb
    · simp only [List.mem_cons, List.not_mem_nil, or_false] at hb
      obtain rfl | rfl := hb
      · exact hbyte _ (by omega) (by omega)
      · exact hbyte _ (by omega) (by omega)
    · split at hb
      · simp only [List.mem_cons, List.not_mem_nil, or_false] at hb
        obtain rfl | rfl | rfl := hb
        · exact hbyte _ (by omega) (by omega)
        · exact hbyte _ (by omega) (by omega)
        · exact hbyte _ (by omega) (by omega)
      · simp only [List.mem_cons, List.not_mem_nil, or_false] at hb
        obtain rfl | rfl | rfl | rfl := hb
        · exact hbyte _ (by omega) (by omega)
        · exact hbyte _ (by omega) (by omega)
        · exact hbyte _ (by omega) (by omega)
        · exact hbyte _ (by omega) (by omega)

theorem null_mem_decodeFrom {bytes : List UInt8} {s : State} (hs : 0 < s.lower)
    (h : 0 ∈ bytes) : Char.ofNat 0 ∈ decodeFrom s bytes := by
  induction bytes generalizing s with
  | nil => cases h
  | cons b bytes ih =>
    rcases List.mem_cons.mp h with rfl | h
    · refine List.mem_append_left _ ?_
      have hlead : Char.ofNat 0 ∈ (lead (0 : UInt8).toNat).1 := List.mem_singleton_self _
      unfold step
      split
      · exact hlead
      · rw [if_neg fun hle => absurd hs (Nat.not_lt.mpr hle.1)]
        exact List.mem_cons_of_mem _ hlead
    · exact List.mem_append_right _ (ih (lower_step s b.toNat) h)

theorem encode_length_le (text : List Char) : (encode text).length ≤ 4 * text.length := by
  induction text with
  | nil => exact Nat.le_refl 0
  | cons c text ih =>
    have hchar : (encodeChar c).length ≤ 4 := by
      simp only [encodeChar]
      split
      · simp
      · split
        · simp
        · split
          · simp
          · simp
    simp only [encode, List.flatMap_cons, List.length_append, List.length_cons] at ih ⊢
    omega

end Utf8
