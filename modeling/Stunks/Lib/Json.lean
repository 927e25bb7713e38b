import Mathlib.Algebra.Order.Ring.Rat

inductive Json
  | null
  | bool (b : Bool)
  | num (n : ℚ)
  | str (s : String)
  | arr (items : List Json)
  | obj (members : List (String × Json))

namespace Json

/-- `value.name`, where `none` is `undefined`.  Of equal names the last counts. -/
def member (name : String) : Json → Option Json
  | obj members => (members.reverse.find? fun m => m.1 = name).map Prod.snd
  | _ => none

def truthy : Json → Bool
  | null => false
  | bool b => b
  | num n => n ≠ 0
  | str s => s ≠ ""
  | arr _ => true
  | obj _ => true

def isNull : Json → Bool
  | null => true
  | _ => false

def isObject : Json → Bool
  | arr _ => true
  | obj _ => true
  | _ => false

def shortEscape (c : Char) : Option Char :=
  if c = '"' then some '"'
  else if c = '\\' then some '\\'
  else if c.toNat = 8 then some 'b'
  else if c.toNat = 9 then some 't'
  else if c.toNat = 10 then some 'n'
  else if c.toNat = 12 then some 'f'
  else if c.toNat = 13 then some 'r'
  else none

def quoteChar (c : Char) : List Char :=
  match shortEscape c with
  | some letter => ['\\', letter]
  | none =>
    if c.toNat < 32 then
      ['\\', 'u', '0', '0', Nat.digitChar (c.toNat / 16), Nat.digitChar (c.toNat % 16)]
    else [c]

def quote (text : List Char) : List Char := '"' :: (text.flatMap quoteChar ++ ['"'])

/-- `JSON.stringify` of an object whose members are strings. -/
def stringify : List (List Char × List Char) → List Char
  | [] => ['{', '}']
  | (name, text) :: fields =>
    '{' :: (quote name ++ ':' :: quote text ++
      fields.flatMap (fun field => ',' :: (quote field.1 ++ ':' :: quote field.2)) ++ ['}'])

def unescape (c : Char) : Option Nat :=
  if c = '"' ∨ c = '\\' ∨ c = '/' then some c.toNat
  else if c = 'b' then some 8
  else if c = 'f' then some 12
  else if c = 'n' then some 10
  else if c = 'r' then some 13
  else if c = 't' then some 9
  else none

def hexDigit (c : Char) : Option Nat :=
  let n := c.toNat
  if 48 ≤ n ∧ n ≤ 57 then some (n - 48)
  else if 97 ≤ n ∧ n ≤ 102 then some (n - 87)
  else if 65 ≤ n ∧ n ≤ 70 then some (n - 55)
  else none

def hexUnit (a b c d : Char) : Option Nat := do
  return (((← hexDigit a) * 16 + (← hexDigit b)) * 16 + (← hexDigit c)) * 16 + (← hexDigit d)

def readPoints : List Char → Option (List Nat × List Char)
  | '"' :: rest => some ([], rest)
  | '\\' :: 'u' :: a :: b :: c :: d :: rest => do
    let n ← hexUnit a b c d
    let (points, rest) ← readPoints rest
    return (n :: points, rest)
  | '\\' :: c :: rest => do
    let n ← unescape c
    let (points, rest) ← readPoints rest
    return (n :: points, rest)
  | c :: rest =>
    if c.toNat < 32 then none
    else do
      let (points, rest) ← readPoints rest
      return (c.toNat :: points, rest)
  | [] => none

def charOf (n : Nat) : Char := if n.isValidChar then Char.ofNat n else Char.ofNat 0xFFFD

def join : List Nat → List Char
  | high :: low :: points =>
    if 0xD800 ≤ high ∧ high < 0xDC00 ∧ 0xDC00 ≤ low ∧ low < 0xE000 then
      charOf ((high - 0xD800) * 0x400 + (low - 0xDC00) + 0x10000) :: join points
    else charOf high :: join (low :: points)
  | [n] => [charOf n]
  | [] => []

def readString (text : List Char) : Option (String × List Char) := do
  let (points, rest) ← readPoints text
  return (String.ofList (join points), rest)

def skipBlanks (text : List Char) : List Char :=
  text.dropWhile fun c => c = ' ' ∨ c = '\t' ∨ c = '\n' ∨ c = '\r'

def readDigits (text : List Char) : Nat × Nat × List Char :=
  let digits := text.takeWhile Char.isDigit
  (digits.foldl (fun n c => n * 10 + (c.toNat - 48)) 0, digits.length, text.drop digits.length)

def readNumber (text : List Char) : Option (Json × List Char) :=
  let (negative, text) := match text with
    | '-' :: rest => (true, rest)
    | _ => (false, text)
  let (whole, wholeLength, rest) := readDigits text
  if wholeLength = 0 ∨ wholeLength > 1 ∧ text.head? = some '0' then none
  else do
    let (fraction, rest) ← match rest with
      | '.' :: rest =>
        let (n, length, rest) := readDigits rest
        if length = 0 then none else some ((n : ℚ) / 10 ^ length, rest)
      | _ => some (0, rest)
    let (scale, rest) ← match rest with
      | e :: rest' =>
        if e = 'e' ∨ e = 'E' then
          let (down, rest') := match rest' with
            | '-' :: rest' => (true, rest')
            | '+' :: rest' => (false, rest')
            | _ => (false, rest')
          let (n, length, rest') := readDigits rest'
          if length = 0 then none
          else some (if down then 1 / (10 : ℚ) ^ n else (10 : ℚ) ^ n, rest')
        else some (1, rest)
      | [] => some (1, rest)
    let value := ((whole : ℚ) + fraction) * scale
    return (num (if negative then -value else value), rest)

mutual

def readValue : Nat → List Char → Option (Json × List Char)
  | 0, _ => none
  | fuel + 1, text =>
    match skipBlanks text with
    | '{' :: rest =>
      match skipBlanks rest with
      | '}' :: rest => some (obj [], rest)
      | rest => (readMembers fuel rest).map fun (members, rest) => (obj members, rest)
    | '[' :: rest =>
      match skipBlanks rest with
      | ']' :: rest => some (arr [], rest)
      | rest => (readItems fuel rest).map fun (items, rest) => (arr items, rest)
    | '"' :: rest => (readString rest).map fun (text, rest) => (str text, rest)
    | 't' :: 'r' :: 'u' :: 'e' :: rest => some (bool true, rest)
    | 'f' :: 'a' :: 'l' :: 's' :: 'e' :: rest => some (bool false, rest)
    | 'n' :: 'u' :: 'l' :: 'l' :: rest => some (null, rest)
    | rest => readNumber rest

def readMembers : Nat → List Char → Option (List (String × Json) × List Char)
  | 0, _ => none
  | fuel + 1, text =>
    match skipBlanks text with
    | '"' :: rest => do
      let (name, rest) ← readString rest
      match skipBlanks rest with
      | ':' :: rest => do
        let (value, rest) ← readValue fuel rest
        match skipBlanks rest with
        | ',' :: rest => do
          let (members, rest) ← readMembers fuel rest
          return ((name, value) :: members, rest)
        | '}' :: rest => return ([(name, value)], rest)
        | _ => none
      | _ => none
    | _ => none

def readItems : Nat → List Char → Option (List Json × List Char)
  | 0, _ => none
  | fuel + 1, text => do
    let (value, rest) ← readValue fuel text
    match skipBlanks rest with
    | ',' :: rest => do
      let (items, rest) ← readItems fuel rest
      return (value :: items, rest)
    | ']' :: rest => return ([value], rest)
    | _ => none

end

/-- `JSON.parse`, where `none` is a text that it throws for. -/
def parse (text : List Char) : Option Json := do
  let (value, rest) ← readValue (text.length + 1) text
  if skipBlanks rest = [] then return value else none

section roundTrip

theorem hexUnit_control (n : Fin 32) :
    hexUnit '0' '0' (Nat.digitChar (n / 16)) (Nat.digitChar (n % 16)) = some n.val := by
  revert n
  decide

def push (n : Nat) (r : Option (List Nat × List Char)) : Option (List Nat × List Char) :=
  r.map fun r => (n :: r.1, r.2)

theorem unescape_shortEscape {c letter : Char} (h : shortEscape c = some letter) :
    unescape letter = some c.toNat ∧ letter ≠ 'u' := by
  unfold shortEscape at h
  split_ifs at h with hc hc hc hc hc hc hc
  all_goals
    obtain rfl := Option.some.inj h
    exact ⟨by rw [hc]; rfl, by decide⟩

theorem readPoints_escape {letter : Char} {n : Nat} (h : unescape letter = some n)
    (hletter : letter ≠ 'u') (rest : List Char) :
    readPoints ('\\' :: letter :: rest) = push n (readPoints rest) := by
  rw [readPoints]
  · rw [h]
    cases readPoints rest <;> rfl
  · exact fun _ _ _ _ _ hu => absurd hu hletter

theorem readPoints_control (n : Fin 32) (rest : List Char) :
    readPoints ('\\' :: 'u' :: '0' :: '0' :: Nat.digitChar (n / 16) :: Nat.digitChar (n % 16) ::
      rest) = push n.val (readPoints rest) := by
  rw [readPoints, hexUnit_control]
  cases readPoints rest <;> rfl

theorem readPoints_plain {c : Char} (hquote : c ≠ '"') (hslash : c ≠ '\\') (hc : ¬c.toNat < 32)
    (rest : List Char) : readPoints (c :: rest) = push c.toNat (readPoints rest) := by
  rw [readPoints]
  · rw [if_neg hc]
    cases readPoints rest <;> rfl
  · exact hquote
  · exact fun _ _ _ _ _ h => absurd h hslash
  · exact fun _ _ h => absurd h hslash

theorem readPoints_quoteChar (c : Char) (rest : List Char) :
    readPoints (quoteChar c ++ rest) = push c.toNat (readPoints rest) := by
  unfold quoteChar
  cases hescape : shortEscape c with
  | some letter =>
    obtain ⟨hunescape, hletter⟩ := unescape_shortEscape hescape
    exact readPoints_escape hunescape hletter rest
  | none =>
    dsimp only
    split
    · rename_i h
      exact readPoints_control ⟨c.toNat, h⟩ rest
    · rename_i h
      refine readPoints_plain ?_ ?_ h rest <;> rintro rfl <;> cases hescape

theorem readPoints_quoted (text rest : List Char) :
    readPoints (text.flatMap quoteChar ++ '"' :: rest) = some (text.map Char.toNat, rest) := by
  induction text with
  | nil => rw [List.flatMap_nil, List.nil_append, readPoints, List.map_nil]
  | cons c text ih =>
    rw [List.flatMap_cons, List.append_assoc, readPoints_quoteChar, ih]
    rfl

theorem charOf_toNat (c : Char) : charOf c.toNat = c := by
  have hvalid : c.toNat.isValidChar := c.valid
  rw [charOf, if_pos hvalid, Char.ofNat_toNat]

theorem join_cons (c : Char) (text : List Char) :
    join (c.toNat :: text.map Char.toNat) = c :: join (text.map Char.toNat) := by
  cases text with
  | nil => rw [List.map_nil, join, charOf_toNat, join]
  | cons d text =>
    have hvalid : c.toNat < 0xD800 ∨ 0xDFFF < c.toNat ∧ c.toNat < 0x110000 := c.valid
    have hpair : ¬(0xD800 ≤ c.toNat ∧ c.toNat < 0xDC00 ∧ 0xDC00 ≤ d.toNat ∧ d.toNat < 0xE000) := by
      omega
    rw [List.map_cons, join, if_neg hpair, charOf_toNat]

theorem join_map (text : List Char) : join (text.map Char.toNat) = text := by
  induction text with
  | nil => rfl
  | cons c text ih => rw [List.map_cons, join_cons, ih]

theorem readString_quoted (text rest : List Char) :
    readString (text.flatMap quoteChar ++ '"' :: rest) = some (String.ofList text, rest) := by
  rw [readString, readPoints_quoted]
  exact congrArg (fun text => some (String.ofList text, rest)) (join_map text)

def written (fields : List (List Char × List Char)) : List (String × Json) :=
  fields.map fun field => (String.ofList field.1, str (String.ofList field.2))

theorem quote_append (text rest : List Char) :
    quote text ++ rest = '"' :: (text.flatMap quoteChar ++ '"' :: rest) := by
  simp [quote]

theorem readValue_quoted (fuel : Nat) (text rest : List Char) :
    readValue (fuel + 1) (quote text ++ rest) = some (str (String.ofList text), rest) := by
  have hblanks : skipBlanks ('"' :: (text.flatMap quoteChar ++ '"' :: rest)) =
      '"' :: (text.flatMap quoteChar ++ '"' :: rest) := rfl
  rw [quote_append, readValue, hblanks]
  simp only [readString_quoted, Option.map_some]

theorem readMembers_field (fuel : Nat) (name text rest : List Char) :
    readMembers (fuel + 2) (quote name ++ ':' :: (quote text ++ rest)) =
      match skipBlanks rest with
      | ',' :: rest => do
        let (members, rest) ← readMembers (fuel + 1) rest
        return ((String.ofList name, str (String.ofList text)) :: members, rest)
      | '}' :: rest => return ([(String.ofList name, str (String.ofList text))], rest)
      | _ => none := by
  have hname : skipBlanks ('"' :: (name.flatMap quoteChar ++ '"' :: ':' :: (quote text ++ rest))) =
      '"' :: (name.flatMap quoteChar ++ '"' :: ':' :: (quote text ++ rest)) := rfl
  have hcolon : skipBlanks (':' :: (quote text ++ rest)) = ':' :: (quote text ++ rest) := rfl
  rw [quote_append, readMembers, hname]
  simp only [readString_quoted, Option.bind_eq_bind, Option.bind_some, hcolon, readValue_quoted]

theorem readMembers_fields (fuel : Nat) (name text : List Char)
    (fields : List (List Char × List Char)) (rest : List Char) (h : fields.length ≤ fuel) :
    readMembers (fuel + 2) (quote name ++ ':' :: (quote text ++
      (fields.flatMap (fun field => ',' :: (quote field.1 ++ ':' :: quote field.2)) ++
        '}' :: rest))) = some (written ((name, text) :: fields), rest) := by
  induction fields generalizing fuel name text with
  | nil => rw [readMembers_field]; rfl
  | cons field fields ih =>
    obtain ⟨fuel, rfl⟩ := Nat.exists_eq_add_of_le' h
    have hrest := ih (fuel + fields.length) field.1 field.2 (Nat.le_add_left _ _)
    rw [readMembers_field]
    simp only [List.flatMap_cons, List.cons_append, List.append_assoc] at hrest ⊢
    have hcomma : ∀ more, skipBlanks (',' :: more) = ',' :: more := fun _ => rfl
    rw [hcomma]
    simp only [List.length_cons]
    rw [← Nat.add_assoc, hrest]
    rfl

theorem length_le_flatMap (fields : List (List Char × List Char)) : fields.length ≤
    (fields.flatMap fun field => ',' :: (quote field.1 ++ ':' :: quote field.2)).length := by
  induction fields with
  | nil => exact Nat.le_refl _
  | cons field fields ih =>
    rw [List.flatMap_cons, List.length_append, List.length_cons, List.length_cons]
    omega

theorem readValue_members (fuel : Nat) (rest : List Char) :
    readValue (fuel + 1) ('{' :: '"' :: rest) =
      (readMembers fuel ('"' :: rest)).map fun (members, rest) => (obj members, rest) := rfl

theorem parse_stringify (fields : List (List Char × List Char)) :
    parse (stringify fields) = some (obj (written fields)) := by
  cases fields with
  | nil => rfl
  | cons field fields =>
    obtain ⟨name, text⟩ := field
    have htext : stringify ((name, text) :: fields) = '{' :: (quote name ++ ':' :: (quote text ++
        (fields.flatMap (fun field => ',' :: (quote field.1 ++ ':' :: quote field.2)) ++
          '}' :: []))) := by
      simp [stringify]
    have hlen : fields.length + 2 ≤ (stringify ((name, text) :: fields)).length := by
      have hle := length_le_flatMap fields
      rw [htext]
      simp only [List.length_cons, List.length_append]
      omega
    obtain ⟨extra, hextra⟩ := Nat.exists_eq_add_of_le hlen
    have hmembers := readMembers_fields (fields.length + extra) name text fields []
      (Nat.le_add_right _ _)
    have hfuel : (stringify ((name, text) :: fields)).length =
        fields.length + extra + 2 := by omega
    rw [parse, hfuel, htext, quote_append, readValue_members, ← quote_append, hmembers]
    rfl

end roundTrip

end Json
