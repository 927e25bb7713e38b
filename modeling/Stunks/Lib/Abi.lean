import Mathlib.Algebra.GroupWithZero.Nat
import Mathlib.Data.List.Basic

namespace Abi

def bytesBE : Nat → Nat → List UInt8
  | 0, _ => []
  | k + 1, n => bytesBE k (n / 256) ++ [UInt8.ofNat (n % 256)]

def readBE (bytes : List UInt8) : Nat := bytes.foldl (fun n b => n * 256 + b.toNat) 0

def word (n : Nat) : List UInt8 := bytesBE 32 n

def padded (bytes : List UInt8) : List UInt8 :=
  bytes ++ List.replicate ((32 - bytes.length % 32) % 32) 0

/-- An encoded value: a dynamic one is laid out behind an offset. -/
structure Encoded where
  dynamic : Bool
  bytes : List UInt8

def uint (n : Nat) : Encoded := { dynamic := false, bytes := word n }

def string (bytes : List UInt8) : Encoded :=
  { dynamic := true, bytes := word bytes.length ++ padded bytes }

def Encoded.headSize (e : Encoded) : Nat := if e.dynamic then 32 else e.bytes.length

def heads (offset : Nat) : List Encoded → List UInt8
  | [] => []
  | e :: parts =>
    if e.dynamic then word offset ++ heads (offset + e.bytes.length) parts
    else e.bytes ++ heads offset parts

def tails (parts : List Encoded) : List UInt8 :=
  (parts.filter Encoded.dynamic).flatMap Encoded.bytes

def tuple (parts : List Encoded) : Encoded where
  dynamic := parts.any Encoded.dynamic
  bytes := heads (parts.map Encoded.headSize).sum parts ++ tails parts

def array (parts : List Encoded) : Encoded :=
  { dynamic := true, bytes := word parts.length ++ (tuple parts).bytes }

@[simp] theorem uint_dynamic (n : Nat) : (uint n).dynamic = false := rfl

@[simp] theorem uint_bytes (n : Nat) : (uint n).bytes = word n := rfl

@[simp] theorem string_dynamic (bytes : List UInt8) : (string bytes).dynamic = true := rfl

@[simp] theorem array_dynamic (parts : List Encoded) : (array parts).dynamic = true := rfl

@[simp] theorem length_bytesBE (k n : Nat) : (bytesBE k n).length = k := by
  induction k generalizing n with
  | zero => rfl
  | succ k ih => simp [bytesBE, ih]

@[simp] theorem length_word (n : Nat) : (word n).length = 32 := length_bytesBE 32 n

theorem bytesBE_add (j k n : Nat) :
    bytesBE (j + k) n = bytesBE j (n / 256 ^ k) ++ bytesBE k n := by
  induction k generalizing n with
  | zero => simp [bytesBE]
  | succ k ih =>
    rw [← Nat.add_assoc, bytesBE, ih, bytesBE, List.append_assoc, Nat.div_div_eq_div_mul,
      Nat.pow_succ']

theorem readBE_append (bytes : List UInt8) (b : UInt8) :
    readBE (bytes ++ [b]) = readBE bytes * 256 + b.toNat := by
  simp [readBE]

theorem readBE_bytesBE (k n : Nat) : readBE (bytesBE k n) = n % 256 ^ k := by
  induction k generalizing n with
  | zero => simp [bytesBE, readBE, Nat.mod_one]
  | succ k ih =>
    have hbyte : (UInt8.ofNat (n % 256)).toNat = n % 256 :=
      UInt8.toNat_ofNat_of_lt (Nat.mod_lt _ (by decide))
    rw [bytesBE, readBE_append, ih, hbyte, Nat.pow_succ', Nat.mod_mul]
    omega

theorem bytesBE_zero (k : Nat) : bytesBE k 0 = List.replicate k 0 := by
  induction k with
  | zero => rfl
  | succ k ih =>
    rw [bytesBE, Nat.zero_div, ih, List.replicate_succ']
    rfl

theorem bytesBE_mod (k n : Nat) : bytesBE k (n % 256 ^ k) = bytesBE k n := by
  induction k generalizing n with
  | zero => rfl
  | succ k ih =>
    rw [bytesBE, bytesBE, Nat.pow_succ', Nat.mod_mul_right_div_self, ih, Nat.mod_mul_right_mod]

theorem word_mod (n : Nat) : word n = word (n % 256 ^ 32) := (bytesBE_mod 32 n).symm

theorem bytesBE_eq_zero {k n : Nat} (h : ∀ b ∈ bytesBE k n, b = 0) : n % 256 ^ k = 0 := by
  have heq : bytesBE k n = bytesBE k 0 := by
    rw [bytesBE_zero]
    exact List.eq_replicate_iff.mpr ⟨length_bytesBE k n, h⟩
  have hread := congrArg readBE heq
  rwa [readBE_bytesBE, readBE_bytesBE, Nat.zero_mod] at hread

theorem word_eq_zero_cons {n : Nat} (h : n < 256 ^ 31) : word n = 0 :: bytesBE 31 n := by
  have hsplit : word n = bytesBE (1 + 31) n := rfl
  rw [hsplit, bytesBE_add, Nat.div_eq_of_lt h, bytesBE_zero, List.replicate_one,
    List.singleton_append]

theorem word_split (k n : Nat) (h : k ≤ 32) :
    word n = bytesBE (32 - k) (n / 256 ^ k) ++ bytesBE k n := by
  rw [← bytesBE_add, Nat.sub_add_cancel h, word]

theorem length_padded (bytes : List UInt8) :
    (padded bytes).length = bytes.length + (32 - bytes.length % 32) % 32 := by
  simp [padded]

theorem padded_append {w bytes : List UInt8} (h : w.length = 32) :
    padded (w ++ bytes) = w ++ padded bytes := by
  have hmod : (32 + bytes.length) % 32 = bytes.length % 32 := by omega
  simp [padded, h, hmod]

theorem length_heads (offset : Nat) (parts : List Encoded) :
    (heads offset parts).length = (parts.map Encoded.headSize).sum := by
  induction parts generalizing offset with
  | nil => rfl
  | cons e parts ih =>
    unfold heads
    split
    · rename_i hdynamic
      simp [ih, Encoded.headSize, hdynamic]
    · rename_i hstatic
      simp [ih, Encoded.headSize, hstatic]

theorem tuple_uints (ns : List Nat) : (tuple (ns.map uint)).bytes = ns.flatMap word := by
  have hheads : ∀ offset, heads offset (ns.map uint) = ns.flatMap word := by
    intro offset
    induction ns with
    | nil => rfl
    | cons n ns ih => simp [heads, ih]
  have htails : tails (ns.map uint) = [] := by
    simp [tails]
  simp [tuple, hheads, htails]

theorem length_string (bytes : List UInt8) :
    (string bytes).bytes.length ≤ bytes.length + 64 := by
  simp only [string, List.length_append, length_word, length_padded]
  omega

end Abi
