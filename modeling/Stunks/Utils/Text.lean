import Mathlib.Data.List.DropRight
import Stunks.Lib.Pattern

namespace Stunks

def sliceUnits : Nat → List Char → List Char
  | _, [] => []
  | units, c :: text =>
    let size := if c.val < 0x10000 then 1 else 2
    if size ≤ units then c :: sliceUnits (units - size) text else []

/-- `text.trim()` -/
def trim (text : List Char) : List Char :=
  (text.dropWhile Pattern.isSpace).rdropWhile Pattern.isSpace

def collapseSpaces : List Char → List Char
  | [] => []
  | c :: text =>
    if Pattern.isSpace c then
      match collapseSpaces text with
      | ' ' :: rest => if text.head?.any Pattern.isSpace then ' ' :: rest else ' ' :: ' ' :: rest
      | rest => ' ' :: rest
    else c :: collapseSpaces text

/-- `text.length` -/
def utf16Length : List Char → Nat
  | [] => 0
  | c :: text => Pattern.units c + utf16Length text

@[simp] theorem utf16Length_append (s t : List Char) :
    utf16Length (s ++ t) = utf16Length s + utf16Length t := by
  induction s with
  | nil => rw [List.nil_append, utf16Length, Nat.zero_add]
  | cons c s ih => rw [List.cons_append, utf16Length, utf16Length, ih, Nat.add_assoc]

theorem trim_eq_self {text : List Char} (hhead : ∀ c ∈ text.head?, Pattern.isSpace c = false)
    (hlast : ∀ c ∈ text.getLast?, Pattern.isSpace c = false) : trim text = text := by
  have hdrop : text.dropWhile Pattern.isSpace = text := by
    cases text with
    | nil => rfl
    | cons c text => exact List.dropWhile_cons_of_neg (by simp [hhead c rfl])
  rw [trim, hdrop, List.rdropWhile_eq_self_iff]
  intro hne hspace
  rw [hlast _ (List.getLast?_eq_some_getLast hne)] at hspace
  cases hspace

theorem trim_of_forall {text : List Char} (h : ∀ c ∈ text, Pattern.isSpace c = false) :
    trim text = text :=
  trim_eq_self (fun c hc => h c (List.mem_of_head? hc)) fun c hc => h c (List.mem_of_getLast? hc)

theorem isSpace_of_visible {c : Char} (hlo : 0x20 < c.toNat) (hhi : c.toNat < 0x7f) :
    Pattern.isSpace c = false := by
  have hval : c.val.toNat = c.toNat := rfl
  simp only [Pattern.isSpace, Pattern.isLineTerminator, Bool.or_eq_false_iff, Bool.and_eq_false_iff,
    decide_eq_false_iff_not, UInt32.le_iff_toNat_le, ← UInt32.toNat_inj, Char.ext_iff]
  simp
  omega

theorem getLast?_trim {text : List Char} {c : Char} (h : c ∈ (trim text).getLast?) :
    Pattern.isSpace c = false := by
  obtain ⟨hne, rfl⟩ := List.mem_getLast?_eq_getLast h
  exact Bool.eq_false_iff.mpr (List.rdropWhile_last_not _ _ hne)

end Stunks
