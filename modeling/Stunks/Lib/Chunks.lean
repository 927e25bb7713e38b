import Mathlib.Data.List.Nodup
import Mathlib.Data.List.Perm.Basic

namespace Chunks

variable {α κ : Type}

def ofSize (size : Nat) (l : List α) : List (List α) :=
  (List.range ((l.length + size - 1) / size)).map fun i => (l.drop (i * size)).take size

section ofSize

variable {size : Nat} {l : List α}

theorem flatten_range (l : List α) (size n : Nat) :
    ((List.range n).map fun i => (l.drop (i * size)).take size).flatten = l.take (n * size) := by
  induction n with
  | zero => simp
  | succ n ih =>
    rw [List.range_succ, List.map_append, List.flatten_append, ih, Nat.succ_mul, List.take_add]
    simp

theorem flatten_ofSize (h : 0 < size) : (ofSize size l).flatten = l := by
  refine (flatten_range l size _).trans (List.take_of_length_le ?_)
  have hceil := Nat.lt_div_mul_add (a := l.length + size - 1) h
  omega

theorem flatten_take_ofSize (h : 0 < size) (k : Nat) : ∃ n, ((ofSize size l).take k).flatten =
    l.take n ∧ ((ofSize size l).length ≤ k → l.take n = l) := by
  refine ⟨min k ((l.length + size - 1) / size) * size, ?_, fun hk => ?_⟩
  · rw [ofSize, ← List.map_take, List.take_range, flatten_range]
  · have hall := flatten_ofSize (l := l) h
    rw [ofSize, List.length_map, List.length_range] at hk
    rwa [ofSize, flatten_range, ← Nat.min_eq_right hk] at hall

theorem length_le_of_mem {chunk : List α} (h : chunk ∈ ofSize size l) : chunk.length ≤ size := by
  obtain ⟨i, -, rfl⟩ := List.mem_map.mp h
  exact List.length_take_le ..

theorem ne_nil_of_mem (hsize : 0 < size) {chunk : List α} (h : chunk ∈ ofSize size l) :
    chunk ≠ [] := by
  obtain ⟨i, hi, rfl⟩ := List.mem_map.mp h
  have hceil : (i + 1) * size ≤ l.length + size - 1 :=
    (Nat.le_div_iff_mul_le hsize).mp (List.mem_range.mp hi)
  rw [Nat.succ_mul] at hceil
  rw [← List.length_pos_iff, List.length_take, List.length_drop]
  omega

end ofSize

section groups

variable [DecidableEq κ]

theorem filter_append_perm {p q : α → Bool} {l : List α}
    (h : ∀ a ∈ l, p a = true → q a = false) :
    (l.filter p ++ l.filter q).Perm (l.filter fun a => p a || q a) := by
  have hp : (l.filter fun a => p a || q a).filter p = l.filter p := by
    rw [List.filter_filter]
    exact List.filter_congr fun a _ => by cases p a <;> simp
  have hq : (l.filter fun a => p a || q a).filter (fun a => !p a) = l.filter q := by
    rw [List.filter_filter]
    refine List.filter_congr fun a ha => ?_
    cases hpa : p a
    · simp
    · simp [h a ha hpa]
  have hsplit := List.filter_append_perm p (l.filter fun a => p a || q a)
  rwa [hp, hq] at hsplit

theorem filter_groups_perm (key : α → κ) (l : List α) {groups : List (List κ)}
    (h : groups.flatten.Nodup) :
    (groups.flatMap fun group => l.filter fun a => group.contains (key a)).Perm
      (l.filter fun a => groups.flatten.contains (key a)) := by
  induction groups with
  | nil => simp
  | cons group groups ih =>
    rw [List.flatten_cons, List.nodup_append] at h
    obtain ⟨-, hgroups, hdisjoint⟩ := h
    rw [List.flatMap_cons]
    refine ((ih hgroups).append_left _).trans ?_
    refine (filter_append_perm fun a _ ha => ?_).trans (List.Perm.of_eq ?_)
    · have hmem := List.contains_iff_mem.mp ha
      rw [← Bool.not_eq_true, List.contains_iff_mem]
      exact fun hother => hdisjoint _ hmem _ hother rfl
    · refine List.filter_congr fun a _ => ?_
      rw [List.flatten_cons, List.contains_append]

theorem countP_contains {groups : List (List κ)} (h : groups.flatten.Nodup) {k : κ}
    (hk : k ∈ groups.flatten) : groups.countP (fun group => group.contains k) = 1 := by
  induction groups with
  | nil => cases hk
  | cons group groups ih =>
    rw [List.flatten_cons, List.nodup_append] at h
    obtain ⟨-, hgroups, hdisjoint⟩ := h
    rw [List.flatten_cons, List.mem_append] at hk
    by_cases hmem : k ∈ group
    · have hrest : groups.countP (fun group => group.contains k) = 0 := by
        rw [List.countP_eq_zero]
        intro other hother hcontains
        have hflat := List.mem_flatten.mpr ⟨other, hother, List.contains_iff_mem.mp hcontains⟩
        exact hdisjoint k hmem k hflat rfl
      rw [List.countP_cons, hrest, if_pos (List.contains_iff_mem.mpr hmem)]
    · have hnot : ¬ group.contains k = true := fun h => hmem (List.contains_iff_mem.mp h)
      rw [List.countP_cons, if_neg hnot]
      exact ih hgroups (hk.resolve_left hmem)

end groups

end Chunks
