import Mathlib.Algebra.BigOperators.Group.List.Basic
import Mathlib.Data.List.Dedup
import Mathlib.Logic.Function.Basic

namespace Table

variable {α κ τ : Type} [DecidableEq κ] {key : α → κ} {rows new : List α} {r x : α}

/-- `INSERT … ON CONFLICT (key) DO UPDATE` of one row. -/
def upsert (key : α → κ) (rows : List α) (x : α) : List α :=
  if rows.any fun r => key r = key x then rows.map fun r => if key r = key x then x else r
  else rows ++ [x]

def upsertMany (key : α → κ) (rows new : List α) : List α := new.foldl (upsert key) rows

/-- `INSERT … ON CONFLICT (key) DO NOTHING` of one row. -/
def insert (key : α → κ) (rows : List α) (x : α) : List α :=
  if rows.any fun r => key r = key x then rows else rows ++ [x]

def insertMany (key : α → κ) (rows new : List α) : List α := new.foldl (insert key) rows

/-- `GROUP BY`: one row for each key of the table, made from the rows that have it. -/
def groupBy (key : τ → κ) (row : κ → List τ → α) (ts : List τ) : List α :=
  (ts.map key).dedup.map fun k => row k (ts.filter fun t => key t = k)

theorem mem_upsert_self : x ∈ upsert key rows x := by
  unfold upsert
  split
  · rename_i h
    obtain ⟨r, hr, hk⟩ := List.any_eq_true.mp h
    exact List.mem_map.mpr ⟨r, hr, if_pos (of_decide_eq_true hk)⟩
  · simp

theorem of_mem_upsert (h : r ∈ upsert key rows x) : r = x ∨ r ∈ rows := by
  unfold upsert at h
  split at h
  · obtain ⟨y, hy, rfl⟩ := List.mem_map.mp h
    split
    · exact .inl rfl
    · exact .inr hy
  · simpa [or_comm] using h

theorem mem_upsert_of_mem (hr : r ∈ rows) (h : key r = key x → r = x) :
    r ∈ upsert key rows x := by
  by_cases hk : key r = key x
  · rw [h hk]
    exact mem_upsert_self
  · unfold upsert
    split
    · exact List.mem_map.mpr ⟨r, hr, if_neg hk⟩
    · exact List.mem_append_left _ hr

theorem exists_key_upsert (hr : r ∈ rows) : ∃ r' ∈ upsert key rows x, key r' = key r := by
  by_cases hk : key r = key x
  · exact ⟨x, mem_upsert_self, hk.symm⟩
  · exact ⟨r, mem_upsert_of_mem hr fun h => absurd h hk, rfl⟩

theorem length_upsert_le (key : α → κ) (rows : List α) (x : α) :
    (upsert key rows x).length ≤ rows.length + 1 := by
  unfold upsert
  split
  · rw [List.length_map]
    exact Nat.le_succ _
  · exact Nat.le_of_eq List.length_append

theorem of_mem_upsertMany (h : r ∈ upsertMany key rows new) : r ∈ new ∨ r ∈ rows := by
  induction new generalizing rows with
  | nil => exact .inr h
  | cons x new ih =>
    cases ih h with
    | inl hnew => exact .inl (List.mem_cons_of_mem _ hnew)
    | inr hrows =>
      cases of_mem_upsert hrows with
      | inl heq => exact .inl (heq ▸ List.mem_cons_self)
      | inr hmem => exact .inr hmem

theorem mem_upsertMany_of_mem (hr : r ∈ rows) (h : ∀ x ∈ new, key r = key x → r = x) :
    r ∈ upsertMany key rows new := by
  induction new generalizing rows with
  | nil => exact hr
  | cons x new ih =>
    refine ih (mem_upsert_of_mem hr (h x List.mem_cons_self)) ?_
    exact fun y hy => h y (List.mem_cons_of_mem _ hy)

theorem mem_upsertMany_of_new (hr : r ∈ new) (h : ∀ x ∈ new, key r = key x → r = x) :
    r ∈ upsertMany key rows new := by
  induction new generalizing rows with
  | nil => cases hr
  | cons x new ih =>
    have htail : ∀ y ∈ new, key r = key y → r = y := fun y hy => h y (List.mem_cons_of_mem _ hy)
    rcases List.mem_cons.mp hr with rfl | hr
    · show r ∈ upsertMany key (upsert key rows r) new
      exact mem_upsertMany_of_mem mem_upsert_self htail
    · exact ih hr htail

theorem exists_key_upsertMany (hr : r ∈ rows) : ∃ r' ∈ upsertMany key rows new, key r' = key r := by
  induction new generalizing rows r with
  | nil => exact ⟨r, hr, rfl⟩
  | cons x new ih =>
    by_cases hk : key r = key x
    · obtain ⟨r', hr', hkey⟩ := ih (show x ∈ upsert key rows x from mem_upsert_self)
      exact ⟨r', hr', hkey.trans hk.symm⟩
    · exact ih (mem_upsert_of_mem hr fun h => absurd h hk)

theorem exists_key_of_upsertMany (hx : x ∈ new) :
    ∃ r ∈ upsertMany key rows new, key r = key x := by
  induction new generalizing rows with
  | nil => cases hx
  | cons y new ih =>
    rcases List.mem_cons.mp hx with rfl | hx
    · show ∃ r ∈ upsertMany key (upsert key rows x) new, key r = key x
      exact exists_key_upsertMany mem_upsert_self
    · exact ih hx

theorem nodup_upsert (h : (rows.map key).Nodup) : ((upsert key rows x).map key).Nodup := by
  unfold upsert
  split
  · rw [List.map_map]
    have hkeys : rows.map (key ∘ fun r => if key r = key x then x else r) = rows.map key := by
      refine List.map_congr_left fun r _ => ?_
      show key (if key r = key x then x else r) = key r
      split
      · rename_i hk
        exact hk.symm
      · rfl
    rwa [hkeys]
  · rename_i hany
    simp only [List.any_eq_true, decide_eq_true_eq, not_exists, not_and] at hany
    simp only [List.map_append, List.map_cons, List.map_nil]
    refine List.Nodup.append h (List.nodup_singleton _) ?_
    simpa [List.disjoint_singleton] using hany

theorem nodup_upsertMany (h : (rows.map key).Nodup) :
    ((upsertMany key rows new).map key).Nodup := by
  induction new generalizing rows with
  | nil => exact h
  | cons x new ih => exact ih (nodup_upsert h)

theorem of_mem_insert (h : r ∈ insert key rows x) : r ∈ rows ∨ r = x := by
  unfold insert at h
  split at h
  · exact .inl h
  · simpa using h

theorem mem_insert_of_mem (h : r ∈ rows) : r ∈ insert key rows x := by
  unfold insert
  split
  · exact h
  · exact List.mem_append_left _ h

theorem exists_key_insert : ∃ r ∈ insert key rows x, key r = key x := by
  unfold insert
  split
  · rename_i h
    obtain ⟨r, hr, hk⟩ := List.any_eq_true.mp h
    exact ⟨r, hr, of_decide_eq_true hk⟩
  · exact ⟨x, by simp, rfl⟩

theorem nodup_insert (h : (rows.map key).Nodup) : ((insert key rows x).map key).Nodup := by
  unfold insert
  split
  · exact h
  · rename_i hany
    simp only [List.any_eq_true, decide_eq_true_eq, not_exists, not_and] at hany
    simp only [List.map_append, List.map_cons, List.map_nil]
    refine List.Nodup.append h (List.nodup_singleton _) ?_
    simpa [List.disjoint_singleton] using hany

theorem of_mem_insertMany (h : r ∈ insertMany key rows new) : r ∈ rows ∨ r ∈ new := by
  induction new generalizing rows with
  | nil => exact .inl h
  | cons x new ih =>
    cases ih h with
    | inl hrows =>
      cases of_mem_insert hrows with
      | inl hmem => exact .inl hmem
      | inr heq => exact .inr (heq ▸ List.mem_cons_self)
    | inr hnew => exact .inr (List.mem_cons_of_mem _ hnew)

theorem mem_insertMany_of_mem (h : r ∈ rows) : r ∈ insertMany key rows new := by
  induction new generalizing rows with
  | nil => exact h
  | cons x new ih => exact ih (mem_insert_of_mem h)

theorem exists_key_insertMany (h : x ∈ new) : ∃ r ∈ insertMany key rows new, key r = key x := by
  induction new generalizing rows with
  | nil => cases h
  | cons y new ih =>
    rcases List.mem_cons.mp h with rfl | h
    · obtain ⟨r, hr, hk⟩ : ∃ r ∈ insert key rows x, key r = key x := exists_key_insert
      have hmem : r ∈ insertMany key (insert key rows x) new := mem_insertMany_of_mem hr
      exact ⟨r, hmem, hk⟩
    · exact ih h

theorem nodup_insertMany (h : (rows.map key).Nodup) :
    ((insertMany key rows new).map key).Nodup := by
  induction new generalizing rows with
  | nil => exact h
  | cons x new ih => exact ih (nodup_insert h)

theorem insertMany_append {more : List α} :
    insertMany key rows (new ++ more) = insertMany key (insertMany key rows new) more :=
  List.foldl_append

theorem filter_insertMany {p : α → Bool} (h : ∀ x ∈ new, p x = false) :
    (insertMany key rows new).filter p = rows.filter p := by
  induction new generalizing rows with
  | nil => rfl
  | cons x new ih =>
    refine (ih fun y hy => h y (List.mem_cons_of_mem _ hy)).trans ?_
    unfold insert
    split
    · rfl
    · simp [h x List.mem_cons_self]

theorem mem_map_insertMany {f : α → τ} {z : τ}
    (h : ∀ x ∈ rows ++ new, ∀ y ∈ rows ++ new, key x = key y → f x = f y) :
    z ∈ (insertMany key rows new).map f ↔ z ∈ rows.map f ∨ z ∈ new.map f := by
  simp only [List.mem_map]
  constructor
  · rintro ⟨x, hx, rfl⟩
    cases of_mem_insertMany hx with
    | inl hrows => exact .inl ⟨x, hrows, rfl⟩
    | inr hnew => exact .inr ⟨x, hnew, rfl⟩
  · rintro (⟨x, hx, rfl⟩ | ⟨x, hx, rfl⟩)
    · exact ⟨x, mem_insertMany_of_mem hx, rfl⟩
    · obtain ⟨r, hr, hkey⟩ : ∃ r ∈ insertMany key rows new, key r = key x :=
        exists_key_insertMany hx
      have hmem : r ∈ rows ++ new := List.mem_append.mpr (of_mem_insertMany hr)
      exact ⟨r, hr, h r hmem x (List.mem_append_right _ hx) hkey⟩

theorem mem_insertMany (h : ∀ x ∈ rows ++ new, ∀ y ∈ rows ++ new, key x = key y → x = y) :
    r ∈ insertMany key rows new ↔ r ∈ rows ∨ r ∈ new := by
  have hmap := @mem_map_insertMany α κ α _ key rows new id r h
  simpa only [List.map_id] using hmap

theorem filter_key (h : (rows.map key).Nodup) (hr : r ∈ rows) :
    (rows.filter fun x => key x = key r) = [r] := by
  induction rows with
  | nil => cases hr
  | cons x rows ih =>
    obtain ⟨hx, hrest⟩ := List.nodup_cons.mp h
    rcases List.mem_cons.mp hr with rfl | hr
    · have hnone : (rows.filter fun x => key x = key r) = [] := by
        refine List.filter_eq_nil_iff.mpr fun y hy hkey => hx ?_
        exact List.mem_map.mpr ⟨y, hy, of_decide_eq_true hkey⟩
      rw [List.filter_cons_of_pos (by simp), hnone]
    · have hne : key x ≠ key r := fun hkey => hx (List.mem_map.mpr ⟨r, hr, hkey.symm⟩)
      rw [List.filter_cons_of_neg (by simpa using hne)]
      exact ih hrest hr

theorem mem_groupBy {keyOf : τ → κ} {row : κ → List τ → α} {ts : List τ} :
    r ∈ groupBy keyOf row ts ↔
      ∃ t ∈ ts, r = row (keyOf t) (ts.filter fun u => keyOf u = keyOf t) := by
  simp only [groupBy, List.mem_map, List.mem_dedup]
  constructor
  · rintro ⟨k, ⟨t, ht, rfl⟩, rfl⟩
    exact ⟨t, ht, rfl⟩
  · rintro ⟨t, ht, rfl⟩
    exact ⟨_, ⟨t, ht, rfl⟩, rfl⟩

section Sum

variable {μ : Type} [AddCommMonoid μ]

theorem sum_at_key {keys : List κ} (hn : keys.Nodup) {k : κ} (hk : k ∈ keys) (x : μ) :
    (keys.map fun k' => if k = k' then x else 0).sum = x := by
  induction keys with
  | nil => cases hk
  | cons k' keys ih =>
    obtain ⟨hk', hn⟩ := List.nodup_cons.mp hn
    rw [List.map_cons, List.sum_cons]
    by_cases heq : k = k'
    · have hrest : (keys.map fun k' => if k = k' then x else 0).sum = 0 := by
        refine List.sum_eq_zero fun y hy => ?_
        obtain ⟨k'', hk'', rfl⟩ := List.mem_map.mp hy
        refine if_neg fun h => hk' ?_
        rwa [← heq, h]
      rw [if_pos heq, hrest, add_zero]
    · rw [if_neg heq, zero_add]
      exact ih hn ((List.mem_cons.mp hk).resolve_left heq)

theorem sum_groups {keys : List κ} (hn : keys.Nodup) {keyOf : τ → κ} {ts : List τ}
    (h : ∀ t ∈ ts, keyOf t ∈ keys) (f : τ → μ) :
    (keys.map fun k => ((ts.filter fun t => keyOf t = k).map f).sum).sum = (ts.map f).sum := by
  induction ts with
  | nil => simp
  | cons t ts ih =>
    obtain ⟨ht, hts⟩ := List.forall_mem_cons.mp h
    have hsplit : ∀ k, (((t :: ts).filter fun t => keyOf t = k).map f).sum =
        (if keyOf t = k then f t else 0) + ((ts.filter fun t => keyOf t = k).map f).sum := by
      intro k
      by_cases hk : keyOf t = k
      · rw [List.filter_cons_of_pos (by simpa using hk), if_pos hk, List.map_cons, List.sum_cons]
      · rw [List.filter_cons_of_neg (by simpa using hk), if_neg hk, zero_add]
    simp only [hsplit]
    rw [List.sum_map_add, sum_at_key hn ht, ih hts, List.map_cons, List.sum_cons]

end Sum

def fill (key : α → κ) (val : α → τ) (m : κ → Option τ) (rows : List α) : κ → Option τ :=
  rows.foldl (fun m row => Function.update m (key row) (some (val row))) m

theorem fill_eq {val : α → τ} {f : κ → τ} (h : ∀ row ∈ rows, val row = f (key row))
    (m : κ → Option τ) (k : κ) :
    fill key val m rows k = if k ∈ rows.map key then some (f k) else m k := by
  induction rows generalizing m with
  | nil => rfl
  | cons row rows ih =>
    obtain ⟨hrow, hrows⟩ := List.forall_mem_cons.mp h
    have hstep : fill key val m (row :: rows) =
        fill key val (Function.update m (key row) (some (val row))) rows := rfl
    rw [hstep, ih hrows, List.map_cons]
    by_cases hk : k ∈ rows.map key
    · rw [if_pos hk, if_pos (List.mem_cons_of_mem _ hk)]
    · rw [if_neg hk]
      by_cases hkey : k = key row
      · subst hkey
        rw [Function.update_self, if_pos List.mem_cons_self, hrow]
      · rw [Function.update_of_ne hkey, if_neg fun hmem => (List.mem_cons.mp hmem).elim hkey hk]

theorem fill_groupBy {υ : Type} {keyOf : τ → κ} {row : κ → List τ → α} {ts : List τ}
    {val : α → υ} (hkey : ∀ k group, key (row k group) = k) (m : κ → Option υ) (k : κ) :
    fill key val m (groupBy keyOf row ts) k =
      if k ∈ ts.map keyOf then some (val (row k (ts.filter fun t => keyOf t = k))) else m k := by
  rw [fill_eq (f := fun k => val (row k (ts.filter fun t => keyOf t = k)))]
  · have hkeys : (groupBy keyOf row ts).map key = (ts.map keyOf).dedup := by
      unfold groupBy
      rw [List.map_map]
      exact (List.map_congr_left fun k _ => hkey k _).trans (List.map_id _)
    have hmem : k ∈ (groupBy keyOf row ts).map key ↔ k ∈ ts.map keyOf := by
      rw [hkeys, List.mem_dedup]
    simp only [hmem]
  · intro r hr
    obtain ⟨t, -, rfl⟩ := mem_groupBy.mp hr
    rw [hkey]

end Table
