import Mathlib.Data.List.Basic
import Mathlib.Order.Defs.Unbundled

universe u

namespace Paging

variable {α : Type u} (before : α → α → Prop) [DecidableRel before]

def behind (rows : List α) (cursor : Option α) : List α :=
  rows.filter fun row => cursor.all fun last => before last row

def page (limit : Nat) (rows : List α) (cursor : Option α) : List α :=
  (behind before rows cursor).take limit

def next (limit : Nat) (rows : List α) (cursor : Option α) : Option α :=
  if limit < (behind before rows cursor).length then (page before limit rows cursor).getLast?
  else none

/-- The pages from request `i` on, at most so many.  Request `i` finds `rows i`. -/
def pages (limit : Nat) (rows : Nat → List α) : Nat → Nat → Option α → List (List α)
  | 0, _, _ => []
  | n + 1, i, cursor =>
    page before limit (rows i) cursor ::
      match next before limit (rows i) cursor with
      | none => []
      | some last => pages limit rows n (i + 1) (some last)

def Done (limit : Nat) (rows : Nat → List α) : Nat → Nat → Option α → Prop
  | 0, _, _ => False
  | n + 1, i, cursor =>
    match next before limit (rows i) cursor with
    | none => True
    | some last => Done limit rows n (i + 1) (some last)

variable {before} {limit : Nat} {rows : List α} {cursor : Option α} {a last : α}

theorem mem_behind : a ∈ behind before rows cursor ↔ a ∈ rows ∧ ∀ c ∈ cursor, before c a := by
  cases cursor <;> simp [behind]

theorem mem_of_mem_page (h : a ∈ page before limit rows cursor) :
    a ∈ rows ∧ ∀ c ∈ cursor, before c a :=
  mem_behind.mp (List.mem_of_mem_take h)

theorem pairwise_behind (h : rows.Pairwise before) : (behind before rows cursor).Pairwise before :=
  h.filter _

theorem pairwise_page (h : rows.Pairwise before) :
    (page before limit rows cursor).Pairwise before :=
  (pairwise_behind h).take

theorem next_eq_some (h : next before limit rows cursor = some last) :
    limit < (behind before rows cursor).length ∧
      (page before limit rows cursor).getLast? = some last := by
  unfold next at h
  split at h
  · rename_i hlt
    exact ⟨hlt, h⟩
  · cases h

theorem before_of_next (hrows : rows.Pairwise before)
    (h : next before limit rows cursor = some last) (ha : a ∈ page before limit rows cursor) :
    a = last ∨ before a last := by
  obtain ⟨init, hinit⟩ := List.getLast?_eq_some_iff.mp (next_eq_some h).2
  have hsorted : (page before limit rows cursor).Pairwise before := pairwise_page hrows
  rw [hinit] at ha hsorted
  rcases List.mem_append.mp ha with hmem | hmem
  · exact .inr ((List.pairwise_append.mp hsorted).2.2 a hmem last List.mem_cons_self)
  · exact .inl (List.mem_singleton.mp hmem)

theorem mem_page_of_next (h : next before limit rows cursor = some last) :
    last ∈ page before limit rows cursor :=
  List.mem_of_getLast? (next_eq_some h).2

theorem mem_page_or_before (hrows : rows.Pairwise before)
    (ha : a ∈ behind before rows cursor) :
    a ∈ page before limit rows cursor ∨
      ∀ last, next before limit rows cursor = some last → before last a := by
  rw [← List.take_append_drop limit (behind before rows cursor)] at ha
  refine (List.mem_append.mp ha).imp_right fun hdrop last hnext => ?_
  have hsorted : (behind before rows cursor).Pairwise before := pairwise_behind hrows
  rw [← List.take_append_drop limit (behind before rows cursor)] at hsorted
  exact (List.pairwise_append.mp hsorted).2.2 last (mem_page_of_next hnext) a hdrop

theorem mem_page_of_done (hlimit : 0 < limit) (h : next before limit rows cursor = none)
    (ha : a ∈ behind before rows cursor) : a ∈ page before limit rows cursor := by
  unfold next at h
  split at h
  · rename_i hlt
    have hlen := congrArg List.length (List.getLast?_eq_none_iff.mp h)
    rw [page, List.length_take, Nat.min_eq_left (Nat.le_of_lt hlt)] at hlen
    exact absurd hlen (Nat.ne_of_gt hlimit)
  · rename_i hle
    rwa [page, List.take_of_length_le (Nat.le_of_not_lt hle)]

theorem length_behind_lt [IsStrictOrder α before] (h : last ∈ behind before rows cursor) :
    (behind before rows (some last)).length < (behind before rows cursor).length := by
  have hsub : (behind before rows (some last)).Sublist (behind before rows cursor) := by
    refine List.monotone_filter_right _ fun row hrow => ?_
    cases cursor with
    | none => rfl
    | some c =>
      exact decide_eq_true
        (IsTrans.trans _ _ _ ((mem_behind.mp h).2 c rfl) (of_decide_eq_true hrow))
  refine Nat.lt_of_le_of_ne hsub.length_le fun hlen => ?_
  rw [← hsub.eq_of_length hlen] at h
  exact irrefl_of before last ((mem_behind.mp h).2 last rfl)

section runs

variable {rows : Nat → List α} {n i : Nat}

theorem pages_sorted [IsTrans α before] (hrows : ∀ i, (rows i).Pairwise before) :
    (∀ a ∈ (pages before limit rows n i cursor).flatten, ∀ c ∈ cursor, before c a) ∧
      (pages before limit rows n i cursor).flatten.Pairwise before := by
  induction n generalizing i cursor with
  | zero => exact ⟨nofun, .nil⟩
  | succ n ih =>
    have hpage : (page before limit (rows i) cursor).Pairwise before := pairwise_page (hrows i)
    have hbehind : ∀ a ∈ page before limit (rows i) cursor, ∀ c ∈ cursor, before c a :=
      fun a ha => (mem_of_mem_page ha).2
    cases hnext : next before limit (rows i) cursor with
    | none =>
      simp only [pages, hnext, List.flatten_cons, List.flatten_nil, List.append_nil]
      exact ⟨hbehind, hpage⟩
    | some last =>
      simp only [pages, hnext, List.flatten_cons]
      obtain ⟨hlast, hsorted⟩ := @ih (some last) (i + 1)
      have hcross : ∀ b ∈ (pages before limit rows n (i + 1) (some last)).flatten,
          before last b := fun b hb => hlast b hb last rfl
      refine ⟨fun a ha c hc => ?_, List.pairwise_append.mpr ⟨hpage, hsorted, fun a ha b hb => ?_⟩⟩
      · rcases List.mem_append.mp ha with hmem | hmem
        · exact hbehind a hmem c hc
        · exact IsTrans.trans _ _ _ (hbehind last (mem_page_of_next hnext) c hc) (hcross a hmem)
      · rcases before_of_next (hrows i) hnext ha with rfl | hbefore
        · exact hcross b hb
        · exact IsTrans.trans _ _ _ hbefore (hcross b hb)

theorem mem_rows_of_mem_pages (ha : a ∈ (pages before limit rows n i cursor).flatten) :
    ∃ j, a ∈ rows j := by
  induction n generalizing i cursor with
  | zero => cases ha
  | succ n ih =>
    rw [pages, List.flatten_cons, List.mem_append] at ha
    rcases ha with hpage | hlater
    · exact ⟨i, (mem_of_mem_page hpage).1⟩
    · split at hlater
      · cases hlater
      · exact ih hlater

theorem mem_pages_of_done (hlimit : 0 < limit) (hrows : ∀ i, (rows i).Pairwise before)
    (hdone : Done before limit rows n i cursor) (hbehind : ∀ c ∈ cursor, before c a)
    (h : ∀ j, j < (pages before limit rows n i cursor).length → a ∈ rows (i + j)) :
    a ∈ (pages before limit rows n i cursor).flatten := by
  induction n generalizing i cursor with
  | zero => exact hdone.elim
  | succ n ih =>
    have ha : a ∈ behind before (rows i) cursor := mem_behind.mpr ⟨h 0 (Nat.succ_pos _), hbehind⟩
    cases hnext : next before limit (rows i) cursor with
    | none =>
      simp only [pages, hnext, List.flatten_cons, List.flatten_nil, List.append_nil]
      exact mem_page_of_done hlimit hnext ha
    | some last =>
      simp only [pages, Done, hnext, List.flatten_cons, List.length_cons] at hdone h ⊢
      rcases mem_page_or_before (hrows i) ha with hpage | hlater
      · exact List.mem_append_left _ hpage
      · refine List.mem_append_right _ (ih hdone (fun c hc => ?_) fun j hj => ?_)
        · obtain rfl := Option.some.inj hc
          exact hlater _ hnext
        · have hfound := h (j + 1) (Nat.succ_lt_succ hj)
          rwa [← Nat.add_assoc, Nat.add_right_comm] at hfound

theorem exists_done [IsStrictOrder α before] (all : List α) (h : ∀ j, i ≤ j → rows j ⊆ all) :
    ∃ n, Done before limit rows n i cursor := by
  induction hlen : (behind before all cursor).length using Nat.strongRecOn
    generalizing i cursor with
  | ind len ih =>
    cases hnext : next before limit (rows i) cursor with
    | none => exact ⟨1, by simp [Done, hnext]⟩
    | some last =>
      have hlast : last ∈ behind before all cursor := by
        obtain ⟨hmem, hbehind⟩ := mem_of_mem_page (mem_page_of_next hnext)
        exact mem_behind.mpr ⟨h i (Nat.le_refl _) hmem, hbehind⟩
      have hshorter := hlen ▸ length_behind_lt hlast
      obtain ⟨n, hn⟩ := ih _ hshorter (fun j hj => h j (Nat.le_of_succ_le hj)) rfl
      exact ⟨n + 1, by simpa only [Done, hnext] using hn⟩

end runs

end Paging
