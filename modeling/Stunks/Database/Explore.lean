import Mathlib.Algebra.Order.Ring.Rat
import Mathlib.Data.List.Sort
import Mathlib.Order.WithBot
import Mathlib.Tactic.NormNum.Basic
import Stunks.Lib.Base64
import Stunks.Lib.Json
import Stunks.Lib.Paging
import Stunks.Lib.Utf8
import Stunks.Utils.Text

/-! `repositories/explore.ts`: the pages of the token list. -/

namespace Stunks.Database.Explore

abbrev Text := List Char

inductive GraduationPhase
  | notGraduated
  | swept
  | poolCreated
  | rescued
  deriving DecidableEq

inductive ModerationStatus
  | normal
  | featured
  | verified
  | hidden
  | flagged
  deriving DecidableEq

structure TokenSummary where
  id : Text
  address : Text
  name : Text
  symbol : Text
  decimals : Int
  imageUrl : Option Text
  creatorAddress : Text
  pairTokenAddress : Text
  pairTokenDecimals : Int
  phase : GraduationPhase
  price : Int
  marketCap : Int
  volume24h : Int
  volumeTotal : Int
  graduationBps : Int
  holderCount : Int
  tradeCount : Int
  creatorTaxBps : Int
  totalSupply : Int
  hadWhitelistBundle : Bool
  whitelistSize : Int
  moderationStatus : ModerationStatus
  launchBlock : Int
  createdAt : Int
  lastTradeAt : Option Int
  deriving DecidableEq

/-- `tokens`.  The money columns are integers, so that `toBigInt` never throws. -/
structure TokenRow extends TokenSummary where
  chainId : Nat
  trendingScore : ℚ
  deriving DecidableEq

inductive ExploreSort
  | new
  | volume24h
  | marketCap
  | graduating
  | trending
  | lastTrade
  deriving DecidableEq

def ExploreSort.text : ExploreSort → Text
  | new => "NEW".toList
  | volume24h => "VOLUME_24H".toList
  | marketCap => "MARKET_CAP".toList
  | graduating => "GRADUATING".toList
  | trending => "TRENDING".toList
  | lastTrade => "LAST_TRADE".toList

structure ExploreFilters where
  chainId : Nat
  sort : ExploreSort
  limit : Nat
  cursor : Option Text := none
  search : Option Text := none
  phases : Option (List GraduationPhase) := none
  minVolume24h : Option Int := none
  minMarketCap : Option Int := none
  maxAgeHours : Option ℚ := none
  includeModerated : Option Bool := none

structure Page where
  items : List TokenSummary
  nextCursor : Option Text
  hasMore : Bool
  deriving DecidableEq

structure TokenWhere where
  chainId : Nat
  moderationNotIn : List ModerationStatus
  phaseIn : Option (List GraduationPhase)
  search : Option Text
  minVolume24h : Option Int
  minMarketCap : Option Int
  createdSince : Option Int
  progressed : Bool

inductive TokenColumn
  | launchBlock
  | volume24h
  | marketCap
  | graduationBps
  | trendingScore
  | lastTradeAt
  | id
  deriving DecidableEq

/-- How the database orders text, and what it finds in it when case does not count. -/
structure Postgres where
  le : Text → Text → Bool
  total : ∀ a b, le a b = true ∨ le b a = true
  trans : ∀ {a b c}, le a b = true → le b c = true → le a c = true
  antisymm : ∀ {a b}, le a b = true → le b a = true → a = b
  contains : Text → Text → Bool

def TokenWhere.matches (db : Postgres) (input : TokenWhere) (row : TokenRow) : Bool :=
  row.chainId = input.chainId && !input.moderationNotIn.contains row.moderationStatus &&
    input.phaseIn.all (fun phases => phases.contains row.phase) &&
    input.search.all (fun term => db.contains row.symbol term || db.contains row.name term ||
      row.address = term.map Char.toLower) &&
    input.minVolume24h.all (fun least => least ≤ row.volume24h) &&
    input.minMarketCap.all (fun least => least ≤ row.marketCap) &&
    input.createdSince.all (fun since => since ≤ row.createdAt) &&
    (!input.progressed || 0 < row.graduationBps)

/-- A column of numbers.  `NULL` is above them all. -/
def TokenColumn.value (row : TokenRow) : TokenColumn → WithTop ℚ
  | launchBlock => (row.launchBlock : ℚ)
  | volume24h => (row.volume24h : ℚ)
  | marketCap => (row.marketCap : ℚ)
  | graduationBps => (row.graduationBps : ℚ)
  | trendingScore => row.trendingScore
  | lastTradeAt => row.lastTradeAt.elim ⊤ fun time => ((time : ℚ) : WithTop ℚ)
  | id => ⊤

def TokenColumn.above (db : Postgres) (column : TokenColumn) (a b : TokenRow) : Bool :=
  if column = id then !db.le a.id b.id else column.value b < column.value a

def comesBefore (db : Postgres) : List TokenColumn → TokenRow → TokenRow → Bool
  | [], _, _ => false
  | column :: columns, a, b =>
    column.above db a b || (!column.above db b a && comesBefore db columns a b)

structure FindMany where
  input : TokenWhere
  orderBy : List TokenColumn
  take : Nat
  cursor : Option Text

def findMany (db : Postgres) (table : List TokenRow) (args : FindMany) : List TokenRow :=
  let rows := (table.filter (args.input.matches db)).insertionSort
    fun a b => comesBefore db args.orderBy b a = false
  let rows := match args.cursor with
    | none => rows
    | some id =>
      match table.find? fun row : TokenRow => row.id = id with
      | none => []
      | some last => rows.filter (comesBefore db args.orderBy last)
  rows.take args.take

def encodeCursor (sort : ExploreSort) (id : Text) : Text :=
  Base64.encode (Utf8.encode (Json.stringify [("sort".toList, sort.text), ("id".toList, id)]))

/-- The id of the row, unless the cursor is of another sort. -/
def decodeCursor (cursor : Text) (expectedSort : ExploreSort) : Option Text :=
  match Json.parse (Utf8.decode (Base64.decode cursor)) with
  | none => none
  | some parsed =>
    match parsed.member "sort", parsed.member "id" with
    | some (.str sort), some (.str id) =>
      if sort = String.ofList expectedSort.text then some id.toList else none
    | _, _ => none

def orderFor : ExploreSort → List TokenColumn
  | .new => [.launchBlock, .id]
  | .volume24h => [.volume24h, .id]
  | .marketCap => [.marketCap, .id]
  | .graduating => [.graduationBps, .id]
  | .trending => [.trendingScore, .id]
  | .lastTrade => [.lastTradeAt, .id]

namespace ExploreFilters

/-- `new Date(now - maxAgeHours * 60 * 60 * 1000)` -/
def createdSince (filters : ExploreFilters) (now : Int) : Option Int :=
  filters.maxAgeHours.map fun hours =>
    let time : ℚ := now - hours * 60 * 60 * 1000
    time.num.tdiv time.den

def toWhere (filters : ExploreFilters) (now : Int) : TokenWhere where
  chainId := filters.chainId
  moderationNotIn := if filters.includeModerated = some true then [] else [.hidden, .flagged]
  phaseIn :=
    if filters.sort = .graduating then some [.notGraduated]
    else filters.phases.filter fun phases => phases.length > 0
  search := (filters.search.map trim).filter fun term => term ≠ []
  minVolume24h := filters.minVolume24h
  minMarketCap := filters.minMarketCap
  createdSince := filters.createdSince now
  progressed := filters.sort = .graduating

end ExploreFilters

def listTokens (db : Postgres) (table : List TokenRow) (now : Int) (filters : ExploreFilters) :
    Page :=
  let cursor := (filters.cursor.filter (· ≠ [])).bind fun cursor =>
    decodeCursor cursor filters.sort
  let rows := findMany db table {
    input := filters.toWhere now
    orderBy := orderFor filters.sort
    take := filters.limit + 1
    cursor }
  let hasMore := rows.length > filters.limit
  let page := if hasMore then rows.take filters.limit else rows
  { items := page.map TokenRow.toTokenSummary
    nextCursor := if hasMore then page.getLast?.map fun last => encodeCursor filters.sort last.id
      else none
    hasMore }

theorem decodeCursor_encodeCursor (sort : ExploreSort) (id : Text) :
    decodeCursor (encodeCursor sort id) sort = some id := by
  have hparse : Json.parse (Utf8.decode (Base64.decode (encodeCursor sort id))) =
      some (.obj [("sort", .str (String.ofList sort.text)), ("id", .str (String.ofList id))]) := by
    rw [encodeCursor, Base64.decode_encode, Utf8.decode_encode, Json.parse_stringify]
    rfl
  simp [decodeCursor, hparse, Json.member]

theorem encodeCursor_ne_nil (sort : ExploreSort) (id : Text) : encodeCursor sort id ≠ [] := by
  intro hnil
  have hdecode := decodeCursor_encodeCursor sort id
  rw [hnil] at hdecode
  cases hdecode

abbrev Mark := WithTop ℚ × Text

def ExploreSort.column : ExploreSort → TokenColumn
  | new => .launchBlock
  | volume24h => .volume24h
  | marketCap => .marketCap
  | graduating => .graduationBps
  | trending => .trendingScore
  | lastTrade => .lastTradeAt

def mark (sort : ExploreSort) (row : TokenRow) : Mark := (sort.column.value row, row.id)

def Before (db : Postgres) (a b : Mark) : Prop :=
  b.1 < a.1 ∨ a.1 = b.1 ∧ db.le a.2 b.2 = false

instance (db : Postgres) : DecidableRel (Before db) := fun _ _ =>
  inferInstanceAs (Decidable (_ ∨ _))

theorem comesBefore_iff {db : Postgres} {sort : ExploreSort} {a b : TokenRow} :
    comesBefore db (orderFor sort) a b = true ↔ Before db (mark sort a) (mark sort b) := by
  have horder : orderFor sort = [sort.column, .id] := by cases sort <;> rfl
  have hcolumn : sort.column ≠ .id := by cases sort <;> decide
  simp only [horder, comesBefore, TokenColumn.above, hcolumn, Before, mark, if_true, if_false]
  rcases lt_trichotomy (sort.column.value a) (sort.column.value b) with h | h | h
  · simp [h, h.ne, not_lt_of_gt h]
  · simp [h]
  · simp [h]

theorem Postgres.not_le_trans (db : Postgres) {a b c : Text} (hab : db.le a b = false)
    (hbc : db.le b c = false) : db.le a c = false := by
  have hba := (db.total a b).resolve_left (by simp [hab])
  cases hac : db.le a c with
  | false => rfl
  | true => exact (db.trans hba hac).symm.trans hbc

instance (db : Postgres) : IsStrictOrder Mark (Before db) where
  irrefl a h := by
    rcases h with h | ⟨-, h⟩
    · exact lt_irrefl _ h
    · exact absurd (db.total a.2 a.2) (by simp [h])
  trans a b c hab hbc := by
    rcases hab with hab | ⟨hab, hab'⟩ <;> rcases hbc with hbc | ⟨hbc, hbc'⟩
    · exact .inl (hbc.trans hab)
    · exact .inl (hbc ▸ hab)
    · exact .inl (hab ▸ hbc)
    · exact .inr ⟨hab.trans hbc, db.not_le_trans hab' hbc'⟩

theorem before_or {db : Postgres} {a b : Mark} (h : a ≠ b) : Before db a b ∨ Before db b a := by
  rcases lt_trichotomy a.1 b.1 with hlt | heq | hlt
  · exact .inr (.inl hlt)
  · cases hab : db.le a.2 b.2 with
    | false => exact .inl (.inr ⟨heq, hab⟩)
    | true =>
      refine .inr (.inr ⟨heq.symm, Bool.eq_false_iff.mpr fun hba => ?_⟩)
      exact h (Prod.ext heq (db.antisymm hab hba))
  · exact .inl (.inl hlt)

def NotAfter (db : Postgres) (sort : ExploreSort) (a b : TokenRow) : Prop :=
  comesBefore db (orderFor sort) b a = false

instance (db : Postgres) (sort : ExploreSort) : DecidableRel (NotAfter db sort) := fun _ _ =>
  inferInstanceAs (Decidable (_ = _))

theorem notAfter_iff {db : Postgres} {sort : ExploreSort} {a b : TokenRow} :
    NotAfter db sort a b ↔ mark sort a = mark sort b ∨ Before db (mark sort a) (mark sort b) := by
  rw [NotAfter, ← Bool.not_eq_true, comesBefore_iff]
  constructor
  · intro hnot
    by_cases heq : mark sort a = mark sort b
    · exact .inl heq
    · exact .inr ((before_or heq).resolve_right hnot)
  · rintro (heq | hbefore) hafter
    · exact irrefl_of (Before db) _ (heq ▸ hafter)
    · exact irrefl_of (Before db) _ (trans_of (Before db) hbefore hafter)

instance (db : Postgres) (sort : ExploreSort) : Std.Total (NotAfter db sort) where
  total a b := by
    simp only [notAfter_iff]
    by_cases heq : mark sort a = mark sort b
    · exact .inl (.inl heq)
    · exact (before_or heq).imp .inr .inr

instance (db : Postgres) (sort : ExploreSort) : IsTrans TokenRow (NotAfter db sort) where
  trans a b c hab hbc := by
    rw [notAfter_iff] at hab hbc ⊢
    rcases hab with hab | hab
    · rw [hab]
      exact hbc
    · rcases hbc with hbc | hbc
      · exact .inr (hbc ▸ hab)
      · exact .inr (trans_of (Before db) hab hbc)

section request

variable {db : Postgres} {filters : ExploreFilters} {table : List TokenRow} {now : Int}

def view (db : Postgres) (filters : ExploreFilters) (table : List TokenRow) (now : Int) :
    List Mark :=
  ((table.filter ((filters.toWhere now).matches db)).insertionSort
    fun a b => comesBefore db (orderFor filters.sort) b a = false).map (mark filters.sort)

theorem mem_view {m : Mark} : m ∈ view db filters table now ↔
    ∃ row ∈ table, (filters.toWhere now).matches db row = true ∧ mark filters.sort row = m := by
  simp [view, List.mem_insertionSort, and_assoc]

theorem view_sorted (db : Postgres) (filters : ExploreFilters) (now : Int)
    (hids : (table.map (·.id)).Nodup) :
    (view db filters table now).Pairwise (Before db) := by
  let rows := table.filter ((filters.toWhere now).matches db)
  have hsorted : (rows.insertionSort (NotAfter db filters.sort)).Pairwise
      (NotAfter db filters.sort) := List.pairwise_insertionSort _ _
  have hdistinct : (rows.insertionSort (NotAfter db filters.sort)).Pairwise
      fun a b => a.id ≠ b.id := by
    have hrows : (rows.map (·.id)).Nodup := hids.sublist (List.filter_sublist.map _)
    exact List.pairwise_map.mp (((List.perm_insertionSort _ rows).map _).nodup_iff.mpr hrows)
  refine List.pairwise_map.mpr ((hsorted.and hdistinct).imp fun {a b} h => ?_)
  exact (notAfter_iff.mp h.1).resolve_left fun heq => h.2 (congrArg Prod.snd heq)

theorem find?_id (hids : (table.map (·.id)).Nodup) {row : TokenRow} (hrow : row ∈ table) :
    table.find? (fun r : TokenRow => r.id = row.id) = some row := by
  cases hfind : table.find? fun r : TokenRow => r.id = row.id with
  | none => exact absurd (decide_eq_true rfl) (List.find?_eq_none.mp hfind row hrow)
  | some r =>
    have hid : r.id = row.id := by simpa using List.find?_some hfind
    rw [List.inj_on_of_nodup_map hids (List.mem_of_find?_eq_some hfind) hrow hid]

def findManyArgs (filters : ExploreFilters) (now : Int) (cursor : Option Mark) : FindMany where
  input := filters.toWhere now
  orderBy := orderFor filters.sort
  take := filters.limit + 1
  cursor := cursor.map Prod.snd

theorem findMany_marks (db : Postgres) (now : Int) {cursor : Option Mark}
    (hids : (table.map (·.id)).Nodup)
    (hcursor : ∀ last ∈ cursor, ∃ row ∈ table, mark filters.sort row = last) :
    (findMany db table (findManyArgs filters now cursor)).map (mark filters.sort) =
      (Paging.behind (Before db) (view db filters table now) cursor).take (filters.limit + 1) := by
  cases cursor with
  | none =>
    have hall : ∀ rows : List Mark, Paging.behind (Before db) rows none = rows := by
      simp [Paging.behind]
    rw [hall, view, ← List.map_take]
    rfl
  | some last =>
    obtain ⟨row, hrow, rfl⟩ := hcursor last rfl
    have hbefore : ∀ r, comesBefore db (orderFor filters.sort) row r =
        decide (Before db (mark filters.sort row) (mark filters.sort r)) :=
      fun r => Bool.eq_iff_iff.mpr (comesBefore_iff.trans decide_eq_true_iff.symm)
    have hfind : table.find? (fun r : TokenRow => r.id = (mark filters.sort row).2) = some row :=
      find?_id hids hrow
    simp only [findMany, findManyArgs, Option.map_some, hfind]
    rw [List.map_take, Paging.behind, view, List.filter_map]
    refine congrArg (List.take _) (congrArg _ (List.filter_congr fun r _ => ?_))
    exact hbefore r

def ExploreFilters.after (filters : ExploreFilters) (cursor : Option Mark) : ExploreFilters :=
  { filters with cursor := cursor.map fun last => encodeCursor filters.sort last.2 }

theorem listTokens_eq (db : Postgres) (now : Int) {cursor : Option Mark}
    (hids : (table.map (·.id)).Nodup)
    (hcursor : ∀ last ∈ cursor, ∃ row ∈ table, mark filters.sort row = last) :
    (listTokens db table now (filters.after cursor)).items.map (·.id) =
        (Paging.page (Before db) filters.limit (view db filters table now) cursor).map Prod.snd ∧
      (listTokens db table now (filters.after cursor)).nextCursor =
        (Paging.next (Before db) filters.limit (view db filters table now) cursor).map
          fun last => encodeCursor filters.sort last.2 := by
  have hread : (((filters.after cursor).cursor.filter (· ≠ [])).bind fun cursor =>
      decodeCursor cursor filters.sort) = cursor.map Prod.snd := by
    cases cursor with
    | none => rfl
    | some last =>
      simp [ExploreFilters.after, Option.filter, encodeCursor_ne_nil, decodeCursor_encodeCursor]
  have hmarks := findMany_marks db now hids hcursor
  generalize hrows : findMany db table (findManyArgs filters now cursor) = rows at hmarks
  have hlist : listTokens db table now (filters.after cursor) =
      let page := if filters.limit < rows.length then rows.take filters.limit else rows
      { items := page.map TokenRow.toTokenSummary
        nextCursor := if filters.limit < rows.length then
          page.getLast?.map fun last => encodeCursor filters.sort last.id else none
        hasMore := filters.limit < rows.length } := by
    rw [← hrows, findManyArgs, ← hread]
    simp only [listTokens]
    rfl
  have hmore : filters.limit < rows.length ↔
      filters.limit < (Paging.behind (Before db) (view db filters table now) cursor).length := by
    rw [← List.length_map (mark filters.sort), hmarks, List.length_take, Nat.lt_min]
    exact and_iff_right (Nat.lt_succ_self _)
  have hpage : (if filters.limit < rows.length then rows.take filters.limit else rows).map
      (mark filters.sort) =
        Paging.page (Before db) filters.limit (view db filters table now) cursor := by
    split
    · rw [List.map_take, hmarks, List.take_take, Nat.min_eq_left (Nat.le_succ _), Paging.page]
    · rename_i hle
      rw [hmore, Nat.not_lt] at hle
      rw [hmarks, Paging.page, List.take_of_length_le hle,
        List.take_of_length_le (Nat.le_succ_of_le hle)]
  rw [hlist, Paging.next, ← hpage]
  refine ⟨by simp [mark, Function.comp_def], ?_⟩
  by_cases hlt : filters.limit < rows.length
  · simp only [hlt, hmore.mp hlt, if_true, List.getLast?_map, Option.map_map]
    rfl
  · simp [hlt, mt hmore.mpr hlt]

end request

/-- At most so many pages from request `i` on, which finds `tables i` at the time `clock i`. -/
def browse (db : Postgres) (filters : ExploreFilters) (tables : Nat → List TokenRow)
    (clock : Nat → Int) : Nat → Nat → Option Text → List Page
  | 0, _, _ => []
  | n + 1, i, cursor =>
    let page := listTokens db (tables i) (clock i) { filters with cursor }
    page ::
      match page.nextCursor with
      | none => []
      | some cursor => browse db filters tables clock n (i + 1) (some cursor)

def Ended (pages : List Page) : Prop := ∃ last ∈ pages.getLast?, last.nextCursor = none

def returned (pages : List Page) : List Text := pages.flatMap fun page => page.items.map (·.id)

/-- Rows are inserted.  One that is there stays, with its id and its key. -/
structure Grows (sort : ExploreSort) (tables : Nat → List TokenRow) : Prop where
  ids : ∀ i, ((tables i).map (·.id)).Nodup
  kept : ∀ i, ∀ row ∈ tables i, ∃ row' ∈ tables (i + 1), mark sort row' = mark sort row

def Matches (db : Postgres) (filters : ExploreFilters) (table : List TokenRow) (now : Int)
    (id : Text) : Prop :=
  ∃ row ∈ table, row.id = id ∧ (filters.toWhere now).matches db row = true

namespace Grows

variable {sort : ExploreSort} {tables : Nat → List TokenRow}

theorem kept_le (h : Grows sort tables) {i j : Nat} (hij : i ≤ j) {row : TokenRow}
    (hrow : row ∈ tables i) : ∃ row' ∈ tables j, mark sort row' = mark sort row := by
  induction hij with
  | refl => exact ⟨row, hrow, rfl⟩
  | step _ ih =>
    obtain ⟨row', hrow', hmark⟩ := ih
    obtain ⟨row'', hrow'', hmark'⟩ := h.kept _ row' hrow'
    exact ⟨row'', hrow'', hmark'.trans hmark⟩

theorem mark_eq (h : Grows sort tables) {i j : Nat} {a b : TokenRow} (ha : a ∈ tables i)
    (hb : b ∈ tables j) (hid : a.id = b.id) : mark sort a = mark sort b := by
  have hle : ∀ {i j : Nat}, i ≤ j → ∀ {a b : TokenRow}, a ∈ tables i → b ∈ tables j →
      a.id = b.id → mark sort a = mark sort b := by
    intro i j hij a b ha hb hid
    obtain ⟨a', ha', hmark⟩ := h.kept_le hij ha
    have hsame : a' = b :=
      List.inj_on_of_nodup_map (h.ids j) ha' hb ((congrArg Prod.snd hmark).trans hid)
    exact hsame ▸ hmark.symm
  rcases Nat.le_total i j with hij | hji
  · exact hle hij ha hb hid
  · exact (hle hji hb ha hid.symm).symm

end Grows

theorem ended_cons {page : Page} {pages : List Page} :
    Ended (page :: pages) ↔ pages = [] ∧ page.nextCursor = none ∨ Ended pages := by
  cases pages <;> simp [Ended]

section run

variable {db : Postgres} {filters : ExploreFilters} {tables : Nat → List TokenRow}
  {clock : Nat → Int} {n i : Nat}

def views (db : Postgres) (filters : ExploreFilters) (tables : Nat → List TokenRow)
    (clock : Nat → Int) (i : Nat) : List Mark :=
  view db filters (tables i) (clock i)

theorem mem_views {m : Mark} : m ∈ views db filters tables clock i ↔
    ∃ row ∈ tables i, (filters.toWhere (clock i)).matches db row = true ∧
      mark filters.sort row = m :=
  mem_view

theorem browse_succ (cursor : Option Mark) :
    browse db filters tables clock (n + 1) i (filters.after cursor).cursor =
      listTokens db (tables i) (clock i) (filters.after cursor) ::
        match (listTokens db (tables i) (clock i) (filters.after cursor)).nextCursor with
        | none => []
        | some cursor => browse db filters tables clock n (i + 1) (some cursor) := rfl

theorem browse_eq (hgrows : Grows filters.sort tables) (n i : Nat) (cursor : Option Mark)
    (hcursor : ∀ last ∈ cursor, ∃ row ∈ tables i, mark filters.sort row = last) :
    (browse db filters tables clock n i (filters.after cursor).cursor).map
        (fun page => page.items.map (·.id)) =
      (Paging.pages (Before db) filters.limit (views db filters tables clock) n i cursor).map
        (List.map Prod.snd) ∧
    (Ended (browse db filters tables clock n i (filters.after cursor).cursor) ↔
      Paging.Done (Before db) filters.limit (views db filters tables clock) n i cursor) := by
  induction n generalizing i cursor with
  | zero => exact ⟨rfl, by simp [browse, Ended, Paging.Done]⟩
  | succ n ih =>
    rw [browse_succ]
    obtain ⟨hitems, hnext⟩ := listTokens_eq db (clock i) (hgrows.ids i) hcursor
    generalize listTokens db (tables i) (clock i) (filters.after cursor) = page at hitems hnext
    change _ = (Paging.page _ _ (views db filters tables clock i) cursor).map _ at hitems
    change _ = (Paging.next _ _ (views db filters tables clock i) cursor).map _ at hnext
    cases hlast : Paging.next (Before db) filters.limit (views db filters tables clock i) cursor with
    | none =>
      have hend : page.nextCursor = none := hnext.trans (congrArg _ hlast)
      simp [Paging.pages, Paging.Done, hlast, hend, hitems, Ended]
    | some last =>
      have hmore : page.nextCursor = (filters.after (some last)).cursor :=
        hnext.trans (congrArg _ hlast)
      obtain ⟨row, hrow, -, hmark⟩ :=
        mem_views.mp (Paging.mem_of_mem_page (Paging.mem_page_of_next hlast)).1
      have hfound : ∀ c ∈ some last, ∃ row ∈ tables (i + 1), mark filters.sort row = c := by
        intro c hc
        obtain rfl := Option.some.inj hc
        obtain ⟨row', hrow', hmark'⟩ := hgrows.kept i row hrow
        exact ⟨row', hrow', hmark'.trans hmark⟩
      obtain ⟨hlater, hended⟩ := ih (i + 1) (some last) hfound
      have hcursor' : (filters.after (some last)).cursor =
          some (encodeCursor filters.sort last.2) := rfl
      rw [hcursor'] at hlater hended hmore
      have hnotLast : ∀ pages : List Page, Ended (page :: pages) ↔ Ended pages := by
        simp [ended_cons, hmore]
      simp only [hmore, hnotLast, Paging.pages, Paging.Done, hlast, List.map_cons, hitems]
      exact ⟨congrArg _ hlater, hended⟩

variable (hgrows : Grows filters.sort tables)
include hgrows

theorem returned_eq : returned (browse db filters tables clock n 0 none) =
    (Paging.pages (Before db) filters.limit (views db filters tables clock) n 0 none).flatten.map
      Prod.snd := by
  rw [List.map_flatten, ← (browse_eq hgrows n 0 none nofun).1, returned, List.flatMap_def]
  rfl

theorem views_sorted (i : Nat) :
    (views db filters tables clock i).Pairwise (Before db) :=
  view_sorted db filters (clock i) (hgrows.ids i)

theorem returned_nodup : (returned (browse db filters tables clock n 0 none)).Nodup := by
  have hsorted : (Paging.pages (Before db) filters.limit (views db filters tables clock) n 0
      none).flatten.Pairwise (Before db) := (Paging.pages_sorted (views_sorted hgrows)).2
  rw [returned_eq hgrows]
  refine (List.Nodup.map_on fun a ha b hb hid => ?_) (hsorted.imp fun h => ?_)
  · obtain ⟨j, hj⟩ := Paging.mem_rows_of_mem_pages ha
    obtain ⟨k, hk⟩ := Paging.mem_rows_of_mem_pages hb
    obtain ⟨row, hrow, -, rfl⟩ := mem_views.mp hj
    obtain ⟨row', hrow', -, rfl⟩ := mem_views.mp hk
    exact hgrows.mark_eq hrow hrow' hid
  · rintro rfl
    exact irrefl_of (Before db) _ h

theorem exists_ended {k : Nat} (hquiet : ∀ j, k ≤ j → ∀ row ∈ tables j, ∃ row' ∈ tables k,
    row'.id = row.id) : ∃ n, Ended (browse db filters tables clock n 0 none) := by
  have hall : ∀ j, 0 ≤ j →
      views db filters tables clock j ⊆ (tables k).map (mark filters.sort) := by
    intro j _ m hm
    obtain ⟨row, hrow, -, rfl⟩ := mem_views.mp hm
    rcases Nat.le_total j k with hjk | hkj
    · obtain ⟨row', hrow', hmark⟩ := hgrows.kept_le hjk hrow
      exact List.mem_map.mpr ⟨row', hrow', hmark⟩
    · obtain ⟨row', hrow', hid⟩ := hquiet j hkj row hrow
      exact List.mem_map.mpr ⟨row', hrow', hgrows.mark_eq hrow' hrow hid⟩
  obtain ⟨n, hdone⟩ : ∃ n, Paging.Done (Before db) filters.limit
      (views db filters tables clock) n 0 none := Paging.exists_done _ hall
  exact ⟨n, (browse_eq hgrows n 0 none nofun).2.mpr hdone⟩

theorem count_returned (hlimit : 0 < filters.limit)
    (hended : Ended (browse db filters tables clock n 0 none)) {id : Text}
    (hmatches : ∀ j, j < (browse db filters tables clock n 0 none).length →
      Matches db filters (tables j) (clock j) id) :
    (returned (browse db filters tables clock n 0 none)).count id = 1 := by
  obtain ⟨hpages, hdone⟩ : _ ∧ (Ended (browse db filters tables clock n 0 none) ↔ _) :=
    browse_eq hgrows n 0 none nofun
  have hlength := congrArg List.length hpages
  rw [List.length_map, List.length_map] at hlength
  have hsome : 0 < (browse db filters tables clock n 0 none).length := by
    obtain ⟨last, hlast, -⟩ := hended
    exact List.length_pos_of_mem (List.mem_of_getLast? hlast)
  obtain ⟨row, hrow, hid, -⟩ := hmatches 0 hsome
  refine List.count_eq_one_of_mem (returned_nodup hgrows) ?_
  rw [returned_eq hgrows]
  refine List.mem_map.mpr ⟨mark filters.sort row, ?_, hid⟩
  refine Paging.mem_pages_of_done hlimit (views_sorted hgrows) (hdone.mp hended) nofun
    fun j hj => ?_
  obtain ⟨row', hrow', hid', hmatch⟩ := hmatches j (hlength.symm ▸ hj)
  rw [Nat.zero_add]
  exact mem_views.mpr ⟨row', hrow', hmatch, hgrows.mark_eq hrow' hrow (hid'.trans hid.symm)⟩

omit hgrows in
theorem matches_later (hage : filters.maxAgeHours = none) (hsub : ∀ i, tables i ⊆ tables (i + 1))
    {id : Text} (h : Matches db filters (tables 0) (clock 0) id) (j : Nat) :
    Matches db filters (tables j) (clock j) id := by
  have hwhere : filters.toWhere (clock j) = filters.toWhere (clock 0) := by
    simp [ExploreFilters.toWhere, ExploreFilters.createdSince, hage]
  have hall : ∀ j, tables 0 ⊆ tables j := by
    intro j
    induction j with
    | zero => exact List.Subset.refl _
    | succ j ih => exact fun _ h => hsub j (ih h)
  obtain ⟨row, hrow, hid, hmatch⟩ := h
  exact ⟨row, hall j hrow, hid, hwhere ▸ hmatch⟩

end run

def codePointsLE : Text → Text → Bool
  | [], _ => true
  | _ :: _, [] => false
  | a :: as, b :: bs => if a = b then codePointsLE as bs else a.toNat < b.toNat

theorem codePointsLE_cons {a b : Char} {as bs : Text} :
    codePointsLE (a :: as) (b :: bs) = true ↔
      a.toNat < b.toNat ∨ a = b ∧ codePointsLE as bs = true := by
  rw [codePointsLE]
  split
  · rename_i heq
    simp [heq]
  · rename_i hne
    simp [hne]

theorem codePointsLE_total (a b : Text) : codePointsLE a b = true ∨ codePointsLE b a = true := by
  induction a generalizing b with
  | nil => exact .inl rfl
  | cons x a ih =>
    cases b with
    | nil => exact .inr rfl
    | cons y b =>
      simp only [codePointsLE_cons]
      by_cases heq : x = y
      · exact (ih b).imp (fun h => .inr ⟨heq, h⟩) fun h => .inr ⟨heq.symm, h⟩
      · have hne : x.toNat ≠ y.toNat := fun h => heq (Char.toNat_inj.mp h)
        exact (Nat.lt_or_gt_of_ne hne).imp .inl .inl

theorem codePointsLE_trans {a b c : Text} (hab : codePointsLE a b = true)
    (hbc : codePointsLE b c = true) : codePointsLE a c = true := by
  induction a generalizing b c with
  | nil => rfl
  | cons x a ih =>
    cases b with
    | nil => cases hab
    | cons y b =>
      cases c with
      | nil => cases hbc
      | cons z c =>
        rw [codePointsLE_cons] at hab hbc ⊢
        rcases hab with hlt | ⟨rfl, hab⟩
        · rcases hbc with hlt' | ⟨rfl, -⟩
          · exact .inl (hlt.trans hlt')
          · exact .inl hlt
        · exact hbc.imp_right fun ⟨heq, hbc⟩ => ⟨heq, ih hab hbc⟩

theorem codePointsLE_antisymm {a b : Text} (hab : codePointsLE a b = true)
    (hba : codePointsLE b a = true) : a = b := by
  induction a generalizing b with
  | nil =>
    cases b with
    | nil => rfl
    | cons y b => cases hba
  | cons x a ih =>
    cases b with
    | nil => cases hab
    | cons y b =>
      rw [codePointsLE_cons] at hab hba
      rcases hab with hlt | ⟨rfl, hab⟩
      · rcases hba with hlt' | ⟨rfl, -⟩
        · exact absurd hlt (Nat.lt_asymm hlt')
        · exact absurd hlt (Nat.lt_irrefl _)
      · rcases hba with hlt | ⟨-, hba⟩
        · exact absurd hlt (Nat.lt_irrefl _)
        · rw [ih hab hba]

def byCodePoint : Postgres where
  le := codePointsLE
  total := codePointsLE_total
  trans := codePointsLE_trans
  antisymm := codePointsLE_antisymm
  contains text term := text.tails.any fun tail => term.isPrefixOf tail

def launched (id : Text) (launchBlock createdAt : Int) : TokenRow where
  id
  address := id
  name := []
  symbol := []
  decimals := 18
  imageUrl := none
  creatorAddress := []
  pairTokenAddress := []
  pairTokenDecimals := 18
  phase := .notGraduated
  price := 0
  marketCap := 0
  volume24h := 0
  volumeTotal := 0
  graduationBps := 0
  holderCount := 0
  tradeCount := 0
  creatorTaxBps := 0
  totalSupply := 0
  hadWhitelistBundle := false
  whitelistSize := 0
  moderationStatus := .normal
  launchBlock
  createdAt
  lastTradeAt := none
  chainId := 1
  trendingScore := 0

def twoLaunches : List TokenRow := [launched ['b'] 2 3600000, launched ['a'] 1 0]

theorem twoLaunches_grow : Grows .new fun _ => twoLaunches where
  ids _ := by decide
  kept _ row hrow := ⟨row, hrow, rfl⟩

/-- Following `nextCursor`, no row comes twice; the pages end when inserts stop; then every row
that matched at all the requests has come once, and without `maxAgeHours` a row that matched at
the first one matches at the others. -/
theorem browse_complete {db : Postgres} {filters : ExploreFilters}
    {tables : Nat → List TokenRow} {clock : Nat → Int} (hgrows : Grows filters.sort tables)
    (hlimit : 0 < filters.limit) :
    (∀ n, (returned (browse db filters tables clock n 0 none)).Nodup) ∧
      (∀ k, (∀ j, k ≤ j → ∀ row ∈ tables j, ∃ row' ∈ tables k, row'.id = row.id) →
        ∃ n, Ended (browse db filters tables clock n 0 none)) ∧
      ∀ n, Ended (browse db filters tables clock n 0 none) → ∀ id,
        ((∀ j, j < (browse db filters tables clock n 0 none).length →
            Matches db filters (tables j) (clock j) id) →
          (returned (browse db filters tables clock n 0 none)).count id = 1) ∧
        (filters.maxAgeHours = none → (∀ i, tables i ⊆ tables (i + 1)) →
          Matches db filters (tables 0) (clock 0) id →
            (returned (browse db filters tables clock n 0 none)).count id = 1) := by
  refine ⟨fun n => returned_nodup hgrows, fun k hquiet => exists_ended hgrows hquiet,
    fun n hended id => ⟨count_returned hgrows hlimit hended, fun hage hsub hfirst => ?_⟩⟩
  exact count_returned hgrows hlimit hended fun j _ => matches_later hage hsub hfirst j

theorem browse_twoLaunches :
    let filters : ExploreFilters := { chainId := 1, sort := .new, limit := 1 }
    ∃ n, ∀ id ∈ [['a'], ['b']],
      (returned (browse byCodePoint filters (fun _ => twoLaunches) (fun i => 3600000 + i) n 0
        none)).count id = 1 := by
  intro filters
  have hfilters : filters.maxAgeHours = none := rfl
  obtain ⟨-, hends, hcount⟩ := @browse_complete byCodePoint filters (fun _ => twoLaunches)
    (fun i => 3600000 + i) twoLaunches_grow Nat.one_pos
  obtain ⟨n, hended⟩ := hends 0 fun _ _ row hrow => ⟨row, hrow, rfl⟩
  refine ⟨n, fun id hid => (hcount n hended id).2 hfilters (fun _ => List.Subset.refl _) ?_⟩
  rcases List.mem_pair.mp hid with rfl | rfl
  · exact ⟨launched ['a'] 1 0, by decide, rfl, by decide⟩
  · exact ⟨launched ['b'] 2 3600000, by decide, rfl, by decide⟩

def lastHour : ExploreFilters := { chainId := 1, sort := .new, limit := 1, maxAgeHours := some 1 }

theorem lastHour_createdSince (now : Int) :
    lastHour.createdSince now = some (now - 3600000) := by
  have htime : (now : ℚ) - 1 * 60 * 60 * 1000 = ((now - 3600000 : Int) : ℚ) := by
    push_cast
    norm_num
  have hsince : lastHour.createdSince now = some (Int.tdiv ((now : ℚ) - 1 * 60 * 60 * 1000).num
      ((now : ℚ) - 1 * 60 * 60 * 1000).den) := rfl
  rw [hsince, htime, Rat.num_intCast, Rat.den_intCast, Nat.cast_one, Int.tdiv_one]

theorem browse_misses_aged :
    let pages := browse byCodePoint lastHour (fun _ => twoLaunches) (fun i => 3600000 + i) 2 0 none
    Matches byCodePoint lastHour twoLaunches 3600000 ['a'] ∧ Ended pages ∧
      (returned pages).count ['a'] = 0 := by
  intro pages
  have hwhere : ∀ now, lastHour.toWhere now = { lastHour.toWhere 0 with
      createdSince := some (now - 3600000) } := by
    intro now
    simp [ExploreFilters.toWhere, lastHour_createdSince]
  have hmatch : Matches byCodePoint lastHour twoLaunches 3600000 ['a'] := by
    refine ⟨launched ['a'] 1 0, by decide, rfl, ?_⟩
    rw [hwhere]
    decide
  have hfirst : views byCodePoint lastHour (fun _ => twoLaunches) (fun i => 3600000 + i) 0 =
      [mark .new (launched ['b'] 2 3600000), mark .new (launched ['a'] 1 0)] := by
    rw [views, view, hwhere]
    decide
  have hsecond : views byCodePoint lastHour (fun _ => twoLaunches) (fun i => 3600000 + i) 1 =
      [mark .new (launched ['b'] 2 3600000)] := by
    rw [views, view, hwhere]
    decide
  have hnext : Paging.next (Before byCodePoint) 1
      [mark .new (launched ['b'] 2 3600000), mark .new (launched ['a'] 1 0)] none =
        some (mark .new (launched ['b'] 2 3600000)) := by
    decide
  have hnone : Paging.next (Before byCodePoint) 1 [mark .new (launched ['b'] 2 3600000)]
      (some (mark .new (launched ['b'] 2 3600000))) = none := by
    decide
  have hlimit : lastHour.limit = 1 := rfl
  have hgrows : Grows lastHour.sort fun _ => twoLaunches := twoLaunches_grow
  refine ⟨hmatch, (browse_eq hgrows 2 0 none nofun).2.mpr ?_, ?_⟩
  · simp [Paging.Done, hlimit, hfirst, hsecond, hnext, hnone]
  · simp only [pages]
    rw [returned_eq hgrows]
    simp only [Paging.pages, hlimit, hfirst, hsecond, hnext, hnone]
    decide

end Stunks.Database.Explore
