import Stunks.Indexer.Sources.Types
import Mathlib.Data.List.Nodup

namespace Stunks.Indexer

structure Entry where
  address : Address
  topics : List Hex
  data : List UInt8
  transactionHash : Hex
  logIndex : Nat
  deriving DecidableEq

structure Block where
  entries : List Entry
  salt : Nat
  deriving DecidableEq

/-- Block `n` is the entry `n` of the list. -/
abbrev Chain := List Block

variable {H : Type} {hash : Chain → H} {chain fork : Chain} {log : RawLog H}

/-- A block's hash commits to the block and to all before it. -/
def hashAt (hash : Chain → H) (chain : Chain) (n : Nat) : H := hash (chain.take (n + 1))

def Entry.toRawLog (hash : Chain → H) (chain : Chain) (n : Nat) (entry : Entry) : RawLog H where
  address := entry.address
  topics := entry.topics
  data := entry.data
  blockNumber := n
  blockHash := hashAt hash chain n
  transactionHash := entry.transactionHash
  logIndex := entry.logIndex

def logsAt (hash : Chain → H) (chain : Chain) (n : Nat) : List (RawLog H) :=
  match chain[n]? with
  | some block => block.entries.map (Entry.toRawLog hash chain n)
  | none => []

def logsBetween (hash : Chain → H) (chain : Chain) (lo hi : Nat) : List (RawLog H) :=
  (List.range' (lo + 1) (hi - lo)).flatMap (logsAt hash chain)

def LogQuery.selects (query : LogQuery) (log : RawLog H) : Bool :=
  (query.addresses.isEmpty || query.addresses.contains log.address) &&
    match query.topics0 with
    | none => true
    | some topics0 => topics0.isEmpty || match log.topics with
      | [] => false
      | topic0 :: _ => topics0.contains topic0

def RawLog.key (log : RawLog H) : Hex × Nat := (log.transactionHash, log.logIndex)

def Entry.key (entry : Entry) : Hex × Nat := (entry.transactionHash, entry.logIndex)

def UniqueKeys (chain : Chain) : Prop :=
  (chain.flatMap fun block => block.entries.map Entry.key).Nodup

instance : Decidable (UniqueKeys chain) := inferInstanceAs (Decidable (List.Nodup _))

def OnChain (hash : Chain → H) (chain : Chain) (log : RawLog H) : Prop :=
  log ∈ logsAt hash chain log.blockNumber

def Agree (n : Nat) (chain fork : Chain) : Prop := chain.take (n + 1) = fork.take (n + 1)

instance {n : Nat} : Decidable (Agree n chain fork) := inferInstanceAs (Decidable (_ = _))

namespace Agree

variable {n m : Nat}

theorem symm (h : Agree n chain fork) : Agree n fork chain := Eq.symm h

theorem trans {e : Chain} (h : Agree n chain fork) (h' : Agree n fork e) : Agree n chain e :=
  Eq.trans h h'

theorem mono (h : Agree n chain fork) (hmn : m ≤ n) : Agree m chain fork := by
  have htake := congrArg (List.take (m + 1)) h
  rwa [List.take_take, List.take_take, Nat.min_eq_left (by omega)] at htake

theorem of_grown (h : chain <+: fork) (hn : n < chain.length) : Agree n chain fork := by
  obtain ⟨t, rfl⟩ := h
  exact (List.take_append_of_le_length (by omega)).symm

theorem getElem? (h : Agree n chain fork) : chain[n]? = fork[n]? := by
  have hget := congrArg (fun l => l[n]?) h
  simpa [List.getElem?_take_of_lt] using hget

theorem length (h : Agree n chain fork) (hn : n < chain.length) : n < fork.length := by
  have hlen := congrArg List.length h
  simp only [List.length_take] at hlen
  omega

theorem logsAt_eq (h : Agree n chain fork) (hmn : m ≤ n) :
    logsAt hash chain m = logsAt hash fork m := by
  have hm := h.mono hmn
  have hhash : hashAt hash chain m = hashAt hash fork m := congrArg hash hm
  have hentry : Entry.toRawLog hash chain m = Entry.toRawLog hash fork m := by
    funext entry
    simp [Entry.toRawLog, hhash]
  unfold logsAt
  rw [hm.getElem?, hentry]

theorem onChain_iff (h : Agree n chain fork) (hlog : log.blockNumber ≤ n) :
    OnChain hash chain log ↔ OnChain hash fork log := by
  unfold OnChain
  rw [h.logsAt_eq hlog]

end Agree

theorem blockNumber_of_mem_logsAt {n : Nat} (h : log ∈ logsAt hash chain n) :
    log.blockNumber = n := by
  unfold logsAt at h
  split at h
  · obtain ⟨entry, -, rfl⟩ := List.mem_map.mp h
    rfl
  · cases h

theorem mem_logsBetween {lo hi : Nat} :
    log ∈ logsBetween hash chain lo hi ↔
      OnChain hash chain log ∧ lo < log.blockNumber ∧ log.blockNumber ≤ hi := by
  simp only [logsBetween, List.mem_flatMap, List.mem_range'_1]
  constructor
  · rintro ⟨n, hn, hlog⟩
    have hblock := blockNumber_of_mem_logsAt hlog
    subst hblock
    exact ⟨hlog, by omega, by omega⟩
  · rintro ⟨hlog, hlo, hhi⟩
    exact ⟨log.blockNumber, by omega, hlog⟩

theorem OnChain.lt_length (h : OnChain hash chain log) : log.blockNumber < chain.length := by
  unfold OnChain logsAt at h
  split at h
  · rename_i block hblock
    exact (List.getElem?_eq_some_iff.mp hblock).1
  · cases h

theorem OnChain.entry (h : OnChain hash chain log) : ∃ block entry,
    chain[log.blockNumber]? = some block ∧ entry ∈ block.entries ∧
      log = Entry.toRawLog hash chain log.blockNumber entry := by
  unfold OnChain logsAt at h
  split at h
  · rename_i block hblock
    obtain ⟨entry, hentry, hlog⟩ := List.mem_map.mp h
    exact ⟨block, entry, hblock, hentry, hlog.symm⟩
  · cases h

theorem UniqueKeys.block_le (h : UniqueKeys chain) {n m : Nat} {a b : Block} {x y : Entry}
    (ha : chain[n]? = some a) (hb : chain[m]? = some b) (hx : x ∈ a.entries) (hy : y ∈ b.entries)
    (hkey : x.key = y.key) : m ≤ n := by
  by_contra hlt
  obtain ⟨hn, rfl⟩ := List.getElem?_eq_some_iff.mp ha
  obtain ⟨hm, rfl⟩ := List.getElem?_eq_some_iff.mp hb
  have hpair := List.pairwise_iff_getElem.mp (List.nodup_flatMap.mp h).2 n m hn hm (by omega)
  exact hpair (List.mem_map_of_mem hx) (hkey ▸ List.mem_map_of_mem hy)

theorem UniqueKeys.eq_of_key (h : UniqueKeys chain) {log' : RawLog H}
    (hlog : OnChain hash chain log) (hlog' : OnChain hash chain log') (hkey : log.key = log'.key) :
    log = log' := by
  obtain ⟨a, x, ha, hx, heq⟩ := hlog.entry
  obtain ⟨b, y, hb, hy, heq'⟩ := hlog'.entry
  have hxy : x.key = y.key := by
    rw [heq, heq'] at hkey
    exact hkey
  have hblock : log.blockNumber = log'.blockNumber :=
    Nat.le_antisymm (h.block_le hb ha hy hx hxy.symm) (h.block_le ha hb hx hy hxy)
  rw [hblock] at ha
  obtain rfl : a = b := Option.some.inj (ha.symm.trans hb)
  have hmem : a ∈ chain := List.mem_of_getElem? ha
  have hnodup := (List.nodup_flatMap.mp h).1 a hmem
  obtain rfl : x = y := List.inj_on_of_nodup_map hnodup hx hy hxy
  rw [heq, heq', hblock]

end Stunks.Indexer
