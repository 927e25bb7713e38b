import Stunks.Utils.Text

/-! `launch/metadata.ts`: references to images, and where they are fetched from. -/

namespace Stunks.Pons

structure Url where
  hostname : List Char
  username : List Char
  password : List Char
  pathname : List Char
  href : List Char
  deriving DecidableEq

/-- `new URL(text)`, where `none` is one that throws. -/
abbrev UrlParser := List Char → Option Url

def ipfsScheme : List Char := ['i', 'p', 'f', 's', ':', '/', '/']

def httpsScheme : List Char := ['h', 't', 't', 'p', 's', ':', '/', '/']

def ipfsFolder : List Char := ['i', 'p', 'f', 's', '/']

/-- `[1-9A-HJ-NP-Za-km-z]` -/
def isBase58 (c : Char) : Bool :=
  '1' ≤ c ∧ c ≤ '9' ∨ 'A' ≤ c ∧ c ≤ 'H' ∨ 'J' ≤ c ∧ c ≤ 'N' ∨ 'P' ≤ c ∧ c ≤ 'Z' ∨
    'a' ≤ c ∧ c ≤ 'k' ∨ 'm' ≤ c ∧ c ≤ 'z'

/-- `[a-z2-7]` -/
def isBase32 (c : Char) : Bool := 'a' ≤ c ∧ c ≤ 'z' ∨ '2' ≤ c ∧ c ≤ '7'

def isBareCid : List Char → Bool
  | 'Q' :: 'm' :: rest => rest.length = 44 ∧ rest.all isBase58
  | 'b' :: rest => 50 ≤ rest.length ∧ rest.all isBase32
  | _ => false

def hasDots : List Char → Bool
  | '.' :: '.' :: _ => true
  | _ :: path => hasDots path
  | [] => false

/-- The CID inside a gateway URL, in either shape gateways use. -/
def gatewayCid (url : Url) : Option (List Char) :=
  let path := url.pathname.dropWhile (· = '/')
  if ipfsFolder.isPrefixOf path then
    match (path.drop ipfsFolder.length).splitOn '/' with
    | head :: tail =>
      if isBareCid head then
        -- A sub-path addresses a file inside a directory CID.
        some (if tail.length > 0 then head ++ '/' :: ['/'].intercalate tail else head)
      else none
    | [] => none
  else
    match url.hostname.splitOn '.' with
    | subdomain :: marker :: _ =>
      if marker = ['i', 'p', 'f', 's'] ∧ isBareCid subdomain then
        some (if path = [] then subdomain else subdomain ++ '/' :: path)
      else none
    | _ => none

/-- `path.replace(/^ipfs\//, "")` -/
def dropIpfs (path : List Char) : List Char :=
  if ipfsFolder.isPrefixOf path then path.drop ipfsFolder.length else path

variable (parse : UrlParser)

/-- Reduce whatever the creator wrote to a canonical reference, or null. -/
def normaliseImageUrl (raw : List Char) : Option (List Char) :=
  let value := trim raw
  if value = [] ∨ utf16Length value > 1024 then none
  else if ipfsScheme.isPrefixOf value then
    let path := dropIpfs (value.drop ipfsScheme.length)
    if path = [] ∨ hasDots path ∨ path.head? = some '/' then none
    else some (ipfsScheme ++ path)
  else if isBareCid value then some (ipfsScheme ++ value)
  else if httpsScheme.isPrefixOf value then
    match parse value with
    | none => none
    | some url =>
      if '.' ∉ url.hostname then none
      else if url.username ≠ [] ∨ url.password ≠ [] then none
      else
        match gatewayCid url with
        | some cid => some (ipfsScheme ++ cid)
        | none => some url.href
  else none

def ipfsGateways : List (List Char) :=
  ["https://4everland.io/ipfs/".toList, "https://gateway.pinata.cloud/ipfs/".toList,
    "https://ipfs.io/ipfs/".toList]

def imageFetchCandidates (reference : List Char) : List (List Char) :=
  if ipfsScheme.isPrefixOf reference then
    let path := reference.drop ipfsScheme.length
    if path = [] ∨ hasDots path then [] else ipfsGateways.map (· ++ path)
  else if httpsScheme.isPrefixOf reference then [reference]
  else []

/-- What the standard says of the URLs that an `https` text parses to. -/
structure UrlParser.Whatwg (parse : UrlParser) : Prop where
  /-- A URL is serialised so that it can be read back. -/
  reparse : ∀ {text url}, parse text = some url → httpsScheme <+: text → parse url.href = some url
  https : ∀ {text url}, parse text = some url → httpsScheme <+: text → httpsScheme <+: url.href
  href : ∀ {text url}, parse text = some url → httpsScheme <+: text →
    ∀ c ∈ url.href, Pattern.isSpace c = false
  pathname : ∀ {text url}, parse text = some url → httpsScheme <+: text →
    ∀ c ∈ url.pathname, Pattern.isSpace c = false

def Stores (raw : List Char) : Prop :=
  ∀ reference, normaliseImageUrl parse raw = some reference →
    normaliseImageUrl parse reference = some reference ∧ imageFetchCandidates reference ≠ []

/-- `raw` is refused or has none of the shapes that are not read back: another `ipfs/` behind the
one that is dropped, two dots in a file name behind a CID, and what grows beyond the limit. -/
def Survives (raw : List Char) : Prop :=
  let value := trim raw
  if value = [] ∨ utf16Length value > 1024 then True
  else if ipfsScheme.isPrefixOf value then
    let path := dropIpfs (value.drop ipfsScheme.length)
    hasDots path ∨ ipfsFolder.isPrefixOf path = false
  else if isBareCid value then utf16Length value + ipfsScheme.length ≤ 1024
  else if httpsScheme.isPrefixOf value then
    match parse value with
    | none => True
    | some url =>
      if '.' ∉ url.hostname then True
      else if url.username ≠ [] ∨ url.password ≠ [] then True
      else
        match gatewayCid url with
        | some cid => hasDots cid = false ∧ utf16Length cid + ipfsScheme.length ≤ 1024
        | none => utf16Length url.href ≤ 1024
  else True

variable {parse} {path cid : List Char}

section ipfs

theorem trim_ipfs (hlast : ∀ c ∈ path.getLast?, Pattern.isSpace c = false) :
    trim (ipfsScheme ++ path) = ipfsScheme ++ path := by
  refine trim_eq_self (fun c hc => ?_) fun c hc => ?_
  · obtain rfl : 'i' = c := Option.some.inj hc
    decide
  · rw [List.getLast?_append] at hc
    cases hpath : path.getLast? with
    | none =>
      rw [hpath] at hc
      obtain rfl : '/' = c := Option.some.inj hc
      decide
    | some d =>
      rw [hpath] at hc
      obtain rfl : d = c := Option.some.inj hc
      exact hlast d hpath

theorem isPrefixOf_ipfs : ipfsScheme.isPrefixOf (ipfsScheme ++ path) = true :=
  List.isPrefixOf_iff_prefix.mpr (List.prefix_append _ _)

theorem utf16Length_ipfs :
    utf16Length (ipfsScheme ++ path) = utf16Length path + ipfsScheme.length := by
  rw [utf16Length_append, Nat.add_comm]
  rfl

theorem normaliseImageUrl_ipfs (hlast : ∀ c ∈ path.getLast?, Pattern.isSpace c = false) :
    normaliseImageUrl parse (ipfsScheme ++ path) =
      if utf16Length path + ipfsScheme.length > 1024 then none
      else if dropIpfs path = [] ∨ hasDots (dropIpfs path) ∨ (dropIpfs path).head? = some '/' then
        none
      else some (ipfsScheme ++ dropIpfs path) := by
  simp only [normaliseImageUrl, trim_ipfs hlast, isPrefixOf_ipfs, utf16Length_ipfs, if_true,
    List.drop_left]
  simp [ipfsScheme]

theorem dropIpfs_eq_self_iff : dropIpfs path = path ↔ ipfsFolder.isPrefixOf path = false := by
  unfold dropIpfs
  split
  · rename_i hfolder
    rw [hfolder]
    refine ⟨fun hdrop => ?_, nofun⟩
    have hlen := congrArg List.length hdrop
    have hle := (List.isPrefixOf_iff_prefix.mp hfolder).length_le
    simp [ipfsFolder] at hlen hle
    omega
  · rename_i hfolder
    exact ⟨fun _ => Bool.eq_false_iff.mpr hfolder, fun _ => rfl⟩

theorem ipfs_stays_iff (hne : path ≠ []) (hslash : path.head? ≠ some '/')
    (hlast : ∀ c ∈ path.getLast?, Pattern.isSpace c = false) :
    (normaliseImageUrl parse (ipfsScheme ++ path) = some (ipfsScheme ++ path) ∧
        imageFetchCandidates (ipfsScheme ++ path) ≠ []) ↔
      hasDots path = false ∧ ipfsFolder.isPrefixOf path = false ∧
        utf16Length path + ipfsScheme.length ≤ 1024 := by
  rw [normaliseImageUrl_ipfs hlast]
  constructor
  · rintro ⟨hstays, -⟩
    split at hstays
    · cases hstays
    rename_i hlen
    split at hstays
    · cases hstays
    rename_i haccepted
    have hdrop : dropIpfs path = path := List.append_cancel_left (Option.some.inj hstays)
    rw [hdrop] at haccepted
    simp only [not_or, Bool.not_eq_true] at haccepted
    exact ⟨haccepted.2.1, dropIpfs_eq_self_iff.mp hdrop, Nat.le_of_not_gt hlen⟩
  · rintro ⟨hdots, hfolder, hlen⟩
    rw [dropIpfs_eq_self_iff.mpr hfolder, if_neg (Nat.not_lt_of_le hlen),
      if_neg (by simp [hne, hdots, hslash])]
    refine ⟨rfl, ?_⟩
    rw [imageFetchCandidates, if_pos isPrefixOf_ipfs]
    simp [hne, hdots, ipfsGateways]

end ipfs

section cid

def IsPlain (c : Char) : Prop := 48 ≤ c.toNat ∧ c.toNat ≤ 122

instance (c : Char) : Decidable (IsPlain c) := inferInstanceAs (Decidable (_ ∧ _))

theorem isPlain_of_base58 {c : Char} (h : isBase58 c = true) : IsPlain c := by
  simp only [isBase58, decide_eq_true_eq, Char.le_def, UInt32.le_iff_toNat_le] at h
  simp at h
  unfold IsPlain
  omega

theorem isPlain_of_base32 {c : Char} (h : isBase32 c = true) : IsPlain c := by
  simp only [isBase32, decide_eq_true_eq, Char.le_def, UInt32.le_iff_toNat_le] at h
  simp at h
  unfold IsPlain
  omega

theorem IsPlain.not_space {c : Char} (h : IsPlain c) : Pattern.isSpace c = false := by
  unfold IsPlain at h
  exact isSpace_of_visible (by omega) (by omega)

theorem isPlain_of_bareCid (h : isBareCid cid = true) : ∀ c ∈ cid, IsPlain c := by
  unfold isBareCid at h
  split at h
  · rename_i rest
    have hrest := List.all_eq_true.mp (decide_eq_true_iff.mp h).2
    refine List.forall_mem_cons.mpr ⟨by decide, List.forall_mem_cons.mpr ⟨by decide, ?_⟩⟩
    exact fun c hc => isPlain_of_base58 (hrest c hc)
  · rename_i rest
    have hrest := List.all_eq_true.mp (decide_eq_true_iff.mp h).2
    refine List.forall_mem_cons.mpr ⟨by decide, ?_⟩
    exact fun c hc => isPlain_of_base32 (hrest c hc)
  · cases h

theorem head?_of_bareCid (h : isBareCid cid = true) :
    cid.head? = some 'Q' ∨ cid.head? = some 'b' := by
  unfold isBareCid at h
  split at h
  · exact .inl rfl
  · exact .inr rfl
  · cases h

structure Located (pathname cid : List Char) : Prop where
  split : ∃ head rest, isBareCid head = true ∧ cid = head ++ rest ∧
    ∀ c ∈ rest, c = '/' ∨ c ∈ pathname

theorem located_of_bareCid (h : isBareCid cid = true) (pathname : List Char) :
    Located pathname cid :=
  ⟨cid, [], h, (List.append_nil _).symm, nofun⟩

theorem Located.head? {pathname : List Char} (h : Located pathname cid) :
    cid.head? = some 'Q' ∨ cid.head? = some 'b' := by
  obtain ⟨head, rest, hcid, rfl, -⟩ := h.split
  rcases head?_of_bareCid hcid with hhead | hhead <;> rw [List.head?_append, hhead] <;> simp

theorem Located.ne_nil {pathname : List Char} (h : Located pathname cid) : cid ≠ [] := by
  rintro rfl
  rcases h.head? with hhead | hhead <;> cases hhead

theorem Located.not_slash {pathname : List Char} (h : Located pathname cid) :
    cid.head? ≠ some '/' := by
  rcases h.head? with hhead | hhead <;> rw [hhead] <;> decide

theorem Located.isPrefixOf {pathname : List Char} (h : Located pathname cid) :
    ipfsFolder.isPrefixOf cid = false := by
  cases cid with
  | nil => rfl
  | cons c rest => rcases h.head? with hhead | hhead <;> obtain rfl := Option.some.inj hhead <;> rfl

theorem Located.not_space {pathname : List Char} (h : Located pathname cid)
    (hpath : ∀ c ∈ pathname, Pattern.isSpace c = false) : ∀ c ∈ cid, Pattern.isSpace c = false := by
  obtain ⟨head, rest, hcid, rfl, hrest⟩ := h.split
  refine List.forall_mem_append.mpr ⟨fun c hc => ?_, fun c hc => ?_⟩
  · exact (isPlain_of_bareCid hcid c hc).not_space
  · rcases hrest c hc with rfl | hmem
    · decide
    · exact hpath c hmem

theorem located_of_gatewayCid {url : Url} (h : gatewayCid url = some cid) :
    Located url.pathname cid := by
  have hdropWhile : ∀ c ∈ url.pathname.dropWhile (· = '/'), c ∈ url.pathname :=
    fun c hc => (List.dropWhile_suffix _).mem hc
  unfold gatewayCid at h
  dsimp only at h
  split at h
  · split at h
    · rename_i head tail hsplit
      split at h
      · rename_i hcid
        obtain rfl := Option.some.inj h
        split
        · rename_i htail
          refine ⟨head, _, hcid, rfl, fun c hc => .inr (hdropWhile c ?_)⟩
          obtain ⟨next, tail, rfl⟩ := List.exists_cons_of_length_pos htail
          have hjoin := congrArg ['/'].intercalate hsplit
          rw [List.intercalate_splitOn, List.intercalate_cons_cons, List.append_assoc] at hjoin
          refine List.mem_of_mem_drop (i := ipfsFolder.length) ?_
          rw [hjoin]
          exact List.mem_append_right _ hc
        · exact located_of_bareCid hcid _
      · cases h
    · cases h
  · split at h
    · rename_i subdomain marker _ hsplit
      split at h
      · rename_i hcid
        obtain rfl := Option.some.inj h
        split
        · exact located_of_bareCid hcid.2 _
        · exact ⟨subdomain, _, hcid.2, rfl, List.forall_mem_cons.mpr ⟨.inl rfl,
            fun c hc => .inr (hdropWhile c hc)⟩⟩
      · cases h
    · cases h

end cid

section shapes

variable {raw reference : List Char}

theorem stores_of_none (h : normaliseImageUrl parse raw = none) : Stores parse raw := by
  intro reference hreference
  cases h.symm.trans hreference

theorem stores_iff_of_some (h : normaliseImageUrl parse raw = some reference) :
    Stores parse raw ↔ normaliseImageUrl parse reference = some reference ∧
      imageFetchCandidates reference ≠ [] := by
  constructor
  · exact fun hstores => hstores reference h
  · intro hstays r hr
    obtain rfl := Option.some.inj (h.symm.trans hr)
    exact hstays

theorem getLast?_dropIpfs (hne : dropIpfs path ≠ [])
    (hlast : ∀ c ∈ path.getLast?, Pattern.isSpace c = false) :
    ∀ c ∈ (dropIpfs path).getLast?, Pattern.isSpace c = false := by
  unfold dropIpfs at hne ⊢
  split
  · rename_i hfolder
    rw [if_pos hfolder] at hne
    intro c hc
    refine hlast c ?_
    rw [← List.take_append_drop ipfsFolder.length path, List.getLast?_append_of_ne_nil _ hne]
    exact hc
  · exact hlast

theorem utf16Length_dropIpfs_le (path : List Char) :
    utf16Length (dropIpfs path) ≤ utf16Length path := by
  unfold dropIpfs
  split
  · conv_rhs => rw [← List.take_append_drop ipfsFolder.length path]
    rw [utf16Length_append]
    omega
  · exact Nat.le_refl _

/-- A path behind the scheme: one more `ipfs/` would be dropped by the next pass. -/
theorem stores_ipfs_iff (hlen : utf16Length path + ipfsScheme.length ≤ 1024)
    (hlast : ∀ c ∈ path.getLast?, Pattern.isSpace c = false)
    (hvalue : trim raw = ipfsScheme ++ path) :
    Stores parse raw ↔ hasDots (dropIpfs path) ∨ ipfsFolder.isPrefixOf (dropIpfs path) = false := by
  have hnormalise : normaliseImageUrl parse raw =
      if dropIpfs path = [] ∨ hasDots (dropIpfs path) ∨ (dropIpfs path).head? = some '/' then none
      else some (ipfsScheme ++ dropIpfs path) := by
    have hself := @normaliseImageUrl_ipfs parse path hlast
    rw [if_neg (Nat.not_lt_of_le hlen)] at hself
    rw [← hself, normaliseImageUrl, normaliseImageUrl, hvalue, trim_ipfs hlast]
  split at hnormalise
  · rename_i hrefused
    refine iff_of_true (stores_of_none hnormalise) ?_
    rcases hrefused with hnil | hdots | hslash
    · exact .inr (by rw [hnil]; rfl)
    · exact .inl hdots
    · cases hpath : dropIpfs path with
      | nil => exact .inr rfl
      | cons c rest =>
        rw [hpath] at hslash
        obtain rfl := Option.some.inj hslash
        exact .inr rfl
  · rename_i haccepted
    obtain ⟨hne, hdots, hslash⟩ := by simpa only [not_or] using haccepted
    have hdropped := Nat.le_trans (Nat.add_le_add_right (utf16Length_dropIpfs_le path) _) hlen
    rw [stores_iff_of_some hnormalise, ipfs_stays_iff hne hslash (getLast?_dropIpfs hne hlast)]
    simp [hdots, hdropped]

theorem stays_cid_iff {pathname : List Char} (hcid : Located pathname cid)
    (hspace : ∀ c ∈ cid, Pattern.isSpace c = false)
    (h : normaliseImageUrl parse raw = some (ipfsScheme ++ cid)) :
    Stores parse raw ↔ hasDots cid = false ∧ utf16Length cid + ipfsScheme.length ≤ 1024 := by
  rw [stores_iff_of_some h, ipfs_stays_iff hcid.ne_nil hcid.not_slash
    fun c hc => hspace c (List.mem_of_getLast? hc)]
  simp [hcid.isPrefixOf]

theorem hasDots_of_not_mem (h : '.' ∉ path) : hasDots path = false := by
  induction path with
  | nil => rfl
  | cons c path ih =>
    obtain ⟨hc, hpath⟩ := List.ne_and_not_mem_of_not_mem_cons h
    rw [hasDots]
    · exact ih hpath
    · exact fun _ hdot => absurd hdot.symm hc

theorem hasDots_of_bareCid (h : isBareCid cid = true) : hasDots cid = false := by
  refine hasDots_of_not_mem fun hdot => ?_
  have hplain := (isPlain_of_bareCid h '.' hdot).1
  exact absurd hplain (by decide)

theorem isBareCid_https {text : List Char} (h : httpsScheme <+: text) : isBareCid text = false := by
  obtain ⟨rest, rfl⟩ := h
  rfl

theorem isPrefixOf_https {text : List Char} (h : httpsScheme <+: text) :
    ipfsScheme.isPrefixOf text = false := by
  obtain ⟨rest, rfl⟩ := h
  rfl

theorem stores_href_iff (hparse : parse.Whatwg) {value : List Char} {url : Url}
    (hhttps : httpsScheme <+: value) (hurl : parse value = some url) (hhost : '.' ∈ url.hostname)
    (hplain : ¬(url.username ≠ [] ∨ url.password ≠ [])) (hcid : gatewayCid url = none)
    (h : normaliseImageUrl parse raw = some url.href) :
    Stores parse raw ↔ utf16Length url.href ≤ 1024 := by
  have hhref := hparse.https hurl hhttps
  have htrim := trim_of_forall (hparse.href hurl hhttps)
  have hnil : url.href ≠ [] := by
    obtain ⟨rest, heq⟩ := hhref
    rw [← heq]
    simp [httpsScheme]
  have hstays : normaliseImageUrl parse url.href =
      if utf16Length url.href > 1024 then none else some url.href := by
    simp only [normaliseImageUrl, htrim, hnil, false_or, isPrefixOf_https hhref,
      isBareCid_https hhref, List.isPrefixOf_iff_prefix.mpr hhref, hparse.reparse hurl hhttps, hhost,
      not_true, if_false, Bool.false_eq_true, if_true, hplain, hcid]
  have hfetch : imageFetchCandidates url.href ≠ [] := by
    simp [imageFetchCandidates, isPrefixOf_https hhref, hhref]
  rw [stores_iff_of_some h, hstays]
  split
  · rename_i hlen
    exact iff_of_false (fun hkept => nomatch hkept.1) (Nat.not_le_of_gt hlen)
  · rename_i hlen
    exact iff_of_true ⟨rfl, hfetch⟩ (Nat.le_of_not_gt hlen)

end shapes

/-- The references that are stored and read back as they are. -/
theorem stores_iff_survives {parse : UrlParser} (hparse : parse.Whatwg) (raw : List Char) :
    Stores parse raw ↔ Survives parse raw := by
  by_cases hsize : trim raw = [] ∨ utf16Length (trim raw) > 1024
  · rw [Survives, if_pos hsize]
    exact iff_of_true (stores_of_none (if_pos hsize)) trivial
  obtain ⟨hne, hlen⟩ := not_or.mp hsize
  have hlen := Nat.le_of_not_gt hlen
  have hnormalise : normaliseImageUrl parse raw = _ := if_neg hsize
  rw [Survives, if_neg hsize]
  by_cases hipfs : ipfsScheme.isPrefixOf (trim raw) = true
  · rw [if_pos hipfs]
    obtain ⟨path, hvalue⟩ := List.isPrefixOf_iff_prefix.mp hipfs
    rw [← hvalue, List.drop_left]
    rw [← hvalue, utf16Length_ipfs] at hlen
    refine stores_ipfs_iff hlen (fun c hc => ?_) hvalue.symm
    refine @getLast?_trim raw c ?_
    rw [← hvalue, List.getLast?_append, hc]
    rfl
  rw [if_neg hipfs] at hnormalise ⊢
  by_cases hbare : isBareCid (trim raw) = true
  · rw [if_pos hbare] at hnormalise ⊢
    have hspace := fun c hc => (isPlain_of_bareCid hbare c hc).not_space
    rw [stays_cid_iff (located_of_bareCid hbare []) hspace hnormalise]
    exact and_iff_right (hasDots_of_bareCid hbare)
  rw [if_neg hbare] at hnormalise ⊢
  by_cases hhttps : httpsScheme.isPrefixOf (trim raw) = true
  · rw [if_pos hhttps] at hnormalise ⊢
    have hfolder := List.isPrefixOf_iff_prefix.mp hhttps
    cases hurl : parse (trim raw) with
    | none =>
      rw [hurl] at hnormalise
      exact iff_of_true (stores_of_none hnormalise) trivial
    | some url =>
      rw [hurl] at hnormalise
      dsimp only at hnormalise ⊢
      by_cases hhost : '.' ∉ url.hostname
      · rw [if_pos hhost] at hnormalise ⊢
        exact iff_of_true (stores_of_none hnormalise) trivial
      rw [if_neg hhost] at hnormalise ⊢
      by_cases hplain : url.username ≠ [] ∨ url.password ≠ []
      · rw [if_pos hplain] at hnormalise ⊢
        exact iff_of_true (stores_of_none hnormalise) trivial
      rw [if_neg hplain] at hnormalise ⊢
      cases hcid : gatewayCid url with
      | some cid =>
        rw [hcid] at hnormalise
        have hlocated := located_of_gatewayCid hcid
        exact stays_cid_iff hlocated (hlocated.not_space (hparse.pathname hurl hfolder)) hnormalise
      | none =>
        rw [hcid] at hnormalise
        exact stores_href_iff hparse hfolder hurl (not_not.mp hhost) hplain hcid hnormalise
  · rw [if_neg hhttps] at hnormalise ⊢
    exact iff_of_true (stores_of_none hnormalise) trivial

def picture : List Char := httpsScheme ++ ['a', '.', 'b', '/']

def pictureParser : UrlParser := fun text =>
  if text = picture then
    some { hostname := ['a', '.', 'b'], username := [], password := [], pathname := ['/']
           href := picture }
  else none

theorem pictureParser_whatwg : pictureParser.Whatwg where
  reparse h _ := by
    obtain ⟨-, h⟩ := Option.ite_none_right_eq_some.mp h
    obtain rfl := Option.some.inj h
    exact if_pos rfl
  https h _ := by
    obtain ⟨-, h⟩ := Option.ite_none_right_eq_some.mp h
    obtain rfl := Option.some.inj h
    exact List.prefix_append _ _
  href h _ := by
    obtain ⟨-, h⟩ := Option.ite_none_right_eq_some.mp h
    obtain rfl := Option.some.inj h
    exact List.forall_iff_forall_mem.mp (by decide)
  pathname h _ := by
    obtain ⟨-, h⟩ := Option.ite_none_right_eq_some.mp h
    obtain rfl := Option.some.inj h
    exact List.forall_iff_forall_mem.mp (by decide)

theorem stores_iff_survives_picture :
    Stores pictureParser picture ↔ Survives pictureParser picture :=
  stores_iff_survives pictureParser_whatwg picture

def cidText : List Char := ['b', 'a', 'f', 'k', 'r', 'e', 'i', 'a', 'b', 'c']

/-- The proxy asks for something else than what is stored. -/
theorem stores_other_reference :
    normaliseImageUrl pictureParser (ipfsScheme ++ (ipfsFolder ++ (ipfsFolder ++ cidText))) =
        some (ipfsScheme ++ (ipfsFolder ++ cidText)) ∧
      normaliseImageUrl pictureParser (ipfsScheme ++ (ipfsFolder ++ cidText)) =
        some (ipfsScheme ++ cidText) ∧
      ¬Stores pictureParser (ipfsScheme ++ (ipfsFolder ++ (ipfsFolder ++ cidText))) := by
  have hlast : ∀ path : List Char, path.getLast? = some 'c' →
      ∀ c ∈ path.getLast?, Pattern.isSpace c = false := by
    intro path hpath c hc
    obtain rfl : 'c' = c := Option.some.inj (hpath.symm.trans hc)
    decide
  have hstored : normaliseImageUrl pictureParser
      (ipfsScheme ++ (ipfsFolder ++ (ipfsFolder ++ cidText))) =
        some (ipfsScheme ++ (ipfsFolder ++ cidText)) := by
    rw [normaliseImageUrl_ipfs (hlast (ipfsFolder ++ (ipfsFolder ++ cidText)) rfl)]
    decide
  have hread : normaliseImageUrl pictureParser (ipfsScheme ++ (ipfsFolder ++ cidText)) =
      some (ipfsScheme ++ cidText) := by
    rw [normaliseImageUrl_ipfs (hlast (ipfsFolder ++ cidText) rfl)]
    decide
  refine ⟨hstored, hread, fun hstores => ?_⟩
  have hsame := hread.symm.trans (hstores _ hstored).1
  exact absurd (Option.some.inj hsame) (by decide)

end Stunks.Pons
