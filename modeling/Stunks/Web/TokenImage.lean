import Stunks.Lib.Await
import Stunks.Lib.Decimal
import Stunks.Pons.Launch.ImageUrl

/-! `api/token-image/route.ts`: images that strangers chose are fetched here, and what may come back
of them. -/

namespace Stunks.Web.TokenImage

open Pons

abbrev Text := List Char

structure WebUrl extends Url where
  protocol : Text
  deriving DecidableEq

/-- `new URL(text)` and `new URL(location, base)`, where `none` is one that throws. -/
structure UrlParsers where
  parse : Text → Option WebUrl
  resolve : (location base : Text) → Option WebUrl

def UrlParsers.plain (urls : UrlParsers) : UrlParser := fun text =>
  (urls.parse text).map WebUrl.toUrl

def allowedTypes : List Text :=
  ["image/png".toList, "image/jpeg".toList, "image/gif".toList, "image/webp".toList,
    "image/avif".toList]

def maxBytes : Nat := 4 * 1024 * 1024
def attemptTimeoutMs : Int := 4000
def maxRedirects : Nat := 2
def totalBudgetMs : Int := 8500

/-- `127.`, `10.`, `192.168.`, `169.254.` and `172.(1[6-9]|2\d|3[01]).` -/
def privateNets : List (List Nat) :=
  [[127], [10], [192, 168], [169, 254]] ++ (List.range 16).map fun n => [172, 16 + n]

def octets (ns : List Nat) : Text := ns.flatMap fun n => Nat.toDigits 10 n ++ ['.']

def isPrivate (host : Text) : Bool := privateNets.any fun net => (octets net).isPrefixOf host

def localhost : Text := "localhost".toList

def isLocal (host : Text) : Bool :=
  host = localhost || ('.' :: localhost).isSuffixOf host || ".internal".toList.isSuffixOf host

def fetchable (urls : UrlParsers) (url : Text) : Option Text :=
  match urls.parse url with
  | none => none
  | some parsed =>
    if parsed.protocol ≠ "https:".toList then none
    else if parsed.username ≠ [] ∨ parsed.password ≠ [] then none
    else
      let host := parsed.hostname.map Char.toLower
      if '.' ∉ host then none
      else if isPrivate host then none
      else if isLocal host then none
      else some parsed.href

structure Upstream where
  status : Nat
  location : Option Text
  contentType : Option Text
  /-- `Number` of the content length, rounded up, if it is finite. -/
  contentLength : Option Int
  deriving DecidableEq

inductive FetchError
  | abort
  | other
  deriving DecidableEq

inductive Call : Type → Type
  | now : Call Int
  /-- Aborted when `timeout` is over, and with it the reading of the body. -/
  | fetch (url : Text) (timeout : Int) : Call Upstream
  | arrayBuffer : Call (List UInt8)

abbrev Program := Async Call FetchError

inductive Attempt
  | image (body : List UInt8) (type : Text)
  | reason (reason : Text)

inductive Response
  | image (body : List UInt8) (type : Text)
  | miss (reasons : Text)
  deriving DecidableEq

def miss (reasons : List Text) : Response :=
  let joined := sliceUnits 200 ([',', ' '].intercalate reasons)
  .miss (if joined = [] then "none".toList else joined)

def Upstream.mediaType (upstream : Upstream) : Text :=
  (trim ((upstream.contentType.getD []).takeWhile (· ≠ ';'))).map Char.toLower

section program

variable (urls : UrlParsers)

def receive (upstream : Upstream) : Program Attempt :=
  let type := upstream.mediaType
  if ¬(200 ≤ upstream.status ∧ upstream.status ≤ 299) then
    return .reason ("http-".toList ++ Nat.toDigits 10 upstream.status)
  else if ¬allowedTypes.any (· = type) then
    return .reason ("type-".toList ++ if type = [] then "none".toList else type)
  else if upstream.contentLength.any fun declared => declared > (maxBytes : Int) then
    return .reason "too-large".toList
  else do
    let body ← Async.await .arrayBuffer
    if body.length > maxBytes then return .reason "too-large".toList
    else if body.length = 0 then return .reason "empty".toList
    else return .image body type

def hop (url : Text) (remaining : Int) : Program (Text ⊕ Attempt) := do
  let upstream ← Async.await (.fetch url remaining)
  if 300 ≤ upstream.status ∧ upstream.status < 400 then
    match upstream.location with
    | none => return .inr (.reason ("redirect-".toList ++ Nat.toDigits 10 upstream.status ++
        "-no-location".toList))
    | some location =>
      match urls.resolve location url with
      | none => Async.throw .other
      | some target =>
        match fetchable urls target.href with
        | none => return .inr (.reason "redirect-blocked".toList)
        | some next => return .inl next
  else do
    let ending ← receive upstream
    return .inr ending

def hops (deadline : Int) : Nat → Text → Program Attempt
  | 0, _ => return .reason "too-many-redirects".toList
  | left + 1, url => do
    let now ← Async.await .now
    let remaining := deadline - now
    if remaining < 250 then return .reason "timeout".toList
    else
      match ← (hop urls url remaining).attempt with
      | .error .abort => return .reason "timeout".toList
      | .error .other => return .reason "fetch".toList
      | .ok (.inl next) => hops deadline left next
      | .ok (.inr ending) => return ending

def attempt (startUrl : Text) (budgetMs : Int) : Program Attempt := do
  let now ← Async.await .now
  match fetchable urls startUrl with
  | none => return .reason "unfetchable".toList
  | some url => hops urls (now + budgetMs) (maxRedirects + 1) url

def tryAll (last : Option Text) (deadline : Int) : List Text → List Text → Program Response
  | [], reasons => return miss reasons
  | candidate :: rest, reasons => do
    let now ← Async.await .now
    let remaining := deadline - now
    if remaining < 750 then return miss (reasons ++ ["budget-spent".toList])
    else
      -- the last one gets all that is left
      let budget := if some candidate = last then remaining else min attemptTimeoutMs remaining
      match ← attempt urls candidate budget with
      | .image body type => return .image body type
      | .reason reason =>
        match urls.parse candidate with
        | none => Async.throw .other
        | some url => tryAll last deadline rest (reasons ++ [url.hostname ++ ':' :: reason])

def get (raw : Option Text) : Program Response :=
  match raw with
  | none => return miss ["no-url".toList]
  | some raw =>
    match normaliseImageUrl urls.plain raw with
    | none => return miss ["not-an-image-url".toList]
    | some reference =>
      let candidates := imageFetchCandidates reference
      if candidates.length = 0 then return miss ["no-candidate".toList]
      else do
        let now ← Async.await .now
        tryAll urls candidates.getLast? (now + totalBudgetMs) candidates []

end program

structure World where
  clock : Int
  abortAt : Int
  fetched : List Text
  upstream : Option Upstream
  received : Option (List UInt8)

structure Answer where
  elapsed : Nat
  failed : Bool
  upstream : Upstream
  body : List UInt8

namespace World

/-- An answer that comes after the abort is none. -/
def settle {β : Type} (w : World) (o : Answer) (answer : β) (record : World → World) :
    Except FetchError β × World :=
  if w.abortAt ≤ w.clock + o.elapsed then (.error .abort, { w with clock := max w.clock w.abortAt })
  else
    let later := { w with clock := w.clock + o.elapsed }
    if o.failed then (.error .other, later) else (.ok answer, record later)

def exec {β : Type} (call : Call β) (o : Answer) (w : World) : Except FetchError β × World :=
  match call with
  | .now => (.ok w.clock, w)
  | .fetch url timeout =>
    { w with fetched := w.fetched ++ [url], abortAt := w.clock + timeout }.settle o o.upstream
      fun w => { w with upstream := some o.upstream }
  | .arrayBuffer => w.settle o o.body fun w => { w with received := some o.body }

def start (clock : Int) : World where
  clock
  abortAt := clock
  fetched := []
  upstream := none
  received := none

end World

section hosts

theorem digits_ne_dot (n : Nat) : ∀ c ∈ Nat.toDigits 10 n, c ≠ '.' := by
  rintro _ hc rfl
  cases Decimal.isDigit_toDigits n '.' hc

theorem toDigits_inj {n m : Nat} (h : Nat.toDigits 10 n = Nat.toDigits 10 m) : n = m := by
  have hvalue := congrArg (fun digits => Nat.ofDigitChars 10 digits 0) h
  simpa only [Nat.ofDigitChars_ten_toDigits] using hvalue

theorem prefix_dot {p q s rest : Text} (hp : ∀ c ∈ p, c ≠ '.') (hq : ∀ c ∈ q, c ≠ '.') :
    p ++ '.' :: s <+: q ++ '.' :: rest ↔ p = q ∧ s <+: rest := by
  induction p generalizing q with
  | nil =>
    cases q with
    | nil => simp [List.cons_prefix_cons]
    | cons c q => simp [List.cons_prefix_cons, (hq c List.mem_cons_self).symm]
  | cons d p ih =>
    obtain ⟨hd, hp⟩ := List.forall_mem_cons.mp hp
    cases q with
    | nil => simp [List.cons_prefix_cons, hd]
    | cons c q =>
      simp only [List.cons_append, List.cons_prefix_cons, List.cons.injEq,
        ih hp (List.forall_mem_cons.mp hq).2, and_assoc]

theorem octets_prefix {ns ms : List Nat} {rest : Text} (h : ns.length ≤ ms.length) :
    octets ns <+: octets ms ++ rest ↔ ns <+: ms := by
  induction ns generalizing ms with
  | nil => simp [octets]
  | cons n ns ih =>
    cases ms with
    | nil => simp at h
    | cons m ms =>
      have hcons : ∀ (k : Nat) (ks : List Nat) (tail : Text),
          octets (k :: ks) ++ tail = Nat.toDigits 10 k ++ '.' :: (octets ks ++ tail) := by
        simp [octets]
      have hplain := hcons n ns []
      rw [List.append_nil, List.append_nil] at hplain
      rw [hplain, hcons, prefix_dot (digits_ne_dot n) (digits_ne_dot m), ih (by simpa using h),
        List.cons_prefix_cons]
      exact and_congr_left fun _ => ⟨toDigits_inj, congrArg _⟩

def dotted (a b c d : Nat) : Text := octets [a, b, c] ++ Nat.toDigits 10 d

theorem isPrivate_dotted (a b c d : Nat) : isPrivate (dotted a b c d) = true ↔
    a = 127 ∨ a = 10 ∨ a = 192 ∧ b = 168 ∨ a = 169 ∧ b = 254 ∨ a = 172 ∧ 16 ≤ b ∧ b < 32 := by
  have hnets : ∀ net ∈ privateNets, net.length ≤ [a, b, c].length := by
    have hall : ∀ net ∈ privateNets, net.length ≤ 3 := by decide
    exact hall
  have hany : isPrivate (dotted a b c d) = true ↔ ∃ net ∈ privateNets, net <+: [a, b, c] := by
    simp only [isPrivate, List.any_eq_true, List.isPrefixOf_iff_prefix, dotted]
    exact exists_congr fun net => and_congr_right fun hnet => octets_prefix (hnets net hnet)
  rw [hany]
  simp only [privateNets, List.mem_append, List.mem_cons, List.not_mem_nil, or_false, List.mem_map,
    List.mem_range]
  constructor
  · rintro ⟨net, (rfl | rfl | rfl | rfl) | ⟨n, hn, rfl⟩, hprefix⟩
    all_goals
      simp only [List.cons_prefix_cons, List.nil_prefix, and_true] at hprefix
      omega
  · rintro (rfl | rfl | ⟨rfl, rfl⟩ | ⟨rfl, rfl⟩ | ⟨rfl, hlo, hhi⟩)
    · exact ⟨[127], .inl (.inl rfl), by simp⟩
    · exact ⟨[10], .inl (.inr (.inl rfl)), by simp⟩
    · exact ⟨[192, 168], .inl (.inr (.inr (.inl rfl))), by simp⟩
    · exact ⟨[169, 254], .inl (.inr (.inr (.inr rfl))), by simp⟩
    · exact ⟨[172, b], .inr ⟨b - 16, by omega, by rw [Nat.add_sub_cancel' hlo]⟩, by simp⟩

structure PublicHost (host : Text) : Prop where
  dot : '.' ∈ host
  address : ∀ a b c d, host = dotted a b c d →
    a ≠ 127 ∧ a ≠ 10 ∧ (a = 192 → b ≠ 168) ∧ (a = 169 → b ≠ 254) ∧ (a = 172 → b < 16 ∨ 32 ≤ b)
  name : host ≠ localhost ∧ ¬('.' :: localhost) <:+ host ∧ ¬".internal".toList <:+ host

structure Fetchable (urls : UrlParsers) (url : Text) : Prop where
  parsed : ∃ text parsed, urls.parse text = some parsed ∧ parsed.href = url ∧
    parsed.protocol = "https:".toList ∧ parsed.username = [] ∧ parsed.password = [] ∧
    PublicHost (parsed.hostname.map Char.toLower)

theorem fetchable_sound {urls : UrlParsers} {url target : Text}
    (h : fetchable urls url = some target) : Fetchable urls target := by
  unfold fetchable at h
  split at h
  · cases h
  rename_i parsed hparse
  simp only [Option.ite_none_left_eq_some, Option.some.injEq, ne_eq, not_not, not_or] at h
  obtain ⟨hprotocol, ⟨husername, hpassword⟩, hdot, hprivate, hlocal, rfl⟩ := h
  refine ⟨url, parsed, hparse, rfl, hprotocol, husername, hpassword, hdot, ?_, ?_⟩
  · intro a b c d hhost
    rw [hhost, isPrivate_dotted] at hprivate
    omega
  · simpa [isLocal, not_or, and_assoc] using hlocal

end hosts

structure Within (urls : UrlParsers) (limit : Nat) (top : Int) (w : World) : Prop where
  fetched : ∀ url ∈ w.fetched, Fetchable urls url
  count : w.fetched.length ≤ limit
  time : w.clock ≤ top

structure Served (w : World) (body : List UInt8) (type : Text) : Prop where
  received : w.received = some body
  answer : ∃ upstream, w.upstream = some upstream ∧ 200 ≤ upstream.status ∧
    upstream.status ≤ 299 ∧ upstream.mediaType = type
  allowed : type ∈ allowedTypes
  size : 0 < body.length ∧ body.length ≤ maxBytes

def Attempt.Sound (w : World) : Attempt → Prop
  | .image body type => Served w body type
  | .reason _ => True

def Response.Sound (w : World) : Response → Prop
  | .image body type => Served w body type
  | .miss _ => True

def protocol (urls : UrlParsers) (limit : Nat) (top : Int) :
    Protocol Call FetchError Answer World where
  exec := World.exec
  allow _ _ _ := True
  rely s t := t = s
  guar _ _ := True
  keep := Within urls limit top
  refl _ := rfl
  trans h h' := h'.trans h

section triples

variable {urls : UrlParsers} {limit n m : Nat} {top deadline : Int} {P : World → Prop}

theorem Within.mono {w : World} (h : Within urls n deadline w) (hn : n ≤ m) (htop : deadline ≤ top) :
    Within urls m top w :=
  ⟨h.fetched, h.count.trans hn, h.time.trans htop⟩

theorem Within.of_fetched {w v : World} (h : Within urls n deadline w) (hv : v.fetched = w.fetched)
    (hclock : v.clock ≤ top) : Within urls n top v where
  fetched := by
    rw [hv]
    exact h.fetched
  count := by
    rw [hv]
    exact h.count
  time := hclock

theorem kept_of (h : ∀ s, P s → Within urls limit top s) : (protocol urls limit top).Kept P where
  stable hs hst := hst ▸ hs
  keep hs := h _ hs

theorem triple_pure {α : Type} {a : α} {post : Except FetchError α → World → Prop}
    (hP : ∀ s, P s → Within urls limit top s) (h : ∀ s, P s → post (.ok a) s) :
    (protocol urls limit top).Triple P (pure a) post :=
  .done (kept_of hP) h

theorem triple_now (hP : ∀ s, P s → Within urls limit top s) :
    (protocol urls limit top).Triple P (Async.await .now) fun r s => P s ∧ r = .ok s.clock :=
  .await (kept_of hP) (fun _ => kept_of fun s hs => hP s hs.1) fun _ _ hs _ =>
    ⟨trivial, hs, rfl⟩

theorem triple_now_bind {α : Type} {f : Int → Program α} {post : Except FetchError α → World → Prop}
    (hP : ∀ s, P s → Within urls limit top s)
    (hf : ∀ now, (protocol urls limit top).Triple (fun s => P s ∧ now = s.clock) (f now) post) :
    (protocol urls limit top).Triple P (Async.await .now >>= f) post :=
  .bind (triple_now hP)
    (fun now => (hf now).imp (fun _ hs => ⟨hs.1, Except.ok.inj hs.2⟩) fun _ _ h => h)
    fun _ _ hs => by cases hs.2

theorem Within.settle {β : Type} {w : World} {o : Answer} {answer : β} {record : World → World}
    (h : Within urls n deadline w) (habort : w.abortAt ≤ deadline)
    (hrecord : ∀ w, (record w).clock = w.clock ∧ (record w).fetched = w.fetched) :
    Within urls n deadline (w.settle o answer record).2 := by
  have htime := h.time
  unfold World.settle
  split
  · exact ⟨h.fetched, h.count, max_le htime habort⟩
  rename_i hearly
  have hlater : w.clock + o.elapsed ≤ deadline := by omega
  split
  · exact ⟨h.fetched, h.count, hlater⟩
  · obtain ⟨hclock, hfetched⟩ := hrecord { w with clock := w.clock + o.elapsed }
    exact h.of_fetched hfetched (hclock.trans_le hlater)

theorem settle_ok {β : Type} {w : World} {o : Answer} {answer a : β} {record : World → World}
    (h : (w.settle o answer record).1 = .ok a) :
    a = answer ∧ (w.settle o answer record).2 = record { w with clock := w.clock + o.elapsed } := by
  unfold World.settle at h ⊢
  split at h
  · cases h
  · rename_i hearly
    rw [if_neg hearly]
    split at h
    · cases h
    · rename_i hcame
      rw [if_neg hcame]
      exact ⟨(Except.ok.inj h).symm, rfl⟩

theorem triple_receive (upstream : Upstream) (hn : n ≤ limit) (htop : deadline ≤ top) :
    (protocol urls limit top).Triple
      (fun s => Within urls n deadline s ∧ s.abortAt ≤ deadline ∧ s.upstream = some upstream)
      (receive upstream)
      fun r s => Within urls n deadline s ∧ ∀ ending, r = .ok ending → ending.Sound s := by
  have hpre : ∀ s, (Within urls n deadline s ∧ s.abortAt ≤ deadline ∧ s.upstream = some upstream) →
      Within urls limit top s := fun s hs => hs.1.mono hn htop
  have hreason (reason : Text) : (protocol urls limit top).Triple
      (fun s => Within urls n deadline s ∧ s.abortAt ≤ deadline ∧ s.upstream = some upstream)
      (pure (.reason reason) : Program Attempt)
      fun r s => Within urls n deadline s ∧ ∀ ending, r = .ok ending → ending.Sound s :=
    triple_pure hpre fun s hs => ⟨hs.1, by rintro _ ⟨⟩; trivial⟩
  unfold receive
  dsimp only
  split
  · exact hreason _
  rename_i hstatus
  split
  · exact hreason _
  rename_i htype
  split
  · exact hreason _
  refine .bind (Q := fun r s => Within urls n deadline s ∧ s.upstream = some upstream ∧
    ∀ body, r = .ok body → s.received = some body) ?_ (fun body => ?_) fun _ s hs => ⟨hs.1, nofun⟩
  · refine .await (kept_of hpre) (fun _ => kept_of fun s hs => hs.1.mono hn htop) fun s o hs _ => ?_
    obtain ⟨hwithin, habort, hupstream⟩ := hs
    refine ⟨trivial, hwithin.settle habort fun _ => ⟨rfl, rfl⟩, ?_, fun body hbody => ?_⟩
    · show (s.settle o o.body _).2.upstream = _
      unfold World.settle
      split
      · exact hupstream
      · split <;> exact hupstream
    · obtain ⟨rfl, hafter⟩ := settle_ok hbody
      show (s.settle o o.body _).2.received = _
      rw [hafter]
  · have hkeep : ∀ s, (Within urls n deadline s ∧ s.upstream = some upstream ∧
        ∀ b, (Except.ok body : Except FetchError _) = .ok b → s.received = some b) →
          Within urls limit top s := fun s hs => hs.1.mono hn htop
    have hover (reason : Text) : (protocol urls limit top).Triple
        (fun s => Within urls n deadline s ∧ s.upstream = some upstream ∧
          ∀ b, (Except.ok body : Except FetchError _) = .ok b → s.received = some b)
        (pure (.reason reason) : Program Attempt)
        fun r s => Within urls n deadline s ∧ ∀ ending, r = .ok ending → ending.Sound s :=
      triple_pure hkeep fun s hs => ⟨hs.1, by rintro _ ⟨⟩; trivial⟩
    split
    · exact hover _
    rename_i hlarge
    split
    · exact hover _
    rename_i hempty
    refine triple_pure hkeep fun s hs => ⟨hs.1, ?_⟩
    rintro _ ⟨⟩
    rw [not_not] at hstatus htype
    obtain ⟨_, hmem, htype⟩ := List.any_eq_true.mp htype
    rw [of_decide_eq_true htype] at hmem
    exact ⟨hs.2.2 body rfl, ⟨upstream, hs.2.1, hstatus.1, hstatus.2, rfl⟩, hmem, by omega, by omega⟩

theorem triple_hop {url : Text} {remaining : Int} (hn : n + 1 ≤ limit) (htop : deadline ≤ top) :
    (protocol urls limit top).Triple
      (fun s => Within urls n deadline s ∧ Fetchable urls url ∧ s.clock + remaining = deadline)
      (hop urls url remaining)
      fun r s => Within urls (n + 1) deadline s ∧
        (∀ next, r = .ok (.inl next) → Fetchable urls next) ∧
        ∀ ending, r = .ok (.inr ending) → ending.Sound s := by
  unfold hop
  refine .bind (Q := fun r s => (Within urls (n + 1) deadline s ∧ s.abortAt ≤ deadline) ∧
    ∀ upstream, r = .ok upstream → s.upstream = some upstream) ?_ (fun upstream => ?_)
    fun _ s hs => ⟨hs.1.1, nofun, nofun⟩
  · refine .await (kept_of fun s hs => hs.1.mono (by omega) htop)
      (fun _ => kept_of fun s hs => hs.1.1.mono hn htop) fun s o hs _ => ?_
    obtain ⟨hwithin, hurl, hdeadline⟩ := hs
    let sent : World := { s with fetched := s.fetched ++ [url], abortAt := s.clock + remaining }
    have hsent : Within urls (n + 1) deadline sent := by
      refine ⟨fun u hu => ?_, ?_, hwithin.time⟩
      · rcases List.mem_append.mp hu with hu | hu
        · exact hwithin.fetched u hu
        · exact List.mem_singleton.mp hu ▸ hurl
      · have hcount := hwithin.count
        simp only [sent, List.length_append, List.length_singleton]
        omega
    have habort : sent.abortAt ≤ deadline := hdeadline.le
    refine ⟨trivial, ⟨hsent.settle habort fun _ => ⟨rfl, rfl⟩, ?_⟩, fun upstream hupstream => ?_⟩
    · show (sent.settle o o.upstream _).2.abortAt ≤ deadline
      unfold World.settle
      split
      · exact habort
      · split <;> exact habort
    · obtain ⟨rfl, hafter⟩ := settle_ok hupstream
      show (sent.settle o o.upstream _).2.upstream = _
      rw [hafter]
  · have hkeep : ∀ s, ((Within urls (n + 1) deadline s ∧ s.abortAt ≤ deadline) ∧
        ∀ u, (Except.ok upstream : Except FetchError _) = .ok u → s.upstream = some u) →
          Within urls limit top s := fun s hs => hs.1.1.mono hn htop
    split
    · split
      · exact triple_pure hkeep fun s hs => ⟨hs.1.1, nofun, by rintro _ ⟨⟩; trivial⟩
      rename_i location _
      split
      · exact .done (kept_of hkeep) fun s hs => ⟨hs.1.1, nofun, nofun⟩
      rename_i target _
      split
      · exact triple_pure hkeep fun s hs => ⟨hs.1.1, nofun, by rintro _ ⟨⟩; trivial⟩
      · rename_i next hnext
        refine triple_pure hkeep fun s hs => ⟨hs.1.1, ?_, nofun⟩
        rintro _ ⟨⟩
        exact fetchable_sound hnext
    · refine .bind (Q := fun r s => Within urls (n + 1) deadline s ∧
        ∀ ending, r = .ok ending → ending.Sound s) ?_ (fun ending => ?_)
        fun _ s hs => ⟨hs.1, nofun, nofun⟩
      · exact (triple_receive upstream hn htop).imp
          (fun s hs => ⟨hs.1.1, hs.1.2, hs.2 upstream rfl⟩) fun _ _ hs => hs
      refine triple_pure (fun s hs => hs.1.mono hn htop) fun s hs => ⟨hs.1, nofun, ?_⟩
      rintro _ ⟨⟩
      exact hs.2 ending rfl

theorem triple_hops (left : Nat) {url : Text} (hn : n + left ≤ limit) (htop : deadline ≤ top) :
    (protocol urls limit top).Triple (fun s => Within urls n deadline s ∧ Fetchable urls url)
      (hops urls deadline left url)
      fun r s => Within urls (n + left) deadline s ∧ ∃ ending, r = .ok ending ∧ ending.Sound s := by
  induction left generalizing n url with
  | zero => exact triple_pure (fun s hs => hs.1.mono hn htop) fun s hs => ⟨hs.1, _, rfl, trivial⟩
  | succ left ih =>
    have hpre : ∀ s, Within urls n deadline s ∧ Fetchable urls url → Within urls limit top s :=
      fun s hs => hs.1.mono (by omega) htop
    unfold hops
    refine triple_now_bind hpre fun now => ?_
    dsimp only
    split
    · exact triple_pure (fun s hs => hpre s hs.1) fun s hs =>
        ⟨hs.1.1.mono (by omega) le_rfl, _, rfl, trivial⟩
    let Q : Except FetchError (Except FetchError (Text ⊕ Attempt)) → World → Prop := fun r s =>
      Within urls (n + 1) deadline s ∧ ∃ outcome, r = .ok outcome ∧
        (∀ next, outcome = .ok (.inl next) → Fetchable urls next) ∧
        ∀ ending, outcome = .ok (.inr ending) → ending.Sound s
    have hhop : (protocol urls limit top).Triple
        (fun s => (Within urls n deadline s ∧ Fetchable urls url) ∧ now = s.clock)
        (hop urls url (deadline - now)).attempt Q := by
      refine .attempt ((triple_hop (by omega) htop).imp (fun s hs => ⟨hs.1.1, hs.1.2, ?_⟩)
        fun r s hs => ⟨hs.1, r, rfl, hs.2⟩)
      rw [hs.2]
      omega
    refine .bind hhop (fun outcome => ?_) fun _ _ hs => by cases hs.2.choose_spec.1
    have hkeep : ∀ s, Q (.ok outcome) s → Within urls limit top s :=
      fun s hs => hs.1.mono (by omega) htop
    have hreason (reason : Text) : (protocol urls limit top).Triple (Q (.ok outcome))
        (pure (.reason reason) : Program Attempt) fun r s =>
          Within urls (n + (left + 1)) deadline s ∧ ∃ ending, r = .ok ending ∧ ending.Sound s :=
      triple_pure hkeep fun s hs => ⟨hs.1.mono (by omega) le_rfl, _, rfl, trivial⟩
    split
    · exact hreason _
    · exact hreason _
    · rename_i next
      refine (ih (n := n + 1) (by omega)).imp (fun s hs => ?_) fun r s hs =>
        ⟨hs.1.mono (by omega) le_rfl, hs.2⟩
      obtain ⟨hwithin, _, hout, hnext, -⟩ := hs
      exact ⟨hwithin, hnext next (Except.ok.inj hout).symm⟩
    · rename_i ending
      refine triple_pure hkeep fun s hs => ⟨hs.1.mono (by omega) le_rfl, ending, rfl, ?_⟩
      obtain ⟨-, _, hout, -, hending⟩ := hs
      exact hending ending (Except.ok.inj hout).symm

theorem triple_attempt {startUrl : Text} {budget : Int} (hn : n + 3 ≤ limit) (hpos : 0 ≤ budget) :
    (protocol urls limit top).Triple (fun s => Within urls n top s ∧ s.clock + budget ≤ top)
      (attempt urls startUrl budget)
      fun r s => Within urls (n + 3) top s ∧ ∃ ending, r = .ok ending ∧ ending.Sound s := by
  have hpre : ∀ s, Within urls n top s ∧ s.clock + budget ≤ top → Within urls limit top s :=
    fun s hs => hs.1.mono (by omega) le_rfl
  unfold attempt
  refine triple_now_bind hpre fun now => ?_
  split
  · exact triple_pure (fun s hs => hpre s hs.1) fun s hs =>
      ⟨hs.1.1.mono (by omega) le_rfl, _, rfl, trivial⟩
  · rename_i url hurl
    by_cases htop : now + budget ≤ top
    · refine (triple_hops (n := n) 3 hn htop).imp (fun s hs => ⟨?_, fetchable_sound hurl⟩)
        fun r s hs => ⟨hs.1.mono le_rfl htop, hs.2⟩
      exact hs.1.1.of_fetched rfl (by rw [hs.2]; omega)
    · exact fun s hs => absurd (hs.2 ▸ hs.1.2) htop

theorem triple_tryAll (last : Option Text) {candidates : List Text}
    (hparse : ∀ candidate ∈ candidates, urls.parse candidate ≠ none) (reasons : List Text)
    (hn : n + 3 * candidates.length ≤ limit) :
    (protocol urls limit top).Triple (fun s => Within urls n top s)
      (tryAll urls last top candidates reasons)
      fun r s => ∃ response, r = .ok response ∧ response.Sound s := by
  induction candidates generalizing n reasons with
  | nil => exact triple_pure (fun s hs => hs.mono (by omega) le_rfl) fun s _ => ⟨_, rfl, trivial⟩
  | cons candidate rest ih =>
    obtain ⟨hcandidate, hrest⟩ := List.forall_mem_cons.mp hparse
    rw [List.length_cons] at hn
    have hpre : ∀ s, Within urls n top s → Within urls limit top s :=
      fun s hs => hs.mono (by omega) le_rfl
    unfold tryAll
    refine triple_now_bind hpre fun now => ?_
    dsimp only
    split
    · exact triple_pure (fun s hs => hpre s hs.1) fun s _ => ⟨_, rfl, trivial⟩
    rename_i hleft
    let budget := if some candidate = last then top - now else min attemptTimeoutMs (top - now)
    have hbudget : 0 ≤ budget ∧ budget ≤ top - now := by
      simp only [budget, attemptTimeoutMs]
      split <;> omega
    refine .bind ((triple_attempt (n := n) (by omega) hbudget.1).imp (fun s hs => ⟨hs.1, ?_⟩)
      fun _ _ hs => hs) (fun ending => ?_) fun _ _ hs => by cases hs.2.choose_spec.1
    · rw [← hs.2]
      omega
    have hkeep : ∀ s, (Within urls (n + 3) top s ∧ ∃ e,
        (Except.ok ending : Except FetchError _) = .ok e ∧ e.Sound s) → Within urls limit top s :=
      fun s hs => hs.1.mono (by omega) le_rfl
    cases ending with
    | image body type =>
      refine triple_pure hkeep fun s hs => ⟨_, rfl, ?_⟩
      obtain ⟨-, _, hending, hsound⟩ := hs
      rw [← Except.ok.inj hending] at hsound
      exact hsound
    | reason reason =>
      cases hurl : urls.parse candidate with
      | none => exact absurd hurl hcandidate
      | some url =>
        exact (ih (n := n + 3) hrest _ (by omega)).imp (fun s hs => hs.1) fun _ _ hs => hs

end triples

section count

variable {urls : UrlParsers}

theorem atMost_receive (upstream : Upstream) : (receive upstream).AtMost 1 := by
  unfold receive
  dsimp only
  split
  · exact .pure 1 _
  split
  · exact .pure 1 _
  split
  · exact .pure 1 _
  · refine (Async.AtMost.await _).bind (m := 0) fun body => ?_
    split
    · exact .pure 0 _
    · split <;> exact .pure 0 _

theorem atMost_hop (url : Text) (remaining : Int) : (hop urls url remaining).AtMost 2 := by
  refine (Async.AtMost.await _).bind (m := 1) fun upstream => ?_
  split
  · split
    · exact .pure 1 _
    · split
      · exact .throw 1 _
      · split <;> exact .pure 1 _
  · exact (atMost_receive upstream).bind (m := 0) fun _ => .pure 0 _

theorem atMost_hops (deadline : Int) (left : Nat) (url : Text) :
    (hops urls deadline left url).AtMost (3 * left) := by
  induction left generalizing url with
  | zero => exact .pure 0 _
  | succ left ih =>
    refine ((Async.AtMost.await _).bind (m := 2 + 3 * left) fun now => ?_).mono (by omega)
    dsimp only
    split
    · exact .pure _ _
    · refine (atMost_hop _ _).attempt.bind fun r => ?_
      split
      · exact .pure _ _
      · exact .pure _ _
      · exact ih _
      · exact .pure _ _

theorem atMost_attempt (startUrl : Text) (budgetMs : Int) :
    (attempt urls startUrl budgetMs).AtMost 10 := by
  refine (Async.AtMost.await _).bind (m := 9) fun now => ?_
  split
  · exact .pure 9 _
  · exact atMost_hops _ 3 _

theorem atMost_tryAll (last : Option Text) (deadline : Int) (candidates reasons : List Text) :
    (tryAll urls last deadline candidates reasons).AtMost (11 * candidates.length) := by
  induction candidates generalizing reasons with
  | nil => exact .pure 0 _
  | cons candidate rest ih =>
    have hlength : 1 + (10 + 11 * rest.length) ≤ 11 * (candidate :: rest).length := by
      rw [List.length_cons]
      omega
    refine ((Async.AtMost.await _).bind (m := 10 + 11 * rest.length) fun now => ?_).mono hlength
    dsimp only
    split
    · exact .pure _ _
    · refine (atMost_attempt _ _).bind fun outcome => ?_
      split
      · exact .pure _ _
      · split
        · exact .throw _ _
        · exact ih _

end count

structure UrlParsers.Whatwg (urls : UrlParsers) : Prop where
  plain : urls.plain.Whatwg
  gateway : ∀ gateway ∈ ipfsGateways, ∀ path, urls.parse (gateway ++ path) ≠ none

section request

variable {urls : UrlParsers}

theorem parse_of_plain {text : Text} {url : Url} (h : urls.plain text = some url) :
    urls.parse text ≠ none := by
  intro hnone
  rw [UrlParsers.plain, hnone] at h
  cases h

theorem parse_candidate (hurls : urls.Whatwg) {raw reference candidate : Text}
    (hreference : normaliseImageUrl urls.plain raw = some reference)
    (h : candidate ∈ imageFetchCandidates reference) : urls.parse candidate ≠ none := by
  unfold imageFetchCandidates at h
  dsimp only at h
  split at h
  · split at h
    · exact absurd h List.not_mem_nil
    · obtain ⟨gateway, hgateway, rfl⟩ := List.mem_map.mp h
      exact hurls.gateway gateway hgateway _
  rename_i hipfs
  split at h
  · obtain rfl := List.mem_singleton.mp h
    have hnot : ∀ path, candidate ≠ ipfsScheme ++ path := fun path heq =>
      hipfs (List.isPrefixOf_iff_prefix.mpr ⟨path, heq.symm⟩)
    unfold normaliseImageUrl at hreference
    dsimp only at hreference
    split at hreference
    · cases hreference
    split at hreference
    · split at hreference
      · cases hreference
      · exact absurd (Option.some.inj hreference).symm (hnot _)
    split at hreference
    · exact absurd (Option.some.inj hreference).symm (hnot _)
    split at hreference
    · rename_i hhttps
      split at hreference
      · cases hreference
      rename_i url hurl
      split at hreference
      · cases hreference
      split at hreference
      · cases hreference
      split at hreference
      · exact absurd (Option.some.inj hreference).symm (hnot _)
      · rw [← Option.some.inj hreference]
        exact parse_of_plain
          (hurls.plain.reparse hurl (List.isPrefixOf_iff_prefix.mp hhttps))
    · cases hreference
  · exact absurd h List.not_mem_nil

theorem length_imageFetchCandidates (reference : Text) :
    (imageFetchCandidates reference).length ≤ 3 := by
  unfold imageFetchCandidates
  dsimp only
  split
  · split
    · exact Nat.zero_le 3
    · rw [List.length_map]
      decide
  · split
    · exact show 1 ≤ 3 by decide
    · exact Nat.zero_le 3

theorem atMost_get (raw : Option Text) : (get urls raw).AtMost 34 := by
  unfold get
  split
  · exact .pure 34 _
  split
  · exact .pure 34 _
  dsimp only
  split
  · exact .pure 34 _
  · refine (Async.AtMost.await _).bind (m := 33) fun now => ?_
    have hcount := length_imageFetchCandidates ‹_›
    exact (atMost_tryAll _ _ _ _).mono (by omega)

theorem triple_get (hurls : urls.Whatwg) (raw : Option Text) (clock : Int) :
    (protocol urls 9 (clock + totalBudgetMs)).Triple (fun s => s = .start clock) (get urls raw)
      fun r s => ∃ response, r = .ok response ∧ response.Sound s := by
  have hstart : Within urls 0 (clock + totalBudgetMs) (.start clock) :=
    ⟨fun _ h => absurd h List.not_mem_nil, Nat.le_refl 0,
      show clock ≤ clock + 8500 by omega⟩
  have hpre : ∀ s, s = World.start clock → Within urls 9 (clock + totalBudgetMs) s := by
    rintro _ rfl
    exact hstart.mono (Nat.zero_le 9) le_rfl
  unfold get
  split
  · exact triple_pure hpre fun s _ => ⟨_, rfl, trivial⟩
  split
  · exact triple_pure hpre fun s _ => ⟨_, rfl, trivial⟩
  rename_i reference hreference
  dsimp only
  split
  · exact triple_pure hpre fun s _ => ⟨_, rfl, trivial⟩
  refine triple_now_bind hpre fun now => ?_
  rintro _ ⟨rfl, rfl⟩
  have hcount := length_imageFetchCandidates reference
  exact triple_tryAll (n := 0) _ (fun candidate h => parse_candidate hurls hreference h) _
    (by omega) _ hstart

/-- Whatever strangers ask for and whatever their servers answer: nothing is contacted but public
hosts over https, at most nine times and not for longer than the budget; there is a response before
the thirty-fifth await, and an image is one that a server has sent whole, of an allowed type and
size. -/
theorem get_run (hurls : urls.Whatwg) (raw : Option Text) (clock : Int) (os : List Answer) :
    let outcome := (get urls raw).drive World.exec os (.start clock)
    (∀ url ∈ outcome.2.fetched, Fetchable urls url) ∧ outcome.2.fetched.length ≤ 9 ∧
      outcome.2.clock ≤ clock + totalBudgetMs ∧ (outcome.1 = none → os.length < 34) ∧
      ∀ r, outcome.1 = some r → ∃ response, r = .ok response ∧ response.Sound outcome.2 := by
  have hsafe := triple_get hurls raw clock _ rfl
  have hdrive : let outcome := (get urls raw).drive World.exec os (.start clock)
      Within urls 9 (clock + totalBudgetMs) outcome.2 ∧
        ∀ r, outcome.1 = some r → ∃ response, r = .ok response ∧ response.Sound outcome.2 :=
    hsafe.drive fun _ _ _ _ _ => trivial
  obtain ⟨hwithin, hresult⟩ := hdrive
  exact ⟨hwithin.fetched, hwithin.count, hwithin.time, (atMost_get raw).drive, hresult⟩

end request

section sample

def webUrl (hostname pathname href : Text) : WebUrl where
  protocol := "https:".toList
  hostname := hostname
  pathname := pathname
  href := href
  username := []
  password := []

def privateHref : Text := "https://10.0.0.1/".toList

def sampleParse (text : Text) : Option WebUrl :=
  if text = picture then some (webUrl ['a', '.', 'b'] ['/'] picture)
  else if text = privateHref then some (webUrl "10.0.0.1".toList ['/'] privateHref)
  else if ipfsGateways.any (·.isPrefixOf text) then
    some (webUrl "ipfs.io".toList "/ipfs/".toList "https://ipfs.io/ipfs/".toList)
  else none

def sampleUrls : UrlParsers where
  parse := sampleParse
  resolve location _ := sampleParse location

theorem sampleParse_cases {text : Text} {parsed : WebUrl} (h : sampleParse text = some parsed) :
    parsed ∈ [webUrl ['a', '.', 'b'] ['/'] picture, webUrl "10.0.0.1".toList ['/'] privateHref,
      webUrl "ipfs.io".toList "/ipfs/".toList "https://ipfs.io/ipfs/".toList] := by
  unfold sampleParse at h
  split at h
  · simp [← Option.some.inj h]
  split at h
  · simp [← Option.some.inj h]
  split at h
  · simp [← Option.some.inj h]
  · cases h

theorem sampleUrls_whatwg : sampleUrls.Whatwg := by
  have hall {text : Text} {url : Url} {P : Url → Prop} [DecidablePred P]
      (h : sampleUrls.plain text = some url)
      (hP : ∀ parsed ∈ [webUrl ['a', '.', 'b'] ['/'] picture,
        webUrl "10.0.0.1".toList ['/'] privateHref,
        webUrl "ipfs.io".toList "/ipfs/".toList "https://ipfs.io/ipfs/".toList], P parsed.toUrl) :
      P url := by
    obtain ⟨parsed, hparsed, rfl⟩ := Option.map_eq_some_iff.mp h
    exact hP parsed (sampleParse_cases hparsed)
  refine ⟨⟨fun h _ => ?_, fun h _ => ?_, fun h _ => ?_, fun h _ => ?_⟩,
    fun gateway hgateway path => ?_⟩
  · exact hall (P := fun url => sampleUrls.plain url.href = some url) h (by decide)
  · exact List.isPrefixOf_iff_prefix.mp
      (hall (P := fun url => httpsScheme.isPrefixOf url.href = true) h (by decide))
  · exact List.forall_iff_forall_mem.mp
      (hall (P := fun url => url.href.Forall fun c => Pattern.isSpace c = false) h (by decide))
  · exact List.forall_iff_forall_mem.mp
      (hall (P := fun url => url.pathname.Forall fun c => Pattern.isSpace c = false) h (by decide))
  · have hgate : ipfsGateways.any (·.isPrefixOf (gateway ++ path)) = true :=
      List.any_eq_true.mpr ⟨gateway, hgateway, List.isPrefixOf_iff_prefix.mpr ⟨path, rfl⟩⟩
    show sampleParse _ ≠ none
    rw [sampleParse, if_pos hgate]
    split_ifs <;> exact Option.some_ne_none _

def redirectAnswer : Answer where
  elapsed := 30
  failed := false
  upstream := {
    status := 302
    location := some privateHref
    contentType := none
    contentLength := none }
  body := []

/-- A redirect to a private address is not followed. -/
theorem get_run_redirect :
    let outcome := (get sampleUrls (some picture)).drive World.exec
      (List.replicate 5 redirectAnswer)
      (.start 0)
    outcome.1 = some (.ok (.miss "a.b:redirect-blocked".toList)) ∧ outcome.2.fetched = [picture] ∧
      ∀ url ∈ outcome.2.fetched, Fetchable sampleUrls url :=
  ⟨rfl, rfl, (get_run sampleUrls_whatwg (some picture) 0 (List.replicate 5 redirectAnswer)).1⟩

end sample

end Stunks.Web.TokenImage
