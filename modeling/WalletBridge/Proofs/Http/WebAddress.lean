import WalletBridge.Http.HostCheck
import WalletBridge.Proofs.Http.Authority

/-! # Addresses of the web and the hosts they name

An address is put together from its parts: the scheme, in any case, a host with or
without a port, a path and a query. Reading it gives back the host and the port,
the scheme's own port when none is written. Whatever else is put before the host
and ends in an `@` changes neither, so it can make an address unreadable but not
let it name another host.
-/

namespace WalletBridge.Http

open Net Text Uri

/-- The schemes whose ports are known. -/
inductive WebScheme where
  | http
  | https
deriving DecidableEq, Repr

namespace WebScheme

def name : WebScheme → String
  | .http => "http"
  | .https => "https"

def port : WebScheme → Nat
  | .http => 80
  | .https => 443

end WebScheme

/-- An address of the web as it is written, without what may stand before the host. -/
structure WebAddress where
  scheme : WebScheme
  /-- The scheme as it is written, in any case. -/
  written : List Char
  spells : written.map Char.toLower = scheme.name.toList
  place : Place
  path : List Char := []
  rooted : path = [] ∨ ∃ rest, path = '/' :: rest
  pathChars : ∀ c ∈ path, isPathChar c = true
  query : Option (List Char) := none
  queryChars : ∀ q ∈ query, ∀ c ∈ q, isQueryChar c = true

def queryText : Option (List Char) → List Char
  | none => []
  | some q => '?' :: q

namespace WebAddress

def tail (a : WebAddress) : List Char := a.path ++ queryText a.query

def chars (a : WebAddress) (front : List Char) : List Char :=
  a.written ++ ':' :: '/' :: '/' :: (front ++ a.place.chars ++ a.tail)

def text (a : WebAddress) : String := String.ofList (a.chars [])

def textWithUser (a : WebAddress) (user : List Char) : String :=
  String.ofList (a.chars (user ++ ['@']))

def port (a : WebAddress) : Nat := (a.place.port.map (·.number)).getD a.scheme.port

def hostAndPort (a : WebAddress) : String :=
  lower (String.ofList a.place.host) ++ ":" ++ decimal a.port

end WebAddress

/-! ## Lower case -/

theorem lower_append (s t : String) : lower (s ++ t) = lower s ++ lower t := by
  simp [lower, String.ofList_append]

theorem toLower_of_not_capital {c : Char} (h : ¬ ('A' ≤ c ∧ c ≤ 'Z')) : c.toLower = c := by
  unfold Char.toLower
  split
  · next hbetween => exact absurd ⟨hbetween.1, hbetween.2⟩ h
  · rfl

theorem toLower_of_isDigit {c : Char} (h : isDigit c = true) : c.toLower = c := by
  apply toLower_of_not_capital
  rintro ⟨hlow, -⟩
  have hbelow : 65 ≤ c.toNat := hlow
  simp only [isDigit, Bool.and_eq_true, decide_eq_true_eq] at h
  omega

theorem map_toLower_of_digits {cs : List Char} (h : ∀ c ∈ cs, isDigit c = true) :
    cs.map Char.toLower = cs := by
  rw [List.map_congr_left fun c hc => toLower_of_isDigit (h c hc)]
  exact List.map_id' cs

theorem lower_decimal (n : Nat) : lower (decimal n) = decimal n := by
  rw [lower, decimal, String.toList_ofList, map_toLower_of_digits (decimalChars_all_isDigit n)]

theorem lower_hostAndPort (host : String) (port : Nat) :
    lower (host ++ ":" ++ decimal port) = lower host ++ ":" ++ decimal port := by
  rw [lower_append, lower_append, lower_decimal]
  rfl

/-! ## Schemes are read in any case -/

theorem splitScheme_http {cs : List Char} (h : cs.map Char.toLower = WebScheme.http.name.toList)
    (rest : List Char) :
    splitScheme (cs ++ ':' :: '/' :: '/' :: rest) = .found WebScheme.http.name rest := by
  have hlength : cs.length = 4 := by
    simpa [WebScheme.name] using congrArg List.length h
  have htake : ((cs ++ ':' :: '/' :: '/' :: rest).map Char.toLower).take 7 =
      "http://".toList := by
    rw [List.map_append, h]
    rfl
  have hdrop : (cs ++ ':' :: '/' :: '/' :: rest).drop 7 = rest := by
    simp [List.drop_append, hlength]
  simp only [splitScheme, htake, hdrop, beq_self_eq_true, if_true]
  rfl

theorem splitScheme_https {cs : List Char} (h : cs.map Char.toLower = WebScheme.https.name.toList)
    (rest : List Char) :
    splitScheme (cs ++ ':' :: '/' :: '/' :: rest) = .found WebScheme.https.name rest := by
  have hlength : cs.length = 5 := by
    simpa [WebScheme.name] using congrArg List.length h
  have hother : (((cs ++ ':' :: '/' :: '/' :: rest).map Char.toLower).take 7 ==
      "http://".toList) = false := by
    rw [List.map_append, h]
    rfl
  have htake : ((cs ++ ':' :: '/' :: '/' :: rest).map Char.toLower).take 8 =
      "https://".toList := by
    rw [List.map_append, h]
    rfl
  have hdrop : (cs ++ ':' :: '/' :: '/' :: rest).drop 8 = rest := by
    simp [List.drop_append, hlength]
  simp only [splitScheme, hother, htake, hdrop, beq_self_eq_true, if_true, Bool.false_eq_true,
    if_false]
  rfl

/-! ## Where the authority ends -/

/-- What may follow an authority: nothing, or a path or a query. -/
def IsTail (tail : List Char) : Prop := ∀ c ∈ tail.head?, endsAuthority c = true

theorem takeWhile_authority {authority tail : List Char}
    (h : ∀ c ∈ authority, endsAuthority c = false) (htail : IsTail tail) :
    (authority ++ tail).takeWhile (fun c => !endsAuthority c) = authority := by
  rw [List.takeWhile_append_of_pos (by simpa using h)]
  cases tail with
  | nil => simp
  | cons c tail => simp [htail c rfl]

theorem isPathChar_mark {c : Char} (h : isPathChar c = true) :
    (c != '?' && c != '#') = true := by
  simp only [Bool.and_eq_true, bne_iff_ne]
  constructor <;>
    · rintro rfl
      cases h

theorem pathOf_append {path : List Char} {query : Option (List Char)}
    (hpath : ∀ c ∈ path, isPathChar c = true)
    (hquery : ∀ q ∈ query, ∀ c ∈ q, isQueryChar c = true) :
    pathOf (path ++ queryText query) = some path := by
  have hmarks : ∀ c ∈ path, (c != '?' && c != '#') = true := fun c hc =>
    isPathChar_mark (hpath c hc)
  have htake : (path ++ queryText query).takeWhile (fun c => c != '?' && c != '#') = path := by
    rw [List.takeWhile_append_of_pos hmarks]
    cases query <;> simp [queryText]
  have hall : path.all isPathChar = true := List.all_eq_true.mpr hpath
  simp only [pathOf, htake, hall, Bool.not_true, Bool.false_eq_true, if_false, List.drop_left]
  cases query with
  | none => rfl
  | some q =>
      have hrest : (q.takeWhile (· != '#')).all isQueryChar = true := by
        rw [List.all_eq_true]
        intro c hc
        exact hquery q rfl c (List.takeWhile_subset _ hc)
      simp [queryText, hrest]

namespace WebAddress

variable {front user : List Char}

/-! ## Reading an address -/

theorem splitScheme_chars (a : WebAddress) (front : List Char) :
    splitScheme (a.chars front) = .found a.scheme.name (front ++ a.place.chars ++ a.tail) := by
  obtain ⟨scheme, written, spells⟩ := a
  cases scheme with
  | http => exact splitScheme_http spells _
  | https => exact splitScheme_https spells _

/-- The first of at least two characters begins no path. -/
theorem chars_cons (a : WebAddress) (front : List Char) :
    ∃ c d more, a.chars front = c :: d :: more ∧ c ≠ '/' := by
  have hspells := a.spells
  cases hwritten : a.written with
  | nil =>
      rw [hwritten] at hspells
      cases hscheme : a.scheme <;> simp [hscheme, WebScheme.name] at hspells
  | cons c more =>
      rw [hwritten, List.map_cons] at hspells
      have hletter : c.toLower = 'h' := by
        cases hscheme : a.scheme <;> rw [hscheme] at hspells <;> exact (List.cons.inj hspells).1
      have hslash : c ≠ '/' := by
        rintro rfl
        cases hletter
      cases more with
      | nil => exact ⟨c, ':', _, by simp only [chars, hwritten]; rfl, hslash⟩
      | cons d more => exact ⟨c, d, _, by simp only [chars, hwritten]; rfl, hslash⟩

theorem tail_isTail (a : WebAddress) : IsTail a.tail := by
  intro c hc
  rcases a.rooted with hpath | ⟨rest, hpath⟩
  · cases hquery : a.query with
    | none => simp [tail, hpath, hquery, queryText] at hc
    | some q =>
        simp [tail, hpath, hquery, queryText] at hc
        rw [← hc]
        rfl
  · simp [tail, hpath] at hc
    rw [← hc]
    rfl

theorem place_inside (a : WebAddress) : ∀ c ∈ a.place.chars, endsAuthority c = false := by
  intro c hc
  simp only [endsAuthority, Bool.or_eq_false_iff, beq_eq_false_iff_ne]
  refine ⟨⟨?_, ?_⟩, ?_⟩ <;>
    · rintro rfl
      exact not_mem_place a.place rfl (by decide) (by decide) hc

/-- What stands before the host belongs to the authority, and nothing else of it is looked at. -/
theorem parse?_chars (a : WebAddress) (hfront : ∀ c ∈ front, endsAuthority c = false)
    (hfits : (String.ofList (a.chars front)).utf8ByteSize ≤ longest) :
    parse? (a.chars front) =
      if isAuthority (front ++ a.place.chars) then
        some ⟨some a.scheme.name, front ++ a.place.chars,
          if a.path.isEmpty then ['/'] else a.path⟩
      else none := by
  have hinside : ∀ c ∈ front ++ a.place.chars, endsAuthority c = false := by
    intro c hc
    rcases List.mem_append.mp hc with hmem | hmem
    · exact hfront c hmem
    · exact a.place_inside c hmem
  have htake := takeWhile_authority hinside a.tail_isTail
  have hpath : pathOf a.tail = some a.path := pathOf_append a.pathChars a.queryChars
  have hsome : (front ++ a.place.chars).isEmpty = false := by
    simp [place_ne_nil a.place]
  have hscheme := a.splitScheme_chars front
  obtain ⟨c, d, more, hchars, hslash⟩ := a.chars_cons front
  rw [hchars] at hfits hscheme ⊢
  unfold parse?
  rw [if_neg (by omega)]
  split
  · next h => cases h
  · next h => cases h
  · next h => exact absurd (List.cons.inj h).1 hslash
  · next h => cases h
  · simp only [hscheme, htake, hsome, List.drop_left, hpath]
    cases isAuthority (front ++ a.place.chars) <;> simp

theorem hostAndPort?_found (a : WebAddress) (hfront : IsFront front) (path : List Char) :
    Uri.hostAndPort? ⟨some a.scheme.name, front ++ a.place.chars, path⟩ =
      some (String.ofList a.place.host ++ ":" ++ decimal a.port) := by
  have hsome : (front ++ a.place.chars).isEmpty = false := by
    simp [place_ne_nil a.place]
  have hscheme : Uri.schemePort? ⟨some a.scheme.name, front ++ a.place.chars, path⟩ =
      some a.scheme.port := by
    cases a.scheme <;> rfl
  rw [Uri.hostAndPort?, host_place hfront, port?_place hfront, hscheme]
  simp only [hsome, Bool.false_eq_true, if_false, WebAddress.port]
  cases a.place.port <;> rfl

/-! ## The host that an address is allowed by -/

theorem fits_of_allowsUrl {allowed : AllowedHosts} {cs : List Char}
    (h : allowed.allowsUrl (String.ofList cs) = true) :
    (String.ofList cs).utf8ByteSize ≤ longest := by
  by_cases hlong : longest < (String.ofList cs).utf8ByteSize
  · have hparse : parse? cs = none := by
      unfold parse?
      rw [if_pos hlong]
    simp [AllowedHosts.allowsUrl, hparse] at h
  · omega

theorem allowsUrl_text (a : WebAddress) (allowed : AllowedHosts) :
    allowed.allowsUrl a.text = true ↔
      a.text.utf8ByteSize ≤ longest ∧ a.hostAndPort ∈ allowed.hosts := by
  have hnothing : ∀ c ∈ [], endsAuthority c = false := by simp
  have hjudged (hfits : a.text.utf8ByteSize ≤ longest) :
      allowed.allowsUrl a.text = true ↔ a.hostAndPort ∈ allowed.hosts := by
    have hparse := a.parse?_chars hnothing hfits
    rw [List.nil_append, isAuthority_place, if_pos rfl] at hparse
    have hfound := a.hostAndPort?_found (.inl rfl) (if a.path.isEmpty then ['/'] else a.path)
    rw [List.nil_append] at hfound
    simp only [AllowedHosts.allowsUrl, text, String.toList_ofList, hparse, Option.bind_some,
      hfound, AllowedHosts.contains, lower_hostAndPort, List.contains_iff_mem]
    rfl
  constructor
  · intro h
    have hfits := fits_of_allowsUrl h
    exact ⟨hfits, (hjudged hfits).mp h⟩
  · rintro ⟨hfits, hmem⟩
    exact (hjudged hfits).mpr hmem

theorem allowsUrl_textWithUser (a : WebAddress) (allowed : AllowedHosts)
    (huser : ∀ c ∈ user, endsAuthority c = false)
    (h : allowed.allowsUrl (a.textWithUser user) = true) : a.hostAndPort ∈ allowed.hosts := by
  have hfront : ∀ c ∈ user ++ ['@'], endsAuthority c = false := by
    intro c hc
    rcases List.mem_append.mp hc with hmem | hat
    · exact huser c hmem
    · rw [List.mem_singleton.mp hat]
      rfl
  have hread := a.parse?_chars hfront (fits_of_allowsUrl h)
  rw [AllowedHosts.allowsUrl, textWithUser, String.toList_ofList, hread] at h
  by_cases hauthority : isAuthority (user ++ ['@'] ++ a.place.chars) = true
  · rw [if_pos hauthority, Option.bind_some, a.hostAndPort?_found (.inr ⟨user, rfl⟩)] at h
    simpa [AllowedHosts.contains, lower_hostAndPort, hostAndPort] using h
  · rw [if_neg hauthority] at h
    cases h

end WebAddress

end WalletBridge.Http
