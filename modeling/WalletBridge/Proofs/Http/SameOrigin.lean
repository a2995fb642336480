import WalletBridge.Proofs.Http.Sources

/-! # Requests that come from the host they name

The host that a request names is compared as it is written, while the address
that it comes from is read first and is given the port of its scheme when it has
none. So a request that comes from the very host it names passes exactly when the
host with that port is allowed. It always is for the bridge's own names and for a
host with a port in plain decimal; a listed host without a port is not.
-/

namespace WalletBridge.Http

open Net Text Uri

namespace Place

/-- Host and port in lower case, with the port of plain addresses when it has none. -/
def hostAndPort (p : Place) : String :=
  lower (String.ofList p.host) ++ ":" ++ decimal ((p.port.map (·.number)).getD 80)

theorem origin_text (p : Place) : p.origin.text = "http://" ++ p.text := by
  simp [WebAddress.text, WebAddress.chars, WebAddress.tail, origin, text, queryText,
    ← String.toList_inj]

theorem page_text (p : Place) (path : String) (h : ∀ c ∈ path.toList, isPathChar c = true) :
    (p.page path h).text = "http://" ++ p.text ++ "/" ++ path := by
  simp [WebAddress.text, WebAddress.chars, WebAddress.tail, page, origin, text, queryText,
    ← String.toList_inj]

theorem origin_plain (p : Place) : p.origin.Plain := by
  simp [WebAddress.Plain, WebAddress.tail, origin, queryText]

theorem page_plain (p : Place) {path : String} (h : ∀ c ∈ path.toList, isPathChar c = true)
    (hplain : ∀ c ∈ path.toList, c.toNat < 0x7F) : (p.page path h).Plain := by
  intro c hc
  simp only [WebAddress.tail, page, origin, queryText, List.append_nil, List.mem_cons] at hc
  rcases hc with rfl | hmem
  · decide
  · exact hplain c hmem

/-- An address that is short and plain is judged by its host and port. -/
theorem requestFrom_passes_iff (p : Place) {allowed : AllowedHosts}
    (h : allowed.check p.request = .ok ()) {name : String}
    (hname : lower name = "origin" ∨ lower name = "referer") {a : WebAddress} (hplain : a.Plain)
    (hfits : a.text.utf8ByteSize < 65535) :
    allowed.check (p.requestFrom name a.text) = .ok () ↔ a.hostAndPort ∈ allowed.hosts := by
  have hcomes := p.requestFrom_comes (p.request_passes_iff.mp h) hname a.text
  have hlongest : a.text.utf8ByteSize ≤ longest := Nat.le_of_lt_succ hfits
  rw [a.check_eq_ok_iff hcomes]
  simp only [hlongest, hplain, true_and]

/-! ## Ports in plain decimal -/

def HasPlainPort (p : Place) : Prop := ∃ port ∈ p.port, port.digits = decimalChars port.number

theorem lower_text_of_plainPort {p : Place} (h : p.HasPlainPort) :
    lower p.text = p.hostAndPort := by
  obtain ⟨port, hport, hdigits⟩ := h
  rw [Option.mem_def] at hport
  have htext : p.text = String.ofList p.host ++ ":" ++ decimal port.number := by
    simp [text, chars, hport, portChars, hdigits, decimal, ← String.toList_inj]
  rw [htext, lower_hostAndPort, hostAndPort, hport]
  rfl

/-! ## The bridge's own names -/

theorem toLower_eq_mark {c x : Char} (hx : x.toNat < 97) (h : c.toLower = x) : c = x := by
  by_cases hcapital : 'A' ≤ c ∧ c ≤ 'Z'
  · have hletters : ∀ n < 91, 65 ≤ n → 97 ≤ (Char.ofNat n).toLower.toNat := by decide
    have hlow : 65 ≤ c.toNat := hcapital.1
    have hhigh : c.toNat ≤ 90 := hcapital.2
    have hletter := hletters c.toNat (by omega) hlow
    rw [Char.ofNat_toNat, h] at hletter
    omega
  · rw [← h, toLower_of_not_capital hcapital]

/-- A host without a port does not end like a host with one. -/
theorem host_ne_of_port {cs before : List Char} (h : IsHost cs) (n : Nat) :
    cs.map Char.toLower ≠ before ++ ':' :: decimalChars n := by
  intro hsame
  cases h with
  | name some chars =>
      have hcolon : ':' ∈ cs.map Char.toLower := by simp [hsame]
      obtain ⟨c, hc, hlower⟩ := List.mem_map.mp hcolon
      exact ne_of_isNameChar (chars c hc) rfl (toLower_eq_mark (by decide) hlower)
  | @address cs zone _ reads zoned =>
      have hend : ('[' :: (cs ++ zone ++ [']'])).getLast? = some ']' := by
        rw [← List.cons_append, List.getLast?_concat]
      have hlast := congrArg List.getLast? hsame
      rw [List.getLast?_map, hend, List.getLast?_append_of_ne_nil _ (by simp)] at hlast
      have hclose : ']' ∈ ':' :: decimalChars n := List.mem_of_getLast? hlast.symm
      have hdecimal : ']' ∉ decimalChars n := not_mem_digits (decimalChars_all_isDigit n) rfl
      simp [hdecimal] at hclose

theorem hasPlainPort_of_lower {p : Place} {before : String} {n : Nat}
    (h : lower p.text = before ++ ":" ++ decimal n) : p.HasPlainPort := by
  have hchars : p.chars.map Char.toLower = before.toList ++ ':' :: decimalChars n := by
    simpa [lower, text, decimal, ← String.toList_inj] using h
  cases hport : p.port with
  | none =>
      rw [chars, hport, portChars, List.append_nil] at hchars
      exact absurd hchars (host_ne_of_port p.isHost n)
  | some port =>
      have hwritten : p.host.map Char.toLower ++ ':' :: port.digits =
          before.toList ++ ':' :: decimalChars n := by
        rw [chars, hport, portChars, List.map_append, List.map_cons,
          map_toLower_of_digits port.chars] at hchars
        exact hchars
      have hnumber : ':' ∉ decimalChars n := not_mem_digits (decimalChars_all_isDigit n) rfl
      have hcolon : ':' ∉ port.digits := not_mem_digits port.chars rfl
      have hread := congrArg splitLastColon hwritten
      rw [splitLastColon_append hcolon, splitLastColon_append hnumber, Option.some.injEq,
        Prod.mk.injEq] at hread
      refine ⟨port, hport, ?_⟩
      rw [Port.number, hread.2, digitsValue_decimalChars]

/-- The bridge's own names all end in its port. -/
theorem exists_of_mem_names {bound : SocketAddress} {host : String}
    (h : host ∈ (AllowedHosts.make bound []).hosts) :
    ∃ before, host = before ++ ":" ++ decimal bound.port := by
  simp only [AllowedHosts.make, List.map_nil, List.append_nil, List.mem_append, List.mem_map,
    List.mem_singleton] at h
  rcases h with ⟨name, -, rfl⟩ | rfl
  · exact ⟨name, rfl⟩
  · unfold SocketAddress.text
    split
    · exact ⟨_, rfl⟩
    · next scope _ =>
        have hmarks : "]:" = "]" ++ ":" := rfl
        rw [hmarks, ← String.append_assoc]
        exact ⟨_, rfl⟩

end Place

/-- A bridge that is bound to an address and given further hosts lets a request pass. -/
def Passes (bound : SocketAddress) (whitelist : List String) (headers : Headers) : Prop :=
  (AllowedHosts.make bound whitelist).check headers = .ok ()

/-- A request that comes from the very host it names passes exactly when that host is allowed with
its port, or with the port of plain addresses when it has none. It is for a host with a port in
plain decimal, and for every host that needs no list. -/
theorem same_origin_judged (bound : SocketAddress) (whitelist : List String) (p : Place)
    (path : String) (hpath : ∀ c ∈ path.toList, isPathChar c = true ∧ c.toNat < 0x7F)
    (hfits : ("http://" ++ p.text ++ "/" ++ path).utf8ByteSize < 65535)
    (hhost : Passes bound whitelist p.request) :
    (Passes bound whitelist (p.requestFrom "Origin" ("http://" ++ p.text)) ↔
        p.hostAndPort ∈ (AllowedHosts.make bound whitelist).hosts) ∧
      (Passes bound whitelist (p.requestFrom "Referer" ("http://" ++ p.text ++ "/" ++ path)) ↔
        p.hostAndPort ∈ (AllowedHosts.make bound whitelist).hosts) ∧
      (p.HasPlainPort ∨ Passes bound [] p.request →
        p.hostAndPort ∈ (AllowedHosts.make bound whitelist).hosts) := by
  refine ⟨?_, ?_, ?_⟩
  · have hsize : p.origin.text.utf8ByteSize < 65535 := by
      simp only [p.origin_text, String.utf8ByteSize_append] at hfits ⊢
      omega
    rw [Passes, ← p.origin_text]
    exact p.requestFrom_passes_iff hhost (by decide) p.origin_plain hsize
  · have hchars : ∀ c ∈ path.toList, isPathChar c = true := fun c hc => (hpath c hc).1
    have hplain := p.page_plain hchars fun c hc => (hpath c hc).2
    rw [Passes, ← p.page_text path hchars]
    rw [← p.page_text path hchars] at hfits
    exact p.requestFrom_passes_iff hhost (by decide) hplain hfits
  · intro h
    have hport : p.HasPlainPort := by
      rcases h with hport | hown
      · exact hport
      · obtain ⟨before, hbefore⟩ := Place.exists_of_mem_names (p.request_passes_iff.mp hown)
        exact Place.hasPlainPort_of_lower hbefore
    rw [← Place.lower_text_of_plainPort hport]
    exact p.request_passes_iff.mp hhost

def listedPlace : Place where
  host := "Wallet.Local".toList
  isHost := .name (by decide) (List.all_eq_true.mp rfl)
  port := some ⟨"80".toList, by decide, List.all_eq_true.mp rfl, by decide⟩

theorem same_origin_judged_listed :
    listedPlace.text = "Wallet.Local:80" ∧
      Passes ⟨.v4 127 0 0 1, 9510⟩ ["wallet.local:80"] listedPlace.request ∧
      Passes ⟨.v4 127 0 0 1, 9510⟩ ["wallet.local:80"]
        (listedPlace.requestFrom "Origin" ("http://" ++ listedPlace.text)) ∧
      Passes ⟨.v4 127 0 0 1, 9510⟩ ["wallet.local:80"]
        (listedPlace.requestFrom "Referer" ("http://" ++ listedPlace.text ++ "/" ++ "page")) := by
  have hhost : Passes ⟨.v4 127 0 0 1, 9510⟩ ["wallet.local:80"] listedPlace.request :=
    listedPlace.request_passes_iff.mpr (by decide +kernel)
  have hport : listedPlace.HasPlainPort := ⟨_, rfl, by decide +kernel⟩
  obtain ⟨horigin, hreferer, hallowed⟩ := same_origin_judged ⟨.v4 127 0 0 1, 9510⟩
    ["wallet.local:80"] listedPlace "page" (by simp [isPathChar]) (by decide +kernel) hhost
  have hmem := hallowed (.inl hport)
  exact ⟨by decide +kernel, hhost, horigin.mpr hmem, hreferer.mpr hmem⟩

/-- A listed host without a port. -/
def barePlace : Place where
  host := "example.com".toList
  isHost := .name (by decide) (List.all_eq_true.mp rfl)

/-- The host passes as it is named, and is refused where the request comes from it. -/
theorem bare_host_refused :
    barePlace.text = "example.com" ∧
      Passes ⟨.v4 127 0 0 1, 9510⟩ ["example.com"] barePlace.request ∧
      ¬ Passes ⟨.v4 127 0 0 1, 9510⟩ ["example.com"]
        (barePlace.requestFrom "Origin" "http://example.com") := by
  have hhost : Passes ⟨.v4 127 0 0 1, 9510⟩ ["example.com"] barePlace.request :=
    barePlace.request_passes_iff.mpr (by decide +kernel)
  have htext : barePlace.origin.text = "http://example.com" := by decide +kernel
  have hsize : barePlace.origin.text.utf8ByteSize < 65535 := by decide +kernel
  refine ⟨by decide +kernel, hhost, ?_⟩
  rw [Passes, ← htext,
    barePlace.requestFrom_passes_iff hhost (by decide) barePlace.origin_plain hsize]
  decide +kernel

end WalletBridge.Http
