import WalletBridge.Proofs.Config.Whitelist
import WalletBridge.Proofs.Http.WebAddress

/-! # Who is allowed

The bridge allows the address that it is bound to, the names of this machine with
its port, and the hosts of the list that it is given, all in any case. Addresses
are written in lower case, so the bound one is found however it is spelled.
-/

namespace WalletBridge.Http

open Config Net Text

/-! ## Addresses are in lower case -/

theorem toLower_hexDigit {d : Nat} (h : d < 16) : (hexDigit d).toLower = hexDigit d := by
  have hdigits : ∀ d < 16, (hexDigit d).toLower = hexDigit d := by decide
  exact hdigits d h

theorem map_toLower_hexChars (n : Nat) : (hexChars n).map Char.toLower = hexChars n := by
  induction n using hexChars.induct with
  | case1 n hsmall =>
      rw [hexChars, if_pos hsmall, List.map_singleton, toLower_hexDigit hsmall]
  | case2 n hlarge ih =>
      have hlast : n % 16 < 16 := Nat.mod_lt n (by decide)
      rw [hexChars, if_neg hlarge, List.map_append, ih, List.map_singleton, toLower_hexDigit hlast]

theorem lower_intercalate {separator : String} {parts : List String}
    (hseparator : lower separator = separator) (h : ∀ part ∈ parts, lower part = part) :
    lower (String.intercalate separator parts) = String.intercalate separator parts := by
  induction parts with
  | nil => rfl
  | cons part rest ih =>
      rw [List.forall_mem_cons] at h
      cases rest with
      | nil => simpa using h.1
      | cons next rest =>
          rw [String.intercalate_cons_cons, lower_append, lower_append, hseparator, h.1, ih h.2]

theorem lower_dotted (a b c d : Nat) : lower (dotted a b c d) = dotted a b c d := by
  refine lower_intercalate (by decide) ?_
  simp only [List.forall_mem_map]
  exact fun n _ => lower_decimal n

theorem lower_groupsText (groups : List Nat) : lower (groupsText groups) = groupsText groups := by
  refine lower_intercalate (by decide) ?_
  simp only [List.forall_mem_map]
  intro g _
  rw [lower, String.toList_ofList, map_toLower_hexChars]

theorem lower_ipText (ip : Ip) : lower ip.text = ip.text := by
  cases ip with
  | v4 a b c d => exact lower_dotted a b c d
  | v6 groups scope =>
      have hcolons : lower "::" = "::" := by decide
      unfold Ip.text
      dsimp only
      split
      · have hmapped : lower "::ffff:" = "::ffff:" := by decide
        rw [lower_append, lower_dotted, hmapped]
      · split
        · rw [lower_append, lower_append, hcolons, lower_groupsText, lower_groupsText]
        · exact lower_groupsText groups

theorem lower_addressText (a : SocketAddress) : lower a.text = a.text := by
  rw [SocketAddress.text]
  split
  · rw [lower_hostAndPort, lower_ipText]
  · next scope _ =>
      have hopen : lower "[" = "[" := by decide
      have hclose : lower "]:" = "]:" := by decide
      have hscope : lower (if scope == 0 then "" else "%" ++ decimal scope) =
          if scope == 0 then "" else "%" ++ decimal scope := by
        split
        · rfl
        · have hpercent : lower "%" = "%" := by decide
          rw [lower_append, lower_decimal, hpercent]
      simp only [lower_append, lower_decimal, lower_ipText, hopen, hclose, hscope]

/-! ## Hosts of the bridge and of its list -/

/-- A name of the bridge itself: the address that it is bound to, or a name of this machine with
its port. -/
def OwnName (bound : SocketAddress) (name : String) : Prop :=
  name = bound.text ∨
    ∃ machine ∈ ["localhost", "127.0.0.1", "[::1]"], name = machine ++ ":" ++ decimal bound.port

theorem lower_ownName {bound : SocketAddress} {name : String} (h : OwnName bound name) :
    lower name = name := by
  rcases h with rfl | ⟨machine, hmachine, rfl⟩
  · exact lower_addressText bound
  · have hmachines : ∀ m ∈ ["localhost", "127.0.0.1", "[::1]"], lower m = m := by decide
    rw [lower_hostAndPort, hmachines machine hmachine]

theorem mem_make_iff {bound : SocketAddress} {hosts : List String} {host : String} :
    host ∈ (AllowedHosts.make bound hosts).hosts ↔
      OwnName bound host ∨ ∃ listed ∈ hosts, host = lower listed := by
  simp only [AllowedHosts.make, AllowedHosts.loopbackNames, OwnName, List.mem_append, List.mem_map,
    List.mem_singleton, eq_comm (a := host)]
  exact or_congr_left or_comm

theorem contains_make_iff {bound : SocketAddress} {hosts : List String} {host : String} :
    (AllowedHosts.make bound hosts).contains host = true ↔
      (∃ name, OwnName bound name ∧ lower host = lower name) ∨
        ∃ listed ∈ hosts, lower host = lower listed := by
  rw [AllowedHosts.contains, List.contains_iff_mem, mem_make_iff]
  refine or_congr_left ?_
  constructor
  · intro hown
    exact ⟨lower host, hown, (lower_ownName hown).symm⟩
  · rintro ⟨name, hown, hsame⟩
    rwa [hsame, lower_ownName hown]

/-- A list of hosts is read part by part and in order: a comma between two lists puts the one
before the other, and a list without a comma is its own entry unless it is blank. An entry holds
something, has no comma and no blank at its ends, and the entries with commas between them read as
themselves. In any case of the letters, the bridge allows its own names and what the list names. -/
theorem whitelist_faithful :
    (∀ a b, parseWhitelist (a ++ "," ++ b) = parseWhitelist a ++ parseWhitelist b) ∧
    (∀ text : String, ',' ∉ text.toList →
      parseWhitelist text = if trim text = "" then [] else [trim text]) ∧
    (∀ text, ∀ host ∈ parseWhitelist text, Entry host) ∧
    (∀ text, parseWhitelist (String.intercalate "," (parseWhitelist text)) =
      parseWhitelist text) ∧
    ∀ bound text host,
      (AllowedHosts.make bound (parseWhitelist text)).contains host = true ↔
        (∃ name, OwnName bound name ∧ lower host = lower name) ∨
          ∃ listed, Listed text listed ∧ lower host = lower listed := by
  have hentries (text : String) : ∀ host ∈ parseWhitelist text, Entry host :=
    fun host hmem => entry_of_listed (mem_parseWhitelist_iff.mp hmem)
  refine ⟨parseWhitelist_append, fun _ => parseWhitelist_single, hentries, ?_, ?_⟩
  · exact fun text => parseWhitelist_intercalate (hentries text)
  · intro bound text host
    simp only [contains_make_iff, mem_parseWhitelist_iff]

/-- A list with blanks around its hosts and nothing between two commas. -/
theorem whitelist_faithful_padded :
    parseWhitelist " Wallet.Local:9510, ,example.com " = ["Wallet.Local:9510", "example.com"] ∧
      Entry "Wallet.Local:9510" ∧
      parseWhitelist " only.local\t" = ["only.local"] ∧
      (AllowedHosts.make ⟨.v6 [0xfe80, 0, 0, 0, 0, 0, 0, 1] 2, 9510⟩
        (parseWhitelist " Wallet.Local:9510, ,example.com ")).contains "[FE80::1%2]:9510" := by
  have hread : parseWhitelist " Wallet.Local:9510, ,example.com " =
      ["Wallet.Local:9510", "example.com"] := by decide +kernel
  obtain ⟨-, hsingle, hentries, -, hallowed⟩ := whitelist_faithful
  refine ⟨hread, hentries " Wallet.Local:9510, ,example.com " _ (by simp [hread]), ?_, ?_⟩
  · rw [hsingle " only.local\t" (by decide)]
    decide +kernel
  · refine (hallowed _ _ _).mpr (.inl ⟨_, .inl rfl, ?_⟩)
    decide +kernel

end WalletBridge.Http
