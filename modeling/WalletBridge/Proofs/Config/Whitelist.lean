import WalletBridge.Config.Check
import WalletBridge.Proofs.Text.Parts
import WalletBridge.Proofs.Text.Trim

/-! # Lists of hosts

A list of hosts is read part by part, in order: each part between commas is
trimmed, and the parts that hold nothing are passed over. So two lists with a
comma between them read as the one followed by the other, and a list that was
read is read back from its entries with commas between them.
-/

namespace WalletBridge.Config

open Text

/-! ## Parts between commas -/

/-- A part of a text that commas or the ends of the text enclose. -/
def Part (part text : List Char) : Prop :=
  ',' ∉ part ∧ ∃ before after, (before = [] ∨ ∃ front, before = front ++ [',']) ∧
    (after = [] ∨ ∃ back, after = ',' :: back) ∧ text = before ++ part ++ after

section
variable {cs part : List Char} {parts : List (List Char)}

/-- What stands before and after one of the parts that are put together with commas. -/
theorem mem_intercalate (h : part ∈ parts) :
    ∃ before after, (before = [] ∨ ∃ front, before = front ++ [',']) ∧
      (after = [] ∨ ∃ back, after = ',' :: back) ∧
      [','].intercalate parts = before ++ part ++ after := by
  induction parts with
  | nil => cases h
  | cons first rest ih =>
      cases rest with
      | nil =>
          rw [List.mem_singleton.mp h]
          exact ⟨[], [], .inl rfl, .inl rfl, by simp⟩
      | cons second rest =>
          rw [List.intercalate_cons_cons]
          rcases List.mem_cons.mp h with rfl | hlater
          · exact ⟨[], ',' :: [','].intercalate (second :: rest), .inl rfl, .inr ⟨_, rfl⟩, by simp⟩
          · obtain ⟨before, after, hbefore, hafter, htext⟩ := ih hlater
            refine ⟨first ++ [','] ++ before, after, .inr ?_, hafter, by simp [htext]⟩
            rcases hbefore with rfl | ⟨front, rfl⟩
            · exact ⟨first, by simp⟩
            · exact ⟨first ++ [','] ++ front, by simp⟩

theorem mem_splitOn_iff : part ∈ cs.splitOn ',' ↔ Part part cs := by
  constructor
  · intro h
    have hparts : [','].intercalate (cs.splitOn ',') = cs := List.intercalate_splitOn ','
    have haround := mem_intercalate h
    rw [hparts] at haround
    exact ⟨not_mem_of_mem_splitOn h, haround⟩
  · rintro ⟨hnone, before, after, hbefore, hafter, rfl⟩
    have hend : part ∈ (part ++ after).splitOn ',' := by
      rcases hafter with rfl | ⟨back, rfl⟩
      · rw [List.append_nil, List.splitOn_eq_singleton hnone]
        exact List.mem_singleton_self part
      · rw [List.splitOn_append_cons_self, List.splitOn_eq_singleton hnone]
        exact List.mem_append_left _ (List.mem_singleton_self part)
    rcases hbefore with rfl | ⟨front, rfl⟩
    · exact hend
    · rw [List.append_assoc, List.append_assoc, List.singleton_append,
        List.splitOn_append_cons_self]
      exact List.mem_append_right _ hend

end

/-! ## Entries -/

/-- A host that a list names: a part of it without the blanks around it, if that is anything. -/
def Listed (text host : String) : Prop :=
  host ≠ "" ∧ ∃ part, Part part text.toList ∧ Trims part host.toList

def Entry (host : String) : Prop := host ≠ "" ∧ ',' ∉ host.toList ∧ Trimmed host.toList

section
variable {text host : String}

theorem parseWhitelist_append (a b : String) :
    parseWhitelist (a ++ "," ++ b) = parseWhitelist a ++ parseWhitelist b := by
  have htext : (a ++ "," ++ b).toList = a.toList ++ ',' :: b.toList := by simp
  simp only [parseWhitelist, htext, List.splitOn_append_cons_self, List.map_append,
    List.filter_append]

/-- A list without a comma has one entry, or none if it holds nothing but blanks. -/
theorem parseWhitelist_single (h : ',' ∉ text.toList) :
    parseWhitelist text = if trim text = "" then [] else [trim text] := by
  rw [parseWhitelist, List.splitOn_eq_singleton h, List.map_singleton, List.filter_singleton]
  cases htrim : trimChars text.toList with
  | nil => simp [trim, htrim]
  | cons c cs => simp [trim, htrim, ← String.toList_inj]

theorem mem_parseWhitelist_iff : host ∈ parseWhitelist text ↔ Listed text host := by
  simp only [parseWhitelist, List.mem_map, List.mem_filter, mem_splitOn_iff, Listed, trims_iff]
  constructor
  · rintro ⟨inner, ⟨⟨part, hpart, rfl⟩, hsome⟩, rfl⟩
    refine ⟨?_, part, hpart, by simp⟩
    intro hnothing
    simp [String.ofList_eq_empty_iff.mp hnothing] at hsome
  · rintro ⟨hsome, part, hpart, htrims⟩
    refine ⟨host.toList, ⟨⟨part, hpart, htrims⟩, ?_⟩, by simp⟩
    simpa using hsome

theorem entry_of_listed (h : Listed text host) : Entry host := by
  obtain ⟨hsome, part, ⟨hnone, -⟩, htrimmed, front, back, -, -, rfl⟩ := h
  refine ⟨hsome, ?_, htrimmed⟩
  intro hcomma
  exact hnone (by simp [hcomma])

theorem parseWhitelist_entry (h : Entry host) : parseWhitelist host = [host] := by
  obtain ⟨hsome, hnone, htrimmed⟩ := h
  have htrim : trim host = host := by
    rw [trim, trimChars_of_trimmed htrimmed, String.ofList_toList]
  rw [parseWhitelist_single hnone, htrim, if_neg hsome]

theorem parseWhitelist_intercalate {hosts : List String} (h : ∀ host ∈ hosts, Entry host) :
    parseWhitelist (String.intercalate "," hosts) = hosts := by
  induction hosts with
  | nil => rfl
  | cons host hosts ih =>
      rw [List.forall_mem_cons] at h
      cases hosts with
      | nil =>
          have hone : String.intercalate "," [host] = host := by simp
          rw [hone, parseWhitelist_entry h.1]
      | cons next rest =>
          rw [String.intercalate_cons_cons, parseWhitelist_append, parseWhitelist_entry h.1,
            ih h.2, List.singleton_append]

end

end WalletBridge.Config
