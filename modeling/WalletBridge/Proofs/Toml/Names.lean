import Mathlib.Data.List.Nodup
import WalletBridge.Toml.Document

/-! # A file gives each name once

A table under construction has every name once, and so have the tables right
inside it. A change deep inside a table replaces one member of it, so only the
names at the place of the change and one level below have to be looked at. What
is read of a whole file therefore names nothing twice, neither on the outside nor
in any of its tables.
-/

namespace WalletBridge.Toml

/-- A table has every name once. -/
def Value.NamesOnce : Value → Prop
  | .table members => (members.map (·.1)).Nodup
  | _ => True

def Node.NamesOnce : Node → Prop
  | .leaf v => v.NamesOnce
  | .table _ _ members => (members.map (·.1)).Nodup
  | .series _ => True

theorem memberValues_names (members : List (String × Node)) :
    (memberValues members).map (·.1) = members.map (·.1) := by
  induction members with
  | nil => rfl
  | cons m rest ih =>
      obtain ⟨name, node⟩ := m
      simp only [memberValues, List.map_cons, ih]

theorem mem_memberValues {members : List (String × Node)} {name : String} {v : Value}
    (h : (name, v) ∈ memberValues members) :
    ∃ node, (name, node) ∈ members ∧ v = node.value := by
  induction members with
  | nil => cases h
  | cons m rest ih =>
      obtain ⟨other, node⟩ := m
      simp only [memberValues, List.mem_cons, Prod.mk.injEq] at h
      rcases h with ⟨rfl, rfl⟩ | h
      · exact ⟨node, by simp, rfl⟩
      · obtain ⟨found, hfound, hv⟩ := ih h
        exact ⟨found, List.mem_cons_of_mem _ hfound, hv⟩

theorem Node.NamesOnce.value {node : Node} (h : node.NamesOnce) : node.value.NamesOnce := by
  cases node with
  | leaf v => exact h
  | table implied dotted members =>
      show ((memberValues members).map (·.1)).Nodup
      rw [memberValues_names]
      exact h
  | series tables => trivial

namespace Table

def NamesOnce (t : Table) : Prop := (t.members.map (·.1)).Nodup

/-- The tables right inside it have every name once. -/
structure Tidy (t : Table) : Prop where
  once : t.NamesOnce
  inside : ∀ m ∈ t.members, m.2.NamesOnce

theorem tidy_empty (implied dotted : Bool) : ({ implied, dotted } : Table).Tidy :=
  ⟨.nil, by simp⟩

variable {t u : Table} {name : String} {node : Node}

theorem not_mem_of_find? (h : (t.find? name).isSome = false) : name ∉ t.members.map (·.1) := by
  have hnone : t.find? name = none := by simpa using h
  intro hmem
  obtain ⟨m, hm, rfl⟩ := List.mem_map.mp hmem
  simp only [find?, Option.map_eq_none_iff, List.find?_eq_none] at hnone
  exact hnone m hm (by simp)

theorem set_names (t : Table) (name : String) (node : Node) :
    (t.set name node).members.map (·.1) =
      t.members.map (·.1) ++ if (t.find? name).isSome then [] else [name] := by
  unfold set
  by_cases hfound : (t.find? name).isSome
  · have hsame : ∀ m : String × Node,
        (if m.1 == name then (name, node) else m).1 = m.1 := by
      intro m
      by_cases hm : m.1 = name <;> simp [hm]
    simp only [hfound, if_true, List.map_map, Function.comp_def, hsame, List.append_nil]
  · simp [hfound]

theorem NamesOnce.set (h : t.NamesOnce) (name : String) (node : Node) :
    (t.set name node).NamesOnce := by
  unfold NamesOnce
  rw [set_names]
  cases hfound : (t.find? name).isSome with
  | true =>
      rw [if_pos rfl, List.append_nil]
      exact h
  | false =>
      have hnew := not_mem_of_find? hfound
      rw [if_neg (by simp), List.nodup_append]
      refine ⟨h, by simp, ?_⟩
      intro x hx y hy hxy
      rw [List.mem_singleton] at hy
      rw [hxy, hy] at hx
      exact hnew hx

theorem Tidy.set (h : t.Tidy) (name : String) (hnode : node.NamesOnce) :
    (t.set name node).Tidy := by
  refine ⟨h.once.set name node, ?_⟩
  intro m hm
  unfold Table.set at hm
  split at hm
  · obtain ⟨old, hold, rfl⟩ := List.mem_map.mp hm
    by_cases hname : old.1 == name
    · simpa [hname] using hnode
    · simpa [hname] using h.inside old hold
  · rcases List.mem_append.mp hm with hold | hnew
    · exact h.inside m hold
    · rw [List.mem_singleton.mp hnew]
      exact hnode

theorem NamesOnce.erase (h : t.NamesOnce) (name : String) : (t.erase name).NamesOnce :=
  (List.filter_sublist.map _).nodup h

theorem Tidy.erase (h : t.Tidy) (name : String) : (t.erase name).Tidy :=
  ⟨h.once.erase name, fun m hm => h.inside m (List.mem_filter.mp hm).1⟩

theorem Tidy.find? (h : t.Tidy) (hfind : t.find? name = some node) : node.NamesOnce := by
  unfold Table.find? at hfind
  obtain ⟨m, hm, rfl⟩ := Option.map_eq_some_iff.mp hfind
  exact h.inside m (List.mem_of_find?_eq_some hm)

/-! ## Changes inside a table -/

section
variable {α : Type} {a : α} {dotted : Bool} {path : List String}
  {change : Table → Option (Table × α)}

theorem changeAt_below (h : changeAt dotted change (name :: path) t = some (u, a)) :
    (∃ child inner, changeAt dotted change path inner = some (child, a) ∧
        u = t.set name child.node ∧ (t.Tidy → inner.NamesOnce)) ∨
      ∃ tables, u = t.set name (.series tables) := by
  simp only [changeAt] at h
  split at h
  · obtain ⟨⟨child, b⟩, hchild, hu⟩ := Option.bind_eq_some_iff.mp h
    cases hu
    exact .inl ⟨child, _, hchild, rfl, fun _ => .nil⟩
  · cases h
  · split at h
    · cases h
    · obtain ⟨⟨child, b⟩, -, hu⟩ := Option.bind_eq_some_iff.mp h
      cases hu
      exact .inr ⟨_, rfl⟩
  · next implied isDotted members hfind =>
      split at h
      · cases h
      · obtain ⟨⟨child, b⟩, hchild, hu⟩ := Option.bind_eq_some_iff.mp h
        cases hu
        exact .inl ⟨child, _, hchild, rfl, fun ht => ht.find? hfind⟩

theorem changeAt_once (hchange : ∀ t u a, change t = some (u, a) → t.NamesOnce → u.NamesOnce)
    (h : changeAt dotted change path t = some (u, a)) (ht : t.NamesOnce) : u.NamesOnce := by
  cases path with
  | nil => exact hchange t u a h ht
  | cons name path =>
      rcases changeAt_below h with ⟨child, inner, -, rfl, -⟩ | ⟨tables, rfl⟩
      · exact ht.set name child.node
      · exact ht.set name _

theorem changeAt_tidy (honce : ∀ t u a, change t = some (u, a) → t.NamesOnce → u.NamesOnce)
    (htidy : path = [] → ∀ u a, change t = some (u, a) → u.Tidy)
    (h : changeAt dotted change path t = some (u, a)) (ht : t.Tidy) : u.Tidy := by
  cases path with
  | nil => exact htidy rfl u a h
  | cons name path =>
      rcases changeAt_below h with ⟨child, inner, hchild, rfl, hinner⟩ | ⟨tables, rfl⟩
      · have hchild : child.NamesOnce := changeAt_once honce hchild (hinner ht)
        exact ht.set name hchild
      · exact ht.set name trivial

end

theorem addValue_eq_some {path : List String} {v : Value} (h : t.addValue path name v = some u) :
    ∃ change : Table → Option (Table × Unit), changeAt true change path t = some (u, ()) ∧
      ∀ t u a, change t = some (u, a) → u = t.set name (.leaf v) := by
  obtain ⟨⟨result, done⟩, hresult, rfl⟩ := Option.map_eq_some_iff.mp h
  refine ⟨_, hresult, ?_⟩
  intro inner u a hchange
  split at hchange
  · cases hchange
  · cases hchange
    rfl

theorem NamesOnce.addValue {path : List String} {v : Value} (ht : t.NamesOnce)
    (h : t.addValue path name v = some u) : u.NamesOnce := by
  obtain ⟨change, hchange, hset⟩ := addValue_eq_some h
  refine changeAt_once (fun t u a hu ht => ?_) hchange ht
  rw [hset t u a hu]
  exact ht.set name _

theorem Tidy.addValue {path : List String} {v : Value} (ht : t.Tidy) (hv : v.NamesOnce)
    (h : t.addValue path name v = some u) : u.Tidy := by
  obtain ⟨change, hchange, hset⟩ := addValue_eq_some h
  refine changeAt_tidy (fun t u a hu ht => ?_) (fun _ u a hu => ?_) hchange ht
  · rw [hset t u a hu]
    exact ht.set name _
  · rw [hset t u a hu]
    exact ht.set name hv

end Table

/-! ## Values -/

theorem inlineMembers_once {item : Scan Value} {fuel : Nat} {t u : Table} {cs rest : List Char}
    (h : inlineMembers? item fuel t cs = some (u, rest)) (ht : t.NamesOnce) : u.NamesOnce := by
  induction fuel generalizing t cs with
  | zero => cases h
  | succ fuel ih =>
      simp only [inlineMembers?] at h
      obtain ⟨⟨⟨path, name, v⟩, more⟩, -, h⟩ := Option.bind_eq_some_iff.mp h
      obtain ⟨added, hadded, h⟩ := Option.bind_eq_some_iff.mp h
      have hnext : added.NamesOnce := ht.addValue hadded
      dsimp only at h
      split at h
      · exact ih h hnext
      · cases h
        exact hnext
      · cases h

theorem inlineTable_once {item : Scan Value} {cs rest : List Char} {v : Value}
    (h : inlineTable? item cs = some (v, rest)) : v.NamesOnce := by
  unfold inlineTable? at h
  split at h
  · cases h
    exact .nil
  · obtain ⟨⟨t, more⟩, ht, hv⟩ := Option.map_eq_some_iff.mp h
    cases hv
    have honce : t.NamesOnce := inlineMembers_once ht (Table.tidy_empty false false).once
    have hnode : t.node.NamesOnce := honce
    exact hnode.value

theorem number_once {cs rest : List Char} {v : Value} (h : number? cs = some (v, rest)) :
    v.NamesOnce := by
  unfold number? at h
  split at h
  · cases h
    trivial
  · split at h
    · cases h
      trivial
    · split at h
      · cases h
        trivial
      · obtain ⟨⟨n, more⟩, -, hv⟩ := Option.map_eq_some_iff.mp h
        cases hv
        trivial

theorem value_once {depth : Nat} {cs rest : List Char} {v : Value}
    (h : value? depth cs = some (v, rest)) : v.NamesOnce := by
  unfold value? at h
  split at h
  · split at h
    · cases h
    · obtain ⟨⟨l, more⟩, -, hv⟩ := Option.map_eq_some_iff.mp h
      cases hv
      trivial
  · split at h
    · cases h
    · exact inlineTable_once h
  · cases h
    trivial
  · cases h
    trivial
  · split at h
    · cases h
      trivial
    · exact number_once h

theorem member_once {depth : Nat} {cs rest : List Char} {path : List String} {name : String}
    {v : Value} (h : member? (value? depth) cs = some ((path, name, v), rest)) :
    v.NamesOnce := by
  unfold member? at h
  obtain ⟨⟨parts, more⟩, -, h⟩ := Option.bind_eq_some_iff.mp h
  obtain ⟨more, -, h⟩ := Option.bind_eq_some_iff.mp h
  obtain ⟨⟨w, more⟩, hw, h⟩ := Option.bind_eq_some_iff.mp h
  obtain ⟨last, -, h⟩ := Option.bind_eq_some_iff.mp h
  cases h
  exact value_once hw

/-! ## Lines -/

namespace Reading

/-- What has been read names nothing twice. How deep that has to be known of the current table
depends on how deep it is put. -/
structure Tidy (r : Reading) : Prop where
  root : r.root.Tidy
  current : r.path.length ≤ 1 → r.current.NamesOnce
  first : r.path = [] → r.current.Tidy

variable {r s : Reading}

theorem Tidy.close (h : r.Tidy) {t : Table} (hclose : r.close = some t) : t.Tidy := by
  unfold Reading.close at hclose
  cases hlast : r.path.getLast? with
  | none =>
      rw [hlast] at hclose
      cases hclose
      exact h.first (List.getLast?_eq_none_iff.mp hlast)
  | some name =>
      rw [hlast] at hclose
      obtain ⟨⟨root, done⟩, hroot, rfl⟩ := Option.map_eq_some_iff.mp hclose
      refine Table.changeAt_tidy ?_ ?_ hroot h.root
      · intro parent u a hplace hparent
        split at hplace
        · cases hplace
          exact hparent.set name _
        · cases hplace
          exact hparent.set name _
        · cases hplace
        · cases hplace
          exact hparent.set name _
        · cases hplace
          exact hparent.set name _
        · cases hplace
      · intro hpath u a hplace
        have hcurrent : r.current.NamesOnce := by
          have hlength := congrArg List.length hpath
          rw [List.length_dropLast, List.length_nil] at hlength
          exact h.current (by omega)
        split at hplace
        · cases hplace
          exact h.root.set name trivial
        · cases hplace
          exact h.root.set name trivial
        · cases hplace
        · cases hplace
          exact h.root.set name hcurrent
        · cases hplace
          exact h.root.set name hcurrent
        · cases hplace

theorem claim_once {name : String} {parent u a : Table} (h : claim name parent = some (u, a)) :
    (parent.NamesOnce → u.NamesOnce) ∧ (parent.Tidy → u.Tidy ∧ a.NamesOnce) := by
  unfold claim at h
  split at h
  · cases h
    exact ⟨id, fun hparent => ⟨hparent, .nil⟩⟩
  · next members hfind =>
      cases h
      refine ⟨fun hparent => hparent.erase name, fun hparent => ⟨hparent.erase name, ?_⟩⟩
      exact hparent.find? hfind
  · cases h

theorem Tidy.openTable (h : r.Tidy) {path : List String} (hopen : r.openTable path = some s) :
    s.Tidy := by
  unfold Reading.openTable at hopen
  obtain ⟨root, hroot, hopen⟩ := Option.bind_eq_some_iff.mp hopen
  obtain ⟨name, hname, hopen⟩ := Option.bind_eq_some_iff.mp hopen
  obtain ⟨⟨claimed, current⟩, hclaim, hopen⟩ := Option.bind_eq_some_iff.mp hopen
  cases hopen
  have htidy : root.Tidy := h.close hroot
  refine ⟨?_, ?_, ?_⟩
  · exact Table.changeAt_tidy (fun _ _ _ hc => (claim_once hc).1)
      (fun _ _ _ hc => ((claim_once hc).2 htidy).1) hclaim htidy
  · intro (hlength : path.length ≤ 1)
    have hpath : path.dropLast = [] := by
      rw [← List.length_eq_zero_iff, List.length_dropLast]
      omega
    rw [hpath] at hclaim
    exact ((claim_once hclaim).2 htidy).2
  · intro hpath
    have hempty : path = [] := hpath
    rw [hempty] at hname
    cases hname

theorem Tidy.openSeries (h : r.Tidy) {path : List String} (hopen : r.openSeries path = some s) :
    s.Tidy := by
  unfold Reading.openSeries at hopen
  obtain ⟨root, hroot, hopen⟩ := Option.bind_eq_some_iff.mp hopen
  obtain ⟨name, hname, hopen⟩ := Option.bind_eq_some_iff.mp hopen
  obtain ⟨⟨checked, done⟩, hcheck, hopen⟩ := Option.bind_eq_some_iff.mp hopen
  cases hopen
  have htidy : root.Tidy := h.close hroot
  refine ⟨?_, fun _ => .nil, fun _ => Table.tidy_empty false false⟩
  refine Table.changeAt_tidy ?_ ?_ hcheck htidy
  · intro parent u a hparent honce
    split at hparent
    · cases hparent
      exact honce.set name _
    · cases hparent
      exact honce
    · cases hparent
  · intro _ u a hparent
    split at hparent
    · cases hparent
      exact htidy.set name trivial
    · cases hparent
      exact htidy
    · cases hparent

/-- A line is a header of a list of tables, the header of a table, or a member of the current
table. -/
theorem line_cases {cs rest : List Char} (h : r.line? cs = some (s, rest)) :
    (∃ path, r.openSeries path = some s) ∨ (∃ path, r.openTable path = some s) ∨
      ∃ path name v more current,
        member? (value? (tooDeep - 1)) cs = some ((path, name, v), more) ∧
        r.current.addValue path name v = some current ∧ s = { r with current } := by
  unfold line? at h
  split at h
  · obtain ⟨⟨path, more⟩, -, h⟩ := Option.bind_eq_some_iff.mp h
    obtain ⟨more, -, h⟩ := Option.bind_eq_some_iff.mp h
    obtain ⟨more, -, h⟩ := Option.bind_eq_some_iff.mp h
    obtain ⟨next, hnext, h⟩ := Option.bind_eq_some_iff.mp h
    obtain ⟨more, -, h⟩ := Option.bind_eq_some_iff.mp h
    cases h
    exact .inl ⟨path, hnext⟩
  · obtain ⟨⟨path, more⟩, -, h⟩ := Option.bind_eq_some_iff.mp h
    obtain ⟨more, -, h⟩ := Option.bind_eq_some_iff.mp h
    obtain ⟨next, hnext, h⟩ := Option.bind_eq_some_iff.mp h
    obtain ⟨more, -, h⟩ := Option.bind_eq_some_iff.mp h
    cases h
    exact .inr (.inl ⟨path, hnext⟩)
  · obtain ⟨⟨⟨path, name, v⟩, more⟩, hmember, h⟩ := Option.bind_eq_some_iff.mp h
    obtain ⟨current, hcurrent, h⟩ := Option.bind_eq_some_iff.mp h
    obtain ⟨end', -, h⟩ := Option.bind_eq_some_iff.mp h
    cases h
    exact .inr (.inr ⟨path, name, v, more, current, hmember, hcurrent, rfl⟩)

theorem lines_keep {P : Reading → Prop}
    (hline : ∀ {r s cs rest}, r.line? cs = some (s, rest) → P r → P s) {fuel : Nat}
    {cs : List Char} (h : lines? fuel r cs = some s) (hr : P r) : P s := by
  induction fuel generalizing r cs with
  | zero =>
      cases h
      exact hr
  | succ fuel ih =>
      simp only [lines?] at h
      split at h
      · cases h
        exact hr
      · split at h
        · exact ih h hr
        · split at h
          · next next rest hnext => exact ih h (hline hnext hr)
          · cases h

theorem Tidy.line (h : r.Tidy) {cs rest : List Char} (hline : r.line? cs = some (s, rest)) :
    s.Tidy := by
  rcases line_cases hline with ⟨path, hopen⟩ | ⟨path, hopen⟩ |
    ⟨path, name, v, more, current, hmember, hcurrent, rfl⟩
  · exact h.openSeries hopen
  · exact h.openTable hopen
  · exact ⟨h.root, fun hlength => (h.current hlength).addValue hcurrent,
      fun hpath => (h.first hpath).addValue (member_once hmember) hcurrent⟩

end Reading

/-- What is read of a file names nothing twice, and neither does any table on the outside. -/
theorem parse_names {content : String} {tables : List (String × Value)}
    (h : parse? content = some tables) :
    (tables.map (·.1)).Nodup ∧ ∀ table ∈ tables, table.2.NamesOnce := by
  unfold parse? at h
  obtain ⟨r, hr, h⟩ := Option.bind_eq_some_iff.mp h
  obtain ⟨root, hroot, h⟩ := Option.bind_eq_some_iff.mp h
  cases h
  have hstart : Reading.Tidy {} :=
    ⟨Table.tidy_empty false false, fun _ => .nil, fun _ => Table.tidy_empty false false⟩
  have hread : r.Tidy := Reading.lines_keep (fun hline h => h.line hline) hr hstart
  have htidy : root.Tidy := hread.close hroot
  refine ⟨?_, ?_⟩
  · rw [memberValues_names]
    exact htidy.once
  · rintro ⟨name, v⟩ hmem
    obtain ⟨node, hnode, rfl⟩ := mem_memberValues hmem
    exact (htidy.inside _ hnode).value

end WalletBridge.Toml
