import WalletBridge.Proofs.Toml.Names

/-! # Whole numbers of a file have 64 bits

A reader of whole numbers refuses what does not fit into 64 bits with a sign, and everything else
only moves values from one place to another. So a file that can be read holds no greater number,
however deep inside its lists and tables.
-/

namespace WalletBridge.Toml

/-- Every whole number in a value has 64 bits with a sign. -/
inductive Value.Bounded : Value → Prop where
  | text (s : String) : Bounded (.text s)
  | whole {n : Int} (least : -0x8000000000000000 ≤ n) (greatest : n < 0x8000000000000000) :
      Bounded (.whole n)
  | real (x : Real) : Bounded (.real x)
  | truth (b : Bool) : Bounded (.truth b)
  | moment : Bounded .moment
  | list {items : List Value} (h : ∀ v ∈ items, v.Bounded) : Bounded (.list items)
  | table {members : List (String × Value)} (h : ∀ m ∈ members, m.2.Bounded) :
      Bounded (.table members)

/-- So has every whole number below a node. -/
inductive Node.Bounded : Node → Prop where
  | leaf {v : Value} (h : v.Bounded) : Bounded (.leaf v)
  | table {members : List (String × Node)} (implied dotted : Bool)
      (h : ∀ m ∈ members, m.2.Bounded) : Bounded (.table implied dotted members)
  | series {tables : List (List (String × Node))} (h : ∀ members ∈ tables, ∀ m ∈ members,
      m.2.Bounded) : Bounded (.series tables)

theorem memberValues_bounded {members : List (String × Node)}
    (h : ∀ m ∈ members, m.2.value.Bounded) : ∀ m ∈ memberValues members, m.2.Bounded := by
  rintro ⟨name, v⟩ hmem
  obtain ⟨node, hnode, rfl⟩ := mem_memberValues hmem
  exact h _ hnode

theorem tableValues_bounded {tables : List (List (String × Node))}
    (h : ∀ members ∈ tables, ∀ m ∈ members, m.2.value.Bounded) :
    ∀ v ∈ tableValues tables, v.Bounded := by
  induction tables with
  | nil =>
      intro v hv
      cases hv
  | cons members rest ih =>
      intro v hv
      rw [tableValues, List.mem_cons] at hv
      rcases hv with rfl | hv
      · exact .table (memberValues_bounded (h members List.mem_cons_self))
      · exact ih (fun others hmem => h others (List.mem_cons_of_mem _ hmem)) v hv

theorem Node.Bounded.value {node : Node} (h : node.Bounded) : node.value.Bounded := by
  induction h with
  | leaf h => exact h
  | table implied dotted h ih => exact .table (memberValues_bounded ih)
  | series h ih => exact .list (tableValues_bounded ih)

namespace Table

/-- Every whole number of a table has 64 bits with a sign. -/
def Bounded (t : Table) : Prop := ∀ m ∈ t.members, m.2.Bounded

variable {t u : Table} {name : String} {node : Node}

theorem bounded_empty (implied dotted : Bool) : ({ implied, dotted } : Table).Bounded := by
  intro m hm
  cases hm

theorem Bounded.set (h : t.Bounded) (name : String) (hnode : node.Bounded) :
    (t.set name node).Bounded := by
  intro m hm
  unfold Table.set at hm
  split at hm
  · obtain ⟨old, hold, rfl⟩ := List.mem_map.mp hm
    by_cases hname : old.1 == name
    · simpa [hname] using hnode
    · simpa [hname] using h old hold
  · rcases List.mem_append.mp hm with hold | hnew
    · exact h m hold
    · rw [List.mem_singleton.mp hnew]
      exact hnode

theorem Bounded.erase (h : t.Bounded) (name : String) : (t.erase name).Bounded :=
  fun m hm => h m (List.mem_filter.mp hm).1

theorem Bounded.find? (h : t.Bounded) (hfind : t.find? name = some node) : node.Bounded := by
  unfold Table.find? at hfind
  obtain ⟨m, hm, rfl⟩ := Option.map_eq_some_iff.mp hfind
  exact h m (List.mem_of_find?_eq_some hm)

theorem Bounded.table {implied dotted : Bool} {members : List (String × Node)}
    (h : t.Bounded) (hfind : t.find? name = some (.table implied dotted members)) :
    ∀ m ∈ members, m.2.Bounded := by
  cases h.find? hfind with
  | table _ _ hinside => exact hinside

theorem Bounded.series {tables : List (List (String × Node))} (h : t.Bounded)
    (hfind : t.find? name = some (.series tables)) :
    ∀ members ∈ tables, ∀ m ∈ members, m.2.Bounded := by
  cases h.find? hfind with
  | series hinside => exact hinside

/-- A change that keeps to 64 bits at the end of a path does so in the whole table, and brings out
nothing else. -/
theorem changeAt_bounded {α : Type} {P : α → Prop} {dotted : Bool} {path : List String}
    {change : Table → Option (Table × α)} {a : α}
    (hchange : ∀ t u a, change t = some (u, a) → t.Bounded → u.Bounded ∧ P a)
    (h : changeAt dotted change path t = some (u, a)) (ht : t.Bounded) : u.Bounded ∧ P a := by
  induction path generalizing t u with
  | nil => exact hchange t u a h ht
  | cons name path ih =>
      simp only [changeAt] at h
      split at h
      · obtain ⟨⟨child, b⟩, hchild, hu⟩ := Option.bind_eq_some_iff.mp h
        cases hu
        obtain ⟨hinside, ha⟩ := ih hchild (bounded_empty true dotted)
        exact ⟨ht.set name (.table _ _ hinside), ha⟩
      · cases h
      · next tables hfind =>
          have hseries := ht.series hfind
          split at h
          · cases h
          · next last hlast =>
              obtain ⟨⟨child, b⟩, hchild, hu⟩ := Option.bind_eq_some_iff.mp h
              cases hu
              have hmember : last ∈ tables := List.mem_of_getLast? hlast
              obtain ⟨hinside, ha⟩ := ih hchild (hseries last hmember)
              refine ⟨ht.set name (.series ?_), ha⟩
              intro members hmem
              rw [List.mem_append, List.mem_singleton] at hmem
              rcases hmem with hmem | rfl
              · exact hseries members (List.dropLast_subset tables hmem)
              · exact hinside
      · next implied isDotted members hfind =>
          split at h
          · cases h
          · obtain ⟨⟨child, b⟩, hchild, hu⟩ := Option.bind_eq_some_iff.mp h
            cases hu
            obtain ⟨hinside, ha⟩ := ih hchild (ht.table hfind)
            exact ⟨ht.set name (.table _ _ hinside), ha⟩

theorem Bounded.addValue {path : List String} {v : Value} (ht : t.Bounded) (hv : v.Bounded)
    (h : t.addValue path name v = some u) : u.Bounded := by
  obtain ⟨change, hchange, hset⟩ := addValue_eq_some h
  have hkept : ∀ t u a, change t = some (u, a) → t.Bounded → u.Bounded ∧ True := by
    intro t u a hu ht
    rw [hset t u a hu]
    exact ⟨ht.set name (.leaf hv), trivial⟩
  exact (changeAt_bounded hkept hchange ht).1

end Table

/-! ## Values -/

theorem inRange_bounded {n m : Int} (h : inRange? n = some m) : (Value.whole m).Bounded := by
  unfold inRange? at h
  split at h
  · next hrange =>
      cases h
      rw [Bool.and_eq_true, decide_eq_true_eq, decide_eq_true_eq] at hrange
      exact .whole hrange.1 hrange.2
  · cases h

theorem based_bounded {base : Nat} {cs rest : List Char} {n : Int}
    (h : based? base cs = some (n, rest)) : (Value.whole n).Bounded := by
  unfold based? at h
  obtain ⟨⟨ds, more⟩, -, h⟩ := Option.bind_eq_some_iff.mp h
  obtain ⟨m, hm, h⟩ := Option.bind_eq_some_iff.mp h
  cases h
  exact inRange_bounded hm

theorem whole_bounded {cs rest : List Char} {n : Int} (h : whole? cs = some (n, rest)) :
    (Value.whole n).Bounded := by
  unfold whole? at h
  split at h
  · exact based_bounded h
  · exact based_bounded h
  · exact based_bounded h
  · obtain ⟨⟨ds, more⟩, -, h⟩ := Option.bind_eq_some_iff.mp h
    obtain ⟨m, hm, h⟩ := Option.bind_eq_some_iff.mp h
    cases h
    exact inRange_bounded hm

theorem number_bounded {cs rest : List Char} {v : Value} (h : number? cs = some (v, rest)) :
    v.Bounded := by
  unfold number? at h
  split at h
  · cases h
    exact .moment
  · split at h
    · cases h
      exact .real _
    · split at h
      · cases h
        exact .real _
      · obtain ⟨⟨n, more⟩, hn, hv⟩ := Option.map_eq_some_iff.mp h
        cases hv
        exact whole_bounded hn

/-- A reader gives values whose whole numbers have 64 bits with a sign. -/
def KeepsBounds (item : Scan Value) : Prop :=
  ∀ cs v rest, item cs = some (v, rest) → v.Bounded

section
variable {item : Scan Value}

theorem items_bounded (hitem : KeepsBounds item) {fuel : Nat} {read items : List Value}
    {cs rest : List Char} (h : items? item fuel read cs = some (items, rest))
    (hread : ∀ v ∈ read, v.Bounded) : ∀ v ∈ items, v.Bounded := by
  induction fuel generalizing read cs with
  | zero => cases h
  | succ fuel ih =>
      simp only [items?] at h
      split at h
      · cases h
        exact fun v hv => hread v (List.mem_reverse.mp hv)
      · obtain ⟨⟨v, more⟩, hv, h⟩ := Option.bind_eq_some_iff.mp h
        have hnext : ∀ w ∈ v :: read, w.Bounded := by
          intro w hw
          rcases List.mem_cons.mp hw with rfl | hw
          · exact hitem _ _ _ hv
          · exact hread w hw
        dsimp only at h
        split at h
        · exact ih h hnext
        · cases h
          exact fun v hv => hnext v (List.mem_reverse.mp hv)
        · cases h

theorem member_bounded (hitem : KeepsBounds item) {cs rest : List Char} {path : List String}
    {name : String} {v : Value} (h : member? item cs = some ((path, name, v), rest)) :
    v.Bounded := by
  unfold member? at h
  obtain ⟨⟨parts, more⟩, -, h⟩ := Option.bind_eq_some_iff.mp h
  obtain ⟨more, -, h⟩ := Option.bind_eq_some_iff.mp h
  obtain ⟨⟨w, more⟩, hw, h⟩ := Option.bind_eq_some_iff.mp h
  obtain ⟨last, -, h⟩ := Option.bind_eq_some_iff.mp h
  cases h
  exact hitem _ _ _ hw

theorem inlineMembers_bounded (hitem : KeepsBounds item) {fuel : Nat} {t u : Table}
    {cs rest : List Char} (h : inlineMembers? item fuel t cs = some (u, rest)) (ht : t.Bounded) :
    u.Bounded := by
  induction fuel generalizing t cs with
  | zero => cases h
  | succ fuel ih =>
      simp only [inlineMembers?] at h
      obtain ⟨⟨⟨path, name, v⟩, more⟩, hmember, h⟩ := Option.bind_eq_some_iff.mp h
      obtain ⟨added, hadded, h⟩ := Option.bind_eq_some_iff.mp h
      have hnext : added.Bounded := ht.addValue (member_bounded hitem hmember) hadded
      dsimp only at h
      split at h
      · exact ih h hnext
      · cases h
        exact hnext
      · cases h

theorem inlineTable_bounded (hitem : KeepsBounds item) : KeepsBounds (inlineTable? item) := by
  intro cs v rest h
  unfold inlineTable? at h
  split at h
  · cases h
    exact .table (by simp)
  · obtain ⟨⟨t, more⟩, ht, hv⟩ := Option.map_eq_some_iff.mp h
    cases hv
    have hinside : t.Bounded := inlineMembers_bounded hitem ht (Table.bounded_empty false false)
    have hnode : t.node.Bounded := .table _ _ hinside
    exact hnode.value

end

theorem value_bounded (depth : Nat) : KeepsBounds (value? depth) := by
  induction depth with
  | zero =>
      intro cs v rest h
      unfold value? at h
      split at h
      · cases h
      · cases h
      · cases h
        exact .truth _
      · cases h
        exact .truth _
      · split at h
        · cases h
          exact .text _
        · exact number_bounded h
  | succ depth ih =>
      intro cs v rest h
      unfold value? at h
      split at h
      · obtain ⟨⟨l, more⟩, hl, hv⟩ := Option.map_eq_some_iff.mp h
        cases hv
        exact .list (items_bounded ih hl (by simp))
      · exact inlineTable_bounded ih _ _ _ h
      · cases h
        exact .truth _
      · cases h
        exact .truth _
      · split at h
        · cases h
          exact .text _
        · exact number_bounded h

/-! ## Lines -/

namespace Reading

/-- What has been read keeps to 64 bits. -/
structure Bounded (r : Reading) : Prop where
  root : r.root.Bounded
  current : r.current.Bounded

variable {r s : Reading}

theorem Bounded.close (h : r.Bounded) {t : Table} (hclose : r.close = some t) : t.Bounded := by
  unfold Reading.close at hclose
  cases hlast : r.path.getLast? with
  | none =>
      rw [hlast] at hclose
      cases hclose
      exact h.current
  | some name =>
      rw [hlast] at hclose
      obtain ⟨⟨root, done⟩, hroot, rfl⟩ := Option.map_eq_some_iff.mp hclose
      refine (Table.changeAt_bounded (P := fun _ => True) ?_ hroot h.root).1
      intro parent u a hplace hparent
      refine ⟨?_, trivial⟩
      have halone : (Node.table r.current.implied r.current.dotted r.current.members).Bounded :=
        .table _ _ h.current
      split at hplace
      · cases hplace
        refine hparent.set name (.series ?_)
        intro members hmem
        rw [List.mem_singleton] at hmem
        rw [hmem]
        exact h.current
      · next tables _ hfind _ =>
          cases hplace
          refine hparent.set name (.series ?_)
          intro members hmem
          rw [List.mem_append, List.mem_singleton] at hmem
          rcases hmem with hmem | rfl
          · exact hparent.series hfind members hmem
          · exact h.current
      · cases hplace
      · cases hplace
        exact hparent.set name halone
      · cases hplace
        exact hparent.set name halone
      · cases hplace

theorem claim_bounded {name : String} {parent u a : Table} (h : claim name parent = some (u, a))
    (hparent : parent.Bounded) : u.Bounded ∧ a.Bounded := by
  unfold claim at h
  split at h
  · cases h
    exact ⟨hparent, Table.bounded_empty false false⟩
  · next members hfind =>
      cases h
      exact ⟨hparent.erase name, hparent.table hfind⟩
  · cases h

theorem Bounded.openTable (h : r.Bounded) {path : List String}
    (hopen : r.openTable path = some s) : s.Bounded := by
  unfold Reading.openTable at hopen
  obtain ⟨root, hroot, hopen⟩ := Option.bind_eq_some_iff.mp hopen
  obtain ⟨name, hname, hopen⟩ := Option.bind_eq_some_iff.mp hopen
  obtain ⟨⟨claimed, current⟩, hclaim, hopen⟩ := Option.bind_eq_some_iff.mp hopen
  cases hopen
  obtain ⟨houtside, hinside⟩ := Table.changeAt_bounded (P := Table.Bounded)
    (fun _ _ _ hc => claim_bounded hc) hclaim (h.close hroot)
  exact ⟨houtside, hinside⟩

theorem Bounded.openSeries (h : r.Bounded) {path : List String}
    (hopen : r.openSeries path = some s) : s.Bounded := by
  unfold Reading.openSeries at hopen
  obtain ⟨root, hroot, hopen⟩ := Option.bind_eq_some_iff.mp hopen
  obtain ⟨name, hname, hopen⟩ := Option.bind_eq_some_iff.mp hopen
  obtain ⟨⟨checked, done⟩, hcheck, hopen⟩ := Option.bind_eq_some_iff.mp hopen
  cases hopen
  refine ⟨?_, Table.bounded_empty false false⟩
  refine (Table.changeAt_bounded (P := fun _ => True) ?_ hcheck (h.close hroot)).1
  intro parent u a hparent hinside
  refine ⟨?_, trivial⟩
  split at hparent
  · cases hparent
    exact hinside.set name (.series (by simp))
  · cases hparent
    exact hinside
  · cases hparent

theorem Bounded.line (h : r.Bounded) {cs rest : List Char}
    (hline : r.line? cs = some (s, rest)) : s.Bounded := by
  rcases line_cases hline with ⟨path, hopen⟩ | ⟨path, hopen⟩ |
    ⟨path, name, v, more, current, hmember, hcurrent, rfl⟩
  · exact h.openSeries hopen
  · exact h.openTable hopen
  · have hv : v.Bounded := member_bounded (value_bounded _) hmember
    exact ⟨h.root, h.current.addValue hv hcurrent⟩

end Reading

/-- Every whole number of a file that can be read has 64 bits with a sign. -/
theorem parse_bounded {content : String} {tables : List (String × Value)}
    (h : parse? content = some tables) : ∀ table ∈ tables, table.2.Bounded := by
  unfold parse? at h
  obtain ⟨r, hr, h⟩ := Option.bind_eq_some_iff.mp h
  obtain ⟨root, hroot, h⟩ := Option.bind_eq_some_iff.mp h
  cases h
  have hstart : Reading.Bounded {} :=
    ⟨Table.bounded_empty false false, Table.bounded_empty false false⟩
  have hread : r.Bounded := Reading.lines_keep (fun hline h => h.line hline) hr hstart
  have hinside : root.Bounded := hread.close hroot
  exact memberValues_bounded fun m hm => (hinside m hm).value

end WalletBridge.Toml
