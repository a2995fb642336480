import Mathlib.Data.List.Nodup
import WalletBridge.Config.Flags
import WalletBridge.Proofs.Json.Reading
import WalletBridge.Proofs.Toml.Names

/-! # What is put into a setting is read from it

Files and flags put values into settings one after another. A setting reads what
was put into it last, and a value that was put into another one does not change
it. So once every setting is named at most once, the outcome of a file or of a
row of flags is told by looking each name up.
-/

namespace WalletBridge.Config

open Command Json

variable {ρ : Type}

namespace Slot

def read (slot : Slot ρ) (r : ρ) : Value :=
  match slot with
  | .text get _ => .text (get r)
  | .truth get _ => .truth (get r)
  | .number _ get _ => .number (get r)

/-- The value is of the type of the setting. -/
def Takes : Slot ρ → Value → Prop
  | .text .., .text _ => True
  | .truth .., .truth _ => True
  | .number range .., .number n => range.least ≤ n ∧ n ≤ range.greatest
  | _, _ => False

/-- The numbers that a setting takes are not negative. -/
def Natural : Slot ρ → Prop
  | .number range .. => 0 ≤ range.least
  | _ => True

end Slot

/-- Each setting reads what was put into it and nothing else. -/
structure Separate (fields : List (Field ρ)) : Prop where
  names : (fields.map (·.name)).Nodup
  natural : ∀ f ∈ fields, f.slot.Natural
  own : ∀ f ∈ fields, ∀ v r, f.slot.Takes v → f.slot.read (f.slot.fromFlag v r) = v
  other : ∀ f ∈ fields, ∀ g ∈ fields, f.name ≠ g.name →
    ∀ v r, g.slot.read (f.slot.fromFlag v r) = g.slot.read r

theorem App.fields_separate : Separate App.fields where
  names := by decide
  natural := by simp [App.fields, Slot.Natural, natural16, Range.natural64]
  own := by
    intro f hf v r htakes
    simp only [App.fields, List.mem_cons, List.not_mem_nil, or_false] at hf
    rcases hf with rfl | rfl | rfl | rfl | rfl | rfl | rfl | rfl | rfl | rfl | rfl | rfl | rfl |
      rfl | rfl | rfl <;> cases v <;> first | rfl | cases htakes
  other := by
    intro f hf g hg hname v r
    simp only [App.fields, List.mem_cons, List.not_mem_nil, or_false] at hf hg
    rcases hf with rfl | rfl | rfl | rfl | rfl | rfl | rfl | rfl | rfl | rfl | rfl | rfl | rfl |
      rfl | rfl | rfl <;>
    rcases hg with rfl | rfl | rfl | rfl | rfl | rfl | rfl | rfl | rfl | rfl | rfl | rfl | rfl |
      rfl | rfl | rfl <;>
    first | exact absurd rfl hname | (cases v <;> rfl)

theorem Build.fields_separate : Separate Build.fields where
  names := by decide
  natural := by simp [Build.fields, Slot.Natural]
  own := by
    intro f hf v r htakes
    simp only [Build.fields, List.mem_cons, List.not_mem_nil, or_false] at hf
    rcases hf with rfl | rfl | rfl <;> cases v <;> first | rfl | cases htakes
  other := by
    intro f hf g hg hname v r
    simp only [Build.fields, List.mem_cons, List.not_mem_nil, or_false] at hf hg
    rcases hf with rfl | rfl | rfl <;> rcases hg with rfl | rfl | rfl <;>
    first | exact absurd rfl hname | (cases v <;> rfl)

section
variable {fields : List (Field ρ)} {f : Field ρ} {r r' : ρ}

theorem Separate.eq_of_name (h : Separate fields) {g : Field ρ} (hf : f ∈ fields) (hg : g ∈ fields)
    (hname : g.name = f.name) : g = f := List.inj_on_of_nodup_map h.names hg hf hname

theorem Separate.find? (h : Separate fields) (hf : f ∈ fields) :
    fields.find? (·.name == f.name) = some f := by
  cases hfind : fields.find? (·.name == f.name) with
  | none =>
      have hnone := List.find?_eq_none.mp hfind f hf
      simp at hnone
  | some g =>
      have hname := List.find?_some hfind
      have hg : g ∈ fields := List.mem_of_find?_eq_some hfind
      rw [h.eq_of_name hf hg (beq_iff_eq.mp hname)]

/-! ## Files -/

def settingValue? : Toml.Value → Option Value
  | .text s => some (.text s)
  | .truth b => some (.truth b)
  | .whole (.ofNat n) => some (.number n)
  | _ => none

theorem fromFile_eq_ok {slot : Slot ρ} {v : Toml.Value} (hnatural : slot.Natural)
    (h : slot.fromFile v r = .ok r') :
    ∃ w, settingValue? v = some w ∧ slot.Takes w ∧ r' = slot.fromFlag w r := by
  cases slot with
  | text get set =>
      cases v with
      | text s =>
          cases h
          exact ⟨.text s, rfl, trivial, rfl⟩
      | _ => cases h
  | truth get set =>
      cases v with
      | truth b =>
          cases h
          exact ⟨.truth b, rfl, trivial, rfl⟩
      | _ => cases h
  | number range get set =>
      cases v with
      | whole n =>
          simp only [Slot.fromFile, Bool.and_eq_true, decide_eq_true_eq] at h
          split at h
          · next hrange =>
              cases h
              have hleast : 0 ≤ range.least := hnatural
              obtain ⟨k, rfl⟩ := Int.eq_ofNat_of_zero_le (Int.le_trans hleast hrange.1)
              exact ⟨.number k, rfl, hrange, rfl⟩
          · cases h
      | _ => cases h

theorem lookup_eq_none {α : Type} {members : List (String × α)} {name : String}
    (h : name ∉ members.map (·.1)) : members.lookup name = none := by
  rw [List.lookup_eq_none_iff]
  intro m hm
  rw [bne_iff_ne]
  rintro rfl
  exact h (List.mem_map_of_mem hm)

theorem mem_of_lookup {α : Type} {members : List (String × α)} {name : String} {a : α}
    (h : members.lookup name = some a) : (name, a) ∈ members := by
  obtain ⟨before, after, hsplit, -⟩ := List.lookup_eq_some_iff.mp h
  rw [hsplit]
  exact List.mem_append_cons_self

theorem fromMembers_read (hs : Separate fields) {members : List (String × Toml.Value)}
    (hnames : (members.map (·.1)).Nodup) (h : fromMembers fields members r = .ok r')
    (hf : f ∈ fields) :
    f.slot.read r' = ((members.lookup f.name).bind settingValue?).getD (f.slot.read r) := by
  induction members generalizing r with
  | nil =>
      cases h
      rfl
  | cons m rest ih =>
      obtain ⟨name, v⟩ := m
      have hnew : name ∉ rest.map (·.1) := (List.nodup_cons.mp hnames).1
      have hrest : (rest.map (·.1)).Nodup := (List.nodup_cons.mp hnames).2
      by_cases hname : f.name = name
      · subst hname
        rw [fromMembers, hs.find? hf] at h
        obtain ⟨put, hput, h⟩ := bind_eq_ok h
        obtain ⟨w, hw, htakes, rfl⟩ := fromFile_eq_ok (hs.natural f hf) hput
        -- the name does not come again, so the setting keeps what was put into it
        rw [ih hrest h, lookup_eq_none hnew, List.lookup_cons_self]
        simp [hw, hs.own f hf w r htakes]
      · have hskip : ((name, v) :: rest).lookup f.name = rest.lookup f.name := by
          rw [List.lookup_cons, beq_eq_false_iff_ne.mpr hname]
        rw [hskip]
        rw [fromMembers] at h
        cases hfind : fields.find? (·.name == name) with
        | none =>
            rw [hfind] at h
            exact ih hrest h
        | some g =>
            rw [hfind] at h
            obtain ⟨put, hput, h⟩ := bind_eq_ok h
            have hg : g ∈ fields := List.mem_of_find?_eq_some hfind
            have hgname := List.find?_some hfind
            obtain ⟨w, -, -, rfl⟩ := fromFile_eq_ok (hs.natural g hg) hput
            have hother : g.name ≠ f.name := by
              rw [beq_iff_eq.mp hgname]
              exact Ne.symm hname
            rw [ih hrest h, hs.other g hg f hf hother]

/-- The members of a value, under the names of the settings; the items of a list belong to the
settings in their order. -/
def contents (fields : List (Field ρ)) : Toml.Value → List (String × Toml.Value)
  | .table members => members
  | .list items => (fields.map (·.name)).zip items
  | _ => []

theorem fromItems_eq (hs : Separate fields) {some : List (Field ρ)} (hsub : some ⊆ fields)
    (items : List Toml.Value) :
    fromItems some items r = fromMembers fields ((some.map (·.name)).zip items) r := by
  induction some generalizing items r with
  | nil => rfl
  | cons f rest ih =>
      cases items with
      | nil => rfl
      | cons v items =>
          have hf : f ∈ fields := hsub List.mem_cons_self
          have hrest : rest ⊆ fields := fun g hg => hsub (List.mem_cons_of_mem f hg)
          simp only [fromItems, List.map_cons, List.zip_cons_cons, fromMembers, hs.find? hf]
          congr 1
          funext put
          exact ih hrest items

theorem fromValue_eq (hs : Separate fields) {title : String} {v : Toml.Value}
    (h : fromValue title fields v r = .ok r') :
    fromMembers fields (contents fields v) r = .ok r' := by
  cases v with
  | table members => exact h
  | list items =>
      show fromMembers fields ((fields.map (·.name)).zip items) r = .ok r'
      rw [← fromItems_eq hs (List.Subset.refl fields)]
      exact h
  | moment => exact h
  | _ => cases h

theorem map_fst_zip_sublist {α β : Type} (xs : List α) (ys : List β) :
    ((xs.zip ys).map (·.1)).Sublist xs := by
  induction xs generalizing ys with
  | nil => exact .slnil
  | cons x xs ih =>
      cases ys with
      | nil => exact List.nil_sublist _
      | cons y ys => exact (ih ys).cons_cons x

theorem contents_names (hs : Separate fields) {v : Toml.Value} (hv : v.NamesOnce) :
    ((contents fields v).map (·.1)).Nodup := by
  cases v with
  | table members => exact hv
  | list items => exact (map_fst_zip_sublist _ items).nodup hs.names
  | _ => exact .nil

end

def fileValue? (tables : List (String × Toml.Value)) (table : String) (fields : List (Field ρ))
    (name : String) : Option Value := do
  let v ← tables.lookup table
  let member ← (contents fields v).lookup name
  settingValue? member

/-- What the table of a name makes of a record, which stays as it is without that table. -/
def TableRead (tables : List (String × Toml.Value)) (table title : String)
    (fields : List (Field ρ)) (r r' : ρ) : Prop :=
  match tables.lookup table with
  | none => r' = r
  | some v => fromValue title fields v r = .ok r'

section
variable {tables : List (String × Toml.Value)} {table title name : String}
  {fields : List (Field ρ)} {v : Toml.Value} {r r' put : ρ}

theorem TableRead.skip (hname : table ≠ name) (h : TableRead tables table title fields r r') :
    TableRead ((name, v) :: tables) table title fields r r' := by
  have hskip : ((name, v) :: tables).lookup table = tables.lookup table := by
    rw [List.lookup_cons, beq_eq_false_iff_ne.mpr hname]
  rw [TableRead, hskip]
  exact h

theorem TableRead.here (hnew : table ∉ tables.map (·.1))
    (hput : fromValue title fields v r = .ok put)
    (h : TableRead tables table title fields put r') :
    TableRead ((table, v) :: tables) table title fields r r' := by
  rw [TableRead, lookup_eq_none hnew] at h
  rw [TableRead, List.lookup_cons_self, h]
  exact hput

theorem fromTables_eq_ok {s s' : Settings} (hnames : (tables.map (·.1)).Nodup)
    (h : fromTables tables s = .ok s') :
    TableRead tables "app" "struct AppConfig" App.fields s.app s'.app ∧
    TableRead tables "build" "struct BuildInfo" Build.fields s.build s'.build := by
  induction tables generalizing s with
  | nil =>
      cases h
      exact ⟨rfl, rfl⟩
  | cons t rest ih =>
      obtain ⟨name, v⟩ := t
      have hnew : name ∉ rest.map (·.1) := (List.nodup_cons.mp hnames).1
      have hrest : (rest.map (·.1)).Nodup := (List.nodup_cons.mp hnames).2
      rw [fromTables] at h
      by_cases happ : name = "app"
      · subst happ
        obtain ⟨app, hput, h⟩ := bind_eq_ok h
        have hread := ih hrest h
        exact ⟨hread.1.here hnew hput, hread.2.skip (by decide)⟩
      · rw [if_neg (by simpa using happ)] at h
        by_cases hbuild : name = "build"
        · subst hbuild
          obtain ⟨build, hput, h⟩ := bind_eq_ok h
          have hread := ih hrest h
          exact ⟨hread.1.skip (by decide), hread.2.here hnew hput⟩
        · rw [if_neg (by simpa using hbuild)] at h
          have hread := ih hrest h
          exact ⟨hread.1.skip (Ne.symm happ), hread.2.skip (Ne.symm hbuild)⟩

theorem TableRead.read (hs : Separate fields) (htables : ∀ t ∈ tables, t.2.NamesOnce)
    (h : TableRead tables table title fields r r') {f : Field ρ} (hf : f ∈ fields) :
    f.slot.read r' = (fileValue? tables table fields f.name).getD (f.slot.read r) := by
  cases hlookup : tables.lookup table with
  | none =>
      rw [TableRead, hlookup] at h
      rw [fileValue?, hlookup, h]
      rfl
  | some v =>
      rw [TableRead, hlookup] at h
      have honce : v.NamesOnce := htables (table, v) (mem_of_lookup hlookup)
      rw [fileValue?, hlookup]
      exact fromMembers_read hs (contents_names hs honce) (fromValue_eq hs h) hf

end

/-- The settings of a text are what its tables say, and the defaults otherwise. -/
theorem readSettings_eq_ok {content : String} {s : Settings} (h : readSettings content = .ok s) :
    ∃ tables, Toml.parse? content = some tables ∧
      (∀ f ∈ App.fields, f.slot.read s.app =
        (fileValue? tables "app" App.fields f.name).getD (f.slot.read {})) ∧
      ∀ f ∈ Build.fields, f.slot.read s.build =
        (fileValue? tables "build" Build.fields f.name).getD (f.slot.read {}) := by
  cases htables : Toml.parse? content with
  | none =>
      rw [readSettings, htables] at h
      cases h
  | some tables =>
      rw [readSettings, htables] at h
      cases hread : fromTables tables {} with
      | error e =>
          simp [hread] at h
      | ok settings =>
          simp only [hread, Except.ok.injEq] at h
          subst h
          have hparsed := Toml.parse_names htables
          have hboth := fromTables_eq_ok hparsed.1 hread
          exact ⟨tables, rfl, fun f hf => hboth.1.read App.fields_separate hparsed.2 hf,
            fun f hf => hboth.2.read Build.fields_separate hparsed.2 hf⟩

/-! ## Flags -/

def Typed (given : Given) : Prop :=
  ∀ f ∈ App.fields, ∀ v, given.find? (flagName f.name) = some v → f.slot.Takes v

section
variable {given : Given} {fields : List (Field App)} {f : Field App}

theorem withFlags_cons (given : Given) (g : Field App) (rest : List (Field App)) (app : App) :
    withFlags given (g :: rest) app = withFlags given rest
      (match given.find? (flagName g.name) with
        | some v => g.slot.fromFlag v app
        | none => app) := rfl

theorem withFlags_other (hs : Separate fields) {others : List (Field App)} (hsub : others ⊆ fields)
    (hf : f ∈ fields) (hname : f.name ∉ others.map (·.name)) (app : App) :
    f.slot.read (withFlags given others app) = f.slot.read app := by
  induction others generalizing app with
  | nil => rfl
  | cons g rest ih =>
      have hg : g ∈ fields := hsub List.mem_cons_self
      have hrest : rest ⊆ fields := fun x hx => hsub (List.mem_cons_of_mem g hx)
      have hne : g.name ≠ f.name := fun heq => hname (heq ▸ List.mem_cons_self)
      have hnone : f.name ∉ rest.map (·.name) := fun hmem => hname (List.mem_cons_of_mem _ hmem)
      rw [withFlags_cons, ih hrest hnone]
      cases given.find? (flagName g.name) with
      | none => rfl
      | some v => exact hs.other g hg f hf hne v app

theorem withFlags_part (hs : Separate fields) {part : List (Field App)} (hsub : part ⊆ fields)
    (hnames : (part.map (·.name)).Nodup)
    (htyped : ∀ v, given.find? (flagName f.name) = some v → f.slot.Takes v)
    (hf : f ∈ part) (app : App) :
    f.slot.read (withFlags given part app) =
      (given.find? (flagName f.name)).getD (f.slot.read app) := by
  induction part generalizing app with
  | nil => cases hf
  | cons g rest ih =>
      have hg : g ∈ fields := hsub List.mem_cons_self
      have hrest : rest ⊆ fields := fun x hx => hsub (List.mem_cons_of_mem g hx)
      have hnew : g.name ∉ rest.map (·.name) := (List.nodup_cons.mp hnames).1
      rw [withFlags_cons]
      cases hf with
      | head =>
          -- the flags that follow are of other settings
          rw [withFlags_other hs hrest hg hnew]
          cases hfind : given.find? (flagName f.name) with
          | none => rfl
          | some v => exact hs.own f hg v app (htyped v hfind)
      | tail _ hmem =>
          rw [ih hrest (List.nodup_cons.mp hnames).2 hmem]
          have hne : g.name ≠ f.name := fun heq => hnew (heq ▸ List.mem_map_of_mem hmem)
          congr 1
          cases given.find? (flagName g.name) with
          | none => rfl
          | some v => exact hs.other g hg f (hrest hmem) hne v app

theorem withFlags_read (htyped : Typed given) (hf : f ∈ App.fields) (app : App) :
    f.slot.read (withFlags given App.fields app) =
      (given.find? (flagName f.name)).getD (f.slot.read app) :=
  withFlags_part App.fields_separate (List.Subset.refl _) App.fields_separate.names (htyped f hf)
    hf app

end

end WalletBridge.Config
