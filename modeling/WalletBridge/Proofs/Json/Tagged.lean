import WalletBridge.Proofs.Json.Records

/-! # Records told apart by a tag, as they are read

A record whose tag may stand anywhere among its members is read in one pass that
keeps the other members as values. Its result is that of two passes: the value
that the tree stands for, and the record that is taken from this value.
-/

namespace WalletBridge.Json

open Text

def only? : List α → Option α
  | [a] => some a
  | _ => none

theorem readName_sees (names : List (String × α)) (T : Tree) :
    Sees (readName names) T.tokens (T.text?.bind fun s => (chooseName names s).toOption) := by
  intro more bytes hmore hbytes
  have htext := readTextValue_sees "variant identifier" T more bytes hmore hbytes
  apply htext.bind
  intro s rest hrest
  dsimp only
  cases chooseName names s with
  | error cause => exact gives_error
  | ok a => exact ⟨rest, by simp only [pure, Except.pure], hrest⟩

theorem takeName_value (names : List (String × α)) (depth : Nat) (T : Tree) :
    ((T.value? (depth + 1)).bind fun v => (takeName names v).toOption) =
      T.text?.bind fun s => (chooseName names s).toOption := by
  cases T with
  | text s =>
      simp only [Tree.value?, Tree.text?]
      cases s.value? <;> rfl
  | number n =>
      simp only [Tree.value?, Tree.text?]
      cases n.value? <;> rfl
  | list items =>
      simp only [Tree.value?, Tree.text?]
      split
      · rfl
      · cases items.mapM (Tree.value? depth) <;> rfl
  | object members =>
      simp only [Tree.value?, Tree.text?]
      split
      · rfl
      · cases valued? (Tree.value? depth) members <;> rfl
  | _ => rfl

namespace Tagged

variable {tagged : Tagged α} {depth : Nat}

/-- A member of an object is its tag, which it has only once, or another member. -/
def step (tagged : Tagged α) (draft : Draft α) (name : String) (v : Json) : Option (Draft α) :=
  if name == tagged.tagName then
    if draft.variant.isSome then none
    else (takeName tagged.names v).toOption.map fun variant =>
      { draft with variant := some variant }
  else some { draft with members := (name, v) :: draft.members }

theorem step_of_repeats {name : String} {draft : Draft α} {cause : Cause}
    (h : tagged.repeats name draft = some cause) (v : Json) : tagged.step draft name v = none := by
  unfold repeats at h
  split at h
  · rename_i hseen
    obtain ⟨hname, hvariant⟩ := Bool.and_eq_true_iff.mp hseen
    rw [step, if_pos hname, if_pos hvariant]
  · cases h

theorem readMember_sees {name : String} {draft : Draft α}
    (hnew : tagged.repeats name draft = none) (T : Tree) :
    Sees (tagged.readMember (depth + 1) name draft) T.tokens
      ((T.value? (depth + 1)).bind (tagged.step draft name)) := by
  intro more bytes hmore hbytes
  unfold readMember
  by_cases hname : (name == tagged.tagName) = true
  · have hvariant : draft.variant.isSome = false := by
      simpa [repeats, hname] using hnew
    have hstep : (T.value? (depth + 1)).bind (tagged.step draft name) =
        ((T.value? (depth + 1)).bind fun v => (takeName tagged.names v).toOption).map
          fun variant => { draft with variant := some variant } := by
      cases T.value? (depth + 1) <;> simp [step, hname, hvariant]
    rw [hstep, takeName_value]
    simp only [hname, if_true]
    exact (readName_sees tagged.names T more bytes hmore hbytes).map _
  · have hstep : (T.value? (depth + 1)).bind (tagged.step draft name) =
        (T.value? (depth + 1)).map
          fun v => { draft with members := (name, v) :: draft.members } := by
      cases T.value? (depth + 1) <;> simp [step, hname]
    rw [hstep]
    simp only [hname]
    exact (readJson_sees (depth + 1) T more bytes hmore hbytes).map _

/-! ## The members of a value -/

section
variable (tagged)

def drafted (draft : Draft α) (values : List (String × Json)) : Option (Draft α) :=
  values.foldlM (fun draft m => tagged.step draft m.1 m.2) draft

def chosen (draft : Draft α) : Option (Variant α × Json) :=
  draft.variant.map fun variant => (variant, .object draft.members.reverse)

end

/-- The members besides the tag are kept in their order. -/
theorem drafted_untagged {values : List (String × Json)}
    (h : values.filter (·.1 == tagged.tagName) = []) (draft : Draft α) :
    tagged.drafted draft values = some { draft with
      members := (values.filter (·.1 != tagged.tagName)).reverse ++ draft.members } := by
  induction values generalizing draft with
  | nil => rfl
  | cons m values ih =>
      obtain ⟨name, v⟩ := m
      by_cases hname : (name == tagged.tagName) = true
      · simp [hname] at h
      · have hvalues : values.filter (·.1 == tagged.tagName) = [] := by
          simpa [hname] using h
        have hfirst : tagged.step draft name v =
            some { draft with members := (name, v) :: draft.members } := by
          simp [step, hname]
        rw [drafted, List.foldlM_cons, hfirst]
        show tagged.drafted _ values = _
        rw [ih hvalues]
        have hother : (name != tagged.tagName) = true := by simpa using hname
        simp [hother]

/-- A second tag is not taken. -/
theorem drafted_tagged {values : List (String × Json)} {draft : Draft α}
    (h : values.filter (·.1 == tagged.tagName) ≠ []) (hvariant : draft.variant.isSome = true) :
    tagged.drafted draft values = none := by
  induction values generalizing draft with
  | nil => exact absurd rfl h
  | cons m values ih =>
      obtain ⟨name, v⟩ := m
      rw [drafted, List.foldlM_cons]
      by_cases hname : (name == tagged.tagName) = true
      · simp [step, hname, hvariant]
      · have hfirst : tagged.step draft name v =
            some { draft with members := (name, v) :: draft.members } := by
          simp [step, hname]
        rw [hfirst]
        exact ih (by simpa [hname] using h) hvariant

/-- The tag is looked for among the members, wherever it stands. -/
theorem drafted_chosen (values acc : List (String × Json)) :
    (tagged.drafted { variant := none, members := acc } values).bind chosen =
      (only? (values.filter (·.1 == tagged.tagName))).bind fun m =>
        (takeName tagged.names m.2).toOption.map fun variant =>
          (variant, .object (acc.reverse ++ values.filter (·.1 != tagged.tagName))) := by
  induction values generalizing acc with
  | nil => rfl
  | cons m values ih =>
      obtain ⟨name, v⟩ := m
      rw [drafted, List.foldlM_cons]
      by_cases hname : (name == tagged.tagName) = true
      -- from here on a further tag is refused, and the other members are kept
      · have hother : (name != tagged.tagName) = false := by simpa using hname
        have hfirst : tagged.step { variant := none, members := acc } name v =
            (takeName tagged.names v).toOption.map fun variant =>
              { variant := some variant, members := acc } := by
          simp [step, hname]
        simp only [hfirst, List.filter_cons, hname, if_true, hother, Bool.false_eq_true, if_false]
        cases htake : (takeName tagged.names v).toOption with
        | none => cases values.filter (·.1 == tagged.tagName) <;> simp [only?, htake]
        | some variant =>
            show (tagged.drafted _ values).bind chosen = _
            cases hmore : values.filter (·.1 == tagged.tagName) with
            | nil =>
                rw [drafted_untagged hmore]
                simp [chosen, only?, htake]
            | cons second further =>
                rw [drafted_tagged (by simp [hmore]) rfl]
                rfl
      · have hother : (name != tagged.tagName) = true := by simpa using hname
        have hfirst : tagged.step { variant := none, members := acc } name v =
            some { variant := none, members := (name, v) :: acc } := by
          simp [step, hname]
        rw [hfirst]
        show (tagged.drafted _ values).bind chosen = _
        rw [ih]
        simp [hname, hother]

/-- A record is taken from an object by its only tag. -/
theorem take_object (values : List (String × Json)) :
    (tagged.codec.take (.object values)).toOption =
      (only? (values.filter (·.1 == tagged.tagName))).bind fun m =>
        (takeName tagged.names m.2).toOption.bind fun variant =>
          (variant.take (.object (values.filter (·.1 != tagged.tagName)))).toOption := by
  simp only [codec]
  split
  · rename_i hnone
    rw [hnone]
    rfl
  · rename_i tag hone
    rw [hone]
    simp only [only?, Option.bind_some]
    cases takeName tagged.names tag <;> rfl
  · rename_i hnone hmany
    cases hlist : values.filter (·.1 == tagged.tagName) with
    | nil => exact absurd hlist hnone
    | cons m more =>
        cases more with
        | nil => exact absurd hlist (hmany m.1 m.2)
        | cons second further => rfl

theorem take_drafted (values : List (String × Json)) :
    (tagged.codec.take (.object values)).toOption =
      ((tagged.drafted { variant := none, members := [] } values).bind chosen).bind
        fun found => (found.1.take found.2).toOption := by
  rw [take_object, drafted_chosen]
  cases only? (values.filter (·.1 == tagged.tagName)) with
  | none => rfl
  | some m => cases htake : takeName tagged.names m.2 <;> simp [htake, Except.toOption]

/-! ## Objects -/

theorem readObject_sees (members : List (Spelling × Tree)) :
    Sees (tagged.readObject (depth + 1)) (Tree.memberTokens members)
      ((valued? (Tree.value? (depth + 1)) members).bind fun values =>
        (tagged.drafted { variant := none, members := [] } values).bind chosen) := by
  intro more bytes _ hbytes
  have hspread : Spread (membersFrom true members ++ more) bytes := hbytes
  have hrepeated : ∀ name draft (T : Tree) cause, tagged.repeats name draft = some cause →
      (T.value? (depth + 1)).bind (tagged.step draft name) = none := by
    intro name draft T cause hrepeats
    cases T.value? (depth + 1) with
    | none => rfl
    | some v => exact step_of_repeats hrepeats v
  have hmembers : Gives
      (buildUp (fun draft name T => (T.value? (depth + 1)).bind (tagged.step draft name))
        { variant := none, members := [] } members)
      (membersFrom true [] ++ more)
      (readMembers tagged.repeats (tagged.readMember (depth + 1)) (bytes.length + 1) true
        { variant := none, members := [] } bytes) :=
    readMembers_sees hrepeated (fun m _ name draft hnew => readMember_sees hnew m.2)
      (Nat.lt_succ_of_le (members_length_le hspread)) hspread
  have hdrafted : buildUp (fun draft name T => (T.value? (depth + 1)).bind (tagged.step draft name))
      { variant := none, members := [] } members =
        (valued? (Tree.value? (depth + 1)) members).bind
          (tagged.drafted { variant := none, members := [] }) := by
    rw [buildUp_eq, valued?]
    cases named? members with
    | none => rfl
    | some entries =>
        have hvalue : ∀ (draft : Draft α) (e : String × Tree),
            (e.2.value? (depth + 1)).bind (tagged.step draft e.1) =
              ((e.2.value? (depth + 1)).map (e.1, ·)).bind fun m => tagged.step draft m.1 m.2 := by
          intro draft e
          cases e.2.value? (depth + 1) <;> rfl
        simp only [Option.bind_some, hvalue]
        exact foldlM_of_bind _
  rw [hdrafted] at hmembers
  rw [← Option.bind_assoc]
  apply hmembers.bind
  intro draft rest hrest
  obtain ⟨after, hend, hafter⟩ := endObject_close hrest
  dsimp only [chosen]
  cases draft.variant with
  | none => exact gives_error
  | some variant =>
      exact ⟨after, by simp [bind, Except.bind, hend, pure, Except.pure], hafter⟩

theorem codec_sees_object (members : List (Spelling × Tree)) :
    Sees (tagged.codec.read depth) (Tree.object members).tokens
      (((Tree.object members).value? depth).bind fun v => (tagged.codec.take v).toOption) := by
  intro more bytes hmore hbytes
  obtain ⟨rest, hskip, hrest⟩ := Spread.byte hbytes rfl
  obtain _ | _ | depth := depth
  · simp only [codec, hskip]
    exact gives_error
  · simp only [codec, hskip]
    exact gives_error
  · have hobject : Gives ((valued? (Tree.value? (depth + 1)) members).bind fun values =>
          (tagged.drafted { variant := none, members := [] } values).bind chosen) more
        (tagged.readObject (depth + 1) rest) :=
      readObject_sees members more rest hmore hrest
    have hvalue : (((Tree.object members).value? (depth + 2)).bind
        fun v => (tagged.codec.take v).toOption) =
          ((valued? (Tree.value? (depth + 1)) members).bind fun values =>
            (tagged.drafted { variant := none, members := [] } values).bind chosen).bind
              fun found => (found.1.take found.2).toOption := by
      show ((valued? (Tree.value? (depth + 1)) members).map Json.object).bind _ = _
      cases valued? (Tree.value? (depth + 1)) members with
      | none => rfl
      | some values => exact take_drafted values
    rw [hvalue]
    simp only [codec, hskip]
    apply hobject.bind
    intro found after hafter
    dsimp only
    cases found.1.take found.2 with
    | error cause => exact gives_error
    | ok a => exact ⟨after, by simp only [pure, Except.pure], hafter⟩

end Tagged

end WalletBridge.Json
