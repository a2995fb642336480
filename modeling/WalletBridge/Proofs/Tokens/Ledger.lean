import Mathlib.Data.List.Nodup
import WalletBridge.Http.Csrf

/-! # Tokens count as if none were ever forgotten

The store drops tokens when it gives out a new one, and looks at the clock again
when a token comes back. A `Ledger` never drops any. As long as the clock does
not go back, the two give the same answers, and what the store holds right after
it gave out a token is told by the ledger alone.
-/

namespace WalletBridge.Http

inductive Errand where
  /-- A token is given out; this is its text. -/
  | issue (token : String)
  | verify (token : String)
deriving DecidableEq

/-- A call on the store, and what the clock says then. -/
structure Visit where
  now : Nat
  errand : Errand
deriving DecidableEq

inductive Reception where
  | given (token : String)
  | verdict (counts : Bool)
deriving DecidableEq

namespace TokenStore

def step (store : TokenStore) (v : Visit) : TokenStore × Reception :=
  match v.errand with
  | .issue token => (store.issue v.now token, .given token)
  | .verify token => (store, .verdict (store.verify v.now token))

def run (store : TokenStore) : List Visit → TokenStore × List Reception
  | [] => (store, [])
  | v :: visits =>
    let (store, reception) := store.step v
    let (store, receptions) := store.run visits
    (store, reception :: receptions)

def after (lifetime : Nat) (visits : List Visit) : TokenStore :=
  (({ lifetime } : TokenStore).run visits).1

end TokenStore

/-- Every token that was ever given out, with the time at which it was. -/
structure Ledger where
  lifetime : Nat
  given : List (String × Nat) := []

namespace Ledger

def counts (ledger : Ledger) (now : Nat) (token : String) : Bool :=
  ledger.given.any fun g => g.1 == token && now < g.2 + ledger.lifetime

def step (ledger : Ledger) (v : Visit) : Ledger × Reception :=
  match v.errand with
  | .issue token => ({ ledger with given := (token, v.now) :: ledger.given }, .given token)
  | .verify token => (ledger, .verdict (ledger.counts v.now token))

def run (ledger : Ledger) : List Visit → Ledger × List Reception
  | [] => (ledger, [])
  | v :: visits =>
    let (ledger, reception) := ledger.step v
    let (ledger, receptions) := ledger.run visits
    (ledger, reception :: receptions)

theorem counts_iff {ledger : Ledger} {now : Nat} {token : String} :
    ledger.counts now token = true ↔
      ∃ time, (token, time) ∈ ledger.given ∧ now < time + ledger.lifetime := by
  simp [counts]

@[simp] theorem run_lifetime (ledger : Ledger) (visits : List Visit) :
    (ledger.run visits).1.lifetime = ledger.lifetime := by
  induction visits generalizing ledger with
  | nil => rfl
  | cons v visits ih =>
      have hstep : (ledger.step v).1.lifetime = ledger.lifetime := by
        unfold step
        cases v.errand <;> rfl
      rw [run, ih, hstep]

theorem mem_given_run {ledger : Ledger} {visits : List Visit} {token : String} {time : Nat} :
    (token, time) ∈ (ledger.run visits).1.given ↔
      (token, time) ∈ ledger.given ∨ ⟨time, .issue token⟩ ∈ visits := by
  induction visits generalizing ledger with
  | nil => simp [run]
  | cons v visits ih =>
      obtain ⟨now, errand⟩ := v
      rw [run, ih]
      cases errand with
      | issue other => simp [step, or_assoc, or_left_comm, and_comm]
      | verify other => simp [step]

end Ledger

/-- At this time the store holds what it should: of every token that still counts, and of nothing
that was not given out, the latest entry of the ledger. -/
structure Agrees (store : TokenStore) (ledger : Ledger) (now : Nat) : Prop where
  lifetime : store.lifetime = ledger.lifetime
  past : ∀ g ∈ ledger.given, g.2 ≤ now
  names : (store.tokens.map (·.text)).Nodup
  given : ∀ k ∈ store.tokens, ∃ time, (k.text, time) ∈ ledger.given ∧
    k.expires = time + ledger.lifetime ∧ ∀ t, (k.text, t) ∈ ledger.given → t ≤ time
  kept : ∀ g ∈ ledger.given, now < g.2 + ledger.lifetime → ∃ k ∈ store.tokens, k.text = g.1

namespace Agrees

variable {store : TokenStore} {ledger : Ledger} {now : Nat}

theorem start (lifetime now : Nat) : Agrees { lifetime } { lifetime } now := by
  constructor <;> simp

theorem mono (h : Agrees store ledger now) {later : Nat} (hlater : now ≤ later) :
    Agrees store ledger later where
  lifetime := h.lifetime
  past g hg := Nat.le_trans (h.past g hg) hlater
  names := h.names
  given := h.given
  kept g hg hlive := h.kept g hg (Nat.lt_of_le_of_lt hlater hlive)

/-- A token that counts by the ledger is held until the same time at least. -/
theorem held (h : Agrees store ledger now) {token : String} {time : Nat}
    (hgiven : (token, time) ∈ ledger.given) (hlive : now < time + ledger.lifetime) :
    ∃ k ∈ store.tokens, k.text = token ∧ time + ledger.lifetime ≤ k.expires := by
  obtain ⟨k, hk, rfl⟩ := h.kept _ hgiven hlive
  obtain ⟨latest, -, hexpires, hlatest⟩ := h.given k hk
  have hle : time ≤ latest := hlatest time hgiven
  exact ⟨k, hk, rfl, by omega⟩

theorem verify_eq (h : Agrees store ledger now) (token : String) :
    store.verify now token = ledger.counts now token := by
  rw [Bool.eq_iff_iff, Ledger.counts_iff]
  simp only [TokenStore.verify, List.any_eq_true, Bool.and_eq_true, beq_iff_eq, decide_eq_true_eq]
  constructor
  · rintro ⟨k, hk, rfl, hlive⟩
    obtain ⟨time, hgiven, hexpires, -⟩ := h.given k hk
    exact ⟨time, hgiven, by omega⟩
  · rintro ⟨time, hgiven, hlive⟩
    obtain ⟨k, hk, htext, hexpires⟩ := h.held hgiven hlive
    exact ⟨k, hk, htext, by omega⟩

theorem issue (h : Agrees store ledger now) (token : String) :
    Agrees (store.issue now token) { ledger with given := (token, now) :: ledger.given } now where
  lifetime := h.lifetime
  past g hg := by
    rcases List.mem_cons.mp hg with rfl | hg
    · exact Nat.le_refl now
    · exact h.past g hg
  names := by
    have hkept : ((store.tokens.filter fun t => now < t.expires && t.text != token).map
        (·.text)).Nodup := h.names.sublist (List.filter_sublist.map _)
    simpa [TokenStore.issue] using hkept
  given k hk := by
    simp only [TokenStore.issue, List.mem_cons, List.mem_filter, Bool.and_eq_true,
      decide_eq_true_eq, bne_iff_ne] at hk
    rcases hk with rfl | ⟨hk, -, hne⟩
    · refine ⟨now, by simp, by rw [h.lifetime], ?_⟩
      intro t ht
      rcases List.mem_cons.mp ht with ht | ht
      · exact Nat.le_of_eq (Prod.mk.inj ht).2
      · exact h.past _ ht
    · obtain ⟨time, hgiven, hexpires, hlatest⟩ := h.given k hk
      refine ⟨time, by simp [hgiven], hexpires, ?_⟩
      intro t ht
      rcases List.mem_cons.mp ht with ht | ht
      · exact absurd (Prod.mk.inj ht).1 hne
      · exact hlatest t ht
  kept g hg hlive := by
    by_cases hname : g.1 = token
    · exact ⟨_, List.mem_cons_self, hname.symm⟩
    · have hold : g ∈ ledger.given := by
        rcases List.mem_cons.mp hg with rfl | hg
        · exact absurd rfl hname
        · exact hg
      -- The store drops what it thinks has expired, and it may know a later time than this entry.
      obtain ⟨k, hk, htext, hexpires⟩ := h.held hold hlive
      have hstays : now < k.expires := Nat.lt_of_lt_of_le hlive hexpires
      refine ⟨k, List.mem_cons_of_mem _ (List.mem_filter.mpr ⟨hk, ?_⟩), htext⟩
      simp [hstays, htext, hname]

/-- One visit: both are told the same, and the store goes on holding what it should. -/
theorem step (h : Agrees store ledger now) {v : Visit} (hnow : now ≤ v.now) :
    Agrees (store.step v).1 (ledger.step v).1 v.now ∧ (store.step v).2 = (ledger.step v).2 := by
  have hv := h.mono hnow
  unfold TokenStore.step Ledger.step
  cases v.errand with
  | issue token => exact ⟨hv.issue token, rfl⟩
  | verify token => exact ⟨hv, congrArg Reception.verdict (hv.verify_eq token)⟩

theorem run (h : Agrees store ledger now) {visits : List Visit}
    (hclock : visits.Pairwise fun a b => a.now ≤ b.now) (hstart : ∀ v ∈ visits, now ≤ v.now) :
    (∀ later, now ≤ later → (∀ v ∈ visits, v.now ≤ later) →
        Agrees (store.run visits).1 (ledger.run visits).1 later) ∧
      (store.run visits).2 = (ledger.run visits).2 := by
  induction visits generalizing store ledger now with
  | nil => exact ⟨fun later hlater _ => h.mono hlater, rfl⟩
  | cons v visits ih =>
      -- What the store holds is right at the time of the first visit; no later one is before it.
      obtain ⟨hfirst, hrest⟩ := List.pairwise_cons.mp hclock
      obtain ⟨hstep, htold⟩ := h.step (hstart v (by simp))
      obtain ⟨hend, htolds⟩ := ih hstep hrest hfirst
      refine ⟨fun later _ hlater => ?_, ?_⟩
      · exact hend later (hlater v (by simp)) fun u hu => hlater u (by simp [hu])
      · rw [TokenStore.run, Ledger.run]
        simp only [htold, htolds]

end Agrees

/-- What the store owes a visit, told from the visits before it. -/
structure Served (lifetime : Nat) (earlier : List Visit) (v : Visit) : Prop where
  verdict : ∀ token, v.errand = .verify token →
    (((TokenStore.after lifetime earlier).step v).2 = .verdict true ↔
      ∃ time, ⟨time, .issue token⟩ ∈ earlier ∧ v.now < time + lifetime)
  unchanged : ∀ token, v.errand = .verify token →
    TokenStore.after lifetime (earlier ++ [v]) = TokenStore.after lifetime earlier
  /-- Whoever holds a token that counts goes on holding it, whoever is given a new one. -/
  spared : ∀ token other later, v.errand = .issue token → v.now ≤ later →
    (TokenStore.after lifetime earlier).verify later other = true →
    (TokenStore.after lifetime (earlier ++ [v])).verify later other = true
  /-- Right after a token was given out, it is held, and of the earlier ones those that count. -/
  held : ∀ token, v.errand = .issue token → ∀ text,
    text ∈ (TokenStore.after lifetime (earlier ++ [v])).tokens.map (·.text) ↔
      text = token ∨ ∃ time, ⟨time, .issue text⟩ ∈ earlier ∧ v.now < time + lifetime
  /-- No token is held twice, and each expires a lifetime after it was last given out. -/
  once : ((TokenStore.after lifetime earlier).tokens.map (·.text)).Nodup
  expires : ∀ k ∈ (TokenStore.after lifetime earlier).tokens,
    ∃ time, ⟨time, .issue k.text⟩ ∈ earlier ∧ k.expires = time + lifetime ∧
      ∀ t, ⟨t, .issue k.text⟩ ∈ earlier → t ≤ time

theorem TokenStore.after_concat (lifetime : Nat) (earlier : List Visit) (v : Visit) :
    after lifetime (earlier ++ [v]) = ((after lifetime earlier).step v).1 := by
  have hrun : ∀ store : TokenStore,
      (store.run (earlier ++ [v])).1 = ((store.run earlier).1.step v).1 := by
    induction earlier with
    | nil => intro store; rfl
    | cons u earlier ih => intro store; exact ih (store.step u).1
  exact hrun _

section
variable {lifetime : Nat} {earlier : List Visit} {v : Visit}

theorem Agrees.served
    (h : Agrees (TokenStore.after lifetime earlier) (Ledger.run { lifetime } earlier).1 v.now) :
    Served lifetime earlier v := by
  have hgiven : ∀ {token time}, (token, time) ∈ (Ledger.run { lifetime } earlier).1.given ↔
      ⟨time, .issue token⟩ ∈ earlier := by
    intro token time
    simp [Ledger.mem_given_run]
  have hlifetime : (Ledger.run { lifetime } earlier).1.lifetime = lifetime := by simp
  constructor
  case verdict =>
    intro token herrand
    simp only [TokenStore.step, herrand, Reception.verdict.injEq, h.verify_eq, Ledger.counts_iff,
      hgiven, hlifetime]
  case unchanged =>
    intro token herrand
    rw [TokenStore.after_concat, TokenStore.step, herrand]
  case spared =>
    intro token other later herrand hlater hlive
    have hissued := (h.issue token).mono hlater
    rw [(h.mono hlater).verify_eq, Ledger.counts_iff] at hlive
    obtain ⟨time, htime, hcounts⟩ := hlive
    rw [TokenStore.after_concat, TokenStore.step, herrand]
    show (TokenStore.issue _ v.now token).verify later other = true
    rw [hissued.verify_eq, Ledger.counts_iff]
    exact ⟨time, List.mem_cons_of_mem _ htime, hcounts⟩
  case held =>
    intro token herrand text
    have hissued := h.issue token
    rw [TokenStore.after_concat, TokenStore.step, herrand]
    show text ∈ (TokenStore.issue _ v.now token).tokens.map (·.text) ↔ _
    constructor
    · intro htext
      obtain ⟨k, hk, rfl⟩ := List.mem_map.mp htext
      simp only [TokenStore.issue, List.mem_cons, List.mem_filter, Bool.and_eq_true,
        decide_eq_true_eq] at hk
      rcases hk with rfl | ⟨hk, hlive, -⟩
      · exact .inl rfl
      · obtain ⟨time, htime, hexpires, -⟩ := h.given k hk
        exact .inr ⟨time, hgiven.mp htime, by omega⟩
    · rintro (rfl | ⟨time, htime, hlive⟩)
      · simp [TokenStore.issue]
      · obtain ⟨k, hk, rfl, -⟩ := hissued.held
          (List.mem_cons_of_mem _ (hgiven.mpr htime)) (by simpa using hlive)
        exact List.mem_map_of_mem hk
  case once => exact h.names
  case expires =>
    intro k hk
    obtain ⟨time, htime, hexpires, hlatest⟩ := h.given k hk
    exact ⟨time, hgiven.mp htime, by omega, fun t ht => hlatest t (hgiven.mpr ht)⟩

end

/-- While the clock does not go back, the store tells every visitor what a store would that
forgets nothing, and it holds no more than it has to. -/
theorem run_as_ledger (lifetime : Nat) {visits : List Visit}
    (hclock : visits.Pairwise fun a b => a.now ≤ b.now) :
    (({ lifetime } : TokenStore).run visits).2 = (Ledger.run { lifetime } visits).2 ∧
      ∀ earlier v later, visits = earlier ++ v :: later → Served lifetime earlier v := by
  have hstart := Agrees.start lifetime 0
  constructor
  · exact (hstart.run hclock (by simp)).2
  · rintro earlier v later rfl
    obtain ⟨hearlier, -, hbefore⟩ := List.pairwise_append.mp hclock
    have hlast : ∀ u ∈ earlier, u.now ≤ v.now := fun u hu => hbefore u hu v (by simp)
    exact ((hstart.run hearlier (by simp)).1 v.now (Nat.zero_le _) hlast).served

/-- A token lives through another's issue up to its last moment, and is dropped by the next one. -/
theorem run_as_ledger_dropped :
    let visits : List Visit := [⟨0, .issue "a"⟩, ⟨4, .issue "b"⟩, ⟨4, .verify "a"⟩,
      ⟨5, .verify "a"⟩, ⟨5, .issue "c"⟩]
    (visits.Pairwise fun a b => a.now ≤ b.now) ∧
      (({ lifetime := 5 } : TokenStore).run visits).2 =
        [.given "a", .given "b", .verdict true, .verdict false, .given "c"] ∧
      ((({ lifetime := 5 } : TokenStore).run visits).2 = (Ledger.run { lifetime := 5 } visits).2 ∧
        ∀ earlier v later, visits = earlier ++ v :: later → Served 5 earlier v) := by
  intro visits
  have hclock : visits.Pairwise fun a b => a.now ≤ b.now := by decide
  exact ⟨hclock, by decide, run_as_ledger 5 hclock⟩

end WalletBridge.Http
