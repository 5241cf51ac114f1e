import FluxDown.Base.Run
import FluxDown.Link.Text

/-!
# Lease of the reports

Library `Engine`. A batch of reports is leased in one row of the database until it is acknowledged.
A flag in memory saves readers of an empty row from the database; it is stored before the
transaction of a lease and after those of the others, so that a store can come late. As long as none
comes late, a lease is seen by every reader until it is acknowledged.
-/

namespace Engine.ReportLease

open Base Link

/-- A call between its first access and its return. -/
inductive Phase
  | leasing (leaseJson : String)
  | acknowledged
  | peeking
  | foundEmpty
deriving DecidableEq

/-- A change of the row. -/
inductive Change
  | leased (lease : String)
  | cleared (batchId : String)
deriving DecidableEq

/-- The two rows of the database, the flag, the calls in flight and the changes of the row so far
(`src/native/engine/src/db.rs:676–690`). -/
structure Db where
  lease : Option String
  pending : Option String
  leaseKnownEmpty : Bool
  calls : Nat → Option Phase
  changes : List Change

/-- The accesses of the calls, one step each. A call is known by a number; the first access is a
step of its own only where the code has another after it. -/
inductive Access
  | leaseStore (call : Nat) (leaseJson : String)
  | leaseTransaction (call : Nat)
  | leaseError (call : Nat)
  | ackTransaction (call : Nat) (batchId : String)
  | ackError (call : Nat) (batchId : String)
  | ackStore (call : Nat)
  | peekLoad (call : Nat)
  | peekRead (call : Nat)
  | peekError (call : Nat)
  | peekStore (call : Nat)
deriving DecidableEq

/-- What a call returns; no value stands for an error of the database. -/
inductive Return
  | leased (call : Nat) (lease : Option String)
  | acked (call : Nat) (matched : Option Bool)
  | peeked (call : Nat) (lease : Option (Option String))
deriving DecidableEq

/-- The row holds a lease: its value is more than white space. -/
def stored (lease : Option String) : Option String :=
  lease.filter fun value ↦ !(trim value.toList).isEmpty

namespace Db

/-- An open database without calls (`db.rs:1266–1275`). -/
def opened (lease pending : Option String) : Db := ⟨lease, pending, false, fun _ ↦ none, []⟩

def begin (db : Db) (call : Nat) (phase : Phase) : Db :=
  { db with calls := Function.update db.calls call (some phase) }

def finish (db : Db) (call : Nat) : Db :=
  { db with calls := Function.update db.calls call none }

end Db

section Steps

variable (batchIdOf : String → Option String)

/-- The batch is the one of the row (`db.rs:3240–3250`). -/
def batchMatches (db : Db) (batchId : String) : Bool := db.lease.bind batchIdOf = some batchId

/-- One access, and what its call returns with it (`db.rs:3204–3275`). An access that its call is
not ready for changes nothing. -/
def access (db : Db) : Access → Db × Option Return
  | .leaseStore call leaseJson =>
    if db.calls call = none then
      (Db.begin { db with leaseKnownEmpty := false } call (.leasing leaseJson), none)
    else (db, none)
  | .leaseTransaction call =>
    match db.calls call with
    | some (.leasing leaseJson) =>
      match stored db.lease with
      | some existing => (db.finish call, some (.leased call (some existing)))
      | none =>
        (Db.finish { db with lease := some leaseJson, pending := some "",
                             changes := db.changes ++ [Change.leased leaseJson] } call,
          some (.leased call (some leaseJson)))
    | _ => (db, none)
  | .leaseError call =>
    match db.calls call with
    | some (.leasing _) => (db.finish call, some (.leased call none))
    | _ => (db, none)
  | .ackTransaction call batchId =>
    if db.calls call = none then
      if batchMatches batchIdOf db batchId then
        (Db.begin { db with lease := some "", changes := db.changes ++ [Change.cleared batchId] }
          call .acknowledged, none)
      else (db, some (.acked call (some false)))
    else (db, none)
  | .ackError call _ => if db.calls call = none then (db, some (.acked call none)) else (db, none)
  | .ackStore call =>
    if db.calls call = some .acknowledged then
      (Db.finish { db with leaseKnownEmpty := true } call, some (.acked call (some true)))
    else (db, none)
  | .peekLoad call =>
    if db.calls call = none then
      if db.leaseKnownEmpty then (db, some (.peeked call (some none)))
      else (db.begin call .peeking, none)
    else (db, none)
  | .peekRead call =>
    if db.calls call = some .peeking then
      match stored db.lease with
      | some lease => (db.finish call, some (.peeked call (some (some lease))))
      | none => (db.begin call .foundEmpty, none)
    else (db, none)
  | .peekError call =>
    if db.calls call = some .peeking then (db.finish call, some (.peeked call none))
    else (db, none)
  | .peekStore call =>
    if db.calls call = some .foundEmpty then
      (Db.finish { db with leaseKnownEmpty := true } call, some (.peeked call (some none)))
    else (db, none)

/-- The state after one access. -/
def step (db : Db) (a : Access) : Db := (access batchIdOf db a).1

end Steps

/-! ## What readers are promised -/

/-- What the accesses after a lease may return until the lease is acknowledged: `begun` is the state
in which the lease was returned. -/
structure Shows (batchIdOf : String → Option String) (lease : String) (begun db : Db) (a : Access) :
    Prop where
  peeked : ∀ call seen, begun.calls call = none →
    (access batchIdOf db a).2 = some (.peeked call (some seen)) → seen = some lease
  leased : ∀ call seen,
    (access batchIdOf db a).2 = some (.leased call (some seen)) → seen = lease
  acked : ∀ call batchId, a = .ackTransaction call batchId → batchIdOf lease ≠ some batchId →
    step batchIdOf db a = db ∧ ∀ matched,
      (access batchIdOf db a).2 = some (.acked call (some matched)) → matched = false

/-- The access does not commit the acknowledgement of the lease. -/
def Keeps (batchIdOf : String → Option String) (lease : String) (db : Db) (a : Access) : Prop :=
  ∀ batchId, batchIdOf lease = some batchId →
    (step batchIdOf db a).changes ≠ db.changes ++ [.cleared batchId]

/-- From the return of a lease to its acknowledgement, it is shown to everyone. -/
def NeverHidden (batchIdOf : String → Option String) (db : Db) (accesses : List Access) : Prop :=
  ∀ before first lease call during a after,
    accesses = before ++ first :: during ++ a :: after →
    (access batchIdOf (run (step batchIdOf) db before) first).2 =
      some (.leased call (some lease)) →
    EveryStep (step batchIdOf) (Keeps batchIdOf lease)
      (run (step batchIdOf) db (before ++ [first])) during →
    Shows batchIdOf lease (run (step batchIdOf) db (before ++ [first]))
      (run (step batchIdOf) db (before ++ first :: during)) a

/-- Leases and acknowledgements take turns: the lease that is outstanding after a change. -/
def turn (batchIdOf : String → Option String) : Option String → Change → Option (Option String)
  | none, .leased lease => some (some lease)
  | some lease, .cleared batchId => if batchIdOf lease = some batchId then some none else none
  | _, _ => none

/-- The flag is stored in time: no store says that the row is empty while it is not, and a lease is
written, with more than white space, while the flag does not say so. -/
def Timely (db : Db) : Access → Prop
  | .leaseTransaction call => ∀ leaseJson, db.calls call = some (.leasing leaseJson) →
      stored db.lease = none →
        db.leaseKnownEmpty = false ∧ stored (some leaseJson) = some leaseJson
  | .ackStore call => db.calls call = some .acknowledged → stored db.lease = none
  | .peekStore call => db.calls call = some .foundEmpty → stored db.lease = none
  | _ => True

/-- The flag is right, and the changes so far take turns and end in what the row holds. -/
structure Truthful (batchIdOf : String → Option String) (outstanding : Option String) (db : Db) :
    Prop where
  flag : db.leaseKnownEmpty = true → stored db.lease = none
  turns : db.changes.foldlM (turn batchIdOf) outstanding = some (stored db.lease)

private theorem stored_empty : stored (some "") = none := by decide

private theorem stored_eq_some {lease : Option String} {value : String}
    (h : stored lease = some value) :
    lease = some value := (Option.filter_eq_some_iff.mp h).1

section Steps

variable {batchIdOf : String → Option String} {outstanding : Option String} {db : Db}

private theorem turns_append {changes : List Change} {middle : Option String} {change : Change}
    (h : changes.foldlM (turn batchIdOf) outstanding = some middle) :
    (changes ++ [change]).foldlM (turn batchIdOf) outstanding = turn batchIdOf middle change := by
  rw [List.foldlM_append, h]
  simp

/-- Texts without a batch are not acknowledged; white space is one. -/
theorem batch_of_stored (hblank : ∀ text, stored (some text) = none → batchIdOf text = none)
    {batchId : String} (h : batchMatches batchIdOf db batchId = true) :
    ∃ lease, stored db.lease = some lease ∧ batchIdOf lease = some batchId := by
  have h := of_decide_eq_true h
  obtain ⟨lease, hlease, hbatch⟩ := Option.bind_eq_some_iff.mp h
  refine ⟨lease, ?_, hbatch⟩
  cases hstored : stored (some lease) with
  | none =>
    rw [hblank lease hstored] at hbatch
    cases hbatch
  | some value =>
    rw [hlease, hstored, ← stored_eq_some hstored]

/-- What an access can do to the row and the flag. -/
inductive Effect (batchIdOf : String → Option String) (db db' : Db) (a : Access) : Prop
  | quiet (hlease : db'.lease = db.lease) (hchanges : db'.changes = db.changes)
      (hflag : db'.leaseKnownEmpty = true → db.leaseKnownEmpty = true)
  | writes (call : Nat) (leaseJson : String) (ha : a = .leaseTransaction call)
      (hcall : db.calls call = some (.leasing leaseJson)) (hempty : stored db.lease = none)
      (hlease : db'.lease = some leaseJson) (hchanges : db'.changes = db.changes ++ [.leased leaseJson])
      (hflag : db'.leaseKnownEmpty = db.leaseKnownEmpty)
  | clears (batchId : String) (hmatches : batchMatches batchIdOf db batchId = true)
      (hlease : db'.lease = some "") (hchanges : db'.changes = db.changes ++ [.cleared batchId])
  | marks (hempty : Timely db a → stored db.lease = none) (hlease : db'.lease = db.lease)
      (hchanges : db'.changes = db.changes)

private theorem effect_of_self {a : Access} (h : step batchIdOf db a = db) :
    Effect batchIdOf db (step batchIdOf db a) a := by
  rw [h]
  exact .quiet rfl rfl id

private theorem effect_of_begin {a : Access} (call : Nat) (phase : Phase)
    (h : step batchIdOf db a = db.begin call phase) :
    Effect batchIdOf db (step batchIdOf db a) a := by
  rw [h]
  exact .quiet rfl rfl id

private theorem effect_of_finish {a : Access} (call : Nat)
    (h : step batchIdOf db a = db.finish call) :
    Effect batchIdOf db (step batchIdOf db a) a := by
  rw [h]
  exact .quiet rfl rfl id

private theorem effect_step (batchIdOf : String → Option String) (db : Db) (a : Access) :
    Effect batchIdOf db (step batchIdOf db a) a := by
  cases a with
  | leaseStore call leaseJson =>
    by_cases hcall : db.calls call = none
    · apply Effect.quiet
      · simp [step, access, hcall, Db.begin]
      · simp [step, access, hcall, Db.begin]
      · simp [step, access, hcall, Db.begin]
    · exact effect_of_self (by simp [step, access, hcall])
  | leaseTransaction call =>
    cases hcall : db.calls call with
    | none => exact effect_of_self (by simp [step, access, hcall])
    | some phase =>
      cases phase with
      | leasing leaseJson =>
        cases hstored : stored db.lease with
        | some existing => exact effect_of_finish call (by simp [step, access, hcall, hstored])
        | none =>
          apply Effect.writes call leaseJson rfl hcall hstored
          · simp [step, access, hcall, hstored, Db.finish]
          · simp [step, access, hcall, hstored, Db.finish]
          · simp [step, access, hcall, hstored, Db.finish]
      | _ => exact effect_of_self (by simp [step, access, hcall])
  | leaseError call =>
    cases hcall : db.calls call with
    | none => exact effect_of_self (by simp [step, access, hcall])
    | some phase =>
      cases phase with
      | leasing leaseJson => exact effect_of_finish call (by simp [step, access, hcall])
      | _ => exact effect_of_self (by simp [step, access, hcall])
  | ackTransaction call batchId =>
    by_cases hcall : db.calls call = none
    · by_cases hmatches : batchMatches batchIdOf db batchId = true
      · apply Effect.clears batchId hmatches
        · simp [step, access, hcall, hmatches, Db.begin]
        · simp [step, access, hcall, hmatches, Db.begin]
      · exact effect_of_self (by simp [step, access, hcall, hmatches])
    · exact effect_of_self (by simp [step, access, hcall])
  | ackError call batchId =>
    by_cases hcall : db.calls call = none
    · exact effect_of_self (by simp [step, access, hcall])
    · exact effect_of_self (by simp [step, access, hcall])
  | ackStore call =>
    by_cases hcall : db.calls call = some .acknowledged
    · apply Effect.marks (fun htimely : Timely db (.ackStore call) ↦ htimely hcall)
      · simp [step, access, hcall, Db.finish]
      · simp [step, access, hcall, Db.finish]
    · exact effect_of_self (by simp [step, access, hcall])
  | peekLoad call =>
    by_cases hcall : db.calls call = none
    · by_cases hflag : db.leaseKnownEmpty = true
      · exact effect_of_self (by simp [step, access, hcall, hflag])
      · exact effect_of_begin call .peeking (by simp [step, access, hcall, hflag])
    · exact effect_of_self (by simp [step, access, hcall])
  | peekRead call =>
    by_cases hcall : db.calls call = some .peeking
    · cases hstored : stored db.lease with
      | some lease => exact effect_of_finish call (by simp [step, access, hcall, hstored])
      | none => exact effect_of_begin call .foundEmpty (by simp [step, access, hcall, hstored])
    · exact effect_of_self (by simp [step, access, hcall])
  | peekError call =>
    by_cases hcall : db.calls call = some .peeking
    · exact effect_of_finish call (by simp [step, access, hcall])
    · exact effect_of_self (by simp [step, access, hcall])
  | peekStore call =>
    by_cases hcall : db.calls call = some .foundEmpty
    · apply Effect.marks (fun htimely : Timely db (.peekStore call) ↦ htimely hcall)
      · simp [step, access, hcall, Db.finish]
      · simp [step, access, hcall, Db.finish]
    · exact effect_of_self (by simp [step, access, hcall])

/-- An access in time keeps the flag right. -/
theorem Truthful.step (hblank : ∀ text, stored (some text) = none → batchIdOf text = none)
    (h : Truthful batchIdOf outstanding db) {a : Access} (htimely : Timely db a) :
    Truthful batchIdOf outstanding (step batchIdOf db a) := by
  cases effect_step batchIdOf db a with
  | quiet hlease hchanges hflag =>
    constructor
    · rw [hlease]
      exact fun hset ↦ h.flag (hflag hset)
    · rw [hlease, hchanges]
      exact h.turns
  | writes call leaseJson ha hcall hempty hlease hchanges hflag =>
    subst ha
    obtain ⟨hunset, htext⟩ := htimely leaseJson hcall hempty
    constructor
    · rw [hflag, hunset]
      intro hset
      cases hset
    · rw [hlease, hchanges, turns_append h.turns, hempty, htext]
      rfl
  | clears batchId hmatches hlease hchanges =>
    obtain ⟨lease, hstored, hbatch⟩ := batch_of_stored hblank hmatches
    constructor
    · rw [hlease]
      exact fun _ ↦ stored_empty
    · rw [hlease, hchanges, turns_append h.turns, hstored, stored_empty]
      simp [turn, hbatch]
  | marks hempty hlease hchanges =>
    constructor
    · rw [hlease]
      exact fun _ ↦ hempty htimely
    · rw [hlease, hchanges]
      exact h.turns

/-- A lease stays until its acknowledgement commits. -/
theorem stored_step (hblank : ∀ text, stored (some text) = none → batchIdOf text = none)
    {lease : String} (h : stored db.lease = some lease) {a : Access}
    (hkeeps : Keeps batchIdOf lease db a) :
    stored (ReportLease.step batchIdOf db a).lease = some lease := by
  cases effect_step batchIdOf db a with
  | quiet hlease hchanges hflag => rwa [hlease]
  | writes call leaseJson ha hcall hempty hlease hchanges hflag =>
    rw [h] at hempty
    cases hempty
  | clears batchId hmatches hlease hchanges =>
    obtain ⟨other, hstored, hbatch⟩ := batch_of_stored hblank hmatches
    rw [h] at hstored
    obtain rfl := Option.some.inj hstored
    exact absurd hchanges (hkeeps batchId hbatch)
  | marks hempty hlease hchanges => rwa [hlease]

/-- A peek that returns did so with the flag, with the row, or after it found the row empty. -/
theorem peeked_cases {a : Access} {call : Nat} {seen : Option String}
    (h : (access batchIdOf db a).2 = some (.peeked call (some seen))) :
    db.leaseKnownEmpty = true ∨ (∃ lease, stored db.lease = some lease ∧ seen = some lease) ∨
      (Timely db a → stored db.lease = none) := by
  cases a with
  | peekLoad caller =>
    left
    by_contra hflag
    by_cases hcall : db.calls caller = none
    · simp [access, hcall, hflag] at h
    · simp [access, hcall] at h
  | peekRead caller =>
    right
    left
    by_cases hcall : db.calls caller = some .peeking
    · cases hstored : stored db.lease with
      | some lease =>
        simp only [access, hcall, if_true, hstored, Option.some.injEq, Return.peeked.injEq] at h
        exact ⟨lease, rfl, h.2.symm⟩
      | none => simp [access, hcall, hstored] at h
    · simp [access, hcall] at h
  | peekStore caller =>
    right
    right
    by_cases hcall : db.calls caller = some .foundEmpty
    · exact fun htimely ↦ htimely hcall
    · simp [access, hcall] at h
  | _ => grind [access]

/-- A lease that is returned is the one of the row, or is written to the empty row. -/
theorem leased_cases {a : Access} {call : Nat} {lease : String}
    (h : (access batchIdOf db a).2 = some (.leased call (some lease))) :
    a = .leaseTransaction call ∧
      (stored db.lease = some lease ∧ (step batchIdOf db a).lease = db.lease ∨
      stored db.lease = none ∧ db.calls call = some (.leasing lease) ∧
        (step batchIdOf db a).lease = some lease) := by
  cases a with
  | leaseTransaction caller =>
    cases hcall : db.calls caller with
    | none => simp [access, hcall] at h
    | some phase =>
      cases phase with
      | leasing leaseJson =>
        cases hstored : stored db.lease with
        | some existing =>
          simp only [access, hcall, hstored, Option.some.injEq, Return.leased.injEq] at h
          obtain ⟨rfl, rfl⟩ := h
          refine ⟨rfl, .inl ⟨rfl, ?_⟩⟩
          simp [step, access, hcall, hstored, Db.finish]
        | none =>
          simp only [access, hcall, hstored, Option.some.injEq, Return.leased.injEq] at h
          obtain ⟨rfl, rfl⟩ := h
          refine ⟨rfl, .inr ⟨rfl, hcall, ?_⟩⟩
          simp [step, access, hcall, hstored, Db.finish]
      | _ => simp [access, hcall] at h
  | _ => grind [access]

/-- The row holds a lease from when it is returned. -/
theorem stored_of_leased {a : Access} {call : Nat} {lease : String} (htimely : Timely db a)
    (h : (access batchIdOf db a).2 = some (.leased call (some lease))) :
    stored (step batchIdOf db a).lease = some lease := by
  obtain ⟨rfl, ⟨hstored, hlease⟩ | ⟨hempty, hcall, hlease⟩⟩ := leased_cases h
  · rwa [hlease]
  · rw [hlease]
    exact (htimely lease hcall hempty).2

/-- With a right flag, an access in time shows the lease of the row. -/
theorem shows_of_truthful (hblank : ∀ text, stored (some text) = none → batchIdOf text = none)
    (h : Truthful batchIdOf outstanding db) {lease : String} (hstored : stored db.lease = some lease)
    {a : Access} (htimely : Timely db a) (begun : Db) : Shows batchIdOf lease begun db a := by
  constructor
  · intro call seen _ hreturn
    rcases peeked_cases hreturn with hflag | ⟨other, hother, rfl⟩ | hempty
    · rw [h.flag hflag] at hstored
      cases hstored
    · rw [← hother, hstored]
    · rw [hempty htimely] at hstored
      cases hstored
  · intro call seen hreturn
    obtain ⟨-, ⟨hsame, -⟩ | ⟨hempty, -, -⟩⟩ := leased_cases hreturn
    · rw [hstored] at hsame
      exact (Option.some.inj hsame).symm
    · rw [hstored] at hempty
      cases hempty
  · intro call batchId ha hother
    subst ha
    have hmatches : batchMatches batchIdOf db batchId = false := by
      apply Bool.eq_false_iff.mpr
      intro hmatches
      obtain ⟨other, hsame, hbatch⟩ := batch_of_stored hblank hmatches
      rw [hstored] at hsame
      obtain rfl := Option.some.inj hsame
      exact hother hbatch
    by_cases hcall : db.calls call = none
    · simp [step, access, hcall, hmatches]
    · simp [step, access, hcall]

/-- No other access could be left out: one that is not in time leaves a flag that hides a lease, or
leases white space, which no reader is shown. -/
theorem hides_of_not_timely {a : Access} (h : ¬ Timely db a) :
    ((step batchIdOf db a).leaseKnownEmpty = true ∧
        stored (step batchIdOf db a).lease ≠ none) ∨
      ∃ call text, (access batchIdOf db a).2 = some (.leased call (some text)) ∧
        stored (some text) = none := by
  cases a with
  | leaseTransaction call =>
    simp only [Timely, not_forall] at h
    obtain ⟨leaseJson, hcall, hempty, hlate⟩ := h
    cases htext : stored (some leaseJson) with
    | none => exact .inr ⟨call, leaseJson, by simp [access, hcall, hempty], htext⟩
    | some value =>
      obtain rfl := Option.some.inj (stored_eq_some htext)
      left
      constructor
      · simpa [step, access, hcall, hempty, Db.finish, htext] using hlate
      · simp [step, access, hcall, hempty, Db.finish, htext]
  | ackStore call =>
    simp only [Timely, not_forall] at h
    obtain ⟨hcall, hstored⟩ := h
    exact .inl ⟨by simp [step, access, hcall, Db.finish],
      by simpa [step, access, hcall, Db.finish] using hstored⟩
  | peekStore call =>
    simp only [Timely, not_forall] at h
    obtain ⟨hcall, hstored⟩ := h
    exact .inl ⟨by simp [step, access, hcall, Db.finish],
      by simpa [step, access, hcall, Db.finish] using hstored⟩
  | _ => exact absurd trivial h

end Steps

section Runs

variable {batchIdOf : String → Option String}

private theorem truthful_run (hblank : ∀ text, stored (some text) = none → batchIdOf text = none)
    {outstanding : Option String} {db : Db} (hdb : Truthful batchIdOf outstanding db)
    {accesses : List Access} (h : EveryStep (step batchIdOf) Timely db accesses) :
    Truthful batchIdOf outstanding (run (step batchIdOf) db accesses) :=
  run_invariant (fun _ _ hs htimely ↦ hs.step hblank htimely) hdb h

/-- A lease is never hidden while every store of the flag comes in time, and leases and
acknowledgements take turns: at most one lease is outstanding, and it is acknowledged once. -/
theorem neverHidden_of_timely
    (hblank : ∀ text, stored (some text) = none → batchIdOf text = none)
    (lease pending : Option String) (accesses : List Access)
    (h : EveryStep (step batchIdOf) Timely (Db.opened lease pending) accesses) :
    NeverHidden batchIdOf (Db.opened lease pending) accesses ∧
      (run (step batchIdOf) (Db.opened lease pending) accesses).changes.foldlM (turn batchIdOf)
          (stored lease) =
        some (stored (run (step batchIdOf) (Db.opened lease pending) accesses).lease) := by
  have hopened : Truthful batchIdOf (stored lease) (Db.opened lease pending) :=
    ⟨fun hflag ↦ Bool.noConfusion hflag, rfl⟩
  refine ⟨?_, (truthful_run hblank hopened h).turns⟩
  intro before first leased call during a after haccesses hreturn hkeeps
  rw [haccesses] at h
  obtain ⟨hrun, ha, -⟩ := everyStep_append.mp h
  obtain ⟨-, hfirst, -⟩ := everyStep_append.mp hrun
  have hleased := stored_of_leased hfirst hreturn
  rw [run_concat] at hkeeps
  have hstored : stored (run (step batchIdOf) (Db.opened lease pending)
      (before ++ first :: during)).lease = some leased := by
    rw [run_append, run_cons]
    exact @run_invariant _ _ _ (Keeps batchIdOf leased) (fun db ↦ stored db.lease = some leased)
      (fun _ _ hs ↦ stored_step hblank hs) _ _ hleased hkeeps
  exact shows_of_truthful hblank (truthful_run hblank hopened hrun) hstored ha _

end Runs

/-- A reader of leases that meets one lease only. -/
def readsOne (lease batchId text : String) : Option String :=
  if text = lease then some batchId else none

/-- One batch is leased and reported. -/
theorem neverHidden_one_batch :
    let lease := "\x7b\"batchId\":\"b1\",\"samples\":[]\x7d"
    NeverHidden (readsOne lease "b1") (Db.opened none none)
        [.leaseStore 0 lease, .leaseTransaction 0, .peekLoad 1, .peekRead 1,
          .ackTransaction 2 "b1", .ackStore 2] ∧
      (run (step (readsOne lease "b1")) (Db.opened none none)
        [.leaseStore 0 lease, .leaseTransaction 0, .peekLoad 1, .peekRead 1,
          .ackTransaction 2 "b1", .ackStore 2]).changes.foldlM (turn (readsOne lease "b1"))
            (stored none) = some (stored (run (step (readsOne lease "b1")) (Db.opened none none)
        [.leaseStore 0 lease, .leaseTransaction 0, .peekLoad 1, .peekRead 1,
          .ackTransaction 2 "b1", .ackStore 2]).lease) := by
  intro lease
  apply neverHidden_of_timely
  · intro text hempty
    rw [readsOne, if_neg]
    rintro rfl
    exact absurd hempty (by decide +kernel)
  · refine ⟨trivial, ?_, trivial, trivial, trivial, fun _ ↦ by decide +kernel, trivial⟩
    intro leaseJson hcall _
    have hcall : some (Phase.leasing lease) = some (.leasing leaseJson) := hcall
    cases hcall
    exact ⟨rfl, by decide +kernel⟩

/-- A peek that found the row empty stores the flag after the lease was written. -/
theorem late_store_hides_lease : ¬ ∀ accesses,
    NeverHidden (readsOne "\x7b\"batchId\":\"b1\"\x7d" "b1") (Db.opened none none) accesses := by
  intro h
  have hshows := h _ [.peekLoad 0, .peekRead 0, .leaseStore 1 "\x7b\"batchId\":\"b1\"\x7d"]
    (.leaseTransaction 1) "\x7b\"batchId\":\"b1\"\x7d" 1 [.peekStore 0] (.peekLoad 2) [] rfl
    (by decide +kernel)
    ⟨fun batchId _ hsame ↦ List.cons_ne_nil _ _ (List.self_eq_append_right.mp hsame), trivial⟩
  have hseen := hshows.peeked 2 none (by decide +kernel) (by decide +kernel)
  cases hseen

end Engine.ReportLease
