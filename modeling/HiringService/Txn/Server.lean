import Mathlib.Data.List.Flatten
import Mathlib.Data.List.Nodup
import Mathlib.Data.List.Perm.Basic
import Mathlib.Logic.Function.Basic

/-!
# Transactions with savepoints

A `Server` holds a committed state and the writes that its sessions have not committed yet. A
session has at most one open transaction, with a stack of savepoints inside it: every pending write
is tagged with the session that made it and with the innermost savepoint that was open at the time.
Savepoints are numbered upwards from `1` within a session, and `0` stands for the transaction
itself, so rolling back to a savepoint removes exactly the writes tagged with its number or a later
one.

A session reads the committed state with its own pending writes on top (`Server.view`), so it sees
what others commit as soon as they do. A statement that fails leaves the session `failed` until it
rolls back, in whole or to a savepoint.

The state `σ`, the writes `ω` and the sessions `κ` are arbitrary.
-/

namespace Txn

/-- A write that is not committed yet. -/
structure Entry (κ ω : Type) where
  owner : κ
  level : ℕ
  write : ω

/-- The transaction of a session: its open savepoints, innermost first, the number of the next one,
and whether a statement has failed since the last rollback. -/
structure Session where
  savepoints : List ℕ
  next : ℕ
  failed : Bool
  next_pos : 0 < next
  savepoints_lt : ∀ h ∈ savepoints, h < next

namespace Session

/-- A session that has not done anything. -/
def fresh : Session where
  savepoints := []
  next := 1
  failed := false
  next_pos := Nat.one_pos
  savepoints_lt := by simp

instance : Inhabited Session := ⟨fresh⟩

/-- The tag of the writes that the session makes now. -/
def level (s : Session) : ℕ := s.savepoints.headD 0

/-- The innermost savepoint is one of those that have been opened. -/
theorem level_lt (s : Session) : s.level < s.next := by
  rcases hs : s.savepoints with _ | ⟨h, rest⟩
  · rw [level, hs]; exact s.next_pos
  · rw [level, hs]; exact s.savepoints_lt h (by simp [hs])

/-- Open a savepoint, numbered `s.next`. -/
def push (s : Session) : Session where
  savepoints := s.next :: s.savepoints
  next := s.next + 1
  failed := s.failed
  next_pos := Nat.succ_pos _
  savepoints_lt h hh := by
    rcases List.mem_cons.mp hh with rfl | hh
    · exact Nat.lt_succ_self _
    · exact Nat.lt_succ_of_lt (s.savepoints_lt h hh)

/-- Close savepoint `h` and the savepoints inside it. -/
def popTo (s : Session) (h : ℕ) : Session where
  savepoints := s.savepoints.filter (· < h)
  next := s.next
  failed := false
  next_pos := s.next_pos
  savepoints_lt h' hh := s.savepoints_lt h' (List.mem_of_mem_filter hh)

/-- Close every savepoint; the next statement starts a new transaction. -/
def clear (s : Session) : Session where
  savepoints := []
  next := s.next
  failed := false
  next_pos := s.next_pos
  savepoints_lt := by simp

/-- Close the `n` innermost savepoints and stay in the transaction. -/
def release (s : Session) (n : ℕ) : Session where
  savepoints := s.savepoints.drop n
  next := s.next
  failed := s.failed
  next_pos := s.next_pos
  savepoints_lt h hh := s.savepoints_lt h (List.mem_of_mem_drop hh)

/-- A statement of the session has failed. -/
def fail (s : Session) : Session := { s with failed := true }

@[simp] theorem push_savepoints (s : Session) : s.push.savepoints = s.next :: s.savepoints := rfl
@[simp] theorem push_next (s : Session) : s.push.next = s.next + 1 := rfl
@[simp] theorem push_failed (s : Session) : s.push.failed = s.failed := rfl
@[simp] theorem push_level (s : Session) : s.push.level = s.next := rfl
@[simp] theorem popTo_next (s : Session) (h : ℕ) : (s.popTo h).next = s.next := rfl
@[simp] theorem popTo_failed (s : Session) (h : ℕ) : (s.popTo h).failed = false := rfl
@[simp] theorem clear_savepoints (s : Session) : s.clear.savepoints = [] := rfl
@[simp] theorem clear_next (s : Session) : s.clear.next = s.next := rfl
@[simp] theorem clear_failed (s : Session) : s.clear.failed = false := rfl
@[simp] theorem release_savepoints (s : Session) (n : ℕ) :
    (s.release n).savepoints = s.savepoints.drop n := rfl
@[simp] theorem release_next (s : Session) (n : ℕ) : (s.release n).next = s.next := rfl
@[simp] theorem release_failed (s : Session) (n : ℕ) : (s.release n).failed = s.failed := rfl
@[simp] theorem fail_savepoints (s : Session) : s.fail.savepoints = s.savepoints := rfl
@[simp] theorem fail_next (s : Session) : s.fail.next = s.next := rfl
@[simp] theorem fail_failed (s : Session) : s.fail.failed = true := rfl

/-- The numbers of savepoints only grow. -/
theorem next_le_push (s : Session) : s.next ≤ s.push.next := Nat.le_succ _
theorem next_le_popTo (s : Session) (h : ℕ) : s.next ≤ (s.popTo h).next := Nat.le_refl _
theorem next_le_clear (s : Session) : s.next ≤ s.clear.next := Nat.le_refl _
theorem next_le_release (s : Session) (n : ℕ) : s.next ≤ (s.release n).next := Nat.le_refl _
theorem next_le_fail (s : Session) : s.next ≤ s.fail.next := Nat.le_refl _

theorem popTo_savepoints (s : Session) (h : ℕ) :
    (s.popTo h).savepoints = s.savepoints.filter (· < h) := rfl

end Session

/-- A committed state, the pending writes of all sessions and the sessions themselves. -/
structure Server (κ σ ω : Type) where
  committed : σ
  pending : List (Entry κ ω)
  sessions : κ → Session
  level_lt : ∀ e ∈ pending, e.level < (sessions e.owner).next

namespace Server

variable {κ σ ω : Type}

/-- Session `k` makes the write `w`. -/
def record (srv : Server κ σ ω) (k : κ) (w : ω) : Server κ σ ω where
  committed := srv.committed
  pending := srv.pending ++ [⟨k, (srv.sessions k).level, w⟩]
  sessions := srv.sessions
  level_lt e he := by
    rcases List.mem_append.mp he with he | he
    · exact srv.level_lt e he
    · rw [List.mem_singleton.mp he]
      exact (srv.sessions k).level_lt

section

variable (srv : Server κ σ ω) (k : κ)

/-- A write is not published before the commit. -/
@[simp] theorem record_committed (w : ω) : (srv.record k w).committed = srv.committed := rfl
@[simp] theorem record_sessions (w : ω) : (srv.record k w).sessions = srv.sessions := rfl
@[simp] theorem record_pending (w : ω) :
    (srv.record k w).pending = srv.pending ++ [⟨k, (srv.sessions k).level, w⟩] := rfl

end

variable [DecidableEq κ]

/-- The pending writes of session `k`, oldest first. -/
def own (srv : Server κ σ ω) (k : κ) : List (Entry κ ω) :=
  srv.pending.filter fun e => e.owner = k

/-- The pending writes of the other sessions. -/
def others (srv : Server κ σ ω) (k : κ) : List ω :=
  (srv.pending.filter fun e => e.owner ≠ k).map Entry.write

/-- The writes that session `k` would commit. -/
def writes (srv : Server κ σ ω) (k : κ) : List ω := (srv.own k).map Entry.write

/-- What session `k` reads: the committed state with its own pending writes on top. -/
def view (apply : σ → ω → σ) (srv : Server κ σ ω) (k : κ) : σ :=
  (srv.writes k).foldl apply srv.committed

/-- Replace the session `k`, whose savepoint counter may only grow, and keep the pending writes that
satisfy `keep`. -/
def amend (srv : Server κ σ ω) (k : κ) (s : Session) (hs : (srv.sessions k).next ≤ s.next)
    (keep : Entry κ ω → Bool) : Server κ σ ω where
  committed := srv.committed
  pending := srv.pending.filter keep
  sessions := Function.update srv.sessions k s
  level_lt e he := by
    have hlt := srv.level_lt e (List.mem_of_mem_filter he)
    rcases eq_or_ne e.owner k with hk | hk
    · subst hk
      rw [Function.update_self]
      exact Nat.lt_of_lt_of_le hlt hs
    · rw [Function.update_of_ne hk]
      exact hlt

/-- A statement of session `k` fails. -/
def fail (srv : Server κ σ ω) (k : κ) : Server κ σ ω :=
  srv.amend k (srv.sessions k).fail (Session.next_le_fail _) fun _ => true

/-- Session `k` opens a savepoint, whose number is `(srv.sessions k).next`. -/
def savepoint (srv : Server κ σ ω) (k : κ) : Server κ σ ω :=
  srv.amend k (srv.sessions k).push (Session.next_le_push _) fun _ => true

/-- Session `k` closes its `n` innermost savepoints and keeps what it wrote in them. -/
def release (srv : Server κ σ ω) (k : κ) (n : ℕ) : Server κ σ ω :=
  srv.amend k ((srv.sessions k).release n) (Session.next_le_release _ n) fun _ => true

/-- Session `k` drops its whole transaction. -/
def rollback (srv : Server κ σ ω) (k : κ) : Server κ σ ω :=
  srv.amend k (srv.sessions k).clear (Session.next_le_clear _) fun e => e.owner ≠ k

/-- Session `k` drops what it wrote since savepoint `h`; `none` when `h` is not open. -/
def rollbackTo (srv : Server κ σ ω) (k : κ) (h : ℕ) : Option (Server κ σ ω) :=
  if h ∈ (srv.sessions k).savepoints then
    some (srv.amend k ((srv.sessions k).popTo h) (Session.next_le_popTo _ h)
      fun e => e.owner ≠ k ∨ e.level < h)
  else none

/-- Session `k` publishes its transaction. -/
def commit (apply : σ → ω → σ) (srv : Server κ σ ω) (k : κ) : Server κ σ ω :=
  { srv.rollback k with committed := srv.view apply k }

/-! ## What each operation leaves -/

section Lemmas

variable {apply : σ → ω → σ} (srv : Server κ σ ω) (k q : κ)

@[simp] theorem amend_committed (s : Session) (hs) (keep : Entry κ ω → Bool) :
    (srv.amend k s hs keep).committed = srv.committed := rfl
@[simp] theorem amend_pending (s : Session) (hs) (keep : Entry κ ω → Bool) :
    (srv.amend k s hs keep).pending = srv.pending.filter keep := rfl
@[simp] theorem amend_sessions (s : Session) (hs) (keep : Entry κ ω → Bool) :
    (srv.amend k s hs keep).sessions = Function.update srv.sessions k s := rfl

/-- The pending writes of a session are those of before that are kept. -/
theorem amend_own (s : Session) (hs) (keep : Entry κ ω → Bool) :
    (srv.amend k s hs keep).own q = (srv.own q).filter keep := by
  simp only [own, amend_pending, List.filter_filter]
  exact List.filter_congr fun e _ => Bool.and_comm _ _

@[simp] theorem fail_committed : (srv.fail k).committed = srv.committed := rfl
@[simp] theorem fail_pending : (srv.fail k).pending = srv.pending := List.filter_true _
/-- A statement that fails leaves the pending writes. -/
@[simp] theorem fail_own : (srv.fail k).own q = srv.own q := by simp [own]
@[simp] theorem fail_sessions :
    (srv.fail k).sessions = Function.update srv.sessions k (srv.sessions k).fail := rfl

@[simp] theorem savepoint_committed : (srv.savepoint k).committed = srv.committed := rfl
@[simp] theorem savepoint_pending : (srv.savepoint k).pending = srv.pending := List.filter_true _
/-- Opening a savepoint leaves the pending writes. -/
@[simp] theorem savepoint_own : (srv.savepoint k).own q = srv.own q := by simp [own]
@[simp] theorem savepoint_sessions :
    (srv.savepoint k).sessions = Function.update srv.sessions k (srv.sessions k).push := rfl

@[simp] theorem release_committed (n : ℕ) : (srv.release k n).committed = srv.committed := rfl
@[simp] theorem release_pending (n : ℕ) : (srv.release k n).pending = srv.pending :=
  List.filter_true _
/-- Closing savepoints leaves the pending writes. -/
@[simp] theorem release_own (n : ℕ) : (srv.release k n).own q = srv.own q := by simp [own]
@[simp] theorem release_sessions (n : ℕ) : (srv.release k n).sessions =
    Function.update srv.sessions k ((srv.sessions k).release n) := rfl

/-- A write is added to those of its session, with the innermost savepoint. -/
theorem record_own_self (w : ω) :
    (srv.record k w).own k = srv.own k ++ [⟨k, (srv.sessions k).level, w⟩] := by
  simp [own]

variable {k q} in
/-- A write of one session leaves the others alone. -/
theorem record_own_of_ne (h : q ≠ k) (w : ω) : (srv.record k w).own q = srv.own q := by
  simp [own, Ne.symm h]

/-- A rollback publishes nothing. -/
@[simp] theorem rollback_committed : (srv.rollback k).committed = srv.committed := rfl
@[simp] theorem rollback_pending :
    (srv.rollback k).pending = srv.pending.filter fun e => e.owner ≠ k := rfl
@[simp] theorem rollback_sessions :
    (srv.rollback k).sessions = Function.update srv.sessions k (srv.sessions k).clear := rfl

/-- A rollback leaves nothing of the session. -/
@[simp] theorem rollback_own_self : (srv.rollback k).own k = [] := by
  rw [rollback, amend_own, List.filter_eq_nil_iff]
  intro e he
  simpa [own] using (List.mem_filter.mp he).2

variable {k q} in
/-- A rollback of one session leaves the others alone. -/
theorem rollback_own_of_ne (h : q ≠ k) : (srv.rollback k).own q = srv.own q := by
  rw [rollback, amend_own, List.filter_eq_self]
  intro e he
  have howner : e.owner = q := by simpa using (List.mem_filter.mp he).2
  simpa [howner] using h

/-- A commit publishes what the session has seen. -/
@[simp] theorem commit_committed : (srv.commit apply k).committed = srv.view apply k := rfl
@[simp] theorem commit_pending :
    (srv.commit apply k).pending = srv.pending.filter fun e => e.owner ≠ k := rfl
@[simp] theorem commit_sessions :
    (srv.commit apply k).sessions = Function.update srv.sessions k (srv.sessions k).clear := rfl

/-- A commit leaves nothing pending of the session. -/
@[simp] theorem commit_own_self : (srv.commit apply k).own k = [] := srv.rollback_own_self k

variable {k q} in
/-- A commit of one session leaves the pending writes of the others alone. -/
theorem commit_own_of_ne (h : q ≠ k) : (srv.commit apply k).own q = srv.own q :=
  srv.rollback_own_of_ne h

variable {k q} in
/-- Rolling back to an open savepoint. -/
theorem rollbackTo_spec {h : ℕ} {srv' : Server κ σ ω} (hto : srv.rollbackTo k h = some srv') :
    h ∈ (srv.sessions k).savepoints ∧ srv'.committed = srv.committed ∧
      srv'.pending = srv.pending.filter (fun e => e.owner ≠ k ∨ e.level < h) ∧
      srv'.own k = (srv.own k).filter (fun e => e.level < h) ∧
      (∀ q ≠ k, srv'.own q = srv.own q) ∧
      srv'.sessions = Function.update srv.sessions k ((srv.sessions k).popTo h) := by
  rw [rollbackTo] at hto
  split at hto
  · rename_i hmem
    cases hto
    refine ⟨hmem, rfl, rfl, ?_, ?_, rfl⟩
    · rw [amend_own]
      refine List.filter_congr fun e he => ?_
      have howner : e.owner = k := by simpa using (List.mem_filter.mp he).2
      simp [howner]
    · intro q hq
      rw [amend_own, List.filter_eq_self]
      intro e he
      have howner : e.owner = q := by simpa using (List.mem_filter.mp he).2
      simp [howner, hq]
  · cases hto

/-- A session can go back to every savepoint that is open. -/
theorem rollbackTo_isSome {h : ℕ} (hmem : h ∈ (srv.sessions k).savepoints) :
    ∃ srv', srv.rollbackTo k h = some srv' :=
  ⟨_, if_pos hmem⟩

/-- The pending writes of a session are those that it has made. -/
theorem mem_own {e : Entry κ ω} : e ∈ srv.own k ↔ e ∈ srv.pending ∧ e.owner = k := by
  simp [own]

/-- A pending write was made in a savepoint that has been opened. -/
theorem own_level_lt {e : Entry κ ω} (he : e ∈ srv.own k) : e.level < (srv.sessions k).next := by
  obtain ⟨hmem, rfl⟩ := (srv.mem_own k).mp he
  exact srv.level_lt e hmem

end Lemmas

/-! ## Keys

A key that every write claims at most once is never claimed twice, neither in the committed state
nor by two sessions: the invariant behind a unique index over committed and pending rows. -/

section Keys

variable {apply : σ → ω → σ} {K : Type} (base : σ → List K) (keysOf : ω → List K)

/-- The keys that the pending writes of session `k` claim. -/
def claimed (srv : Server κ σ ω) (k : κ) : List K := (srv.writes k).flatMap keysOf

/-- No key is claimed twice: not by the committed state and a session, and not by two sessions. -/
structure Unique (srv : Server κ σ ω) : Prop where
  nodup : ∀ k, (base srv.committed ++ srv.claimed keysOf k).Nodup
  disjoint : ∀ k k', k ≠ k' → (srv.claimed keysOf k).Disjoint (srv.claimed keysOf k')

variable {base keysOf} {srv srv' : Server κ σ ω} {k : κ}

/-- The keys of a state are those of before and those of the writes. -/
theorem foldl_keys (hbase : ∀ s w, (base (apply s w)).Perm (base s ++ keysOf w)) (ws : List ω)
    (s : σ) : (base (ws.foldl apply s)).Perm (base s ++ ws.flatMap keysOf) := by
  induction ws generalizing s with
  | nil => rw [List.foldl_nil, List.flatMap_nil, List.append_nil]
  | cons w ws ih =>
      rw [List.foldl_cons, List.flatMap_cons, ← List.append_assoc]
      exact (ih _).trans ((hbase s w).append_right _)

/-- What a session claims only depends on its pending writes. -/
theorem claimed_congr (h : srv'.own k = srv.own k) :
    srv'.claimed keysOf k = srv.claimed keysOf k := by
  rw [claimed, claimed, writes, writes, h]

/-- Dropping pending writes drops their claims. -/
theorem Unique.drop (h : srv.Unique base keysOf) (hc : srv'.committed = srv.committed)
    (hself : (srv'.own k).Sublist (srv.own k)) (hother : ∀ q ≠ k, srv'.own q = srv.own q) :
    srv'.Unique base keysOf := by
  have hsub : ∀ q, (srv'.claimed keysOf q).Sublist (srv.claimed keysOf q) := by
    intro q
    by_cases hq : q = k
    · subst hq
      exact (hself.map _).flatMap _
    · rw [claimed_congr (hother q hq)]
  refine ⟨fun q => ?_, fun q q' hq => ?_⟩
  · rw [hc]
    exact (h.nodup q).sublist ((hsub q).append_left _)
  · exact fun key hkey hkey' => h.disjoint q q' hq ((hsub q).subset hkey) ((hsub q').subset hkey')

/-- A write that claims new keys. -/
theorem Unique.record (h : srv.Unique base keysOf)
    (hbase : ∀ s w, (base (apply s w)).Perm (base s ++ keysOf w)) {e : Entry κ ω}
    (hc : srv'.committed = srv.committed) (hself : srv'.own k = srv.own k ++ [e])
    (hother : ∀ q ≠ k, srv'.own q = srv.own q) (hnodup : (keysOf e.write).Nodup)
    (hview : ∀ key ∈ keysOf e.write, key ∉ base (srv.view apply k))
    (hheld : ∀ key ∈ keysOf e.write, key ∉ (srv.others k).flatMap keysOf) :
    srv'.Unique base keysOf := by
  have hclaimed : srv'.claimed keysOf k = srv.claimed keysOf k ++ keysOf e.write := by
    rw [claimed, claimed, writes, hself, List.map_append, List.flatMap_append]
    simp [writes]
  have hfree : ∀ q ≠ k, (keysOf e.write).Disjoint (srv.claimed keysOf q) := by
    intro q hq key hkey hkey'
    refine hheld key hkey ?_
    obtain ⟨w, hw, hmem⟩ := List.mem_flatMap.mp hkey'
    obtain ⟨e', he', rfl⟩ := List.mem_map.mp hw
    obtain ⟨hpending, howner⟩ := (srv.mem_own q).mp he'
    refine List.mem_flatMap.mpr ⟨e'.write, List.mem_map.mpr ⟨e', ?_, rfl⟩, hmem⟩
    exact List.mem_filter.mpr ⟨hpending, by simpa [howner] using hq⟩
  refine ⟨fun q => ?_, fun q q' hq => ?_⟩
  · rw [hc]
    by_cases hqk : q = k
    · -- the session sees its own claims, so the new keys are not among them
      subst hqk
      rw [hclaimed, ← List.append_assoc]
      refine List.Nodup.append (h.nodup q) hnodup fun key hkey hkey' => hview key hkey' ?_
      exact (foldl_keys hbase _ _).mem_iff.mpr hkey
    · rw [claimed_congr (hother q hqk)]
      exact h.nodup q
  · by_cases hqk : q = k
    · subst hqk
      rw [hclaimed, claimed_congr (hother q' hq.symm)]
      exact List.disjoint_append_left.mpr ⟨h.disjoint q q' hq, hfree q' hq.symm⟩
    · rw [claimed_congr (hother q hqk)]
      by_cases hqk' : q' = k
      · subst hqk'
        rw [hclaimed]
        refine List.disjoint_append_right.mpr ⟨h.disjoint q q' hq, ?_⟩
        exact fun key hkey hkey' => hfree q hq hkey' hkey
      · rw [claimed_congr (hother q' hqk')]
        exact h.disjoint q q' hq

/-- A commit moves the claims of a session to the committed state. -/
theorem Unique.commit (h : srv.Unique base keysOf)
    (hbase : ∀ s w, (base (apply s w)).Perm (base s ++ keysOf w))
    (hc : srv'.committed = srv.view apply k) (hself : srv'.own k = [])
    (hother : ∀ q ≠ k, srv'.own q = srv.own q) : srv'.Unique base keysOf := by
  have hview : (base srv'.committed).Perm (base srv.committed ++ srv.claimed keysOf k) := by
    rw [hc]
    exact foldl_keys hbase _ _
  have hnil : srv'.claimed keysOf k = [] := by
    rw [claimed, writes, hself]
    rfl
  refine ⟨fun q => ?_, fun q q' hq => ?_⟩
  · by_cases hqk : q = k
    · subst hqk
      rw [hnil, List.append_nil]
      exact hview.nodup_iff.mpr (h.nodup q)
    · -- what another session claims was neither committed before nor claimed by this one
      rw [claimed_congr (hother q hqk)]
      refine List.Nodup.append (hview.nodup_iff.mpr (h.nodup k)) (h.nodup q).of_append_right ?_
      intro key hkey hkey'
      rcases List.mem_append.mp (hview.mem_iff.mp hkey) with hmem | hmem
      · exact List.disjoint_of_nodup_append (h.nodup q) hmem hkey'
      · exact h.disjoint k q (Ne.symm hqk) hmem hkey'
  · by_cases hqk : q = k
    · subst hqk
      rw [hnil]
      exact List.disjoint_nil_left _
    · by_cases hqk' : q' = k
      · subst hqk'
        rw [hnil]
        exact List.disjoint_nil_right _
      · rw [claimed_congr (hother q hqk), claimed_congr (hother q' hqk')]
        exact h.disjoint q q' hq

end Keys

end Server

end Txn
