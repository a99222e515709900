import HiringService.Interference

/-!
# Rules for a session among others

How the calls of a unit of work change what is known about its session, whatever raises and whatever
other transactions commit in between. An assertion has two parts (`Holding`): `D` about the
committed database, which the neighbours keep (`Neighbours.Keep`), and `S` about the session, which
is out of their reach. The rules are stated for a call and the program that follows it.
-/

namespace HiringService

open Effect (Env Program)

/-! ## Calls -/

section Rules

variable {α β : Type} {pid : Pid} {env : Env (machine pid)} {w : World}

/-- A call and what follows it; its exception is raised. A call that waits asks for nothing. -/
theorem ensures_call_bind (hblock : env.mayBlock) {op : Op} {f : Reply op → Prog β}
    {Q : Except Exn β → World → Prop} {P : World → Prop} (hP : env.Stable P) (hs : P w)
    (hstep : ∀ {t c r t'}, P t → env.may c op → exec pid c t op = some (r, t') →
      env.guar t t' ∧ match r with
      | .ok a => (f a).Ensures env Q t'
      | .error e => (Program.throw e : Prog β).Ensures env Q t') :
    ((call op).bind f).Ensures env Q w := by
  refine Program.Ensures.bind (Program.ensures_request hP ?_ hs ?_)
  · intro r
    cases r with
    | ok a => exact fun hst h => Program.Ensures.interfere h hst
    | error e => exact fun hst h => Program.Ensures.interfere h hst
  · intro t c ht hc
    rcases hexec : (machine pid).step c t op with _ | ⟨r, t'⟩
    · exact hblock
    · have hend := hstep ht hc hexec
      cases r <;> exact hend

/-- The last call of a program is followed by its result. -/
theorem ensures_of_bind_pure {p : Prog α} {Q : Except Exn α → World → Prop}
    (h : (p.bind .pure).Ensures env Q w) : p.Ensures env Q w := by
  rwa [Program.bind_pure] at h

end Rules

/-- The handler of an `OperationalError` raises, whatever the translation is. -/
theorem raiseTranslated_eq {α : Type} (exc : Exn) :
    ∃ e, (raiseTranslated exc : Prog α) = .throw e := by
  unfold raiseTranslated
  rcases translateDbError exc with e | e
  · exact ⟨e, rfl⟩
  · exact ⟨e, rfl⟩

/-! ## The session -/

/-- A predicate on the session of a process: its pending writes, its savepoints, its slot. -/
abbrev SessionPred := List (Txn.Entry Pid Write) → Txn.Session → Option ℕ → Prop

/-- Whatever the session has left. -/
def Unknown : SessionPred := fun _ _ _ => True

/-- The transaction has made the writes `ws`. -/
def Writing (ws : List Write) : SessionPred := fun own _ _ => own.map Txn.Entry.write = ws

/-- Going back to the handle in the slot leaves the writes `ws`. -/
def Undoable (ws : List Write) : SessionPred := fun own _ slot =>
  (slot = none → own.map Txn.Entry.write = ws) ∧
    ∀ h, slot = some h → (own.filter fun e => e.level < h).map Txn.Entry.write = ws

/-- The handle in the slot is the innermost savepoint, and `ws'` has been written in it, after the
writes `ws` of the transaction. -/
def Nested (ws ws' : List Write) : SessionPred := fun own s slot =>
  slot = some s.level ∧ own.map Txn.Entry.write = ws ++ ws' ∧
    (own.filter fun e => e.level < s.level).map Txn.Entry.write = ws

/-- What is known about the database and about the session of `pid`. -/
def Holding (pid : Pid) (D : Db → Prop) (S : SessionPred) (w : World) : Prop :=
  D w.db ∧ S (w.server.own pid) (w.server.sessions pid) (w.slot pid)

section Session

variable {pid : Pid} {w : World} {D D' : Db → Prop} {S S' : SessionPred} {ws ws' : List Write}
  {own : List (Txn.Entry Pid Write)} {s : Txn.Session} {slot : Option ℕ}

theorem Nested.undoable (h : Nested ws ws' own s slot) : Undoable ws own s slot := by
  obtain ⟨hslot, -, hkept⟩ := h
  refine ⟨fun hnone => ?_, fun h hh => ?_⟩
  · rw [hslot] at hnone
    cases hnone
  · obtain rfl : s.level = h := Option.some.inj (hslot.symm.trans hh)
    exact hkept

theorem Nested.writing (h : Nested ws ws' own s slot) : Writing (ws ++ ws') own s slot := h.2.1

theorem undoable_nil (h : own = []) : Undoable [] own s slot := by
  subst h
  exact ⟨fun _ => rfl, fun _ _ => rfl⟩

theorem writing_nil : Writing [] own s slot ↔ own = [] :=
  List.map_eq_nil_iff

theorem Holding.mono (h : Holding pid D S w) (hD : ∀ db, D db → D' db)
    (hS : ∀ own s slot, S own s slot → S' own s slot) : Holding pid D' S' w :=
  ⟨hD _ h.1, hS _ _ _ h.2⟩

/-- What a session with the writes `ws` reads. -/
theorem Holding.view (h : Holding pid D (Writing ws) w) : w.view pid = ws.foldl Db.apply w.db := by
  unfold World.view Txn.Server.view Txn.Server.writes
  rw [show (w.server.own pid).map Txn.Entry.write = ws from h.2]

/-- What is left of the assertion after a call that publishes nothing. -/
theorem Holding.local (h : Holding pid D S w) {w' : World} (hlocal : Local pid w w')
    (hS : S' (w'.server.own pid) (w'.server.sessions pid) (w'.slot pid)) : Holding pid D S' w' :=
  ⟨by rw [show w'.db = w.db from hlocal.db]; exact h.1, hS⟩

end Session

/-- The neighbours keep what `D` says about the database, and accept every step that leaves the
database alone. -/
structure Neighbours.Keep (N : Neighbours) (D : Db → Prop) : Prop where
  foldl : ∀ {db ws}, D db → (∀ wr ∈ ws, N.allowed wr) → D (List.foldl Db.apply db ws)
  same : ∀ {w w' : World}, D w.db → w'.db = w.db → N.guar w w'

section Calls

variable {α : Type} {pid : Pid} {N : Neighbours} {w : World} {D E : Db → Prop}
  {S T : SessionPred} {ws ws' : List Write} {Q : Except Exn α → World → Prop}

theorem stable_db (hD : N.Keep D) : (N.env pid).Stable fun w => D w.db := by
  intro s t hst h
  obtain ⟨ws, hws, hdb⟩ := hst.db
  show D t.db
  rw [hdb]
  exact hD.foldl h hws

theorem stable_holding (hD : N.Keep D) : (N.env pid).Stable (Holding pid D S) := by
  rintro s t hst ⟨hdb, hsession⟩
  refine ⟨stable_db hD hst hdb, ?_⟩
  rw [hst.own, hst.session, hst.slot]
  exact hsession

theorem Neighbours.Keep.guar_local (hD : N.Keep D) (h : Holding pid D S w) {w' : World}
    (hlocal : Local pid w w') : N.guar w w' :=
  hD.same h.1 hlocal.db

/-- `begin_nested` opens a savepoint and puts it into the slot. It raises when the environment makes
it raise, or when the session needed a rollback. -/
theorem ensures_beginNested (hD : N.Keep D) {f : Unit → Prog α} (hs : Holding pid D S w)
    (hwriting : ∀ own s slot, S own s slot → Writing ws own s slot)
    (hok : ∀ t, Holding pid D (Nested ws []) t → (f ()).Ensures (N.env pid) Q t)
    (herror : ∀ e t, (∃ c f, N.may c .beginNested ∧ c.fault = some f ∧ e = f.exn) ∨
        (∃ own s slot, S own s slot ∧ s.failed = true) → Holding pid D (Writing ws) t →
      (Program.throw e : Prog α).Ensures (N.env pid) Q t) :
    (Uow.beginNested.bind f).Ensures (N.env pid) Q w := by
  refine ensures_call_bind trivial (stable_holding hD) hs ?_
  intro t c r t' ht hc hexec
  obtain ⟨hlocal, hown, hcases⟩ := exec_beginNested hexec
  have hws : (t'.server.own pid).map Txn.Entry.write = ws := by
    rw [hown]
    exact hwriting _ _ _ ht.2
  refine ⟨hD.guar_local ht hlocal, ?_⟩
  rcases hcases with ⟨rfl, hslot, hsavepoints⟩ | ⟨e, rfl, -, hcause⟩
  · have hlevel : (t'.server.sessions pid).level = (t.server.sessions pid).next := by
      rw [Txn.Session.level, hsavepoints, List.headD_cons]
    refine hok t' (ht.local hlocal ⟨?_, by rw [hws, List.append_nil], ?_⟩)
    · rw [hslot, hlevel]
    · -- everything that was written before lies below the new savepoint
      rw [hlevel, hown, List.filter_eq_self.mpr, ← hown, hws]
      exact fun e he => by simpa using t.server.own_level_lt pid he
  · refine herror e t' ?_ (ht.local hlocal hws)
    rcases hcause with ⟨f, hf, rfl⟩ | hfailed
    · exact Or.inl ⟨c, f, hc, hf, rfl⟩
    · exact Or.inr ⟨_, _, _, ht.2, hfailed⟩

/-- An insert in the savepoint in the slot. -/
theorem ensures_insertNested (hD : N.Keep D) {s : Statement} (hinserts : s.Inserts) {wr : Write}
    (hwr : ∀ now, s.write now = wr) {f : Unit → Prog α} (hs : Holding pid D (Nested ws []) w)
    (hok : ∀ t, Holding pid D (Nested ws [wr]) t → (t.server.sessions pid).failed = false →
      (f ()).Ensures (N.env pid) Q t)
    (herror : ∀ e t, Holding pid D (Undoable ws) t → t.slot pid ≠ none →
      (Program.throw e : Prog α).Ensures (N.env pid) Q t) :
    ((call (.statement s)).bind f).Ensures (N.env pid) Q w := by
  refine ensures_call_bind trivial (stable_holding hD) hs ?_
  intro t c r t' ht _ hexec
  obtain ⟨hlocal, hslot, hsavepoints, hcases⟩ := exec_insert hinserts hexec
  obtain ⟨hslot₀, hws, hkept⟩ := ht.2
  have hlevel : (t'.server.sessions pid).level = (t.server.sessions pid).level := by
    rw [Txn.Session.level, hsavepoints, ← Txn.Session.level]
  have hslot' : t'.slot pid = some (t'.server.sessions pid).level := by
    rw [hslot, hlevel, hslot₀]
  have hsome : t'.slot pid ≠ none := by rw [hslot']; exact Option.some_ne_none _
  refine ⟨hD.guar_local ht hlocal, ?_⟩
  rcases hcases with ⟨-, hown⟩ | ⟨hown, e, rfl⟩
  · -- the write belongs to the savepoint, so going back undoes it
    have hnested : Nested ws [wr] (t'.server.own pid) (t'.server.sessions pid) (t'.slot pid) := by
      refine ⟨hslot', ?_, ?_⟩
      · rw [hown, List.map_append, hws, List.append_nil, ← hwr t.clock]
        rfl
      · rw [hown, hlevel, List.filter_append, List.map_append, hkept,
          List.filter_cons_of_neg (by simp)]
        exact List.append_nil ws
    cases r with
    | ok _ =>
        have hrunning := running_of_exec_ok (show Op.NeedsSession (.statement s) from trivial) hexec
        exact hok t' (ht.local hlocal hnested) hrunning
    | error e => exact herror e t' (ht.local hlocal hnested.undoable) hsome
  · -- an insert without effect leaves the savepoint empty
    have hnested : Nested ws [] (t'.server.own pid) (t'.server.sessions pid) (t'.slot pid) :=
      ⟨hslot', by rw [hown, hws], by rw [hown, hlevel, hkept]⟩
    exact herror e t' (ht.local hlocal hnested.undoable) hsome

/-- An insert outside of savepoints. -/
theorem ensures_insert (hD : N.Keep D) {s : Statement} (hinserts : s.Inserts) {f : Unit → Prog α}
    (hs : Holding pid D (Writing ws) w)
    (hok : ∀ now t, Holding pid D (Writing (ws ++ [s.write now])) t →
      (t.server.sessions pid).failed = false → (f ()).Ensures (N.env pid) Q t)
    (herror : ∀ e t, Holding pid D Unknown t → (Program.throw e : Prog α).Ensures (N.env pid) Q t) :
    ((call (.statement s)).bind f).Ensures (N.env pid) Q w := by
  refine ensures_call_bind trivial (stable_holding hD) hs ?_
  intro t c r t' ht _ hexec
  obtain ⟨hlocal, -, -, hcases⟩ := exec_insert hinserts hexec
  refine ⟨hD.guar_local ht hlocal, ?_⟩
  cases r with
  | error e => exact herror e t' (ht.local hlocal trivial)
  | ok _ =>
      have hrunning := running_of_exec_ok (show Op.NeedsSession (.statement s) from trivial) hexec
      obtain ⟨-, hown⟩ := hcases.resolve_right fun h => nomatch h.2.choose_spec
      refine hok t.clock t' (ht.local hlocal ?_) hrunning
      rw [Writing, hown, List.map_append, show (t.server.own pid).map Txn.Entry.write = ws from ht.2]
      rfl

/-- Updating the status of a batch that the session sees. -/
theorem ensures_updateStatus (hD : N.Keep D) {b : BatchId} {status : IngestionBatchStatus}
    {errors : Option (List String)} {f : Unit → Prog α} (hs : Holding pid D (Writing ws) w)
    (hmem : ∀ db, D db → Key.batch b ∈ (ws.foldl Db.apply db).keys)
    (hok : ∀ t, Holding pid D (Writing (ws ++ [.updateBatch b status (errors.getD [])])) t →
      (f ()).Ensures (N.env pid) Q t)
    (herror : ∀ e t, Holding pid D Unknown t → (Program.throw e : Prog α).Ensures (N.env pid) Q t) :
    ((Uow.updateStatus b status errors).bind f).Ensures (N.env pid) Q w := by
  refine ensures_call_bind trivial (stable_holding hD) hs ?_
  intro t c r t' ht _ hexec
  obtain ⟨hlocal, -, -, -, hcases⟩ := exec_statement hexec
  refine ⟨hD.guar_local ht hlocal, ?_⟩
  cases r with
  | error e => exact herror e t' (ht.local hlocal trivial)
  | ok _ =>
      rcases hcases with ⟨-, hown⟩ | ⟨-, hskip⟩
      · refine hok t' (ht.local hlocal ?_)
        rw [Writing, hown, List.map_append,
          show (t.server.own pid).map Txn.Entry.write = ws from ht.2]
        rfl
      · -- the row is there, so the update cannot find nothing
        obtain ⟨sql, hplan⟩ := hskip rfl
        have hspec := plan_updateStatus_spec (t.view pid) (t.server.others pid) t.clock sql b status
          (errors.getD [])
        rw [hplan, ht.view] at hspec
        exact absurd (hmem _ ht.1) hspec

/-- A commit turns `D` into `E`. It may raise before it has done so or after. -/
theorem ensures_commit (hD : N.Keep D) {f : Unit → Prog α} (hs : Holding pid D S w)
    (hwriting : ∀ own s slot, S own s slot → Writing ws own s slot)
    (hleft : ∀ own s s' slot, S own s slot → T own s' slot)
    (hpublish : ∀ {t t' : World}, D t.db → t'.db = ws.foldl Db.apply t.db →
      N.guar t t' ∧ E t'.db)
    (hok : ∀ t, Holding pid E (Writing []) t → (f ()).Ensures (N.env pid) Q t)
    (herror : ∀ e t, Holding pid D T t → (Program.throw e : Prog α).Ensures (N.env pid) Q t)
    (hlost : ∀ c f t, N.may c .commit → c.fault = some f → f.effective = true →
      f.exn.isOperational = true → Holding pid E (Writing []) t →
      (Program.throw f.exn : Prog α).Ensures (N.env pid) Q t) :
    (Uow.commit.bind f).Ensures (N.env pid) Q w := by
  refine ensures_call_bind trivial (stable_holding hD) hs ?_
  intro t c r t' ht hc hexec
  rcases exec_commit hexec with ⟨hpublished, hr⟩ | ⟨e, rfl, hlocal, hslot, hown, -, -⟩
  · have hdb : t'.db = ws.foldl Db.apply t.db :=
      hpublished.db.trans (ht.mono (fun _ h => h) hwriting).view
    obtain ⟨hguar, hE⟩ := hpublish ht.1 hdb
    have hheld : Holding pid E (Writing []) t' := ⟨hE, writing_nil.mpr hpublished.own_self⟩
    refine ⟨hguar, ?_⟩
    rcases hr with rfl | ⟨f, hf, heffective, rfl, hexn⟩
    · exact hok t' hheld
    · exact hlost c f t' hc hf heffective hexn hheld
  · refine ⟨hD.guar_local ht hlocal, herror e t' (ht.local hlocal ?_)⟩
    rw [hown, hslot]
    exact hleft _ _ _ _ ht.2

/-- A rollback leaves nothing pending, unless it raises. -/
theorem ensures_rollback (hD : N.Keep D) {f : Unit → Prog α} (hs : Holding pid D S w)
    (hok : ∀ t, Holding pid D (Writing []) t → (t.server.sessions pid).failed = false →
      (f ()).Ensures (N.env pid) Q t)
    (herror : ∀ e t, Holding pid D Unknown t → (Program.throw e : Prog α).Ensures (N.env pid) Q t) :
    (Uow.rollback.bind f).Ensures (N.env pid) Q w := by
  refine ensures_call_bind trivial (stable_holding hD) hs ?_
  intro t c r t' ht _ hexec
  obtain ⟨hlocal, -, -, hcases⟩ := exec_rollback hexec
  refine ⟨hD.guar_local ht hlocal, ?_⟩
  cases r with
  | error e => exact herror e t' (ht.local hlocal trivial)
  | ok _ =>
      have hrunning := running_of_exec_ok (show Op.NeedsSession .rollback from trivial) hexec
      obtain ⟨hnil, -⟩ := hcases.resolve_right fun h => nomatch h.1
      exact hok t' (ht.local hlocal (writing_nil.mpr hnil)) hrunning

/-- Going back to the savepoint in the slot. -/
theorem ensures_rollbackToSavepoint (hD : N.Keep D) {f : Unit → Prog α}
    (hs : Holding pid D S w) (hundoable : ∀ own s slot, S own s slot → Undoable ws own s slot)
    (hok : ∀ t, Holding pid D (Writing ws) t →
      ((∀ own s slot, S own s slot → slot ≠ none) → (t.server.sessions pid).failed = false) →
      (f ()).Ensures (N.env pid) Q t)
    (herror : ∀ e t, Holding pid D Unknown t → (Program.throw e : Prog α).Ensures (N.env pid) Q t) :
    (Uow.rollbackToSavepoint.bind f).Ensures (N.env pid) Q w := by
  refine ensures_call_bind trivial (stable_holding hD) hs ?_
  intro t c r t' ht _ hexec
  obtain ⟨hlocal, hcases⟩ := exec_rollbackToSavepoint hexec
  obtain ⟨hnone', hsome'⟩ := hundoable _ _ _ ht.2
  refine ⟨hD.guar_local ht hlocal, ?_⟩
  rcases hcases with ⟨rfl, hnone, rfl⟩ | ⟨rfl, -, handle, hslot, -, hrunning, hown⟩ | ⟨⟨e, rfl⟩, -⟩
  · refine hok _ (ht.local hlocal (hnone' hnone)) fun hslot => ?_
    exact absurd hnone (hslot _ _ _ ht.2)
  · refine hok t' (ht.local hlocal ?_) fun _ => hrunning
    rw [Writing, hown]
    exact hsome' handle hslot
  · exact herror e t' (ht.local hlocal trivial)

end Calls

end HiringService
