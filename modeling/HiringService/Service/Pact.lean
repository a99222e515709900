import HiringService.Service.Registry

/-!
# Contracts of running processes

A `Pact` gives each of the requests that it concerns a contract. It is kept by every step if the
processes start with their contracts and if whatever another process does is interference that the
contracts allow for; in return, every call of a process of the pact respects the guarantee.

The pacts of this development are about one batch and concern the requests that own it. What other
processes do then avoids the batch, unless a poll times it out (`Orderly.foreign`).
-/

namespace HiringService

open Effect (Program)

/-- Which requests are concerned, what they may expect of the others, and how they end. -/
structure Pact where
  concerns : Request → Prop
  neighbours : Neighbours
  post : Request → Except Exn Response → World → Prop

namespace Service

variable {cfg : Settings} {s s' : Service} {l : Label} {P : Pact}

/-- Every running process that the pact concerns has its contract. -/
def Engaged (P : Pact) (s : Service) : Prop :=
  ∀ {q request rest}, s.procs q = some ⟨request, .running rest⟩ → P.concerns request →
    rest.Ensures (P.neighbours.env q) (P.post request) s.world

/-- The choices at the calls of the pact's processes are those that their contracts provide for. -/
def Faithful (P : Pact) (s : Service) (l : Label) : Prop :=
  ∀ {q c request op k}, l = .call q c → s.procs q = some ⟨request, .running (.call op k)⟩ →
    P.concerns request → P.neighbours.may c op

theorem Engaged.step (h : s.Engaged P) (hmove : Move cfg s l s') (hmay : Faithful P s l)
    (hstart : ∀ {q request}, s.procs q = none → Starts s s' l q request → P.concerns request →
      (request.program cfg).Ensures (P.neighbours.env q) (P.post request) s'.world)
    (hforeign : ∀ {q request rest actor}, s.procs q = some ⟨request, .running rest⟩ →
      P.concerns request → actor ≠ some q → Shift s l actor s'.world →
      Foreign q P.neighbours.allowed P.neighbours.frozen s.world s'.world) : s'.Engaged P := by
  intro q request rest hproc' hconcerns
  rcases hmove.turn q with ⟨hproc, hne, hshift⟩ | ⟨hnew, hproc, -, -, hstarts⟩ |
    ⟨hlabel, hproc, hexec, hnext⟩ | ⟨-, hnext, hends, -⟩
  · rw [hproc] at hproc'
    exact (h hproc' hconcerns).interfere (hforeign hproc' hconcerns hne hshift)
  · cases hproc.symm.trans hproc'
    exact hstart hnew hstarts hconcerns
  · cases hnext.symm.trans hproc'
    exact ((h hproc hconcerns).step (hmay hlabel hproc hconcerns) hexec).2
  · cases hnext.symm.trans hproc'
    cases hends

/-- What a process of the pact publishes respects the guarantee. -/
theorem Engaged.guar (h : s.Engaged P) (hmove : Move cfg s l s') (hmay : Faithful P s l) {q : Pid}
    {request : Request} (hpublishes : s.Publishes l q request) (hconcerns : P.concerns request) :
    P.neighbours.guar s.world s'.world := by
  obtain ⟨c, k, rfl, hproc⟩ := hpublishes
  cases hmove with
  | call hproc' hexec =>
      cases hproc'.symm.trans hproc
      exact ((h hproc hconcerns).step (hmay rfl hproc hconcerns) hexec).1

/-- A process of the pact that is about to return ends as the pact says. -/
theorem Engaged.returned (h : s.Engaged P) {q : Pid} {request : Request} {response : Response}
    (hproc : s.procs q = some ⟨request, .running (.pure response)⟩)
    (hconcerns : P.concerns request) : P.post request (.ok response) s.world :=
  (h hproc hconcerns).returned

/-! ## Who changes a batch -/

/-- For a process that owns a batch, the others avoid the batch or are polls that time it out, and
its object is out of their reach. -/
theorem Orderly.foreign (h : s.Orderly cfg) {q : Pid} {request : Request} {rest : Prog Response}
    {b : BatchId} {actor : Option Pid} {w : World} {allowed : Write → Prop}
    {frozen : ObjectKey → Prop} (hproc : s.procs q = some ⟨request, .running rest⟩)
    (howns : request.Owns b) (hne : actor ≠ some q) (hshift : Shift s l actor w)
    (havoids : ∀ wr : Write, wr.Avoids b → allowed wr)
    (hpoll : ∀ p, s.Publishes l p (.getBatchStatus b) → allowed (.updateBatch b .failed []))
    (hfrozen : ∀ key, frozen key → key = employeesKey cfg b) :
    Foreign q allowed frozen s.world w := by
  -- of two running processes, at most one owns the batch
  have hsole : ∀ {p request' rest'}, p ≠ q → s.procs p = some ⟨request', .running rest'⟩ →
      ¬ request'.Owns b := by
    intro p request' rest' hpq hp howns'
    rcases h.registered.sole_owner hp hproc howns' howns with rfl | ⟨_, -, hstatus⟩
    · exact hpq rfl
    · cases hstatus
  refine hshift.foreign hne ?_ ?_
  · intro p request' hpq hpublishes e he
    obtain ⟨c, k, hlabel, hp⟩ := hpublishes
    have hpublishes : s.Publishes l p request' := ⟨c, k, hlabel, hp⟩
    rcases h.tidy.publishes_avoids hpublishes (hsole hpq hp) e he with hwr | ⟨rfl, hwr⟩
    · exact havoids _ hwr
    · rw [hwr]
      exact hpoll p hpublishes
  · intro p request' key file k hpq hp hkey
    have hcalls := (h.tidy.running hp).uses.1
    cases request' with
    | ingestEmployees u file' =>
        have hu : employeesKey cfg u = employeesKey cfg b :=
          (show key = employeesKey cfg u from hcalls).symm.trans (hfrozen key hkey)
        exact hsole hpq hp (employeesKey_injective hu)
    | processEmployees u => exact hcalls.elim (fun h => h) nofun
    | _ => exact hcalls

/-- A step changes the committed data of a batch when its owner publishes, or when a poll times it
out; any other step avoids the batch. -/
theorem Orderly.db_step (h : s.Orderly cfg) (hmove : Move cfg s l s') (b : BatchId) :
    (∃ q request, s.Publishes l q request ∧ request.Owns b ∧ Published q s.world s'.world) ∨
      ∃ ws : List Write, s'.world.db = ws.foldl Db.apply s.world.db ∧
        ((∀ wr ∈ ws, wr.Avoids b) ∨ ((∃ q, s.Publishes l q (.getBatchStatus b)) ∧
          ∀ wr ∈ ws, wr.Avoids b ∨ wr = .updateBatch b .failed [])) := by
  obtain ⟨actor, hshift⟩ := hmove.shift
  rcases hshift.db with hsame | ⟨q, request, -, hpublishes, hpublished⟩
  · exact Or.inr ⟨[], hsame, Or.inl nofun⟩
  by_cases howns : request.Owns b
  · exact Or.inl ⟨q, request, hpublishes, howns, hpublished⟩
  refine Or.inr ⟨s.world.server.writes q, hpublished.db, ?_⟩
  have hwrites := h.tidy.publishes_avoids hpublishes howns
  by_cases hpoll : request = .getBatchStatus b
  · subst hpoll
    refine Or.inr ⟨⟨q, hpublishes⟩, fun wr hwr => ?_⟩
    obtain ⟨e, he, rfl⟩ := List.mem_map.mp hwr
    exact (hwrites e he).imp_right And.right
  · refine Or.inl fun wr hwr => ?_
    obtain ⟨e, he, rfl⟩ := List.mem_map.mp hwr
    exact (hwrites e he).resolve_right fun htimeout => hpoll htimeout.1

end Service

end HiringService
