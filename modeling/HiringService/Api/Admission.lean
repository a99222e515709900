import HiringService.Api.Http
import HiringService.Sequential.Uploads

/-!
# Admission to the use cases

What is known of a request that has been admitted to its use case, and why a request has ended before
it: a client that could not be built, or a file that was refused.
-/

namespace HiringService

section

variable {env : Environment} {fw : Framework} {fails : Client → Bool} {built : List Client}
  {u : BatchId} {clients : List Client}

/-- The clients that exist are kept. -/
theorem subset_getClients : built ⊆ (getClients env fails clients built).1 := by
  induction clients generalizing built with
  | nil => exact List.Subset.refl built
  | cons client clients ih =>
      rw [getClients]
      split_ifs
      · exact ih
      · split
        · exact List.Subset.refl built
        · exact List.Subset.trans (List.subset_cons_self client built) ih

/-- When nothing is raised, all the clients exist. -/
theorem getClients_ok (h : (getClients env fails clients built).2 = .ok ()) :
    clients ⊆ (getClients env fails clients built).1 := by
  induction clients generalizing built with
  | nil => exact List.nil_subset _
  | cons client clients ih =>
      rw [getClients] at h ⊢
      split_ifs at h ⊢ with hbuilt
      · exact List.cons_subset.mpr ⟨subset_getClients hbuilt, ih h⟩
      · split at h
        · cases h
        · exact List.cons_subset.mpr ⟨subset_getClients List.mem_cons_self, ih h⟩

/-- Clients that exist are not built again. -/
theorem getClients_of_subset (h : clients ⊆ built) :
    getClients env fails clients built = (built, .ok ()) := by
  induction clients with
  | nil => rfl
  | cons client clients ih =>
      obtain ⟨hclient, hclients⟩ := List.cons_subset.mp h
      rw [getClients, if_pos hclient]
      exact ih hclients

/-- What is raised comes from the constructor of one of the clients. -/
theorem getClients_error {e : HttpError} (h : (getClients env fails clients built).2 = .error e) :
    ∃ client ∈ clients, client.construct env fails = .error e := by
  induction clients generalizing built with
  | nil => cases h
  | cons client clients ih =>
      have hrest : ∀ {built}, (getClients env fails clients built).2 = .error e →
          ∃ client' ∈ client :: clients, client'.construct env fails = .error e := by
        intro built hrest
        obtain ⟨client', hmem, hraises⟩ := ih hrest
        exact ⟨client', List.mem_cons_of_mem client hmem, hraises⟩
      rw [getClients] at h
      split_ifs at h
      · exact hrest h
      · split at h
        · rename_i hraises
          cases h
          exact ⟨client, List.mem_cons_self, hraises⟩
        · exact hrest h

theorem HttpRequest.subset_enter {request : HttpRequest} :
    built ⊆ (request.enter env fw fails built u).1 := by
  have hsubset := @subset_getClients env fails built request.endpoint.clients
  unfold HttpRequest.enter
  split
  all_goals
    rename_i heq
    rw [heq] at hsubset
    exact hsubset

/-- A request is admitted by its route, with its clients. -/
theorem HttpRequest.admitted_inv {request : HttpRequest} {next : Request} {parseErrors : List String}
    (h : (request.enter env fw fails built u).2 = .admitted next parseErrors) :
    request.endpoint.enter fw u = .admitted next parseErrors ∧
      request.endpoint.clients ⊆ (request.enter env fw fails built u).1 := by
  have hok := @getClients_ok env fails built request.endpoint.clients
  unfold HttpRequest.enter at h ⊢
  split at h
  · cases h
  · rename_i heq
    rw [heq] at hok
    exact ⟨h, hok rfl⟩

/-- A request ends before its use case because of a client, or in its route. -/
theorem HttpRequest.ended_inv {request : HttpRequest} {outcome : Outcome}
    (h : (request.enter env fw fails built u).2 = .ended outcome) :
    (∃ client ∈ request.endpoint.clients, ∃ e, client.construct env fails = .error e ∧
      outcome = e.handle) ∨ request.endpoint.enter fw u = .ended outcome := by
  have herror := @getClients_error env fails built request.endpoint.clients
  unfold HttpRequest.enter at h
  split at h
  · rename_i e heq
    cases h
    obtain ⟨client, hclient, hraises⟩ := herror (e := e) (by rw [heq])
    exact Or.inl ⟨client, hclient, e, hraises, rfl⟩
  · exact Or.inr h

/-- The records of a file that has passed `validate_batch`. -/
theorem getRecords_ok {α : Type} {parse : Bytes → Except Exn (List α × List String)} {file : Bytes}
    {records : List α} {parseErrors : List String}
    (h : getRecords parse file = .ok (records, parseErrors)) :
    parse file = .ok (records, parseErrors) ∧ records ≠ [] ∧ records.length ≤ maxRows := by
  rcases hparse : parse file with e | ⟨records', errors'⟩
  · rw [getRecords, hparse] at h
    cases h
  · rw [getRecords_eq hparse] at h
    rcases hvalid : validateBatch records' with e | _
    · rw [hvalid] at h
      cases h
    · rw [hvalid] at h
      cases h
      exact ⟨rfl, valid_of_validateBatch hvalid⟩

/-- What a file that is not ingested is refused with. -/
theorem getRecords_error {t : ReferenceTable} {file : Bytes} {e : Exn}
    (h : getRecords (parseReference t) file = .error e) :
    e.toHttp = .unhandled ∨ e = .http 422 "No valid rows found" ∨
      e = .http 422 "Max 1000 rows per request" := by
  rw [parseReference_eq] at h
  rcases hparse : parseFile referenceOfRow file with e' | ⟨records, errors⟩
  · rw [getRecords, hparse] at h
    cases h
    refine Or.inl ?_
    unfold parseFile readFile at hparse
    split at hparse
    · cases hparse
      rfl
    · rename_i text htext
      rcases hread : Python.Csv.reader text with err | rows
      · rw [hread] at hparse
        cases hparse
        rfl
      · rw [hread] at hparse
        cases hparse
  · rw [getRecords_eq hparse, validateBatch] at h
    split_ifs at h
    · cases h
      exact Or.inr (Or.inl rfl)
    · cases h
      exact Or.inr (Or.inr (by decide))
    · cases h

end

end HiringService
