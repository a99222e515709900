import HiringService.Service.Steps

/-!
# Primary keys among open transactions

In every run of the service, whatever its requests are and whatever raises, no key is claimed twice:
not by two committed rows, not by a committed row and a pending one, and not by two pending ones. An
insert is refused when its session sees the key, and it waits when another transaction has written
it.
-/

namespace HiringService

/-- No key is claimed twice, by committed rows or by pending ones. -/
abbrev World.KeysUnique (w : World) : Prop := w.server.Unique Db.keys Write.keys

section Calls

variable {pid : Pid} {w w' : World} {op : Op}

/-- The keys of a statement that goes through are free. -/
theorem Statement.Planned.keys {s : Statement} (h : s.Planned pid w) :
    (s.write w.clock).keys.Nodup ∧ ∀ k ∈ (s.write w.clock).keys,
      k ∉ (w.view pid).keys ∧ k ∉ (w.server.others pid).flatMap Write.keys := by
  obtain ⟨sql, hplan⟩ := h
  by_cases hs : s.Inserts
  · have hspec := planInsert_spec (w.view pid) (w.server.others pid) sql (s.write w.clock)
    rw [← hs, hplan] at hspec
    obtain ⟨-, -, hadmits, hheld⟩ := hspec
    exact ⟨hadmits.keys_nodup, fun k hk => ⟨hadmits.keys_new k hk, hheld k hk⟩⟩
  · -- an update claims no key
    cases s with
    | updateStatus batchId status errors => exact ⟨List.nodup_nil, nofun⟩
    | _ => exact absurd (fun _ _ _ _ => rfl) hs

theorem World.KeysUnique.called (h : w.KeysUnique) (hcalled : Called pid op w w') :
    w'.KeysUnique := by
  rcases hcalled.db with ⟨-, hpublished⟩ | hdb
  · exact h.commit keys_apply hpublished.db hpublished.own_self hpublished.own
  · rcases hcalled.own_self with hsublist | ⟨s, -, hplanned, hown⟩
    · exact h.drop hdb hsublist hcalled.own_other
    · obtain ⟨hnodup, hfree⟩ := hplanned.keys
      exact h.record keys_apply hdb hown hcalled.own_other hnodup (fun k hk => (hfree k hk).1)
        fun k hk => (hfree k hk).2

theorem World.KeysUnique.close (h : w.KeysUnique) (pid : Pid) : (w.close pid).KeysUnique := by
  have hown : (w.close pid).server.own pid = [] := w.server.rollback_own_self pid
  refine h.drop rfl ?_ fun q hq => w.server.rollback_own_of_ne hq
  rw [hown]
  exact List.nil_sublist _

end Calls

namespace Service

variable {cfg : Settings} {s : Service} {l : Label}

theorem keysUnique_initial {db : Db} (hkeys : db.keys.Nodup) (storage : ObjectKey → Option Bytes) :
    (initial db storage).world.KeysUnique where
  nodup _ := by
    have hnil : db.keys ++ [] = db.keys := List.append_nil _
    exact hnil.symm ▸ hkeys
  disjoint _ _ _ := List.disjoint_nil_left _

theorem Shift.keysUnique {actor : Option Pid} {w : World} (h : Shift s l actor w)
    (hunique : s.world.KeysUnique) : w.KeysUnique := by
  cases h with
  | call _ _ hexec => exact hunique.called (exec_called hexec)
  | close => exact hunique.close _
  | still hserver => rwa [World.KeysUnique, hserver]

/-- The committed rows have different keys in every state of a run, if they have so at the start. -/
theorem keys_nodup_of_runs {ok : Service → Label → Prop} {db : Db}
    {storage : ObjectKey → Option Bytes} (hkeys : db.keys.Nodup)
    (hruns : Runs cfg ok (initial db storage) s) : s.world.db.keys.Nodup := by
  have hunique : s.world.KeysUnique := by
    induction hruns with
    | refl => exact keysUnique_initial hkeys storage
    | tail _ hnext ih =>
        obtain ⟨l, -, hstep⟩ := hnext
        obtain ⟨actor, hshift⟩ := (move_of_step hstep).shift
        exact hshift.keysUnique ih
  exact (hunique.nodup 0).of_append_left

end Service

end HiringService
