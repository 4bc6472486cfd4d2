import RustyPotato.Connections

/-!
# Whom the evictor spares

The evictor tries the mutex of a connection and leaves it alone when that fails. A handler holds its
mutex while it waits for input. So a client that is silent is the one that is never evicted, however
long it is silent.
-/

namespace RustyPotato

open Lib.Machine

/-- The evictor has found the client idle. -/
def Evictor.names (id : ClientId) : Evictor → Prop
  | .sleeping => False
  | .scanning _ _ found => id ∈ found
  | .evicting found => id ∈ found
  | .removing k rest => id = k ∨ id ∈ rest

instance (id : ClientId) (e : Evictor) : Decidable (e.names id) :=
  match e with
  | .sleeping => inferInstanceAs (Decidable False)
  | .scanning _ _ found => inferInstanceAs (Decidable (id ∈ found))
  | .evicting found => inferInstanceAs (Decidable (id ∈ found))
  | .removing k rest => inferInstanceAs (Decidable (id = k ∨ id ∈ rest))

namespace TcpServer

/-! ## Every id is given once -/

structure Fresh (s : TcpServer) : Prop where
  serving : ∀ id ∈ s.handlers, id < s.nextId
  accepting : ∀ id, s.accept = .inserted id ∨ s.accept = .added id → id < s.nextId ∧ id ∉ s.handlers

theorem fresh_new (maxConnections : Nat) : (new maxConnections).Fresh where
  serving id hid := absurd hid (Finmap.notMem_empty)
  accepting := by simp [new]

theorem Fresh.of_subset (s s' : TcpServer) (h : s.Fresh)
    (hhandlers : ∀ id ∈ s'.handlers, id ∈ s.handlers) (haccept : s'.accept = s.accept)
    (hnext : s'.nextId = s.nextId) : s'.Fresh where
  serving id hid := hnext ▸ h.serving id (hhandlers id hid)
  accepting id hid := by
    obtain ⟨hlt, hnot⟩ := h.accepting id (haccept ▸ hid)
    exact ⟨hnext ▸ hlt, fun hmem => hnot (hhandlers id hmem)⟩

theorem handlers_advance (s s' : TcpServer) (id : ClientId) (here there : HandlerPhase)
    (h : s.advance id here there = some s') :
    s.handlers.lookup id = some here ∧ s' = { s with handlers := s.handlers.insert id there } := by
  unfold advance at h
  split_ifs at h with hhere
  cases h
  exact ⟨hhere, rfl⟩

theorem fresh_advance (s s' : TcpServer) (h : s.Fresh) (id : ClientId) (here there : HandlerPhase)
    (hstep : s.advance id here there = some s') : s'.Fresh := by
  obtain ⟨hhere, rfl⟩ := s.handlers_advance s' id here there hstep
  refine h.of_subset s _ (fun k hk => ?_) rfl rfl
  rcases (Finmap.mem_insert ..).mp hk with rfl | hk
  · exact s.mem_of_lookup k here hhere
  · exact hk

theorem fresh_leave (s : TcpServer) (h : s.Fresh) (id : ClientId) : (s.leave id).Fresh :=
  h.of_subset s _ (fun _ hk => ((Finmap.mem_erase ..).mp hk).2) rfl rfl

theorem fresh_step (idleThreshold : Nat) (a : NetAct) (s s' : TcpServer) (h : s.Fresh)
    (hstep : step idleThreshold a s = some s') : s'.Fresh := by
  have hsame : ∀ t : TcpServer, t.handlers = s.handlers → t.accept = s.accept →
      t.nextId = s.nextId → t.Fresh :=
    fun t hh ha hn => h.of_subset s t (fun k hk => hh ▸ hk) ha hn
  cases a with
  | pass n =>
    cases hstep
    exact hsame _ rfl rfl rfl
  | accept =>
    simp only [step] at hstep
    split_ifs at hstep
    split at hstep <;> cases hstep
    · exact ⟨h.serving, by simp⟩
    · exact h
  | insertConnection =>
    simp only [step] at hstep
    split_ifs at hstep
    cases hstep
    refine ⟨fun id hid => Nat.lt_succ_of_lt (h.serving id hid), ?_⟩
    simp only [Accept.inserted.injEq, reduceCtorEq, or_false]
    rintro id rfl
    exact ⟨Nat.lt_succ_self _, fun hid => absurd (h.serving _ hid) (Nat.lt_irrefl _)⟩
  | insertPermit =>
    simp only [step] at hstep
    split at hstep <;> cases hstep
    rename_i k hinserted
    refine ⟨h.serving, ?_⟩
    simp only [Accept.added.injEq, reduceCtorEq, false_or]
    rintro id rfl
    exact h.accepting k (.inl hinserted)
  | spawn =>
    simp only [step] at hstep
    split at hstep <;> cases hstep
    rename_i k hadded
    refine ⟨fun id hid => ?_, by simp⟩
    rcases (Finmap.mem_insert ..).mp hid with rfl | hid
    · exact (h.accepting id (.inr hadded)).1
    · exact h.serving id hid
  | start id =>
    simp only [step] at hstep
    split_ifs at hstep
    · exact fresh_advance s s' h id _ _ hstep
    · cases hstep
      exact fresh_leave s h id
  | read id | write id | drained id => exact fresh_advance s s' h id _ _ hstep
  | written id =>
    simp only [step] at hstep
    split_ifs at hstep
    exact fresh_advance s s' h id _ _ hstep
  | command id =>
    simp only [step] at hstep
    split_ifs at hstep
    cases hstep
    exact hsame _ rfl rfl rfl
  | finish id =>
    simp only [step] at hstep
    split_ifs at hstep
    cases hstep
    exact fresh_leave (s.shutdown id) (hsame _ rfl rfl rfl) id
  | crash id =>
    simp only [step] at hstep
    split_ifs at hstep
    cases hstep
    exact h.of_subset s _ (fun _ hk => ((Finmap.mem_erase ..).mp hk).2) rfl rfl
  | scan | scanned | remove =>
    simp only [step] at hstep
    split at hstep <;> cases hstep
    exact hsame _ rfl rfl rfl
  | visit id =>
    simp only [step] at hstep
    split at hstep
    · split_ifs at hstep <;> cases hstep <;> exact hsame _ rfl rfl rfl
    · cases hstep
  | shut =>
    simp only [step] at hstep
    split at hstep
    · cases hstep
      exact hsame _ rfl rfl rfl
    · split_ifs at hstep <;> cases hstep <;> exact hsame _ rfl rfl rfl
    · cases hstep

/-! ## A client that waits -/

/-- The step is none of this client's. -/
structure Spares (id : ClientId) (s s' : TcpServer) : Prop where
  handler : s'.handlers.lookup id = s.handlers.lookup id
  connection : id ∈ s'.pool.connections ↔ id ∈ s.pool.connections
  permit : id ∈ s'.pool.permits ↔ id ∈ s.pool.permits
  client : s'.clients id = s.clients id
  named : s'.evictor.names id → s.evictor.names id

section
variable (id k : ClientId) (s s' : TcpServer)

theorem Spares.refl : Spares id s s := ⟨rfl, .rfl, .rfl, rfl, fun h => h⟩

theorem spares_advance (here there : HandlerPhase) (hne : k ≠ id)
    (h : s.advance k here there = some s') : Spares id s s' := by
  obtain ⟨-, rfl⟩ := s.handlers_advance s' k here there h
  exact ⟨Finmap.lookup_insert_of_ne _ hne.symm, .rfl, .rfl, rfl, fun h => h⟩

theorem spares_leave (hne : k ≠ id) : Spares id s (s.leave k) := by
  refine ⟨Finmap.lookup_erase_ne hne.symm, ?_, ?_, rfl, fun h => h⟩
  · simp [leave, ConnectionPool.removeConnection, hne.symm]
  · simp [leave, ConnectionPool.removeConnection, hne.symm]

theorem ne_of_phase (hreading : s.handlers.lookup id = some .reading) (phase : HandlerPhase)
    (h : s.handlers.lookup k = some phase) (hphase : phase ≠ .reading) : k ≠ id := by
  rintro rfl
  rw [hreading] at h
  cases h
  exact hphase rfl

end

/-- Its mutex is held, so that the evictor passes it by. -/
theorem step_spares (idleThreshold : Nat) (a : NetAct) (id : ClientId) (s s' : TcpServer)
    (hfresh : s.Fresh) (hreading : s.handlers.lookup id = some .reading)
    (hfree : ¬ s.evictor.names id) (hread : a ≠ .read id) (hfinish : a ≠ .finish id)
    (hstep : step idleThreshold a s = some s') : Spares id s s' := by
  have hserving : id ∈ s.handlers := s.mem_of_lookup id _ hreading
  have hphase := fun k phase h hne => ne_of_phase id k s hreading phase h hne
  cases a with
  | pass n =>
    cases hstep
    exact ⟨rfl, .rfl, .rfl, rfl, fun h => h⟩
  | accept =>
    simp only [step, ConnectionPool.tryReserveSlot] at hstep
    split_ifs at hstep <;> cases hstep
    · exact .refl id s
    · exact ⟨rfl, .rfl, .rfl, rfl, fun h => h⟩
  | insertConnection =>
    simp only [step] at hstep
    split_ifs at hstep
    cases hstep
    have hne : id ≠ s.nextId := Nat.ne_of_lt (hfresh.serving id hserving)
    exact ⟨rfl, by simp [hne], .rfl, by simp [hne], fun h => h⟩
  | insertPermit =>
    simp only [step] at hstep
    split at hstep <;> cases hstep
    rename_i k hinserted
    have hne : id ≠ k := by
      rintro rfl
      exact (hfresh.accepting id (.inl hinserted)).2 hserving
    exact ⟨rfl, .rfl, by simp [hne], rfl, fun h => h⟩
  | spawn =>
    simp only [step] at hstep
    split at hstep <;> cases hstep
    rename_i k hadded
    have hne : id ≠ k := by
      rintro rfl
      exact (hfresh.accepting id (.inr hadded)).2 hserving
    exact ⟨Finmap.lookup_insert_of_ne _ hne, .rfl, .rfl, rfl, fun h => h⟩
  | start k =>
    simp only [step] at hstep
    split_ifs at hstep with hspawned hfound
    · exact spares_advance id k s s' _ _ (hphase k _ hspawned (by decide)) hstep
    · cases hstep
      exact spares_leave id k s (hphase k _ hspawned (by decide))
  | read k => exact spares_advance id k s s' _ _ (fun h => hread (h ▸ rfl)) hstep
  | write k =>
    have hworking := (s.handlers_advance s' k _ _ hstep).1
    exact spares_advance id k s s' _ _ (hphase k _ hworking (by decide)) hstep
  | drained k =>
    have hworking := (s.handlers_advance s' k _ _ hstep).1
    exact spares_advance id k s s' _ _ (hphase k _ hworking (by decide)) hstep
  | written k =>
    simp only [step] at hstep
    split_ifs at hstep
    have hwriting := (s.handlers_advance s' k _ _ hstep).1
    exact spares_advance id k s s' _ _ (hphase k _ hwriting (by decide)) hstep
  | command k =>
    simp only [step] at hstep
    split_ifs at hstep with hworking
    cases hstep
    have hne := hphase k _ hworking (by decide)
    exact ⟨rfl, .rfl, .rfl, by simp [hne.symm], fun h => h⟩
  | finish k =>
    simp only [step] at hstep
    split_ifs at hstep
    cases hstep
    have hne : k ≠ id := fun h => hfinish (h ▸ rfl)
    have hleave := spares_leave id k (s.shutdown k) hne
    exact ⟨hleave.handler, hleave.connection, hleave.permit, by simp [leave, shutdown, hne.symm],
      hleave.named⟩
  | crash k =>
    simp only [step] at hstep
    split_ifs at hstep with hworking
    cases hstep
    exact ⟨Finmap.lookup_erase_ne (hphase k _ hworking (by decide)).symm, .rfl, .rfl, rfl,
      fun h => h⟩
  | scan =>
    simp only [step] at hstep
    split at hstep <;> cases hstep
    exact ⟨rfl, .rfl, .rfl, rfl, fun h => absurd h List.not_mem_nil⟩
  | visit k =>
    simp only [step] at hstep
    split at hstep
    · rename_i now visited found hscanning
      split_ifs at hstep with hvisit hidle
      · cases hstep
        refine ⟨rfl, .rfl, .rfl, rfl, fun hnamed => ?_⟩
        have hne : id ≠ k := by
          rintro rfl
          simp [idleAt, locked, hreading, HandlerPhase.locks] at hidle
        rw [hscanning]
        rcases List.mem_append.mp hnamed with hfound | hfound
        · exact hfound
        · exact absurd (List.mem_singleton.mp hfound) hne
      · cases hstep
        exact ⟨rfl, .rfl, .rfl, rfl, fun hnamed => by rw [hscanning]; exact hnamed⟩
    · cases hstep
  | scanned =>
    simp only [step] at hstep
    split at hstep <;> cases hstep
    rename_i hscanning
    exact ⟨rfl, .rfl, .rfl, rfl, fun hnamed => by rw [hscanning]; exact hnamed⟩
  | shut =>
    simp only [step] at hstep
    split at hstep
    · cases hstep
      exact ⟨rfl, .rfl, .rfl, rfl, fun h => h.elim⟩
    · rename_i k rest hevicting
      have hne : id ≠ k := by
        rintro rfl
        exact hfree (by rw [hevicting]; exact List.mem_cons_self)
      have hnamed : (Evictor.removing k rest).names id → s.evictor.names id := by
        rw [hevicting]
        exact List.mem_cons.mpr
      split_ifs at hstep <;> cases hstep
      · exact ⟨rfl, .rfl, .rfl, by simp [shutdown, hne], hnamed⟩
      · exact ⟨rfl, .rfl, .rfl, rfl, hnamed⟩
    · cases hstep
  | remove =>
    simp only [step] at hstep
    split at hstep <;> cases hstep
    rename_i k rest hremoving
    have hne : id ≠ k := by
      rintro rfl
      exact hfree (by rw [hremoving]; exact .inl rfl)
    refine ⟨rfl, ?_, ?_, rfl, fun hnamed => by rw [hremoving]; exact .inr hnamed⟩
    · simp [ConnectionPool.removeConnection, hne]
    · simp [ConnectionPool.removeConnection, hne]

/--
A handler waits for its client, and the evictor has not found the client idle before. Until the read
returns or is given up, nobody takes the connection out of the pool or closes it, however much time
passes and however often the evictor looks.
-/
theorem waiting_never_evicted (maxConnections idleThreshold : Nat) (before acts : List NetAct)
    (s t : TcpServer) (hbefore : run (step idleThreshold) before (new maxConnections) = some s)
    (id : ClientId) (hreading : s.handlers.lookup id = some .reading) (hfree : ¬ s.evictor.names id)
    (hquiet : ∀ a ∈ acts, a ≠ .read id ∧ a ≠ .finish id)
    (hrun : run (step idleThreshold) acts s = some t) :
    t.handlers.lookup id = some .reading ∧ ¬ t.evictor.names id ∧
      (id ∈ t.pool.connections ↔ id ∈ s.pool.connections) ∧
        (id ∈ t.pool.permits ↔ id ∈ s.pool.permits) ∧
      t.clients id = s.clients id := by
  have hfresh : s.Fresh := by
    refine invariant (step idleThreshold) (fun _ _ => True) Fresh ?_ before (new maxConnections) s
      (along_of_mem _ _ _ (fun _ _ _ => trivial) _) hbefore (fresh_new maxConnections)
    intro a s s' h _ hstep
    exact fresh_step idleThreshold a s s' h hstep
  suffices h : t.Fresh ∧ Spares id s t from
    ⟨h.2.handler.trans hreading, fun hnamed => hfree (h.2.named hnamed), h.2.connection, h.2.permit,
      h.2.client⟩
  refine invariant (step idleThreshold) (fun a _ => a ≠ .read id ∧ a ≠ .finish id)
    (fun t => t.Fresh ∧ Spares id s t) ?_ acts s t
    (along_of_mem _ _ _ (fun a ha _ => hquiet a ha) _) hrun ⟨hfresh, .refl id s⟩
  rintro a r r' ⟨hr, hspares⟩ ⟨hread, hfinish⟩ hstep
  have hnext := step_spares idleThreshold a id r r' hr (hspares.handler.trans hreading)
    (fun hnamed => hfree (hspares.named hnamed)) hread hfinish hstep
  exact ⟨fresh_step idleThreshold a r r' hr hstep, hnext.handler.trans hspares.handler,
    hnext.connection.trans hspares.connection, hnext.permit.trans hspares.permit,
    hnext.client.trans hspares.client, fun hnamed => hspares.named (hnext.named hnamed)⟩

/-- An hour of silence, and a look of the evictor behind it. -/
def silentHour : List NetAct := [.pass 3600, .scan, .visit 0, .scanned, .shut]

theorem silentHour_spared :
    ∃ s t, run (step 300) (acceptClient 0) (new 1) = some s ∧ run (step 300) silentHour s = some t ∧
      t.handlers.lookup 0 = some .reading ∧ (0 ∈ t.pool.connections ↔ 0 ∈ s.pool.connections) := by
  have hcheck : (run (step 300) (acceptClient 0) (new 1)).any (fun s =>
      decide (s.handlers.lookup 0 = some .reading) && decide (¬ s.evictor.names 0) &&
        (run (step 300) silentHour s).isSome) = true := by
    decide +kernel
  obtain ⟨s, hbefore, hs⟩ := (Option.any_eq_true ..).mp hcheck
  rw [Bool.and_eq_true, Bool.and_eq_true, decide_eq_true_eq, decide_eq_true_eq] at hs
  obtain ⟨⟨hreading, hfree⟩, hsome⟩ := hs
  obtain ⟨t, hrun⟩ := Option.isSome_iff_exists.mp hsome
  obtain ⟨hstill, -, hpool, -⟩ :=
    waiting_never_evicted 1 300 (acceptClient 0) silentHour s t hbefore 0 hreading hfree
      (by simp [silentHour]) hrun
  exact ⟨s, t, hbefore, hrun, hstill, hpool⟩

end TcpServer

end RustyPotato
