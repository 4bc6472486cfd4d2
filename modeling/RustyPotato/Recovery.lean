import RustyPotato.Panic
import RustyPotato.Replay
import RustyPotato.Untimed

/-!
# What the log of one connection gives back

As long as no key has a deadline, the replay of the log follows the run command by command: a
mutation does to the values what it did live, and what was not logged only purged.
-/

namespace RustyPotato

open Session

/-- The logged commands, replayed from a store with the same values, give the same values. -/
theorem recover_chain (u : CaseMap) (f : ValueType → ValueType) (hf : Respects f) (xs : List Served)
    (renvs : Nat → Env) (s t s' : MemoryStore) (hchain : Chain u s xs t) (hagree : Agree f s s')
    (hok : ∀ x ∈ xs, x.isOk) (heternal : ∀ x ∈ xs, x.after.Eternal)
    (hroom : ∀ i x, (xs.filter (Served.isLogged u))[i]? = some x →
      ∀ n, x.cmd.seconds u = some n → (renvs i).clock.HasRoom n) :
    ∃ t', recover u renvs ((xs.filter (Served.isLogged u)).map Served.cmd) s' = some t' ∧
      Agree f t t' := by
  induction xs generalizing s s' renvs with
  | nil =>
    obtain rfl : t = s := hchain
    exact ⟨s', rfl, hagree⟩
  | cons x xs ih =>
    obtain ⟨hrun, hrest⟩ := hchain
    obtain ⟨v, hv⟩ := (hok x List.mem_cons_self).exists_ok
    obtain ⟨as, hplan, hafter⟩ :=
      CommandRegistry.exists_plan u _ x.env x.cmd s x.after x.result hrun
    have hok' : ∀ y ∈ xs, y.isOk := fun y hy => hok y (List.mem_cons_of_mem _ hy)
    have heternal' : ∀ y ∈ xs, y.after.Eternal := fun y hy => heternal y (List.mem_cons_of_mem _ hy)
    have hmutation : x.isLogged u = serverRegistry.isMutation u x.cmd.name := by
      rw [Served.isLogged, hv]
    cases hlogged : x.isLogged u with
    | false =>
      rw [List.filter_cons_of_neg (by simp [hlogged])] at hroom ⊢
      have hpurges := CommandRegistry.plan_readOnly u _ x.env x.cmd
        (hmutation.symm.trans hlogged) as hplan
      rw [hagree.purges f x.env.clock s s' as hpurges] at hafter
      rw [hafter] at hrest
      exact ih renvs s s' hrest hagree hok' heternal' hroom
    | true =>
      rw [List.filter_cons_of_pos hlogged] at hroom ⊢
      have hmut := hmutation.symm.trans hlogged
      rw [hv] at hrun
      have hplanned : replayRegistry.plan u (renvs 0) x.cmd ≠ none := by
        rw [replayRegistry_plan u (renvs 0) x.cmd hmut]
        exact serverRegistry_plan_ne_none u (renvs 0) x.cmd (hroom 0 x rfl)
      obtain ⟨bs, hbs⟩ := Option.ne_none_iff_exists'.mp hplanned
      obtain ⟨as', hplan', hsame⟩ :=
        replayRegistry_plan_same u x.env (renvs 0) x.cmd s x.after v hmut hrun bs hbs
      obtain rfl : as = as' := Option.some.inj (hplan.symm.trans hplan')
      have hnext := hagree.plan f x.env.clock (renvs 0).clock s s' hf _ as bs hsame
        (hafter ▸ heternal x List.mem_cons_self)
      rw [← hafter] at hnext
      have hfollows := replayRegistry.execute_follows u (renvs 0) x.cmd
      rw [hbs] at hfollows
      obtain ⟨r, hr⟩ := hfollows s'
      simp only [List.map_cons, recover, hr, Option.bind_some]
      exact ih (fun i => renvs (i + 1)) x.after _ hrest hnext hok' heternal' fun i y hy =>
        hroom (i + 1) y hy

/-- The log of a connection without deadlines, decoded frame by frame, gives back its store. -/
theorem connection_log_recovers (u : CaseMap) (limits : CodecLimits) (envs renvs : Nat → Env)
    (reads : List Bytes) (hok : ∀ x ∈ (handleConnection u limits envs reads .new).served, x.isOk)
    (heternal : ∀ x ∈ (handleConnection u limits envs reads .new).served, x.after.Eternal)
    (hfits : ∀ x ∈ (handleConnection u limits envs reads .new).served, x.isLogged u = true →
      x.cmd.totalArgs ≤ CodecLimits.default.maxArrayLength ∧
        x.frame.length ≤ CodecLimits.default.maxBufferSize)
    (hroom : ∀ i x,
      ((handleConnection u limits envs reads .new).served.filter (Served.isLogged u))[i]? = some x →
      ∀ n, x.cmd.seconds u = some n → (renvs i).clock.HasRoom n) :
    ∃ s', recover u renvs (decodeEach u (handleConnection u limits envs reads .new).log) .new =
        some s' ∧
      s'.values = (handleConnection u limits envs reads .new).store.values := by
  have hfollows := handleConnection_follows u limits envs reads .new
  generalize handleConnection u limits envs reads .new = run at *
  have hcaps : CodecLimits.default.maxBufferSize ≤ CodecLimits.default.maxBulkSize := by decide
  have hdecode : decodeEach u run.log = (run.served.filter (Served.isLogged u)).map Served.cmd := by
    rw [hfollows.log_eq]
    refine decodeEach_frames u _ _
      (List.forall₂_map_left_iff.mpr (List.forall₂_map_right_iff.mpr ?_)) ?_
    · refine List.forall₂_same.mpr fun x hx => ?_
      obtain ⟨hmem, hlogged⟩ := List.mem_filter.mp hx
      obtain ⟨hcount, hsize⟩ := hfits x hmem hlogged
      exact isFrame_limits limits .default u x.frame x.cmd (hfollows.frames x
        hmem) hcount (hsize.trans hcaps)
    · intro frame hframe
      obtain ⟨x, hx, rfl⟩ := List.mem_map.mp hframe
      obtain ⟨hmem, hlogged⟩ := List.mem_filter.mp hx
      exact (hfits x hmem hlogged).2
  obtain ⟨t', ht', hagree⟩ :=
    recover_chain u id respects_id run.served renvs .new run.store .new hfollows.chain
      (.refl id _ MemoryStore.eternal_new) hok heternal hroom
  refine ⟨t', by rw [hdecode]; exact ht', funext fun key => ?_⟩
  simpa using (hagree.values key).symm

/-- A connection that sets a key, counts, and reads. -/
def sampleRun : Session :=
  handleConnection asciiCaseMap .default (fun _ => .sample)
    [encodeCommand [utf8 "SET", utf8 "k", utf8 "v"] ++ encodeCommand [utf8 "INCR", utf8 "n"],
      encodeCommand [utf8 "GET", utf8 "k"]] .new

theorem sampleRun_recovers :
    ∃ s', recover asciiCaseMap (fun _ => .atClock (.ofSecs 1000 (by decide)))
      (decodeEach asciiCaseMap sampleRun.log) .new = some s' ∧
        s'.values = sampleRun.store.values := by
  have hseconds : ∀ x ∈ sampleRun.served, x.cmd.seconds asciiCaseMap = none := by decide +kernel
  refine connection_log_recovers _ _ _ _ _ (by decide +kernel) (by decide +kernel)
    (by decide +kernel) ?_
  intro i x hx n hn
  rw [hseconds x (List.mem_filter.mp (List.mem_of_getElem? hx)).1] at hn
  cases hn

/--
`EXPIRE` of a missing key replies 0 whatever it asks for, and is logged. Replayed on a machine that
has been up for longer, the deadline no longer fits the clock and the recovery panics.
-/
theorem expire_missing_replay_panics :
    ∃ run : Session, run = handleConnection asciiCaseMap .default
      (fun _ => .atClock (.ofSecs 100 (by decide)))
        [encodeCommand [utf8 "EXPIRE", utf8 "missing", utf8 "9223372036854775000"]] .new ∧
      run.served.map Served.result = [.ok (.integer 0)] ∧ run.served.map Served.after = [.new] ∧
      recover asciiCaseMap (fun _ => .atClock (.ofSecs 1000 (by decide)))
        (decodeEach asciiCaseMap run.log) .new = none :=
  ⟨_, rfl, rfl, rfl, rfl⟩

end RustyPotato
