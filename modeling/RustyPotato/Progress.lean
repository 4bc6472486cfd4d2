import RustyPotato.Interleaving
import RustyPotato.Panic

/-!
# Nobody waits for ever

A mutation waits for a rewrite, the rewrite for the mutations before it and for the writer, and a
connection for a place in the channel. Nothing of this goes round in a circle: whichever tasks go
on, in whichever order, all that was begun comes to its end, and the barrier is free then.
-/

namespace RustyPotato

open Lib.Machine

/--
More than the actions that the connection has before it, with those of the writer for what it sends.
-/
def Phase.weight : Phase → Nat
  | idle => 0
  | replying _ _ => 1
  | finished _ _ => 4
  | executed _ _ => 5
  | guarded _ => 6
  | swapped _ => 2
  | swapping => 2
  | written => 5
  | captured _ => 6
  | rewriting => 7

/-- The action goes on with something, and begins nothing. -/
def Action.continues : Action → Bool
  | execute _ _ | release _ | send _ | reply _ | snapshot _ _ | writeTemp _ | sendSwap _ | finish _
  | recv | work _ => true
  | acquire _ _ | read _ _ _ | lock _ | tick _ => false

namespace Server

/-- What the first `n` connections and the writer have before them. -/
def weight (n : Nat) (s : Server) : Nat :=
  ∑ i ∈ Finset.range n, (s.phase i).weight + 2 * s.channel.length + s.hand.toList.length

/--
The barrier is held by those only who are inside, and who waits for a swap has one on its way.
-/
structure Accounted (u : CaseMap) (env : Env) (s : Server) : Prop where
  readers : ∀ i ∈ s.readers, (s.phase i).reads = true
  rewriter : ∀ i, s.rewriter = some i → (s.phase i).rewrites = true
  swapping : ∀ i, s.phase i = .swapping → .swapFile i ∈ s.queue
  rooms : ∀ i r, s.phase i = .guarded r → ∀ m, r.cmd.seconds u = some m → env.clock.HasRoom m

/-- The clock has room for what the mutations ask for. -/
def HasRooms (u : CaseMap) (env : Env) (a : Action) (_ : Server) : Prop :=
  match a with
  | .acquire _ r => ∀ m, r.cmd.seconds u = some m → env.clock.HasRoom m
  | _ => True

variable {u : CaseMap} {env : Env} {s : Server}

theorem accounted_start (policy : FsyncPolicy) (now : Int) :
    Accounted u env (start policy now) where
  readers := by simp [start]
  rewriter := by simp [start]
  swapping := by simp [start]
  rooms := by simp [start]

namespace Accounted

theorem move (h : Accounted u env s) (s' : Server) (i : Nat) (p : Phase)
    (hphase : s'.phase = Function.update s.phase i p)
    (hreaders : ∀ j ≠ i, j ∈ s'.readers → j ∈ s.readers) (hreads : i ∈ s'.readers → p.reads = true)
    (hrewriter : ∀ j ≠ i, s'.rewriter = some j → s.rewriter = some j)
    (hrewrites : s'.rewriter = some i → p.rewrites = true)
    (hqueue : ∀ j ≠ i, .swapFile j ∈ s.queue → .swapFile j ∈ s'.queue)
    (hswap : p = .swapping → .swapFile i ∈ s'.queue) (hrooms : ∀ r, p = .guarded r →
      ∀ m, r.cmd.seconds u = some m → env.clock.HasRoom m) : Accounted u env s' where
  readers j hj := by
    rw [hphase, Function.update_apply]
    split_ifs with hji
    · exact hreads (hji ▸ hj)
    · exact h.readers j (hreaders j hji hj)
  rewriter j hj := by
    rw [hphase, Function.update_apply]
    split_ifs with hji
    · exact hrewrites (hji ▸ hj)
    · exact h.rewriter j (hrewriter j hji hj)
  swapping j hj := by
    rw [hphase, Function.update_apply] at hj
    split_ifs at hj with hji
    · exact hji ▸ hswap hj
    · exact hqueue j hji (h.swapping j hj)
  rooms j r hj := by
    rw [hphase, Function.update_apply] at hj
    split_ifs at hj with hji
    · exact hrooms r hj
    · exact h.rooms j r hj

/-- One connection moves on, and the barrier stays as it is. -/
theorem goto (h : Accounted u env s) (s' : Server) (i : Nat) (p : Phase)
    (hphase : s'.phase = Function.update s.phase i p) (hreaders : s'.readers = s.readers)
    (hrewriter : s'.rewriter = s.rewriter) (hqueue : ∀ m ∈ s.queue, m ∈ s'.queue)
    (hreads : (s.phase i).reads = p.reads) (hrewrites : (s.phase i).rewrites = p.rewrites)
    (hswap : p = .swapping → .swapFile i ∈ s'.queue) (hguarded : ∀ r, p ≠ .guarded r) :
    Accounted u env s' := by
  refine h.move s' i p hphase (fun j _ hj => hreaders ▸ hj) (fun hi => ?_)
    (fun j _ hj => hrewriter ▸ hj) (fun hi => ?_) (fun j _ hj => hqueue _ hj) hswap
    fun r hr => absurd hr (hguarded r)
  · rw [← hreads]
    exact h.readers i (hreaders ▸ hi)
  · rw [← hrewrites]
    exact h.rewriter i (hrewriter ▸ hi)

/-- The connection that rewrites gives the barrier back. -/
theorem unlock (h : Accounted u env s) (s' : Server) (i : Nat) (p : Phase)
    (hphase : s'.phase = Function.update s.phase i p) (hreaders : s'.readers = s.readers)
    (hrewriter : s'.rewriter = none) (hqueue : s'.queue = s.queue)
    (hreads : (s.phase i).reads = p.reads) (hswap : p ≠ .swapping)
    (hguarded : ∀ r, p ≠ .guarded r) : Accounted u env s' := by
  refine h.move s' i p hphase (fun j _ hj => hreaders ▸ hj) (fun hi => ?_) ?_ ?_
    (fun j _ hj => hqueue ▸ hj) (fun hp => absurd hp hswap) fun r hr => absurd hr (hguarded r)
  · rw [← hreads]
    exact h.readers i (hreaders ▸ hi)
  · simp [hrewriter]
  · simp [hrewriter]

theorem same (h : Accounted u env s) (s' : Server) (hphase : s'.phase = s.phase)
    (hreaders : s'.readers = s.readers) (hrewriter : s'.rewriter = s.rewriter)
    (hqueue : ∀ i, .swapFile i ∈ s.queue → .swapFile i ∈ s'.queue) :
    Accounted u env s' where
  readers := by rw [hphase, hreaders]; exact h.readers
  rewriter := by rw [hphase, hrewriter]; exact h.rewriter
  swapping i hi := hqueue i (h.swapping i (hphase ▸ hi))
  rooms := by rw [hphase]; exact h.rooms

theorem step (h : Accounted u env s) (hd : Disciplined s) (a : Action) (s' : Server)
    (hroom : HasRooms u env a s) (hm : Moves u s a s') : Accounted u env s' := by
  cases hm with
  | acquire i r hphase hmutation hfree =>
    refine h.move _ i _ rfl (fun j hji hj => Finset.mem_of_mem_insert_of_ne hj hji) (fun _ => rfl)
      (fun j _ hj => hj) (fun hi => ?_) (fun j _ hj => hj) (fun hp => by cases hp) fun r' hr' => ?_
    · have : s.rewriter = some i := hi
      rw [hfree] at this
      cases this
    · cases hr'
      exact hroom
  | release i r result hphase =>
    refine h.move _ i _ rfl (fun j _ hj => Finset.mem_of_mem_erase hj) (fun hi => ?_)
      (fun j _ hj => hj) (fun hi => ?_) (fun j _ hj => hj) (fun hp => by cases hp) fun r' hr' =>
        by cases hr'
    · exact absurd hi (Finset.notMem_erase i s.readers)
    · have := h.rewriter i hi
      rw [hphase] at this
      cases this
  | lock i hphase hreaders hfree =>
    refine h.move _ i _ rfl (fun j _ hj => hj) (fun hi => ?_) (fun j hji hj => ?_) (fun _ => rfl)
      (fun j _ hj => hj) (fun hp => by cases hp) fun r' hr' => by cases hr'
    · have : i ∈ s.readers := hi
      rw [hreaders] at this
      cases this
    · exact absurd (Option.some.inj hj).symm hji
  | execute i _ _ _ _ hphase | skip i _ _ hphase | read i _ _ _ _ hphase | reply i _ _ hphase
  | snapshot i _ _ hphase
  | writeTemp i _ hphase =>
    exact h.goto _ i _ rfl rfl rfl (fun m hm => hm) (by rw [hphase]; rfl) (by rw [hphase]; rfl)
      (fun hp => by cases hp) fun r hr => by cases hr
  | send i r v hphase =>
    refine h.goto _ i _ rfl rfl rfl (fun m hm => ?_) (by rw [hphase]; rfl) (by rw [hphase]; rfl)
      (fun hp => by cases hp) fun r hr => by cases hr
    rcases List.mem_append.mp hm with hm | hm
    · exact List.mem_append_left _ hm
    · exact List.mem_append_right _ (List.mem_append_left _ hm)
  | sendSwap i hphase =>
    refine h.goto _ i _ rfl rfl rfl (fun m hm => ?_) (by rw [hphase]; rfl) (by rw [hphase]; rfl)
      (fun _ => ?_) fun r hr => by cases hr
    · rcases List.mem_append.mp hm with hm | hm
      · exact List.mem_append_left _ hm
      · exact List.mem_append_right _ (List.mem_append_left _ hm)
    · exact List.mem_append_right _ (List.mem_append_right _ List.mem_cons_self)
  | refuse i _ e hphase =>
    exact h.unlock _ i _ rfl rfl rfl rfl (by rw [hphase]; rfl) (fun hp => by cases hp)
      fun r hr => by cases hr
  | finish i _ hphase =>
    exact h.unlock _ i _ rfl rfl rfl rfl (by rw [hphase]; rfl) (fun hp => by cases hp)
      fun r hr => by cases hr
  | recv m rest hhand hchannel =>
    refine h.same _ rfl rfl rfl fun i hi => ?_
    simpa [queue, hhand, hchannel] using hi
  | record now frame hhand =>
    refine h.same _ rfl rfl rfl fun i hi => ?_
    simpa [queue, hhand] using hi
  | swap now i hhand =>
    have hphase := hd.swaps i (by simp [queue, hhand])
    refine h.move _ i _ rfl (fun j _ hj => hj) (fun hi => ?_) (fun j _ hj => hj) (fun _ => rfl)
      (fun j hji hj => ?_) (fun hp => by cases hp) fun r hr => by cases hr
    · have := h.readers i hi
      rw [hphase] at this
      cases this
    · simpa [queue, hhand, hji, Server.goto] using hj
  | tick now hhand => exact h.same _ rfl rfl rfl fun i hi => hi

end Accounted

/-! ## How much is left to do -/

theorem sum_weight_update (n i : Nat) (hi : i < n) (p : Phase) :
    ∑ j ∈ Finset.range n, (Function.update s.phase i p j).weight + (s.phase i).weight =
      ∑ j ∈ Finset.range n, (s.phase j).weight + p.weight := by
  have hmem : i ∈ Finset.range n := Finset.mem_range.mpr hi
  rw [← Finset.add_sum_erase _ _ hmem, ← Finset.add_sum_erase _ (fun j => (s.phase j).weight) hmem,
    Function.update_self]
  have hrest : ∑ j ∈ (Finset.range n).erase i, (Function.update s.phase i p j).weight =
      ∑ j ∈ (Finset.range n).erase i, (s.phase j).weight := by
    refine Finset.sum_congr rfl fun j hj => ?_
    rw [Function.update_of_ne (Finset.ne_of_mem_erase hj)]
  omega

theorem weight_goto (n i : Nat) (hidle : ∀ j, n ≤ j → s.phase j = .idle) (hi : s.phase i ≠ .idle)
    (p : Phase) (s' : Server) (hphase : s'.phase = Function.update s.phase i p)
    (hlt : p.weight + 2 * s'.channel.length + s'.hand.toList.length <
      (s.phase i).weight + 2 * s.channel.length + s.hand.toList.length) :
        s'.weight n < s.weight n := by
  have hin : i < n := by
    by_contra hge
    exact hi (hidle i (by omega))
  have := sum_weight_update (s := s) n i hin p
  unfold weight
  rw [hphase]
  omega

/-- Whatever goes on leaves less to do. -/
theorem weight_lt (n : Nat) (hd : Disciplined s) (hidle : ∀ j, n ≤ j → s.phase j = .idle)
    (a : Action) (s' : Server) (ha : a.continues = true) (hm : Moves u s a s') :
    s'.weight n < s.weight n := by
  cases hm with
  | acquire | read | lock | tick => cases ha
  | execute i _ _ _ _ hphase | release i _ _ hphase | skip i _ _ hphase | reply i _ _ hphase
  | snapshot i _ _ hphase | refuse i _ _ hphase | writeTemp i _ hphase | finish i _ hphase =>
    refine weight_goto n i hidle (by rw [hphase]; simp) _ _ rfl ?_
    simp only [hphase, Phase.weight, Server.goto]
    omega
  | send i _ _ hphase | sendSwap i hphase =>
    refine weight_goto n i hidle (by rw [hphase]; simp) _ _ rfl ?_
    simp only [hphase, Phase.weight, Server.goto, List.length_append, List.length_singleton]
    omega
  | recv m rest hhand hchannel =>
    simp only [weight, hhand, hchannel, Option.toList_some, Option.toList_none, List.length_cons,
      List.length_nil]
    omega
  | record now frame hhand =>
    simp only [weight, hhand, Option.toList_some, Option.toList_none, List.length_cons,
      List.length_nil]
    omega
  | swap now i hhand =>
    have hphase := hd.swaps i (by simp [queue, hhand])
    refine weight_goto n i hidle (by rw [hphase]; simp) _ _ rfl ?_
    simp only [hphase, hhand, Phase.weight, Server.goto, Option.toList_some, Option.toList_none,
      List.length_cons, List.length_nil]
    omega

/-- Where nothing is left to do, nothing can go on. -/
theorem step_of_weight_eq_zero (n : Nat) (hd : Disciplined s)
    (hidle : ∀ j, n ≤ j → s.phase j = .idle) (hweight : s.weight n = 0) (a : Action)
    (ha : a.continues = true) : step u a s = none := by
  refine Option.eq_none_iff_forall_ne_some.mpr fun s' hstep => ?_
  have := weight_lt n hd hidle a s' ha (step_moves a s' hstep)
  omega

theorem within_of_continues (n : Nat) (hidle : ∀ j, n ≤ j → s.phase j = .idle) (a : Action)
    (s' : Server) (ha : a.continues = true) (hm : Moves u s a s') : a.within n = true := by
  have hlt : ∀ i, s.phase i ≠ .idle → decide (i < n) = true := by
    intro i hi
    refine decide_eq_true ?_
    by_contra hge
    exact hi (hidle i (by omega))
  cases hm with
  | acquire | read | lock | tick => cases ha
  | execute i _ _ _ _ hphase | release i _ _ hphase | send i _ _ hphase | skip i _ _ hphase
  | reply i _ _ hphase
  | snapshot i _ _ hphase | refuse i _ _ hphase | writeTemp i _ hphase | sendSwap i hphase
  | finish i _ hphase =>
    exact hlt i (by rw [hphase]; simp)
  | recv | record | swap => rfl

/-! ## Who can go on -/

/-- Where nothing can go on, the writer has nothing before it. -/
theorem queue_eq_nil (hstuck : ∀ a, a.continues = true → step u a s = none) : s.hand = none ∧
    s.channel = [] := by
  have hhand : s.hand = none := by
    cases hhand : s.hand with
    | none => rfl
    | some m =>
      have := hstuck (.work 0) rfl
      cases m <;> simp [step, hhand] at this
  refine ⟨hhand, ?_⟩
  cases hchannel : s.channel with
  | nil => rfl
  | cons m rest =>
    have := hstuck .recv rfl
    simp [step, hhand, hchannel] at this

/-- Nor has any of the connections. -/
theorem Accounted.idle (h : Accounted u env s)
    (hstuck : ∀ a : Action, a.continues = true → Server.step u a s = none) (i : Nat) :
    s.phase i = .idle := by
  obtain ⟨hhand, hchannel⟩ := queue_eq_nil hstuck
  cases hphase : s.phase i with
  | idle => rfl
  | guarded r =>
    have hnone := hstuck (.execute i env) rfl
    obtain ⟨steps, hplan⟩ := Option.ne_none_iff_exists'.mp
      (serverRegistry_plan_ne_none u env r.cmd (h.rooms i r hphase))
    have hfollows := serverRegistry.execute_follows u env r.cmd
    rw [hplan] at hfollows
    obtain ⟨x, hx⟩ := hfollows s.store
    simp [Server.step, hphase, hx] at hnone
  | executed r result =>
    have := hstuck (.release i) rfl
    simp [Server.step, hphase] at this
  | finished r result =>
    have := hstuck (.send i) rfl
    cases result <;> simp [Server.step, hphase, hchannel, channelCapacity] at this
  | replying result record =>
    have := hstuck (.reply i) rfl
    simp [Server.step, hphase] at this
  | rewriting =>
    have hnone := hstuck (.snapshot i env) rfl
    simp only [Server.step, hphase] at hnone
    split at hnone <;> cases hnone
  | captured frames =>
    have := hstuck (.writeTemp i) rfl
    simp [Server.step, hphase] at this
  | written =>
    have := hstuck (.sendSwap i) rfl
    simp [Server.step, hphase, hchannel, channelCapacity] at this
  | swapping =>
    have := h.swapping i hphase
    simp [queue, hhand, hchannel] at this
  | swapped result =>
    have := hstuck (.finish i) rfl
    simp [Server.step, hphase] at this

/--
After any run, in whichever order the tasks go on with what was begun, they come to an end after at
most so many actions, and where none of them can go on nothing is under way, nothing waits for the
writer, and the barrier is free.
-/
theorem commands_complete (u : CaseMap) (env : Env) (policy : FsyncPolicy) (now : Int) (n : Nat)
    (before : List Action) (s : Server) (hbefore : run u before (start policy now) = some s)
    (hwithin : ∀ a ∈ before, a.within n = true)
    (hrooms : Along (step u) (HasRooms u env) before (start policy now)) (acts : List Action)
    (t : Server) (hacts : ∀ a ∈ acts, a.continues = true) (hrun : run u acts s = some t) :
    acts.length ≤ s.weight n ∧
      ((∀ a, a.continues = true → step u a t = none) → t.Quiet ∧ t.readers = ∅ ∧
        t.rewriter = none) := by
  have hs : Disciplined s ∧ Accounted u env s :=
    invariant (step u) (HasRooms u env) (fun s => Disciplined s ∧ Accounted u env s)
      (fun a s s' hs hroom hstep => ⟨hs.1.step a s' (step_moves a s' hstep),
        hs.2.step hs.1 a s' hroom (step_moves a s' hstep)⟩)
      before _ s hrooms hbefore ⟨disciplined_start policy now, accounted_start policy now⟩
  have hidle := idle_beyond n policy now before s hwithin hbefore
  have hdrop : ∀ (a : Action) (s s' : Server),
      (Disciplined s ∧ Accounted u env s ∧ ∀ j, n ≤ j → s.phase j = .idle) →
      a.continues = true → step u a s = some s' →
      (Disciplined s' ∧ Accounted u env s' ∧ ∀ j, n ≤ j → s'.phase j = .idle) ∧
      s'.weight n < s.weight n := by
    rintro a s s' ⟨hd, haccounted, hidle⟩ ha hstep
    have hm := step_moves a s' hstep
    have hroom : HasRooms u env a s := by
      cases a with
      | acquire => cases ha
      | _ => trivial
    exact ⟨⟨hd.step a s' hm, haccounted.step hd a s' hroom hm,
      idle_beyond_step n hd hidle a s' (within_of_continues n hidle a s' ha hm) hm⟩,
      weight_lt n hd hidle a s' ha hm⟩
  obtain ⟨⟨-, ht, -⟩, hle⟩ := length_add_le (step u) (fun a => a.continues = true) _
    (weight n) hdrop acts s t ⟨hs.1, hs.2, hidle⟩ hacts hrun
  refine ⟨by omega, fun hstuck => ?_⟩
  have hphase := ht.idle hstuck
  obtain ⟨hhand, hchannel⟩ := queue_eq_nil hstuck
  refine ⟨⟨hphase, hchannel, hhand⟩, ?_, ?_⟩
  · refine Finset.eq_empty_of_forall_notMem fun i hi => ?_
    have := ht.readers i hi
    rw [hphase i] at this
    cases this
  · refine Option.eq_none_iff_forall_ne_some.mpr fun i hi => ?_
    have := ht.rewriter i hi
    rw [hphase i] at this
    cases this

/-- A rewrite has the barrier, and the frame of a command from before it waits for the writer. -/
def rewriteUnderWay : List Action :=
  [.acquire 0 (.of "INCR" [utf8 "n"]), .execute 0 .sample, .release 0, .send 0, .lock 1,
    .snapshot 1 .sample]

/-- One of the orders in which they come to their end. -/
def goneOn : List Action :=
  [.writeTemp 1, .recv, .sendSwap 1, .work 0, .reply 0, .recv, .work 0, .finish 1, .reply 1]

theorem rewriteUnderWay_completes :
    ∃ s t, run asciiCaseMap rewriteUnderWay (start .always 0) = some s ∧
      run asciiCaseMap goneOn s = some t ∧
      goneOn.length ≤ s.weight 2 ∧ (∀ a, a.continues = true → step asciiCaseMap a t = none) ∧
      t.Quiet ∧ t.readers = ∅ ∧ t.rewriter = none := by
  obtain ⟨s, hs⟩ := Option.isSome_iff_exists.mp
    (show (run asciiCaseMap rewriteUnderWay (start .always 0)).isSome = true by decide +kernel)
  obtain ⟨t, hrun, hweight⟩ := Option.map_eq_some_iff.mp
    (show (run asciiCaseMap (rewriteUnderWay ++ goneOn) (start .always 0)).map (weight 2) =
      some 0 by decide +kernel)
  have ht : run asciiCaseMap goneOn s = some t := by
    have happend := (run_append (step asciiCaseMap) rewriteUnderWay goneOn
      (start .always 0)).symm.trans hrun
    rwa [show Lib.Machine.run (step asciiCaseMap) rewriteUnderWay (start .always 0) =
      some s from hs] at happend
  have hdisciplined : Disciplined t :=
    invariant (step asciiCaseMap) (fun _ _ => True) Disciplined
      (fun a s s' h _ hstep => h.step a s' (step_moves a s' hstep))
      _ _ t (along_of_mem _ _ _ (fun _ _ _ => trivial) _) hrun (disciplined_start .always 0)
  have hrooms : Along (step asciiCaseMap) (HasRooms asciiCaseMap .sample) rewriteUnderWay
      (start .always 0) := by
    refine along_of_mem _ _ _ (fun a ha s => ?_) _
    have hseconds : ∀ r : Request, (∃ i, .acquire i r ∈ rewriteUnderWay) →
        r.cmd.seconds asciiCaseMap = none := by
      rintro r ⟨i, hi⟩
      simp only [rewriteUnderWay, List.mem_cons, Action.acquire.injEq, reduceCtorEq,
        List.not_mem_nil, or_false] at hi
      rw [hi.2]
      decide +kernel
    cases a with
    | acquire i r =>
      intro m hm
      rw [hseconds r ⟨i, ha⟩] at hm
      cases hm
    | _ => trivial
  obtain ⟨hlength, hquiet⟩ :=
    commands_complete asciiCaseMap .sample .always 0 2 rewriteUnderWay s hs
      (by decide) hrooms goneOn t (by decide) ht
  have hstuck : ∀ a : Action, a.continues = true → step asciiCaseMap a t = none :=
    step_of_weight_eq_zero 2 hdisciplined (idle_beyond 2 .always 0 _ t (by decide) hrun) hweight
  exact ⟨s, t, hs, ht, hlength, hstuck, hquiet hstuck⟩

end Server

end RustyPotato
