import RustyPotato.System

/-!
# The barrier and the file

What the barrier keeps apart: mutations and rewrites, and one rewrite from another. So at most one
swap is on its way to the writer, and the file to be is what the writer has, with all that waits
applied to it.
-/

namespace RustyPotato

namespace Phase

/-- The connection holds the barrier as a reader. -/
def reads : Phase → Bool
  | guarded _ | executed _ _ => true
  | _ => false

/-- The connection holds the barrier as a writer. -/
def rewrites : Phase → Bool
  | rewriting | captured _ | written | swapping | swapped _ => true
  | _ => false

end Phase

def WriterCmd.isSwap : WriterCmd → Bool
  | swapFile _ => true
  | record _ => false

namespace Server

structure Disciplined (s : Server) : Prop where
  reads : ∀ i, (s.phase i).reads = true → i ∈ s.readers
  rewrites : ∀ i, (s.phase i).rewrites = true → s.rewriter = some i
  exclusive : s.rewriter ≠ none → s.readers = ∅
  swaps : ∀ j, .swapFile j ∈ s.queue → s.phase j = .swapping
  once : s.queue.countP WriterCmd.isSwap ≤ 1

theorem disciplined_start (policy : FsyncPolicy) (now : Int) : Disciplined (start policy now) where
  reads := by simp [start, Phase.reads]
  rewrites := by simp [start, Phase.rewrites]
  exclusive := fun _ => rfl
  swaps := by simp [start, queue]
  once := by simp [start, queue]

variable {u : CaseMap} {s : Server}

namespace Disciplined

theorem rewriter_none (h : Disciplined s) (i : Nat) (hi : (s.phase i).reads = true) :
    s.rewriter = none := by
  by_contra hne
  have hmem := h.reads i hi
  rw [h.exclusive hne] at hmem
  simp at hmem

theorem unique (h : Disciplined s) (i j : Nat) (hi : (s.phase i).rewrites = true)
    (hj : (s.phase j).rewrites = true) : i = j := by
  have := h.rewrites i hi
  rw [h.rewrites j hj] at this
  exact (Option.some.inj this).symm

theorem not_rewrites (h : Disciplined s) (i j : Nat) (hi : (s.phase i).rewrites = true)
    (hji : j ≠ i) : (s.phase j).rewrites = false := by
  by_contra hj
  exact hji (h.unique j i (Bool.not_eq_false _ ▸ hj) hi)

theorem not_queued (h : Disciplined s) (i : Nat) (hi : s.phase i ≠ .swapping) :
    .swapFile i ∉ s.queue :=
  fun hmem => hi (h.swaps i hmem)

theorem no_swaps (h : Disciplined s) (i : Nat) (hi : (s.phase i).rewrites = true)
    (hne : s.phase i ≠ .swapping) : s.queue.countP WriterCmd.isSwap = 0 := by
  refine List.countP_eq_zero.mpr fun m hm hswap => ?_
  cases m with
  | record frame => cases hswap
  | swapFile j =>
    have hj := h.swaps j hm
    obtain rfl := h.unique i j hi (by rw [hj]; rfl)
    exact hne hj

theorem move (h : Disciplined s) (s' : Server) (i : Nat) (p : Phase)
    (hphase : s'.phase = Function.update s.phase i p)
    (hreaders : ∀ j ≠ i, j ∈ s.readers → j ∈ s'.readers) (hreads : p.reads = true → i ∈ s'.readers)
    (hrewriter : ∀ j ≠ i, s.rewriter = some j → s'.rewriter = some j)
    (hrewrites : p.rewrites = true → s'.rewriter = some i)
    (hexclusive : s'.rewriter ≠ none → s'.readers = ∅)
    (hswaps : ∀ j ≠ i, .swapFile j ∈ s'.queue → .swapFile j ∈ s.queue)
    (hswap : .swapFile i ∈ s'.queue → p = .swapping)
    (honce : s'.queue.countP WriterCmd.isSwap ≤ 1) : Disciplined s' where
  reads j hj := by
    rw [hphase, Function.update_apply] at hj
    split_ifs at hj with hji
    · exact hji ▸ hreads hj
    · exact hreaders j hji (h.reads j hj)
  rewrites j hj := by
    rw [hphase, Function.update_apply] at hj
    split_ifs at hj with hji
    · exact hji ▸ hrewrites hj
    · exact hrewriter j hji (h.rewrites j hj)
  exclusive := hexclusive
  swaps j hj := by
    rw [hphase, Function.update_apply]
    split_ifs with hji
    · exact hswap (hji ▸ hj)
    · exact h.swaps j (hswaps j hji hj)
  once := honce

/-- One connection moves on, and the barrier and the channel stay as they are. -/
theorem goto (h : Disciplined s) (s' : Server) (i : Nat) (p : Phase)
    (hphase : s'.phase = Function.update s.phase i p) (hreaders : s'.readers = s.readers)
    (hrewriter : s'.rewriter = s.rewriter) (hqueue : s'.queue = s.queue)
    (hreads : p.reads = true → (s.phase i).reads = true) (hrewrites : p.rewrites = true →
      (s.phase i).rewrites = true) (hswapping : s.phase i ≠ .swapping) : Disciplined s' := by
  refine h.move s' i p hphase (fun j _ hj => hreaders ▸ hj)
    (fun hp => hreaders ▸ h.reads i (hreads hp)) (fun j _ hj => hrewriter ▸ hj)
    (fun hp => hrewriter ▸ h.rewrites i (hrewrites hp)) ?_ (fun j _ hj => hqueue ▸ hj)
    (fun hi => absurd (h.swaps i (hqueue ▸ hi)) hswapping) (hqueue ▸ h.once)
  rw [hrewriter, hreaders]
  exact h.exclusive

theorem same (h : Disciplined s) (s' : Server) (hphase : s'.phase = s.phase)
    (hreaders : s'.readers = s.readers) (hrewriter : s'.rewriter = s.rewriter)
    (hqueue : ∀ m ∈ s'.queue, m ∈ s.queue)
    (honce : s'.queue.countP WriterCmd.isSwap ≤ s.queue.countP WriterCmd.isSwap) :
    Disciplined s' where
  reads := by rw [hphase, hreaders]; exact h.reads
  rewrites := by rw [hphase, hrewriter]; exact h.rewrites
  exclusive := by rw [hrewriter, hreaders]; exact h.exclusive
  swaps j hj := by rw [hphase]; exact h.swaps j (hqueue _ hj)
  once := honce.trans h.once

theorem unlock (h : Disciplined s) (s' : Server) (i : Nat) (p : Phase)
    (hphase : s'.phase = Function.update s.phase i p) (hreaders : s'.readers = s.readers)
    (hrewriter : s'.rewriter = none) (hqueue : s'.queue = s.queue)
    (hi : (s.phase i).rewrites = true) (hp : p.rewrites = false) (hreads : p.reads = false)
    (hswapping : s.phase i ≠ .swapping) : Disciplined s' := by
  refine h.move s' i p hphase (fun j _ hj => hreaders ▸ hj) (by simp [hreads]) ?_ (by simp [hp])
    (fun hne => absurd hrewriter hne) (fun j _ hj => hqueue ▸ hj)
    (fun hj => absurd (h.swaps i (hqueue ▸ hj)) hswapping) (hqueue ▸ h.once)
  intro j hji hj
  rw [h.rewrites i hi] at hj
  exact absurd (Option.some.inj hj).symm hji

/--
One connection sends a message. A swap comes from a connection that waits for it, when no other is
on its way.
-/
theorem enqueue (h : Disciplined s) (s' : Server) (i : Nat) (p : Phase) (m : WriterCmd)
    (hphase : s'.phase = Function.update s.phase i p) (hreaders : s'.readers = s.readers)
    (hrewriter : s'.rewriter = s.rewriter) (hqueue : s'.queue = s.queue ++ [m])
    (hreads : p.reads = true → (s.phase i).reads = true)
    (hrewrites : p.rewrites = true → (s.phase i).rewrites = true)
    (hswapping : s.phase i ≠ .swapping) (hm : m.isSwap = true → m = .swapFile i ∧ p = .swapping ∧
      s.queue.countP WriterCmd.isSwap = 0) :
    Disciplined s' := by
  have hothers : ∀ j, j ≠ i → .swapFile j ∈ s'.queue → .swapFile j ∈ s.queue := by
    intro j hji hj
    rw [hqueue] at hj
    refine (List.mem_append.mp hj).resolve_right fun hlast => ?_
    obtain rfl := List.mem_singleton.mp hlast
    cases (hm rfl).1
    exact hji rfl
  have hown : .swapFile i ∈ s'.queue → p = .swapping := by
    intro hi
    rw [hqueue] at hi
    rcases List.mem_append.mp hi with hold | hlast
    · exact absurd (h.swaps i hold) hswapping
    · obtain rfl := List.mem_singleton.mp hlast
      exact (hm rfl).2.1
  have honce : s'.queue.countP WriterCmd.isSwap ≤ 1 := by
    rw [hqueue, List.countP_append, List.countP_singleton]
    cases hswap : m.isSwap with
    | false => exact h.once
    | true =>
      rw [(hm hswap).2.2]
      exact le_rfl
  refine h.move s' i p hphase (fun j _ hj => hreaders ▸ hj)
    (fun hp => hreaders ▸ h.reads i (hreads hp)) (fun j _ hj => hrewriter ▸ hj)
    (fun hp => hrewriter ▸ h.rewrites i (hrewrites hp)) ?_ hothers hown honce
  rw [hrewriter, hreaders]
  exact h.exclusive

theorem step (h : Disciplined s) (a : Action) (s' : Server) (hm : Moves u s a s') :
    Disciplined s' := by
  cases hm with
  | acquire i r hphase hmutation hfree =>
    have hnot := h.not_queued i (by rw [hphase]; simp)
    exact h.move _ i _ rfl (fun j _ hj => Finset.mem_insert_of_mem hj)
      (fun _ => Finset.mem_insert_self ..) (fun j _ hj => hj) (fun hp => by cases hp)
      (fun hne => absurd hfree hne) (fun j _ hj => hj) (fun hi => absurd hi hnot) h.once
  | execute i env r result after hphase hrun =>
    exact h.goto _ i _ rfl rfl rfl rfl (fun _ => by rw [hphase]; rfl) (fun hp => by cases hp)
      (by rw [hphase]; simp)
  | release i r result hphase =>
    have hnone := h.rewriter_none i (by rw [hphase]; rfl)
    have hnot := h.not_queued i (by rw [hphase]; simp)
    exact h.move _ i _ rfl (fun j hji hj => Finset.mem_erase_of_ne_of_mem hji hj)
      (fun hp => by cases hp) (fun j _ hj => hj) (fun hp => by cases hp)
      (fun hne => absurd hnone hne) (fun j _ hj => hj) (fun hi => absurd hi hnot) h.once
  | send i r v hphase =>
    exact h.enqueue _ i _ (.record r.frame) rfl rfl rfl (List.append_assoc ..).symm
      (fun hp => by cases hp) (fun hp => by cases hp) (by rw [hphase]; simp) (fun hm => by cases hm)
  | skip i r e hphase =>
    exact h.goto _ i _ rfl rfl rfl rfl (fun hp => by cases hp) (fun hp => by cases hp)
      (by rw [hphase]; simp)
  | read i env r result after hphase hmutation hrun =>
    exact h.goto _ i _ rfl rfl rfl rfl (fun hp => by cases hp) (fun hp => by cases hp)
      (by rw [hphase]; simp)
  | reply i result record hphase =>
    exact h.goto _ i _ rfl rfl rfl rfl (fun hp => by cases hp) (fun hp => by cases hp)
      (by rw [hphase]; simp)
  | lock i hphase hreaders hfree =>
    have hnot := h.not_queued i (by rw [hphase]; simp)
    refine h.move _ i _ rfl (fun j _ hj => hj) (fun hp => by cases hp) (fun j _ hj => ?_)
      (fun _ => rfl) (fun _ => hreaders) (fun j _ hj => hj) (fun hi => absurd hi hnot) h.once
    rw [hfree] at hj
    cases hj
  | snapshot i env frames hphase hframes =>
    exact h.goto _ i _ rfl rfl rfl rfl (fun hp => by cases hp) (fun _ => by rw [hphase]; rfl)
      (by rw [hphase]; simp)
  | refuse i env e hphase =>
    exact h.unlock _ i _ rfl rfl rfl rfl (by rw [hphase]; rfl) rfl rfl (by rw [hphase]; simp)
  | writeTemp i frames hphase =>
    exact h.goto _ i _ rfl rfl rfl rfl (fun hp => by cases hp) (fun _ => by rw [hphase]; rfl)
      (by rw [hphase]; simp)
  | sendSwap i hphase =>
    have hnone := h.no_swaps i (by rw [hphase]; rfl) (by rw [hphase]; simp)
    exact h.enqueue _ i _ (.swapFile i) rfl rfl rfl (List.append_assoc ..).symm
      (fun hp => by cases hp) (fun _ => by rw [hphase]; rfl) (by rw [hphase]; simp)
      (fun _ => ⟨rfl, rfl, hnone⟩)
  | finish i result hphase =>
    exact h.unlock _ i _ rfl rfl rfl rfl (by rw [hphase]; rfl) rfl rfl (by rw [hphase]; simp)
  | recv m rest hhand hchannel =>
    have hqueue : ({ s with hand := some m, channel := rest } : Server).queue = s.queue := by
      simp [queue, hhand, hchannel]
    exact h.same _ rfl rfl rfl (fun m hm => hqueue ▸ hm) (by rw [hqueue])
  | record now frame hhand =>
    have hqueue : s.queue = .record frame :: s.channel := by simp [queue, hhand]
    refine h.same _ rfl rfl rfl (fun m hm => ?_) ?_
    · rw [hqueue]
      exact List.mem_cons_of_mem _ (by simpa [queue] using hm)
    · rw [hqueue]
      simp [queue, WriterCmd.isSwap]
  | swap now i hhand =>
    have hqueue : s.queue = .swapFile i :: s.channel := by simp [queue, hhand]
    have hi := h.swaps i (by rw [hqueue]; exact List.mem_cons_self)
    have honce := h.once
    rw [hqueue, List.countP_cons_of_pos rfl] at honce
    have hnone : s.channel.countP WriterCmd.isSwap = 0 := by omega
    refine h.move _ i _ rfl (fun j _ hj => hj) (fun hp => by cases hp) (fun j _ hj => hj)
      (fun _ => h.rewrites i (by rw [hi]; rfl)) h.exclusive (fun j _ hj => ?_) (fun hj => ?_) ?_
    · rw [hqueue]
      exact List.mem_cons_of_mem _ (by simpa [queue, Server.goto] using hj)
    · have hmem : .swapFile i ∈ s.channel := by simpa [queue, Server.goto] using hj
      exact absurd rfl (List.countP_eq_zero.mp hnone _ hmem)
    · simp [queue, Server.goto, hnone]
  | tick now hhand => exact h.same _ rfl rfl rfl (fun m hm => hm) le_rfl

end Disciplined

/-! ## The file to be -/

/-- What a message makes of the file. -/
def applyCmd (temp : Option Bytes) (file : Bytes) : WriterCmd → Bytes
  | .record frame => file ++ frame
  | .swapFile _ => temp.getD []

/-- The file once everything that waits has been dealt with, and the buffer written. -/
def effective (s : Server) : Bytes :=
  s.queue.foldl (applyCmd s.writer.disk.temp) (s.writer.disk.live ++ s.writer.buffer)

/-- Without a swap the file of the rewrite is not looked at. -/
theorem foldl_applyCmd (msgs : List WriterCmd) (h : msgs.countP WriterCmd.isSwap = 0)
    (temp temp' : Option Bytes) (file : Bytes) :
    msgs.foldl (applyCmd temp) file = msgs.foldl (applyCmd temp') file := by
  induction msgs generalizing file with
  | nil => rfl
  | cons m msgs ih =>
    cases m with
    | swapFile j => exact absurd rfl (List.countP_eq_zero.mp h _ List.mem_cons_self)
    | record frame =>
      exact ih (by simpa [List.countP_cons, WriterCmd.isSwap] using h) (file ++ frame)

end Server

/-- Without failures a writer loses nothing and keeps its handle. -/
theorem AofWriter.flushWhen_ok (now : Int) (w : AofWriter) (h : w.handle = .append)
    (sync : Option Bool) :
    (w.flushWhen now .ok sync).2.disk.live ++ (w.flushWhen now .ok sync).2.buffer =
      w.disk.live ++ w.buffer ∧
      (w.flushWhen now .ok sync).2.handle = .append ∧
      (w.flushWhen now .ok sync).2.disk.temp = w.disk.temp := by
  cases sync with
  | none => exact ⟨rfl, h, rfl⟩
  | some sync =>
    rw [flushWhen, flushToDisk_ok now sync w h]
    exact ⟨List.append_nil _, h, rfl⟩

end RustyPotato
