import Mathlib.Data.Finmap
import RustyPotato.Lib.Machine

/-!
# Connection slots (`network/connection.rs`, `network/server.rs`)

A slot is a permit of a semaphore. The accept loop takes one for each client and files it in the
pool under the client's id. Two tasks take it out again, the client's own when it ends and the
evictor when the client seems idle, and none does when the client's task panics.
-/

namespace RustyPotato

open Lib.Machine

/-- Every `Uuid::new_v4` is taken to be new. -/
abbrev ClientId := Nat

/-! ## The pool -/

/-- The part of a `ClientConnection` that is read while it is in use. -/
structure ClientConnection where
  lastActivity : Nat
  /-- `shutdown` closes the direction of the replies. -/
  writable : Bool

structure ConnectionPool where
  connections : Finset ClientId
  permits : Finset ClientId
  maxConnections : Nat
  /-- The permits that the semaphore has left. -/
  available : Nat

namespace ConnectionPool

def new (maxConnections : Nat) : ConnectionPool := ⟨∅, ∅, maxConnections, maxConnections⟩

def tryReserveSlot (p : ConnectionPool) : Option ConnectionPool :=
  if p.available = 0 then none else some { p with available := p.available - 1 }

/-- The permit goes back with its entry. The result says whether there was a connection. -/
def removeConnection (id : ClientId) (p : ConnectionPool) : Bool × ConnectionPool :=
  (decide (id ∈ p.connections),
    { p with
      permits := p.permits.erase id
      connections := p.connections.erase id
      available := if id ∈ p.permits then p.available + 1 else p.available })

end ConnectionPool

/-! ## The tasks -/

/-- `handle_new_connection`. The accept loop waits for it before it accepts again. -/
inductive Accept where
  | waiting
  /-- The permit is reserved. -/
  | reserved
  /-- The connection is in the pool, the permit is not yet. -/
  | inserted (id : ClientId)
  /-- Both are in the pool, and the handler is to be spawned. -/
  | added (id : ClientId)
deriving DecidableEq

/-- Where the task of a connection is. A task that has ended or panicked is nowhere. -/
inductive HandlerPhase where
  | spawned
  /-- In `read`, under the connection's mutex. -/
  | reading
  /-- In `process_buffer`, without the mutex. -/
  | working
  /-- In `write_response`, under the mutex. -/
  | writing
deriving DecidableEq

def HandlerPhase.locks : HandlerPhase → Bool
  | reading | writing => true
  | spawned | working => false

/--
`evict_idle`, where `find_idle_connections` takes the time before it looks at the first connection.
-/
inductive Evictor where
  | sleeping
  | scanning (now : Nat) (visited : Finset ClientId) (found : List ClientId)
  | evicting (found : List ClientId)
  | removing (id : ClientId) (rest : List ClientId)

structure TcpServer where
  now : Nat
  pool : ConnectionPool
  clients : ClientId → ClientConnection
  nextId : ClientId
  accept : Accept
  handlers : Finmap fun _ : ClientId => HandlerPhase
  evictor : Evictor

inductive NetAct where
  | pass (n : Nat)
  -- The accept loop.
  | accept
  | insertConnection
  | insertPermit
  | spawn
  -- The task of a connection.
  | start (id : ClientId)
  | read (id : ClientId)
  | command (id : ClientId)
  | write (id : ClientId)
  | written (id : ClientId)
  | drained (id : ClientId)
  | finish (id : ClientId)
  | crash (id : ClientId)
  -- The evictor.
  | scan
  | visit (id : ClientId)
  | scanned
  | shut
  | remove

namespace TcpServer

def new (maxConnections : Nat) : TcpServer where
  now := 0
  pool := .new maxConnections
  clients _ := ⟨0, true⟩
  nextId := 0
  accept := .waiting
  handlers := ∅
  evictor := .sleeping

/-- The mutex of the connection is held, so that a `try_lock` fails. -/
def locked (id : ClientId) (s : TcpServer) : Bool := (s.handlers.lookup id).any HandlerPhase.locks

def shutdown (id : ClientId) (s : TcpServer) : TcpServer :=
  { s with clients := Function.update s.clients id { s.clients id with writable := false } }

def advance (id : ClientId) (here there : HandlerPhase) (s : TcpServer) : Option TcpServer :=
  if s.handlers.lookup id = some here then
    some { s with handlers := s.handlers.insert id there }
  else none

/-- The last thing that a task does. -/
def leave (id : ClientId) (s : TcpServer) : TcpServer :=
  -- Where the connection is gone already, the two further attempts find no more.
  { s with handlers := s.handlers.erase id, pool := (s.pool.removeConnection id).2 }

/-- Nobody holds the mutex, and the client has been silent for too long. -/
def idleAt (idleThreshold now : Nat) (id : ClientId) (s : TcpServer) : Bool :=
  !s.locked id && decide (idleThreshold < now - (s.clients id).lastActivity)

def step (idleThreshold : Nat) (a : NetAct) (s : TcpServer) : Option TcpServer :=
  match a with
  | .pass n => some { s with now := s.now + n }
  | .accept =>
    if s.accept = .waiting then
      match s.pool.tryReserveSlot with
      | some pool => some { s with pool, accept := .reserved }
      -- Told that the limit is reached, and closed.
      | none => some s
    else none
  | .insertConnection =>
    if s.accept = .reserved then
      some { s with
        accept := .inserted s.nextId
        nextId := s.nextId + 1
        pool := { s.pool with connections := insert s.nextId s.pool.connections }
        clients := Function.update s.clients s.nextId ⟨s.now, true⟩ }
    else none
  | .insertPermit =>
    match s.accept with
    | .inserted id =>
      some { s with
        accept := .added id
        pool := { s.pool with permits := insert id s.pool.permits } }
    | _ => none
  | .spawn =>
    match s.accept with
    | .added id => some { s with accept := .waiting, handlers := s.handlers.insert id .spawned }
    | _ => none
  | .start id =>
    if s.handlers.lookup id = some .spawned then
      if id ∈ s.pool.connections then s.advance id .spawned .reading else some (s.leave id)
    else none
  | .read id => s.advance id .reading .working
  | .command id =>
    if s.handlers.lookup id = some .working then
      some { s with
        clients := Function.update s.clients id { s.clients id with lastActivity := s.now } }
    else none
  | .write id => s.advance id .working .writing
  | .written id => if (s.clients id).writable then s.advance id .writing .working else none
  | .drained id => s.advance id .working .reading
  | .finish id =>
    if id ∈ s.handlers ∧ s.handlers.lookup id ≠ some .spawned then
      some ((s.shutdown id).leave id)
    else none
  -- A panic inside the command takes the task with it. Nobody else removes the connection then.
  | .crash id =>
    if s.handlers.lookup id = some .working then
      some { s with handlers := s.handlers.erase id }
    else none
  | .scan =>
    match s.evictor with
    | .sleeping => some { s with evictor := .scanning s.now ∅ [] }
    | _ => none
  | .visit id =>
    match s.evictor with
    | .scanning now visited found =>
      if id ∈ s.pool.connections ∧ id ∉ visited then
        let found := if s.idleAt idleThreshold now id then found ++ [id] else found
        some { s with evictor := .scanning now (insert id visited) found }
      else none
    | _ => none
  | .scanned =>
    match s.evictor with
    | .scanning _ _ found => some { s with evictor := .evicting found }
    | _ => none
  | .shut =>
    match s.evictor with
    | .evicting [] => some { s with evictor := .sleeping }
    | .evicting (id :: rest) =>
      -- The lock is tried again, and where it fails the socket stays open.
      let s := if id ∈ s.pool.connections ∧ s.locked id = false then s.shutdown id else s
      some { s with evictor := .removing id rest }
    | _ => none
  | .remove =>
    match s.evictor with
    | .removing id rest =>
      some { s with pool := (s.pool.removeConnection id).2, evictor := .evicting rest }
    | _ => none

end TcpServer

/-! ## Slots -/

/-- An accept that has its permit and has not spawned its handler. -/
def Accept.inProgress : Accept → Nat
  | waiting => 0
  | reserved | inserted _ | added _ => 1

namespace TcpServer

def held (s : TcpServer) : Nat := s.pool.maxConnections - s.pool.available

structure SlotsMatch (s : TcpServer) : Prop where
  count : s.held = s.handlers.keys.card + s.accept.inProgress
  limit : s.handlers.keys.card ≤ s.pool.maxConnections
  alive : ∀ id ∈ s.pool.permits, id ∈ s.handlers ∨ s.accept = .added id

/-- A command panics, or the evictor removes a connection that is being served or about to be. -/
def disowns (a : NetAct) (s : TcpServer) : Bool :=
  match a with
  | .crash id => s.handlers.lookup id = some .working
  | .remove =>
    match s.evictor with
    | .removing id _ => id ∈ s.handlers ∨ s.accept = .added id
    | _ => false
  | _ => false

end TcpServer

/-- What the slots depend on. -/
structure Slots where
  maxConnections : Nat
  available : Nat
  permits : Finset ClientId
  serving : Finset ClientId
  accept : Accept
  nextId : ClientId

def TcpServer.slots (s : TcpServer) : Slots :=
  ⟨s.pool.maxConnections, s.pool.available, s.pool.permits, s.handlers.keys, s.accept, s.nextId⟩

namespace Slots

def release (id : ClientId) (s : Slots) : Slots :=
  { s with
    permits := s.permits.erase id
    available := if id ∈ s.permits then s.available + 1 else s.available }

/-- What a slot goes through, from the accept to the end of its handler. -/
inductive Next (s : Slots) : Slots → Prop
  | quiet : Next s s
  | reserve (hwaiting : s.accept = .waiting) (hleft : s.available ≠ 0) :
    Next s { s with available := s.available - 1, accept := .reserved }
  | insert (h : s.accept = .reserved) :
    Next s { s with accept := .inserted s.nextId, nextId := s.nextId + 1 }
  | file (id : ClientId) (h : s.accept = .inserted id) :
    Next s { s with accept := .added id, permits := Insert.insert id s.permits }
  | spawn (id : ClientId) (h : s.accept = .added id) :
    Next s { s with accept := .waiting, serving := Insert.insert id s.serving }
  | leave (id : ClientId) (h : id ∈ s.serving) :
    Next s { s.release id with serving := s.serving.erase id }
  | evict (id : ClientId) (hserving : id ∉ s.serving) (hadded : s.accept ≠ .added id) :
    Next s (s.release id)

/-- The permits of the pool are those of the handlers, and of the accept that has filed its own. -/
structure Filed (s : Slots) : Prop where
  filed : ∀ id, id ∈ s.permits ↔ id ∈ s.serving ∨ s.accept = .added id
  fresh : ∀ id, id ∈ s.serving ∨ s.accept = .inserted id ∨ s.accept = .added id → id < s.nextId
  apart : ∀ id, s.accept = .inserted id ∨ s.accept = .added id → id ∉ s.serving
  conserved : s.available + s.serving.card + s.accept.inProgress = s.maxConnections

theorem release_of_notMem (id : ClientId) (s : Slots) (h : id ∉ s.permits) : s.release id = s := by
  rw [release, Finset.erase_eq_of_notMem h, if_neg h]

namespace Filed

variable {s : Slots} (h : s.Filed)

include h

theorem reserve (hwaiting : s.accept = .waiting) (hleft : s.available ≠ 0) :
    Filed { s with available := s.available - 1, accept := .reserved } where
  filed := by simpa [hwaiting] using h.filed
  fresh := by simpa [hwaiting] using h.fresh
  apart := by simp
  conserved := by
    have hconserved := h.conserved
    simp only [hwaiting, Accept.inProgress] at hconserved ⊢
    omega

theorem insert (hreserved : s.accept = .reserved) :
    Filed { s with accept := .inserted s.nextId, nextId := s.nextId + 1 } where
  filed := by simpa [hreserved] using h.filed
  fresh := by
    rintro id (hid | hid | hid)
    · exact Nat.lt_succ_of_lt (h.fresh id (.inl hid))
    · cases hid
      exact Nat.lt_succ_self _
    · cases hid
  apart := by
    rintro id (hid | hid) hserving
    · cases hid
      exact absurd (h.fresh _ (.inl hserving)) (Nat.lt_irrefl _)
    · cases hid
  conserved := by simpa [hreserved, Accept.inProgress] using h.conserved

theorem file (id : ClientId) (hinserted : s.accept = .inserted id) :
    Filed { s with accept := .added id, permits := Insert.insert id s.permits } where
  filed k := by
    simp only [Finset.mem_insert, h.filed k, hinserted, Accept.added.injEq, reduceCtorEq, or_false]
    tauto
  fresh := by
    rintro k (hk | hk | hk)
    · exact h.fresh k (.inl hk)
    · cases hk
    · cases hk
      exact h.fresh id (.inr (.inl hinserted))
  apart := by
    rintro k (hk | hk)
    · cases hk
    · cases hk
      exact h.apart id (.inl hinserted)
  conserved := by simpa [hinserted, Accept.inProgress] using h.conserved

theorem spawn (id : ClientId) (hadded : s.accept = .added id) :
    Filed { s with accept := .waiting, serving := Insert.insert id s.serving } where
  filed k := by
    simp only [Finset.mem_insert, h.filed k, hadded, Accept.added.injEq, reduceCtorEq, or_false]
    tauto
  fresh := by
    rintro k (hk | hk | hk)
    · rcases Finset.mem_insert.mp hk with rfl | hk
      · exact h.fresh k (.inr (.inr hadded))
      · exact h.fresh k (.inl hk)
    · cases hk
    · cases hk
  apart := by
    rintro k (hk | hk)
    · cases hk
    · cases hk
  conserved := by
    have hconserved := h.conserved
    simp only [hadded, Accept.inProgress, Finset.card_insert_of_notMem (h.apart id (.inr hadded))]
      at hconserved ⊢
    omega

theorem leave (id : ClientId) (hserving : id ∈ s.serving) :
    Filed { s.release id with serving := s.serving.erase id } where
  filed k := by
    simp only [release, Finset.mem_erase, h.filed k]
    constructor
    · tauto
    · rintro (hk | hadded)
      · exact ⟨hk.1, .inl hk.2⟩
      · refine ⟨?_, .inr hadded⟩
        rintro rfl
        exact h.apart k (.inr hadded) hserving
  fresh := by
    rintro k (hk | hk)
    · exact h.fresh k (.inl (Finset.mem_of_mem_erase hk))
    · exact h.fresh k (.inr hk)
  apart k hk hk' := h.apart k hk (Finset.mem_of_mem_erase hk')
  conserved := by
    have hcard := Finset.card_erase_add_one hserving
    have hconserved := h.conserved
    simp only [release, if_pos ((h.filed id).mpr (.inl hserving))]
    omega

theorem evict (id : ClientId) (hserving : id ∉ s.serving) (hadded : s.accept ≠ .added id) :
    (s.release id).Filed := by
  -- The handler has taken its permit along, so that there is nothing to take.
  have hpermit : id ∉ s.permits := fun hid => ((h.filed id).mp hid).elim hserving hadded
  rw [release_of_notMem id s hpermit]
  exact h

theorem next (s' : Slots) (hnext : s.Next s') : s'.Filed := by
  cases hnext with
  | quiet => exact h
  | reserve hwaiting hleft => exact h.reserve hwaiting hleft
  | insert hreserved => exact h.insert hreserved
  | file id hinserted => exact h.file id hinserted
  | spawn id hadded => exact h.spawn id hadded
  | leave id hserving => exact h.leave id hserving
  | evict id hserving hadded => exact h.evict id hserving hadded

theorem not_abandon (id : ClientId) (hid : id ∈ s.serving) :
    s.maxConnections - s.available ≠ (s.serving.erase id).card + s.accept.inProgress := by
  have hcard := Finset.card_erase_add_one hid
  have hconserved := h.conserved
  omega

theorem not_release (id : ClientId) (hid : id ∈ s.serving ∨ s.accept = .added id) :
    s.maxConnections - (s.release id).available ≠ s.serving.card + s.accept.inProgress := by
  have hpermit : id ∈ s.permits := (h.filed id).mpr hid
  have hconserved := h.conserved
  have hpos : 0 < s.serving.card + s.accept.inProgress := by
    rcases hid with hserving | hadded
    · have := Finset.card_pos.mpr ⟨id, hserving⟩
      omega
    · simp [hadded, Accept.inProgress]
  simp only [release, if_pos hpermit]
  omega

end Filed

end Slots

/-! ## The server's steps on the slots -/

namespace TcpServer

theorem filed_new (maxConnections : Nat) : (new maxConnections).slots.Filed where
  filed := by simp [new, slots, ConnectionPool.new]
  fresh := by simp [new, slots]
  apart := by simp [new, slots]
  conserved := by simp [new, slots, ConnectionPool.new, Accept.inProgress]

theorem slotsMatch_of_filed (s : TcpServer) (h : s.slots.Filed) : s.SlotsMatch := by
  have hconserved : s.pool.available + s.handlers.keys.card + s.accept.inProgress =
      s.pool.maxConnections := h.conserved
  refine ⟨?_, ?_, fun id hid => ?_⟩
  · unfold held
    omega
  · omega
  · have hfiled : id ∈ s.handlers.keys ∨ s.accept = .added id := (h.filed id).mp hid
    rwa [Finmap.mem_keys] at hfiled

theorem keys_insert_of_mem (handlers : Finmap fun _ : ClientId => HandlerPhase) (id : ClientId)
    (phase : HandlerPhase) (h : id ∈ handlers) :
    (handlers.insert id phase).keys = handlers.keys := by
  ext k
  rw [Finmap.mem_keys, Finmap.mem_keys, Finmap.mem_insert]
  constructor
  · rintro (rfl | hk)
    · exact h
    · exact hk
  · exact .inr

theorem mem_of_lookup (s : TcpServer) (id : ClientId) (phase : HandlerPhase)
    (h : s.handlers.lookup id = some phase) : id ∈ s.handlers := by
  rw [← Finmap.lookup_isSome, h]
  rfl

theorem slots_advance (s s' : TcpServer) (id : ClientId) (here there : HandlerPhase)
    (h : s.advance id here there = some s') : s'.slots = s.slots := by
  unfold advance at h
  split_ifs at h with hhere
  cases h
  simp only [slots, keys_insert_of_mem _ id there (s.mem_of_lookup id here hhere)]

theorem slots_leave (s : TcpServer) (id : ClientId) :
    (s.leave id).slots = { s.slots.release id with serving := s.slots.serving.erase id } := by
  simp only [slots, leave, Finmap.keys_erase]
  rfl

theorem slots_spawn (s : TcpServer) (id : ClientId) :
    { s with accept := .waiting, handlers := s.handlers.insert id .spawned : TcpServer }.slots =
      { s.slots with accept := .waiting, serving := insert id s.slots.serving } := by
  have hkeys : (s.handlers.insert id .spawned).keys = insert id s.handlers.keys := by
    ext k
    rw [Finmap.mem_keys, Finmap.mem_insert, Finset.mem_insert, Finmap.mem_keys]
  simp only [slots, hkeys]

/-- A step that disowns no client takes a slot on its way. -/
theorem step_next (idleThreshold : Nat) (a : NetAct) (s s' : TcpServer)
    (hstep : step idleThreshold a s = some s') (hkeeps : s.disowns a = false) :
    s.slots.Next s'.slots := by
  cases a with
  | pass n =>
    cases hstep
    exact .quiet
  | accept =>
    simp only [step, ConnectionPool.tryReserveSlot] at hstep
    split_ifs at hstep with hwaiting hleft
    · cases hstep
      exact .quiet
    · cases hstep
      exact .reserve hwaiting hleft
  | insertConnection =>
    simp only [step] at hstep
    split_ifs at hstep with hreserved
    cases hstep
    exact .insert hreserved
  | insertPermit =>
    simp only [step] at hstep
    split at hstep
    · rename_i id hinserted
      cases hstep
      exact .file id hinserted
    · cases hstep
  | spawn =>
    simp only [step] at hstep
    split at hstep
    · rename_i id hadded
      cases hstep
      rw [slots_spawn]
      exact .spawn id hadded
    · cases hstep
  | start id =>
    simp only [step] at hstep
    split_ifs at hstep with hspawned hfound
    · rw [slots_advance s s' id _ _ hstep]
      exact .quiet
    · cases hstep
      rw [slots_leave]
      exact .leave id (Finmap.mem_keys.mpr (s.mem_of_lookup id _ hspawned))
  | read id | write id | drained id =>
    rw [slots_advance s s' id _ _ hstep]
    exact .quiet
  | command id =>
    simp only [step] at hstep
    split_ifs at hstep
    cases hstep
    exact .quiet
  | written id =>
    simp only [step] at hstep
    split_ifs at hstep
    rw [slots_advance s s' id _ _ hstep]
    exact .quiet
  | finish id =>
    simp only [step] at hstep
    split_ifs at hstep with hphase
    cases hstep
    rw [slots_leave]
    exact .leave id (Finmap.mem_keys.mpr hphase.1)
  | crash id =>
    simp only [step] at hstep
    split_ifs at hstep with hworking
    simp [disowns, hworking] at hkeeps
  | scan | scanned =>
    simp only [step] at hstep
    split at hstep
    · cases hstep
      exact .quiet
    · cases hstep
  | visit id =>
    simp only [step] at hstep
    split at hstep
    · split_ifs at hstep
      all_goals
        cases hstep
        exact .quiet
    · cases hstep
  | shut =>
    simp only [step] at hstep
    split at hstep
    · cases hstep
      exact .quiet
    · split_ifs at hstep
      all_goals
        cases hstep
        exact .quiet
    · cases hstep
  | remove =>
    simp only [step] at hstep
    split at hstep
    · rename_i id rest hremoving
      cases hstep
      simp only [disowns, hremoving, decide_eq_false_iff_not, not_or] at hkeeps
      exact .evict id (fun h => hkeeps.1 (Finmap.mem_keys.mp h)) hkeeps.2
    · cases hstep

/-- A step that disowns a client is possible, and slots and handlers part. -/
theorem step_disowns (idleThreshold : Nat) (a : NetAct) (s : TcpServer) (h : s.slots.Filed)
    (hdisowns : s.disowns a = true) : ∃ s', step idleThreshold a s = some s' ∧ ¬ s'.SlotsMatch := by
  cases a with
  | crash id =>
    have hworking : s.handlers.lookup id = some .working := by simpa [disowns] using hdisowns
    refine ⟨{ s with handlers := s.handlers.erase id }, by simp only [step, if_pos hworking],
      fun hmatch => ?_⟩
    have hserving : id ∈ s.slots.serving := Finmap.mem_keys.mpr (s.mem_of_lookup id _ hworking)
    refine h.not_abandon id hserving ?_
    have hcount := hmatch.count
    simp only [Finmap.keys_erase] at hcount
    exact hcount
  | remove =>
    unfold disowns at hdisowns
    simp only at hdisowns
    split at hdisowns
    · rename_i id rest hremoving
      have hid : id ∈ s.handlers ∨ s.accept = .added id := by simpa using hdisowns
      refine ⟨{ s with pool := (s.pool.removeConnection id).2, evictor := .evicting rest },
        by simp only [step, hremoving], fun hmatch => ?_⟩
      exact h.not_release id (hid.imp_left Finmap.mem_keys.mpr) hmatch.count
    · cases hdisowns
  | _ => cases hdisowns

/--
In every state of a run permits, handlers and accepts match exactly if no command panics and the
evictor removes no connection that is served or about to be.
-/
theorem slots_match_iff (maxConnections idleThreshold : Nat) (acts : List NetAct) :
    (∀ before s, before <+: acts → run (step idleThreshold) before (new maxConnections) = some s →
      s.SlotsMatch) ↔
      Along (step idleThreshold) (fun a s => s.disowns a = false) acts (new maxConnections) := by
  refine good_iff_along _ _ (fun s => s.slots.Filed) SlotsMatch slotsMatch_of_filed ?_ ?_ acts _
    (filed_new maxConnections)
  · intro a s s' h hkeeps hstep
    exact h.next _ (step_next idleThreshold a s s' hstep hkeeps)
  · intro a s h hdisowns
    exact step_disowns idleThreshold a s h (by simpa using hdisowns)

/-! ## A panic and an eviction -/

def acceptClient (id : ClientId) : List NetAct :=
  [.accept, .insertConnection, .insertPermit, .spawn, .start id]

def panicked : List NetAct := [acceptClient 0, [.read 0, .command 0, .crash 0]].flatten

/--
The client's command takes longer than the threshold. When the lock is tried the task is in a read
again.
-/
def evictedAlive : List NetAct :=
  [acceptClient 0,
    [.read 0, .command 0, .pass 301, .scan, .visit 0, .scanned, .drained 0, .shut, .remove],
    acceptClient 1, [.read 0, .command 0, .write 0, .written 0, .read 1]].flatten

/-- A slot that a dead handler keeps, and two clients served where one is allowed. -/
theorem slots_part :
    (run (step 300) panicked (new 1)).map
      (fun s => (s.held, s.handlers.keys.card + s.accept.inProgress)) =
      some (1, 0) ∧
      (run (step 300) evictedAlive (new 1)).map (fun s => (s.held, s.handlers.keys.card)) =
        some (1, 2) := by
  decide +kernel

end TcpServer

end RustyPotato
