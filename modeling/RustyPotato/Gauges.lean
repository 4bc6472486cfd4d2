import RustyPotato.Eviction

/-!
# The counters of connections (`metrics/collector.rs`)

A connection is counted before its handler is spawned, and counted off by the handler before it
takes itself out of the pool. A handler that panics is never counted off.
-/

namespace RustyPotato

open Lib.Machine

structure NetworkMetrics where
  totalBytesRead : Nat
  totalBytesWritten : Nat
  connectionsAccepted : Nat
  connectionsRejected : Nat
  connectionsClosed : Nat
  activeConnections : Nat

inductive ConnectionEvent where
  | connected
  | disconnected
  | rejected

namespace NetworkMetrics

def new : NetworkMetrics := ⟨0, 0, 0, 0, 0, 0⟩

def addBytes (bytesRead bytesWritten : Nat) (m : NetworkMetrics) : NetworkMetrics :=
  { m with
    totalBytesRead := m.totalBytesRead + bytesRead
    totalBytesWritten := m.totalBytesWritten + bytesWritten }

/-- `record_connection_event`. -/
def record (m : NetworkMetrics) : ConnectionEvent → NetworkMetrics
  | .connected =>
    { m with
      connectionsAccepted := m.connectionsAccepted + 1
      activeConnections := m.activeConnections + 1 }
  | .disconnected =>
    { m with
      connectionsClosed := m.connectionsClosed + 1
      activeConnections :=
        if 0 < m.activeConnections then m.activeConnections - 1 else m.activeConnections }
  | .rejected => { m with connectionsRejected := m.connectionsRejected + 1 }

theorem rejected_open (m : NetworkMetrics) (refused : Bool) :
    (if refused then m.record .rejected else m).activeConnections = m.activeConnections ∧
      (if refused then m.record .rejected else m).connectionsAccepted = m.connectionsAccepted ∧
      (if refused then m.record .rejected else m).connectionsClosed = m.connectionsClosed := by
  split_ifs <;> exact ⟨rfl, rfl, rfl⟩

/-- The connections that are open stay counted. -/
def reset (m : NetworkMetrics) : NetworkMetrics :=
  { new with activeConnections := m.activeConnections }

end NetworkMetrics

/-- The server with its counters. -/
structure Observed where
  server : TcpServer
  network : NetworkMetrics
  /-- The accept loop has counted the connection whose handler it is about to spawn. -/
  announced : Bool
  /-- The handlers that have counted themselves off and are about to leave the pool. -/
  leaving : Finset ClientId
  /-- How many handlers have panicked. -/
  crashed : Nat
  /-- How many connections were open at the last reset. -/
  carried : Nat

inductive ObservedAct where
  | net (a : NetAct)
  | connected
  | disconnected (id : ClientId)
  | bytes (bytesRead bytesWritten : Nat)
  | reset

namespace Observed

def new (maxConnections : Nat) : Observed := ⟨.new maxConnections, .new, false, ∅, 0, 0⟩

/-- What comes before and behind the counting. -/
def inOrder (o : Observed) : NetAct → Bool
  | .spawn => o.announced
  | .finish id => id ∈ o.leaving
  -- A handler that does not find its connection counts itself off, too.
  | .start id => id ∈ o.leaving ↔ id ∉ o.server.pool.connections
  | .read id | .command id | .write id | .written id | .drained id | .crash id => id ∉ o.leaving
  | _ => true

/-- The accept loop refuses a client. -/
def refuses (o : Observed) (a : NetAct) : Bool :=
  match a with
  | .accept => o.server.pool.tryReserveSlot.isNone
  | _ => false

def crashes : NetAct → Nat
  | .crash _ => 1
  | _ => 0

def stillAnnounced (o : Observed) : NetAct → Bool
  | .spawn => false
  | _ => o.announced

def hasAdded (o : Observed) : Bool :=
  match o.server.accept with
  | .added _ => true
  | _ => false

/-- Nothing is left for the handler to do. -/
def ending (o : Observed) (id : ClientId) : Bool :=
  id ∈ o.server.handlers ∧
    (o.server.handlers.lookup id = some .spawned → id ∉ o.server.pool.connections)

def step (idleThreshold : Nat) (a : ObservedAct) (o : Observed) : Option Observed :=
  match a with
  | .net a =>
    if o.inOrder a then
      (o.server.step idleThreshold a).map fun server =>
        { o with
          server
          network := if o.refuses a then o.network.record .rejected else o.network
          announced := o.stillAnnounced a
          leaving := o.leaving ∩ server.handlers.keys
          crashed := o.crashed + crashes a }
    else none
  | .connected =>
    if o.hasAdded ∧ o.announced = false then
      some { o with network := o.network.record .connected, announced := true }
    else none
  | .disconnected id =>
    if o.ending id ∧ id ∉ o.leaving then
      some { o with network := o.network.record .disconnected, leaving := insert id o.leaving }
    else none
  | .bytes bytesRead bytesWritten =>
    some { o with network := o.network.addBytes bytesRead bytesWritten }
  | .reset => some { o with network := o.network.reset, carried := o.network.activeConnections }

end Observed

/-! ## What becomes of the handlers -/

/-- No handler comes with it, and none panics. -/
def NetAct.plain : NetAct → Bool
  | .spawn | .crash _ => false
  | _ => true

namespace TcpServer

inductive Change (a : NetAct) (s s' : TcpServer) : Prop
  | stays (ha : a.plain = true) (hkeys : s'.handlers.keys = s.handlers.keys)
    (hadded : ∀ k, s.accept = .added k → s'.accept = .added k)
  | spawns (k : ClientId) (ha : a = .spawn) (haccept : s.accept = .added k)
    (hkeys : s'.handlers.keys = insert k s.handlers.keys)
  | leaves (id : ClientId) (ha : a = .finish id ∨ a = .start id ∧ id ∉ s.pool.connections)
    (hid : id ∈ s.handlers.keys) (hkeys : s'.handlers.keys = s.handlers.keys.erase id)
    (haccept : s'.accept = s.accept)
  | crashes (id : ClientId) (ha : a = .crash id) (hid : id ∈ s.handlers.keys)
    (hkeys : s'.handlers.keys = s.handlers.keys.erase id) (haccept : s'.accept = s.accept)

theorem change_advance (a : NetAct) (ha : a.plain = true) (s s' : TcpServer) (id : ClientId)
    (here there : HandlerPhase) (h : s.advance id here there = some s') : Change a s s' := by
  have hslots := slots_advance s s' id here there h
  refine .stays ha (congrArg Slots.serving hslots) fun k hk => ?_
  have haccept : s'.accept = s.accept := congrArg Slots.accept hslots
  rw [haccept, hk]

theorem step_change (idleThreshold : Nat) (a : NetAct) (s s' : TcpServer)
    (hstep : step idleThreshold a s = some s') : Change a s s' := by
  cases a with
  | pass n =>
    cases hstep
    exact .stays rfl rfl fun _ h => h
  | accept =>
    simp only [step, ConnectionPool.tryReserveSlot] at hstep
    split_ifs at hstep with hwaiting hleft
    · cases hstep
      exact .stays rfl rfl fun _ h => h
    · cases hstep
      refine .stays rfl rfl fun k hk => ?_
      rw [hwaiting] at hk
      cases hk
  | insertConnection =>
    simp only [step] at hstep
    split_ifs at hstep with hreserved
    cases hstep
    refine .stays rfl rfl fun k hk => ?_
    rw [hreserved] at hk
    cases hk
  | insertPermit =>
    simp only [step] at hstep
    split at hstep <;> cases hstep
    rename_i k hinserted
    refine .stays rfl rfl fun k' hk' => ?_
    rw [hinserted] at hk'
    cases hk'
  | spawn =>
    simp only [step] at hstep
    split at hstep <;> cases hstep
    rename_i k hadded
    exact .spawns k rfl hadded (congrArg Slots.serving (slots_spawn s k))
  | start id =>
    simp only [step] at hstep
    split_ifs at hstep with hspawned hfound
    · exact change_advance (.start id) rfl s s' id _ _ hstep
    · cases hstep
      refine .leaves id (.inr ⟨rfl, hfound⟩) (Finmap.mem_keys.mpr
        (s.mem_of_lookup id _ hspawned)) ?_ rfl
      exact congrArg Slots.serving (slots_leave s id)
  | read id => exact change_advance (.read id) rfl s s' id _ _ hstep
  | write id => exact change_advance (.write id) rfl s s' id _ _ hstep
  | drained id => exact change_advance (.drained id) rfl s s' id _ _ hstep
  | written id =>
    simp only [step] at hstep
    split_ifs at hstep
    exact change_advance (.written id) rfl s s' id _ _ hstep
  | command id =>
    simp only [step] at hstep
    split_ifs at hstep
    cases hstep
    exact .stays rfl rfl fun _ h => h
  | finish id =>
    simp only [step] at hstep
    split_ifs at hstep with hphase
    cases hstep
    exact .leaves id (.inl rfl) (Finmap.mem_keys.mpr hphase.1)
      (congrArg Slots.serving (slots_leave (s.shutdown id) id)) rfl
  | crash id =>
    simp only [step] at hstep
    split_ifs at hstep with hworking
    cases hstep
    exact .crashes id rfl (Finmap.mem_keys.mpr (s.mem_of_lookup id _ hworking))
      (Finmap.keys_erase id s.handlers) rfl
  | scan | scanned | remove =>
    simp only [step] at hstep
    split at hstep <;> cases hstep
    exact .stays rfl rfl fun _ h => h
  | visit id =>
    simp only [step] at hstep
    split at hstep
    · split_ifs at hstep <;> cases hstep <;> exact .stays rfl rfl fun _ h => h
    · cases hstep
  | shut =>
    simp only [step] at hstep
    split at hstep
    · cases hstep
      exact .stays rfl rfl fun _ h => h
    · split_ifs at hstep <;> cases hstep <;> exact .stays rfl rfl fun _ h => h
    · cases hstep

end TcpServer

/-! ## The counters -/

namespace Observed

/-- The handlers that are not counted off, and the one that is counted and not yet there. -/
def open_ (o : Observed) : Nat :=
  (o.server.handlers.keys \ o.leaving).card + if o.announced then 1 else 0

structure Counted (o : Observed) : Prop where
  fresh : o.server.Fresh
  leaving : o.leaving ⊆ o.server.handlers.keys
  announced : o.announced = true → ∃ k, o.server.accept = .added k
  active : o.network.activeConnections = o.open_ + o.crashed
  balance : o.network.connectionsAccepted + o.carried =
    o.network.connectionsClosed + o.network.activeConnections

theorem counted_new (maxConnections : Nat) : (new maxConnections).Counted where
  fresh := TcpServer.fresh_new maxConnections
  leaving := Finset.empty_subset _
  announced := by simp [new]
  active := rfl
  balance := rfl

section
variable (idleThreshold : Nat) (o o' : Observed) (h : o.Counted)
include h

theorem Counted.net (a : NetAct) (hstep : step idleThreshold (.net a) o = some o') :
    o'.Counted := by
  have horder : o.inOrder a = true := by
    by_contra horder
    simp [step, horder] at hstep
  simp only [step, horder, if_true] at hstep
  obtain ⟨server, hserver, rfl⟩ := Option.map_eq_some_iff.mp hstep
  have hfresh := TcpServer.fresh_step idleThreshold a _ _ h.fresh hserver
  obtain ⟨hactive, haccepted, hclosed⟩ := o.network.rejected_open (o.refuses a)
  suffices hrest : (o.stillAnnounced a = true → ∃ k, server.accept = .added k) ∧
      (server.handlers.keys \ (o.leaving ∩ server.handlers.keys)).card +
        (if o.stillAnnounced a then 1 else 0) + crashes a = o.open_ by
    refine ⟨hfresh, Finset.inter_subset_right, hrest.1, ?_, ?_⟩
    · simp only [hactive, h.active, open_] at hrest ⊢
      omega
    · simp only [hactive, haccepted, hclosed]
      exact h.balance
  unfold open_
  rcases TcpServer.step_change idleThreshold a _ _ hserver with
    ⟨ha, hkeys, hadded⟩ | ⟨k, rfl, haccept, hkeys⟩ | ⟨id, ha, hid, hkeys, haccept⟩ |
    ⟨id, rfl, hid, hkeys, haccept⟩
  · have hann : o.stillAnnounced a = o.announced := by
      cases a <;> first | rfl | cases ha
    have hzero : crashes a = 0 := by
      cases a <;> first | rfl | cases ha
    rw [hann, hzero, hkeys, Finset.inter_eq_left.mpr h.leaving]
    refine ⟨fun hann => ?_, rfl⟩
    obtain ⟨k, hk⟩ := h.announced hann
    exact ⟨k, hadded k hk⟩
  · have hann : o.announced = true := horder
    have hk : k ∉ o.server.handlers.keys := fun hmem => (h.fresh.accepting k
      (.inr haccept)).2 (Finmap.mem_keys.mp hmem)
    have hk' : k ∉ o.leaving := fun hmem => hk (h.leaving hmem)
    have hsame : o.leaving ∩ insert k o.server.handlers.keys = o.leaving :=
      Finset.inter_eq_left.mpr (h.leaving.trans (Finset.subset_insert _ _))
    rw [hkeys, hsame, Finset.insert_sdiff_of_notMem _ hk',
      Finset.card_insert_of_notMem (by simp [hk])]
    simp [stillAnnounced, hann, crashes]
  · -- Only a handler that has counted itself off leaves.
    have hleft : id ∈ o.leaving := by
      rcases ha with rfl | ⟨rfl, hgone⟩
      · simpa [inOrder] using horder
      · simpa [inOrder, hgone] using horder
    have hann : o.stillAnnounced a = o.announced := by rcases ha with rfl | ⟨rfl, -⟩ <;> rfl
    have hzero : crashes a = 0 := by rcases ha with rfl | ⟨rfl, -⟩ <;> rfl
    have hsame : o.server.handlers.keys.erase id \ (o.leaving ∩ o.server.handlers.keys.erase id) =
        o.server.handlers.keys \ o.leaving := by
      ext k
      simp only [Finset.mem_sdiff, Finset.mem_erase, Finset.mem_inter]
      constructor
      · rintro ⟨hk, hnot⟩
        exact ⟨hk.2, fun hk' => hnot ⟨hk', hk⟩⟩
      · rintro ⟨hk, hnot⟩
        exact ⟨⟨fun hk' => hnot (hk' ▸ hleft), hk⟩, fun hk' => hnot hk'.1⟩
    rw [hann, hzero, hkeys, hsame, haccept]
    exact ⟨h.announced, rfl⟩
  · have hstays : id ∉ o.leaving := by simpa [inOrder] using horder
    have hsame : o.leaving ∩ o.server.handlers.keys.erase id = o.leaving :=
      Finset.inter_eq_left.mpr fun k hk =>
        Finset.mem_erase.mpr ⟨fun hk' => hstays (hk' ▸ hk), h.leaving hk⟩
    have hcard : (o.server.handlers.keys.erase id \ o.leaving).card + 1 = (o.server.handlers.keys \
      o.leaving).card := by
      rw [Finset.erase_sdiff_comm]
      exact Finset.card_erase_add_one (Finset.mem_sdiff.mpr ⟨hid, hstays⟩)
    have hann : o.stillAnnounced (.crash id) = o.announced := rfl
    have hone : crashes (.crash id) = 1 := rfl
    rw [hann, hone, hkeys, hsame, haccept]
    refine ⟨h.announced, ?_⟩
    omega

theorem Counted.step (a : ObservedAct) (hstep : step idleThreshold a o = some o') : o'.Counted := by
  have hcount := h.active
  have hbalance := h.balance
  unfold open_ at hcount
  cases a with
  | net a => exact h.net idleThreshold o o' a hstep
  | connected =>
    simp only [Observed.step] at hstep
    split_ifs at hstep with hadded
    cases hstep
    refine ⟨h.fresh, h.leaving, fun _ => ?_, ?_, ?_⟩
    · have hadded := hadded.1
      unfold hasAdded at hadded
      split at hadded
      · exact ⟨_, by assumption⟩
      · cases hadded
    · simp only [open_, NetworkMetrics.record, hcount, hadded.2, if_true, Bool.false_eq_true,
        if_false]
      omega
    · simp only [NetworkMetrics.record]
      omega
  | disconnected id =>
    simp only [Observed.step] at hstep
    split_ifs at hstep with hending
    cases hstep
    obtain ⟨hending, hnot⟩ := hending
    have hid : id ∈ o.server.handlers.keys := by
      simp only [ending, decide_eq_true_eq] at hending
      exact Finmap.mem_keys.mpr hending.1
    have hcard : (o.server.handlers.keys \ insert id o.leaving).card + 1 =
        (o.server.handlers.keys \ o.leaving).card := by
      rw [Finset.sdiff_insert]
      exact Finset.card_erase_add_one (Finset.mem_sdiff.mpr ⟨hid, hnot⟩)
    have hpos : 0 < o.network.activeConnections := by omega
    refine ⟨h.fresh, Finset.insert_subset hid h.leaving, h.announced, ?_, ?_⟩
    · simp only [open_, NetworkMetrics.record, if_pos hpos]
      omega
    · simp only [NetworkMetrics.record, if_pos hpos]
      omega
  | bytes bytesRead bytesWritten =>
    cases hstep
    exact ⟨h.fresh, h.leaving, h.announced, h.active, h.balance⟩
  | reset =>
    cases hstep
    refine ⟨h.fresh, h.leaving, h.announced, h.active, ?_⟩
    simp [NetworkMetrics.reset, NetworkMetrics.new]

end

/--
The gauge of open connections is exact but for the handlers that have panicked, which it counts for
ever. What was accepted since the last reset, with what was open then, is what was closed and what
is open.
-/
theorem active_exact (maxConnections idleThreshold : Nat) (acts : List ObservedAct) (o : Observed)
    (hrun : run (step idleThreshold) acts (new maxConnections) = some o) :
    o.network.activeConnections =
        (o.server.handlers.keys \ o.leaving).card + (if o.announced then 1 else 0) + o.crashed ∧
      o.network.connectionsAccepted + o.carried =
        o.network.connectionsClosed + o.network.activeConnections ∧
      ∀ id o', step idleThreshold (.disconnected id) o = some o' →
        o'.network.activeConnections + 1 = o.network.activeConnections := by
  have h : o.Counted := by
    refine invariant (step idleThreshold) (fun _ _ => True) Counted ?_ acts (new maxConnections) o
      (along_of_mem _ _ _ (fun _ _ _ => trivial) _) hrun (counted_new maxConnections)
    intro a o o' h _ hstep
    exact h.step idleThreshold o o' a hstep
  refine ⟨h.active, h.balance, fun id o' hstep => ?_⟩
  have h' := h.step idleThreshold o o' _ hstep
  have hbalance := h.balance
  have hbalance' := h'.balance
  simp only [step] at hstep
  split_ifs at hstep
  cases hstep
  simp only [NetworkMetrics.record] at hbalance' ⊢
  omega

/-- One client is served and leaves; the handler of the next panics. -/
def leftBehind : List ObservedAct :=
  [.net .accept, .net .insertConnection, .net .insertPermit, .connected, .net .spawn,
    .net (.start 0), .disconnected 0, .net (.finish 0), .net .accept, .net .insertConnection,
    .net .insertPermit, .connected, .net .spawn, .net (.start 1), .net (.read 1), .net (.crash 1)]

theorem leftBehind_counted :
    ∃ o, run (step 300) leftBehind (new 2) = some o ∧ o.server.handlers.keys = ∅ ∧
      o.network.activeConnections = 1 := by
  have hcheck : (run (step 300) leftBehind (new 2)).any (fun o =>
      decide (o.server.handlers.keys = ∅) && decide (o.announced = false) &&
        decide (o.crashed = 1)) = true := by
    decide +kernel
  obtain ⟨o, hrun, ho⟩ := (Option.any_eq_true ..).mp hcheck
  simp only [Bool.and_eq_true, decide_eq_true_eq] at ho
  obtain ⟨⟨hkeys, hann⟩, hcrashed⟩ := ho
  obtain ⟨hactive, -⟩ := active_exact 2 300 leftBehind o hrun
  refine ⟨o, hrun, hkeys, ?_⟩
  simp [hactive, hkeys, hann, hcrashed]

end Observed

end RustyPotato
