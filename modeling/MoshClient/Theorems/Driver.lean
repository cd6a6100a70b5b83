import MoshClient.Lib.Simulation
import MoshClient.Run
import MoshClient.Theorems.Ledger
import MoshClient.Theorems.Timing

/-! The driver follows its ledger: every method takes the ledger through a sequence of steps, and fails
    with none of the errors by which the driver would contradict its own records. -/

namespace MoshClient
open Machine Limits Effect SynchronizationState Simulation

/-- The errors by which the driver would contradict its own records. -/
inductive DriverError.Internal : DriverError → Prop where
  | missingClientState : Internal .missingClientState
  | missingTerminalState : Internal .missingTerminalState
  | operationDrain : Internal (.panicked .operationDrain)
  | staleSendPlan : Internal (.synchronization .stalePlan)
  | staleWakePlan : Internal (.timing .stalePlan)

variable {T α : Type}

namespace SessionDriver

/-- The driver, seen through its ledger. -/
def bookkeeping : Simulation DriverError (SessionDriver T) (Ledger T) where
  view := ledger
  Step := Ledger.Step
  Invariant := Ledger.Sound
  invariant_step := Ledger.Sound.step
  Allowed e := ¬e.Internal

/-! ### Methods that leave the ledger -/

theorem unseen_nowMs (elapsedMs : Nat) : bookkeeping.Unseen (nowMs elapsedMs : Driving T Nat) :=
  .ite (unseen_pure _) (unseen_throw nofun)

theorem unseen_onScheduler {m : Scheduling α} (hm : NeverStale m) :
    bookkeeping.Unseen (onScheduler m : Driving T α) :=
  unseen_zoom (fun _ _ => rfl) fun r => (hm r).mono (fun _ _ _ => trivial) fun e _ he => by
    rintro ⟨⟩
    exact he.2 rfl

theorem unseen_onDatagramTiming {m : EStateM TimingError DatagramTiming α} (hm : NeverStale m) :
    bookkeeping.Unseen (onDatagramTiming m : Driving T α) :=
  unseen_zoom (fun _ _ => rfl) fun r => (hm r).mono (fun _ _ _ => trivial) fun e _ he => by
    rintro ⟨⟩
    exact he.2 rfl

theorem unseen_onReassembler (m : Reassembling α) : bookkeeping.Unseen (onReassembler m : Driving T α) :=
  unseen_zoom (fun _ _ => rfl) fun _ => wp_intro (fun _ _ _ => trivial) fun _ _ _ => nofun

theorem unseen_onReachability (m : EStateM ReachabilityError ReachabilityTracker α) :
    bookkeeping.Unseen (onReachability m : Driving T α) :=
  unseen_zoom (fun _ _ => rfl) fun _ => wp_intro (fun _ _ _ => trivial) fun _ _ _ => nofun

theorem unseen_onPrediction (m : EStateM PredictionError (LocalPrediction T) α) :
    bookkeeping.Unseen (onPrediction m : Driving T α) :=
  unseen_zoom (fun _ _ => rfl) fun _ => wp_intro (fun _ _ _ => trivial) fun e _ _ => by
    cases e <;> nofun

theorem unseen_takeIdentifier : bookkeeping.Unseen (onFragmentIdentifier InstructionIdentifier.take : Driving T Nat) :=
  unseen_zoom (fun _ _ => rfl) fun r => by
    unfold wp InstructionIdentifier.take
    cases r.next with
    | none => exact nofun
    | some identifier => trivial

theorem ledger_requestOutput (requested : Bool) (s : SessionDriver T) : (s.requestOutput requested).ledger = s.ledger := by
  cases requested <;> rfl

theorem unseen_publishReachability (nowMs : Nat) : bookkeeping.Unseen (publishReachability nowMs : Driving T Unit) := by
  refine (unseen_onReachability _).bind fun published => ?_
  cases published with
  | none => exact unseen_pure _
  | some reachability => exact unseen_modify fun _ => by rfl

theorem unseen_deferTemporarySend (nowMs : Nat) : bookkeeping.Unseen (deferTemporarySend nowMs : Driving T Unit) :=
  unseen_get.bind fun _ => unseen_onScheduler (SendScheduler.neverStale_deferSend _ _)

theorem unseen_deferReceive (nowMs : Nat) : bookkeeping.Unseen (deferReceive nowMs : Driving T Unit) :=
  unseen_get.bind fun _ => (unseen_ofOption (by nofun)).bind fun _ => unseen_modify fun _ => by rfl

theorem unseen_classifyReceive (elapsedMs : Nat) (result : Except ErrorKind (Bytes × SocketAddr)) :
    bookkeeping.Unseen (classifyReceive elapsedMs result : Driving T _) := by
  cases result with
  | ok received => exact Unseen.bind (unseen_modify fun _ => by rfl) fun _ => unseen_pure _
  | error kind =>
    refine unseen_get.bind fun _ => .ite ?_ (unseen_throw nofun)
    exact (unseen_nowMs _).bind fun _ => (unseen_deferReceive _).bind fun _ => unseen_pure _

theorem unseen_openDatagram (p : Platform T) (datagram : Bytes) (source : SocketAddr) :
    bookkeeping.Unseen (openDatagram p datagram source) := by
  intro s
  unfold wp openDatagram
  cases PacketReceiver.openFrom p.crypto s.serverAddr source datagram s.packetReceiver with
  | ok opened receiver => rfl
  | error e receiver =>
    by_cases he : isDroppedPacketError e = true
    · simp only [he, if_true]
      rfl
    · simp only [he]
      exact ⟨rfl, nofun⟩

theorem unseen_decodeDatagram (p : Platform T) (elapsedMs : Nat) (datagram : Bytes) (source : SocketAddr) :
    bookkeeping.Unseen (decodeDatagram p elapsedMs datagram source) := by
  refine (unseen_nowMs _).bind fun now => (unseen_openDatagram p _ _).bind fun opened => ?_
  cases opened with
  | none => exact unseen_pure _
  | some opened =>
    refine (unseen_ofExcept fun _ => by nofun).bind fun decoded =>
      (unseen_onDatagramTiming (DatagramTiming.neverStale_observeReceived _ _ _ _)).bind fun _ =>
      (unseen_onReassembler _).bind fun outcome => ?_
    cases outcome with
    | complete compressed => exact (unseen_ofExcept fun _ => by nofun).bind fun _ => unseen_pure _
    | pending => exact unseen_pure _
    | duplicate => exact unseen_pure _

theorem ledger_expirePrediction (nowMs : Nat) (s : SessionDriver T) : (s.expirePrediction nowMs).ledger = s.ledger :=
  ledger_requestOutput _ _

theorem ledger_updatePredictionPolicy (nowMs : Nat) (s : SessionDriver T) :
    (s.updatePredictionPolicy nowMs).ledger = s.ledger :=
  ledger_requestOutput _ _

theorem unseen_runWait (nowMs wakeAtMs : Nat) : bookkeeping.Unseen (runWait nowMs wakeAtMs : Driving T Wait) :=
  unseen_get.bind fun _ => (unseen_ofExcept fun _ => by nofun).bind fun _ => unseen_pure _

theorem unseen_beginLocalShutdown (elapsedMs : Nat) :
    bookkeeping.Unseen (beginLocalShutdown elapsedMs : Driving T LocalShutdown) := by
  refine (unseen_nowMs _).bind fun startedMs s => ?_
  simp only [wp_bind, wp_ofOption, wp_pure]
  refine ⟨fun _ _ => trivial, ?_⟩
  intro _
  refine ⟨trivial, ?_⟩
  rintro ⟨⟩

/-! ### The terminal states -/

/-- The terminal state of a reference is there. -/
theorem terminalStates_get?_ne_none {l : Ledger T} (hl : l.Sound) {n : Nat} (hn : n ∈ l.synchronization.receivedStates) :
    l.terminalStates.get? n ≠ none := by
  obtain ⟨terminal, h⟩ := OrderedMap.mem_keys.mp ((hl.mirrored n).mpr hn)
  rw [h]
  exact Option.some_ne_none terminal

theorem latest_get?_ne_none {l : Ledger T} (hl : l.Sound) :
    l.terminalStates.get? l.synchronization.remoteLatest ≠ none :=
  terminalStates_get?_ne_none hl hl.receiver.latest_mem

theorem follows_predictInput (p : Platform T) (state : Nat) (bytes : Bytes) (nowMs : Nat) :
    bookkeeping.Follows (predictInput p state bytes nowMs) := by
  refine follows_get_bind fun s => .ofOption_bind (fun hs hn => absurd hn (latest_get?_ne_none hs)) fun _ _ => ?_
  exact ((unseen_onPrediction _).bind fun displayed => unseen_modify (ledger_requestOutput displayed)).follows s

theorem follows_emitOutput (p : Platform T) : bookkeeping.Follows (emitOutput p) := by
  refine follows_get_bind fun s => .ofExcept_bind (fun hs e he => ?_) fun authoritative _ => ?_
  · unfold latestTerminalState at he
    split at he
    · cases he
    · split at he
      · cases he
      · exact absurd ‹_› (latest_get?_ne_none hs)
  · exact ((unseen_ofExcept fun _ => by nofun).bind fun _ => unseen_modify fun _ => by rfl).follows s

/-! ### Sealing and sending -/

/-- A sequence number is taken and used for one datagram at most. -/
theorem follows_seal_bind (p : Platform T) (plaintext output : Bytes) {k : Nat × Bytes → Driving T α}
    (hk : ∀ datagram, bookkeeping.Follows (k datagram)) :
    bookkeeping.Follows (do
      let sequence ← onSendSequence SendSequence.take
      let datagram ← onCrypto (PacketCodec.sealPacket p.crypto .clientToServer sequence plaintext output)
      k datagram) := by
  intro s hs
  rw [wp_bind, onSendSequence, wp_zoom]
  refine wp_intro (fun sequence rest htake => ?_) fun e rest htake => ?_
  · rw [wp_bind, onCrypto, wp_zoom]
    unfold wp
    have hskip : bookkeeping.Reaches s.ledger { s.ledger with sendSequence := rest } :=
      .single (.skip s.ledger sequence rest htake)
    -- The AEAD is reached only with a sequence number in range, and then the nonce is used.
    fun_cases PacketCodec.sealPacket p.crypto .clientToServer sequence plaintext output s.trace.nonces with
    | case1 => exact ⟨hskip, nofun⟩
    | case2 => exact ⟨hskip, nofun⟩
    | case3 => exact ⟨hskip, nofun⟩
    | case4 hle _ _ _ _ _ _ => exact ⟨.single (.encrypt s.ledger sequence (Nat.le_of_not_lt hle) rest htake), nofun⟩
    | case5 hle _ _ _ _ _ _ =>
      exact FollowsFrom.after (s := s) (hk _ _) hs
        (.single (.encrypt s.ledger sequence (Nat.le_of_not_lt hle) rest htake))
  · unfold SendSequence.take at htake
    split at htake
    · cases htake
      exact ⟨.refl, nofun⟩
    · cases htake

theorem follows_sendFragments (p : Platform T) (env : Transmission) (timestamps : OutgoingTimestamps)
    (identifier fragmentCount number : Nat) (bodies : List Bytes) :
    bookkeeping.Follows (sendFragments p env timestamps identifier fragmentCount number bodies) := by
  induction bodies generalizing number with
  | nil => exact (unseen_pure _).follows
  | cons body rest ih =>
    refine .ite (unseen_pure _).follows (.ite (unseen_throw (by nofun)).follows ?_)
    refine (unseen_ofExcept fun _ => by nofun).follows.bind fun plaintext => ?_
    refine follows_seal_bind p _ _ fun datagram => ?_
    refine Follows.bind (unseen_modify fun _ => by rfl).follows fun _ => ?_
    cases env.socket number with
    | error kind => exact (unseen_get.bind fun s => .ite (unseen_pure _) (unseen_throw (by nofun))).follows
    | ok sent => exact .ite (unseen_throw (by nofun)).follows (ih (number + 1))

theorem follows_sendTransportInstruction (p : Platform T) (env : Transmission) {instruction : TransportInstruction}
    (nowMs : Nat) {s : SessionDriver T} (h : s.ledger.Transmittable instruction) :
    bookkeeping.FollowsFrom (sendTransportInstruction p env instruction nowMs) s := by
  refine FollowsFrom.bind (fun _ => ?_) fun _ => ?_
  · exact .single (.transmit s.ledger instruction h)
  · exact (unseen_ofExcept fun _ => by nofun).follows.bind fun compressed =>
      (unseen_onDatagramTiming (DatagramTiming.neverStale_outgoing _)).follows.bind fun timestamps =>
      unseen_takeIdentifier.follows.bind fun identifier => follows_sendFragments p env timestamps identifier _ _ _

/-- The driver apart from what a transmission changes. -/
def apartFromSending (s : SessionDriver T) : SessionDriver T :=
  { s with
    sendSequence := SendSequence.new
    fragmentIdentifier := InstructionIdentifier.new
    datagramTiming := { s.datagramTiming with lastObservedMs := 0 }
    trace := { s.trace with nonces := [], datagrams := [] } }

theorem frame_sendFragments (p : Platform T) (env : Transmission) (timestamps : OutgoingTimestamps)
    (identifier fragmentCount number : Nat) (bodies : List Bytes) :
    (frame apartFromSending).Unseen (sendFragments p env timestamps identifier fragmentCount number bodies) := by
  induction bodies generalizing number with
  | nil => exact unseen_pure _
  | cons body rest ih =>
    refine .ite (unseen_pure _) (.ite (unseen_throw trivial) ?_)
    refine (unseen_ofExcept fun _ => trivial).bind fun plaintext => ?_
    refine Unseen.bind (frame_zoom fun _ _ => rfl) fun sequence => ?_
    refine Unseen.bind (frame_zoom fun _ _ => rfl) fun datagram => ?_
    refine Unseen.bind (unseen_modify fun _ => by rfl) fun _ => ?_
    cases env.socket number with
    | error kind => exact unseen_get.bind fun s => .ite (unseen_pure _) (unseen_throw trivial)
    | ok sent => exact .ite (unseen_throw trivial) (ih (number + 1))

theorem frame_outgoing (nowMs : Nat) :
    (frame apartFromSending).Unseen (onDatagramTiming (DatagramTiming.outgoing nowMs) : Driving T OutgoingTimestamps) := by
  intro s
  simp only [onDatagramTiming, wp_zoom, DatagramTiming.outgoing, wp_bind, wp_get, wp_pure]
  refine (DatagramTiming.wp_observeTime nowMs s.datagramTiming).mono (fun _ t h => ?_) fun _ t h => ⟨?_, trivial⟩
  · obtain ⟨-, rfl⟩ := h
    rfl
  · obtain ⟨rfl, -⟩ := h
    rfl

/-- The driver that has handed an instruction to the transport. -/
def noteTransmitted (m : TransportInstruction) (s : SessionDriver T) : SessionDriver T :=
  { s with trace := { s.trace with transmitted := s.trace.transmitted ++ [m] } }

/-- The instruction is noted, and otherwise only what a transmission changes is changed. -/
theorem wp_transmit (p : Platform T) (env : Transmission) (m : TransportInstruction) (nowMs : Nat)
    (s : SessionDriver T) :
    wp (sendTransportInstruction p env m nowMs)
      (fun _ t => t.apartFromSending = (s.noteTransmitted m).apartFromSending)
      (fun _ t => t.apartFromSending = (s.noteTransmitted m).apartFromSending) s := by
  rw [sendTransportInstruction, wp_bind, wp_modify]
  have hrest : (frame apartFromSending).Unseen (do
      let compressed ← ofExcept DriverError.instruction (m.encodeZlib p.zlib)
      let timestamps ← onDatagramTiming (DatagramTiming.outgoing nowMs)
      let identifier ← onFragmentIdentifier InstructionIdentifier.take
      sendFragments p env timestamps identifier (Chunks.count maxFragmentBodyBytes compressed.length) 0
        (Chunks.chunks maxFragmentBodyBytes compressed)) := by
    refine Unseen.bind (unseen_ofExcept fun _ => trivial) fun compressed => ?_
    refine Unseen.bind (frame_outgoing nowMs) fun timestamps => ?_
    exact Unseen.bind (frame_zoom fun _ _ => by rfl) fun identifier => frame_sendFragments p env _ _ _ _ _
  exact (hrest _).mono (fun _ _ h => h) fun _ _ h => h.1

/-- The parts of the driver that a plan is made from. -/
def planned (s : SessionDriver T) : SynchronizationState × SendScheduler := (s.synchronization, s.scheduler)

theorem frame_sendTransportInstruction (p : Platform T) (env : Transmission) (instruction : TransportInstruction)
    (nowMs : Nat) : (frame planned).Unseen (sendTransportInstruction p env instruction nowMs) := by
  intro s
  exact (wp_transmit p env instruction nowMs s).mono (fun _ _ h => (congrArg planned h :))
    fun _ _ h => ⟨(congrArg planned h :), trivial⟩

/-! ### Planning and committing -/

theorem wp_allocateState (s : SessionDriver T) :
    wp allocateState (fun _ t => t.ledger = s.ledger.allocate ∧ t.scheduler = s.scheduler)
      (fun e t => t.ledger = s.ledger ∧ ¬e.Internal) s := by
  rw [allocateState, wp_bind, onSynchronization, wp_zoom]
  refine (wp_advanceLocal s.synchronization).mono ?_ ?_
  · rintro _ t ⟨rfl, -, rfl⟩
    exact ⟨rfl, rfl⟩
  · rintro e t ⟨rfl, rfl | rfl⟩ <;> exact ⟨rfl, nofun⟩

theorem follows_allocateState : bookkeeping.Follows (allocateState : Driving T Nat) := by
  intro s _
  show wp _ (fun _ t => bookkeeping.Reaches s.ledger t.ledger)
    (fun (e : DriverError) t => bookkeeping.Reaches s.ledger t.ledger ∧ ¬e.Internal) s
  refine (wp_allocateState s).mono ?_ ?_
  · rintro _ t ⟨ht, -⟩
    exact .single (ht ▸ .allocate s.ledger)
  · rintro e t ⟨ht, he⟩
    exact ⟨ht ▸ .refl, he⟩

theorem wp_planSend (nowMs : Nat) (s : SessionDriver T) :
    wp (planSend nowMs) (fun plan t => t = s ∧ Planned s.synchronization nowMs plan)
      (fun e t => t = s ∧ ¬e.Internal) s := by
  simp only [planSend, wp_bind, wp_get, wp_ofExcept, true_and]
  refine ⟨fun plan hplan => planned_of_planSend hplan, fun e he => ?_⟩
  rintro ⟨⟩
  exact planSend_error he rfl

/-- A plan comes with the state it is for, which may have been allocated for it. -/
theorem wp_planOrAllocate (nowMs : Nat) (s : SessionDriver T) :
    wp (planOrAllocate nowMs)
      (fun plan t => bookkeeping.Reaches s.ledger t.ledger ∧ Planned t.synchronization nowMs plan ∧
        t.scheduler = s.scheduler)
      (fun e t => bookkeeping.Reaches s.ledger t.ledger ∧ ¬e.Internal) s := by
  simp only [planOrAllocate, wp_bind, wp_get]
  split
  · rename_i plan hplan
    exact ⟨.refl, planned_of_planSend hplan, rfl⟩
  · rw [wp_bind]
    refine (wp_allocateState s).mono ?_ ?_
    · rintro _ t ⟨ht, hsched⟩
      have hstep : bookkeeping.Reaches s.ledger t.ledger := .single (ht ▸ .allocate s.ledger)
      refine (wp_planSend nowMs t).mono ?_ ?_
      · rintro plan _ ⟨rfl, hplan⟩
        exact ⟨hstep, hplan, hsched⟩
      · rintro e _ ⟨rfl, he⟩
        exact ⟨hstep, he⟩
    · rintro e t ⟨ht, he⟩
      exact ⟨ht ▸ .refl, he⟩
  · rename_i e _ he
    refine ⟨.refl, ?_⟩
    rintro ⟨⟩
    exact planSend_error he rfl

/-- The history has the operations from a base that the peer may hold up to the latest state. -/
theorem wp_planDifference {base : Nat} {s : SessionDriver T} (hs : s.ledger.Sound)
    (hbase : base = s.synchronization.knownReceiverState ∨ base ∈ s.synchronization.sentNumbers) :
    wp (planDifference base s.synchronization.localLatest)
      (fun difference t => t = s ∧
        s.clientHistory.difference base s.synchronization.localLatest = .ok difference)
      (fun e t => t = s ∧ ¬e.Internal) s := by
  simp only [planDifference, wp_bind, wp_get, wp_ofExcept, true_and]
  refine ⟨fun difference h => h, fun e he => ?_⟩
  obtain ⟨first, last, hbetween⟩ := hs.bookkept.between hs.sender hbase
  obtain ⟨e', rfl⟩ := ClientHistory.difference_error hbetween he
  rintro ⟨⟩

/-- A plan for the state as it is is committed, unless the generations are exhausted. -/
theorem wp_commitSend {plan : SendPlan} {nowMs : Nat} {s : SessionDriver T}
    (hplan : Planned s.synchronization nowMs plan) :
    wp (commitSend plan) (fun _ t => bookkeeping.Reaches s.ledger t.ledger ∧ t.scheduler = s.scheduler)
      (fun e t => bookkeeping.Reaches s.ledger t.ledger ∧ ¬e.Internal) s := by
  rw [commitSend, wp_bind, onSynchronization, wp_zoom]
  refine (SynchronizationState.wp_commitSend s.synchronization plan).mono ?_ ?_
  · intro commit t hc
    have hstep := Ledger.Step.commit s.ledger commit.capacityEvictedState t hc
    cases hevicted : commit.capacityEvictedState with
    | none =>
      rw [hevicted] at hstep
      exact ⟨.single hstep, rfl⟩
    | some evicted =>
      rw [hevicted] at hstep
      exact ⟨.single hstep, rfl⟩
  · rintro e t ⟨rfl, rfl | ⟨-, hstale⟩⟩
    · exact ⟨.refl, nofun⟩
    · exact absurd hplan (hstale nowMs)

/-- A planned instruction may be sent, whatever it acknowledges. -/
theorem transmittable_planned {plan : SendPlan} {nowMs : Nat} {s : SessionDriver T} {m : TransportInstruction}
    (hplan : Planned s.synchronization nowMs plan)
    (hdifference : s.clientHistory.difference plan.baseState s.synchronization.localLatest = .ok m.stateDifference)
    (hbase : m.baseState = plan.baseState) (htarget : m.newState = plan.targetState) :
    s.ledger.Transmittable m := by
  refine ⟨?_, Or.inl (htarget.trans hplan.target), ?_⟩
  · rw [hbase]
    exact hplan.base_sent
  · rw [hbase]
    exact hdifference

/-- A planned instruction is encoded and sent; what follows sees the same synchronization state and the
    same scheduler. -/
theorem follows_transmitPlanned (p : Platform T) (env : Transmission) {plan : SendPlan} {now : Nat}
    {s : SessionDriver T} (hplan : Planned s.synchronization now plan) {m : Bytes → TransportInstruction}
    (hbase : ∀ d, (m d).baseState = plan.baseState) (htarget : ∀ d, (m d).newState = plan.targetState)
    (hdifference : ∀ d, (m d).stateDifference = d) {k : TransportSendOutcome → Driving T α}
    (hk : ∀ outcome t, t.planned = s.planned → bookkeeping.FollowsFrom (k outcome) t) :
    bookkeeping.FollowsFrom (do
      let difference ← planDifference plan.baseState plan.targetState
      let outcome ← sendTransportInstruction p env (m difference) now
      k outcome) s := by
  rw [hplan.target]
  refine followsFrom_read_bind (fun hs => wp_planDifference hs hplan.base_sent) fun difference hd => ?_
  have htransmittable := transmittable_planned hplan ((hdifference difference).symm ▸ hd) (hbase difference)
    (htarget difference)
  exact (follows_sendTransportInstruction p env now htransmittable).bind_of_wp
    (frame_sendTransportInstruction p env _ now s) hk

/-- `sendInstruction` once a state is planned. -/
def sendPlanned (p : Platform T) (env : Transmission) (wakePlan : WakePlan) (now : Nat) (plan : SendPlan) :
    Driving T Unit := do
  let difference ← planDifference plan.baseState plan.targetState
  match ← sendTransportInstruction p env (plan.instruction difference initialChaff) now with
  | .sent => do
    commitSend plan
    onScheduler (SendScheduler.commitSend wakePlan)
  | .cancelled => return ()
  | .deferred => do
    let failedAtMs ← nowMs env.elapsedAfterMs
    deferTemporarySend failedAtMs

theorem follows_sendPlanned (p : Platform T) (env : Transmission) {wakePlan : WakePlan} {now : Nat} {plan : SendPlan}
    {s : SessionDriver T} (hplan : Planned s.synchronization now plan)
    (hwake : SendScheduler.Current wakePlan s.scheduler) :
    bookkeeping.FollowsFrom (sendPlanned p env wakePlan now plan) s := by
  refine follows_transmitPlanned p env hplan (fun _ => rfl) (fun _ => rfl) (fun _ => rfl) fun outcome t ht => ?_
  obtain ⟨hsync, hscheduler⟩ := Prod.mk.inj ht
  cases outcome with
  | sent =>
    refine followsFrom_bind (fun _ => wp_commitSend (hsync ▸ hplan)) fun _ u hu => ?_
    have hcurrent : SendScheduler.Current wakePlan u.scheduler := by
      rw [hu, hscheduler]
      exact hwake
    intro _
    rw [onScheduler, wp_zoom]
    refine (SendScheduler.wp_commitSend hcurrent).mono (fun _ _ _ => .refl) fun e _ he => ⟨.refl, ?_⟩
    rintro ⟨⟩
    exact he rfl
  | cancelled => exact (unseen_pure _).follows t
  | deferred => exact ((unseen_nowMs _).bind fun failedAtMs => unseen_deferTemporarySend failedAtMs).follows t

theorem follows_sendInstruction (p : Platform T) (env : Transmission) {wakePlan : WakePlan} (now : Nat)
    {s : SessionDriver T} (hwake : SendScheduler.Current wakePlan s.scheduler) :
    bookkeeping.FollowsFrom (sendInstruction p env wakePlan now) s := by
  refine followsFrom_bind (fun _ => wp_planOrAllocate now s) fun plan t ⟨hplan, hsched⟩ => ?_
  exact follows_sendPlanned p env hplan (hsched ▸ hwake)

theorem wp_pollScheduler (nowMs : Nat) (s : SessionDriver T) :
    wp (pollScheduler nowMs)
      (fun answer t => bookkeeping.Reaches s.ledger t.ledger ∧
        ∀ plan, answer = .send plan → SendScheduler.Current plan t.scheduler)
      (fun e t => bookkeeping.Reaches s.ledger t.ledger ∧ ¬e.Internal) s := by
  rw [pollScheduler, wp_bind, wp_get, onScheduler, wp_zoom]
  refine (SendScheduler.wp_poll _ _ _ _).mono (fun _ _ h => ⟨.refl, h⟩) fun e _ he => ⟨.refl, ?_⟩
  rintro ⟨⟩
  exact he rfl

theorem follows_pass (p : Platform T) (env : Transmission) (elapsedMs : Nat) :
    bookkeeping.Follows (pass p env elapsedMs) := by
  refine (unseen_nowMs _).follows.bind fun now => (unseen_publishReachability now).follows.bind fun _ => ?_
  refine unseen_get.follows.bind fun _ => .ite (unseen_throw (by nofun)).follows ?_
  refine (unseen_onReassembler _).follows.bind fun _ => ?_
  refine Follows.bind (unseen_modify (ledger_expirePrediction now)).follows fun _ => ?_
  refine Follows.bind (unseen_modify (ledger_updatePredictionPolicy now)).follows fun _ s => ?_
  refine followsFrom_bind (fun _ => wp_pollScheduler now s) fun answer t ht => ?_
  cases answer with
  | send plan => exact (follows_sendInstruction p env now (ht plan rfl)).bind fun _ => (unseen_pure _).follows
  | pending wakeAtMs => exact ((unseen_runWait now wakeAtMs).bind fun _ => unseen_pure _).follows t

/-! ### Receiving -/

theorem ledger_noteReply (acknowledgement : AcknowledgementDisposition) (sentAtMs : Option Nat) (s : SessionDriver T) :
    (s.noteReply acknowledgement sentAtMs).ledger = s.ledger := by
  unfold noteReply
  split <;> rfl

/-- After an acknowledgement, the history drops what the peer holds, and this cannot fail. -/
theorem wp_acknowledgeHistory {s s' : SessionDriver T} {t : SynchronizationState} {n : Nat}
    {d : AcknowledgementDisposition} (hs : s.ledger.Sound) (ha : Acknowledged n s.synchronization d t)
    (hl : s'.ledger = { s.ledger with synchronization := t }) :
    wp acknowledgeHistory (fun _ u => bookkeeping.Reaches s.ledger u.ledger ∧ u.synchronization = t)
      (fun _ _ => False) s' := by
  have hhistory : s'.clientHistory = s.clientHistory := congrArg Ledger.clientHistory hl
  obtain rfl : s'.synchronization = t := congrArg Ledger.synchronization hl
  obtain ⟨count, hcount, hle, hlen⟩ := hs.bookkept.known_kept ha
  rw [acknowledgeHistory, wp_bind, wp_get, onClientHistory, wp_zoom, hhistory]
  refine (ClientHistory.wp_acknowledge hcount hle hlen).mono ?_ (fun _ _ h => h)
  rintro _ h rfl
  refine ⟨.single ?_, rfl⟩
  show Ledger.Step s.ledger
    { s'.ledger with clientHistory := s.clientHistory.trim s'.synchronization.knownReceiverState count }
  rw [hl]
  exact .acknowledge s.ledger n count d s'.synchronization ha hcount

theorem follows_noteLatestState (p : Platform T) (nowMs targetState : Nat) {s : SessionDriver T}
    (h : targetState = s.synchronization.remoteLatest) :
    bookkeeping.FollowsFrom (noteLatestState p nowMs targetState) s := by
  intro hs
  rw [noteLatestState, wp_bind, wp_modify, wp_bind, wp_get, wp_bind, wp_ofOption]
  refine ⟨fun authoritative _ => ?_, fun hn => absurd (h ▸ hn) (latest_get?_ne_none hs)⟩
  exact Unseen.follows (V := bookkeeping)
    ((unseen_onPrediction _).bind fun _ => unseen_modify fun _ => by rfl) _ hs

theorem follows_applyRemoteState (p : Platform T) (nowMs : Nat) {plan : ApplyPlan} {s : SessionDriver T}
    (hplan : Applicable s.synchronization plan) :
    bookkeeping.FollowsFrom (applyRemoteState p nowMs plan) s := by
  intro hs
  rw [applyRemoteState, wp_bind, wp_get, wp_bind, wp_ofOption]
  refine ⟨fun base _ => ?_, fun hn => absurd hn (terminalStates_get?_ne_none hs hplan.base_mem)⟩
  rw [wp_bind, wp_ofExcept]
  refine ⟨fun difference _ => ?_, fun e _ => ⟨.refl, nofun⟩⟩
  rw [wp_bind, wp_ofExcept]
  refine ⟨fun next _ => ?_, fun e _ => ⟨.refl, nofun⟩⟩
  rw [wp_bind, onSynchronization, wp_zoom]
  refine (wp_commitReceive hs.receiver hplan).mono ?_ ?_
  · intro commit t hc
    have hstep := Ledger.Step.construct s.ledger plan commit t next hplan hc
    rw [wp_bind, wp_modify, wp_bind, wp_get, wp_ite]
    refine ⟨fun hlatest => ?_, fun _ => .single hstep⟩
    exact FollowsFrom.after (s := s) (follows_noteLatestState p nowMs plan.targetState hlatest) hs (.single hstep)
  · rintro e t ⟨rfl, rfl⟩
    exact ⟨.refl, nofun⟩

theorem follows_settleRemoteState (p : Platform T) (nowMs : Nat) {disposition : RemoteStateDisposition}
    {s : SessionDriver T} (h : ∀ plan, disposition = .apply plan → Applicable s.synchronization plan) :
    bookkeeping.FollowsFrom (settleRemoteState p nowMs disposition) s := by
  cases disposition with
  | apply plan => exact follows_applyRemoteState p nowMs (h plan rfl)
  | alreadyConstructed => exact (unseen_pure _).follows s
  | missingReference => exact (unseen_pure _).follows s
  | belowThrowawayFloor => exact (unseen_pure _).follows s
  | belowRetentionWindow => exact (unseen_pure _).follows s

theorem follows_handleNormalInstruction (p : Platform T) (elapsedMs : Nat) (instruction : TransportInstruction) :
    bookkeeping.Follows (handleNormalInstruction p elapsedMs instruction) := by
  refine (unseen_nowMs _).follows.bind fun now => follows_get_bind fun s hs => ?_
  rw [wp_bind, onSynchronization, wp_zoom]
  refine (wp_beginReceive instruction s.synchronization).mono ?_ ?_
  · rintro transition t ⟨hvalid, hack, hremote⟩
    rw [wp_bind, wp_modify, wp_bind]
    refine (wp_acknowledgeHistory (s := s) hs hack (ledger_noteReply _ _ _)).mono ?_ (fun _ _ h => h.elim)
    rintro _ u ⟨hreach, rfl⟩
    have happly : ∀ plan, transition.remoteState = .apply plan → Applicable u.synchronization plan := by
      intro plan hplan
      exact (applicable_of_disposition (hvalid.of_localLatest hack.localLatest_eq) (hremote ▸ hplan)).1
    -- The rest of the method starts from a sound ledger again.
    have hrest : bookkeeping.FollowsFrom (do
        onScheduler (SendScheduler.noteAcknowledgementNeeded now)
        settleRemoteState p now transition.remoteState
        publishReachability now) u := by
      have hunseen := unseen_onScheduler (T := T) (SendScheduler.neverStale_noteAcknowledgementNeeded now)
      refine (hunseen.follows u).bind_of_wp (hunseen u) fun _ v hv => ?_
      have hv' : v.synchronization = u.synchronization := congrArg Ledger.synchronization hv
      exact (follows_settleRemoteState p now (hv' ▸ happly)).bind fun _ => (unseen_publishReachability now).follows
    exact hrest.after hs hreach
  · rintro e t ⟨rfl, he⟩
    refine ⟨.refl, ?_⟩
    rintro ⟨⟩
    rcases he with ⟨-, hne⟩ | ⟨he, -⟩
    · exact hne rfl
    · cases he

theorem follows_handleRemoteShutdown (p : Platform T) (instruction : TransportInstruction) :
    bookkeeping.Follows (handleRemoteShutdown p instruction) := by
  refine follows_get_bind fun s hs => ?_
  rw [wp_bind, onSynchronization, wp_zoom]
  refine (wp_beginShutdownReceive _ s.synchronization).mono ?_ ?_
  · rintro transition t ⟨⟨-, hbase⟩, d, hack⟩
    rw [wp_bind]
    refine (wp_acknowledgeHistory (s := s) hs hack rfl).mono ?_ (fun _ _ h => h.elim)
    rintro _ u ⟨hreach, rfl⟩
    have hrest : bookkeeping.FollowsFrom (do
        let self ← get
        let base ← ofOption .missingTerminalState (self.terminalStates.get? transition.baseState)
        let difference ← ofExcept .terminal (p.terminal.decode transition.difference)
        let finalTerminal ← ofExcept .terminal (p.terminal.apply base difference)
        modify fun self =>
          { self with
            finalTerminal := some finalTerminal
            prediction := self.prediction.reset.2
            outputRequested := true }) u := by
      intro hu
      rw [wp_bind, wp_get, wp_bind, wp_ofOption]
      refine ⟨fun base _ => ?_, fun hn => ?_⟩
      · refine Unseen.follows (V := bookkeeping) ?_ u hu
        refine Unseen.bind (unseen_ofExcept fun _ => by nofun) fun difference => ?_
        exact Unseen.bind (unseen_ofExcept fun _ => by nofun) fun final => unseen_modify fun _ => by rfl
      · exact absurd hn (terminalStates_get?_ne_none hu hbase)
    exact hrest.after hs hreach
  · rintro e t ⟨rfl, he⟩
    refine ⟨.refl, ?_⟩
    rintro ⟨⟩
    exact he rfl

theorem follows_handleDatagram (p : Platform T) (decodedAtMs handledAtMs : Nat) (datagram : Bytes)
    (source : SocketAddr) : bookkeeping.Follows (handleDatagram p decodedAtMs handledAtMs datagram source) := by
  refine (unseen_decodeDatagram p _ _ _).follows.bind fun decoded => ?_
  cases decoded with
  | none => exact (unseen_pure _).follows
  | some instruction =>
    refine .ite ?_ ?_
    · exact (follows_handleRemoteShutdown p instruction).bind fun _ => (unseen_pure _).follows
    · exact (follows_handleNormalInstruction p _ instruction).bind fun _ => (unseen_pure _).follows

/-! ### Shutdown -/

theorem follows_sendShutdownAcknowledgement (p : Platform T) (env : Transmission) (now : Nat) :
    bookkeeping.Follows (sendShutdownAcknowledgement p env now) := by
  refine follows_allocateState.bind fun _ s => followsFrom_read_bind (fun _ => wp_planSend now s) fun plan hplan => ?_
  refine follows_transmitPlanned p env hplan (fun _ => rfl) (fun _ => rfl) (fun _ => rfl) fun outcome u hu => ?_
  obtain ⟨hsync, -⟩ := Prod.mk.inj hu
  cases outcome with
  | sent => exact followsFrom_bind (fun _ => wp_commitSend (hsync ▸ hplan)) fun _ w _ => (unseen_pure _).follows w
  | cancelled => exact (unseen_pure _).follows u
  | deferred => exact (unseen_pure _).follows u

theorem follows_sendShutdownRequest (p : Platform T) (env : Transmission) (now : Nat) :
    bookkeeping.Follows (sendShutdownRequest p env now) := by
  refine follows_get_bind fun s => followsFrom_read_bind (fun hs => wp_planDifference hs (Or.inl rfl)) fun _ hd => ?_
  exact follows_sendTransportInstruction p env now ⟨Or.inl rfl, Or.inr ⟨rfl, rfl⟩, hd⟩

/-- Around its request, a pass of the shutdown loop reads the clock and the driver and changes neither. -/
theorem follows_shutdownPass_of {τ : Type} {V : Simulation DriverError (SessionDriver T) τ} {p : Platform T}
    {env : Transmission} (hclock : V.Allowed .clockExhausted) (hrequest : ∀ now, V.Follows (sendShutdownRequest p env now))
    (elapsedMs : Nat) (progress : LocalShutdown) : V.Follows (shutdownPass p env elapsedMs progress) := by
  have hnow (elapsedMs : Nat) : V.Unseen (nowMs elapsedMs) := .ite (unseen_pure _) (unseen_throw hclock)
  refine (hnow _).follows.bind fun now => .ite (unseen_pure _).follows (.ite ?_ ?_)
  · refine Follows.bind ((hrequest now).bind fun outcome => ?_) fun next => ?_
    · cases outcome with
      | sent => exact (unseen_get.bind fun _ => (unseen_ofOption hclock).bind fun _ => unseen_pure _).follows
      | cancelled => exact (unseen_pure _).follows
      | deferred =>
        refine ((hnow _).bind fun _ => unseen_get.bind fun _ => ?_).follows
        exact (unseen_ofOption hclock).bind fun _ => unseen_pure _
    · cases next with
      | none => exact (unseen_pure _).follows
      | some nextSendMs => exact (unseen_get.bind fun _ => unseen_pure _).follows
  · exact (unseen_get.bind fun _ => unseen_pure _).follows

theorem follows_shutdownPass (p : Platform T) (env : Transmission) (elapsedMs : Nat) (progress : LocalShutdown) :
    bookkeeping.Follows (shutdownPass p env elapsedMs progress) :=
  follows_shutdownPass_of (by nofun) (follows_sendShutdownRequest p env) elapsedMs progress

theorem follows_handleShutdownDatagram (p : Platform T) (env : Transmission) (decodedAtMs handledAtMs : Nat)
    (datagram : Bytes) (source : SocketAddr) :
    bookkeeping.Follows (handleShutdownDatagram p env decodedAtMs handledAtMs datagram source) := by
  refine (unseen_decodeDatagram p _ _ _).follows.bind fun decoded => ?_
  cases decoded with
  | none => exact (unseen_pure _).follows
  | some instruction =>
    refine .ite ?_ ?_
    · refine (follows_handleRemoteShutdown p instruction).bind fun _ => (unseen_nowMs _).follows.bind fun now => ?_
      exact (follows_sendShutdownAcknowledgement p env now).bind fun _ => .ite (unseen_pure _).follows (unseen_pure _).follows
    · refine unseen_get.follows.bind fun _ => (follows_handleNormalInstruction p _ _).bind fun _ => ?_
      exact (unseen_get.bind fun _ => .ite (unseen_pure _) (unseen_pure _)).follows

/-! ### Commands -/

theorem wp_appendOperation (operation : ClientOperation) (s : SessionDriver T) :
    wp (appendOperation operation) (fun _ t => t.ledger = s.ledger.accept operation)
      (fun e t => t.ledger = s.ledger ∧ ¬e.Internal) s := by
  rw [appendOperation, wp_bind, onClientHistory, wp_zoom]
  refine (ClientHistory.wp_append operation s.clientHistory).mono ?_ ?_
  · rintro _ h rfl
    rfl
  · rintro e h ⟨rfl, rfl | ⟨e', rfl⟩⟩ <;> exact ⟨rfl, nofun⟩

theorem wp_advanceClient (operation : ClientOperation) (nowMs : Nat) (s : SessionDriver T) :
    wp (advanceClient operation nowMs) (fun _ t => t.ledger = s.ledger.advance (some operation))
      (fun e t => Ledger.Runs s.ledger t.ledger ∧ ¬e.Internal) s := by
  rw [advanceClient, wp_bind]
  refine (wp_appendOperation operation s).mono (fun _ t ht => ?_) fun e t ht => ⟨ht.1 ▸ .refl, ht.2⟩
  have haccept : Ledger.Runs s.ledger t.ledger := .single (ht ▸ .accept s.ledger operation)
  rw [wp_bind]
  refine (wp_allocateState t).mono ?_ fun e u hu => ⟨hu.1 ▸ haccept, hu.2⟩
  rintro _ u ⟨hu, -⟩
  have hallocate : Ledger.Runs s.ledger u.ledger := haccept.tail (.step (hu ▸ .allocate t.ledger))
  rw [wp_bind]
  refine (unseen_onScheduler (SendScheduler.neverStale_noteLocalChange nowMs) u).mono ?_ ?_
  · rintro _ v hv
    show v.ledger = (s.ledger.accept operation).allocate
    rw [show v.ledger = u.ledger from hv, hu, ht]
  · rintro e v ⟨hv, he⟩
    exact ⟨show Ledger.Runs s.ledger v.ledger from (show v.ledger = u.ledger from hv) ▸ hallocate, he⟩

theorem frame_predictInput {τ : Type} {view : SessionDriver T → τ}
    (hview : ∀ requested s prediction, view (requestOutput requested { s with prediction := prediction }) = view s)
    (p : Platform T) (state : Nat) (bytes : Bytes) (nowMs : Nat) : (frame view).Unseen (predictInput p state bytes nowMs) := by
  refine unseen_get.bind fun _ => (unseen_ofOption trivial).bind fun _ => ?_
  refine Unseen.bind (frame_zoom fun prediction s => hview false s prediction) fun displayed => ?_
  exact unseen_modify fun s => hview displayed s s.prediction

theorem wp_predictInput (p : Platform T) (state : Nat) (bytes : Bytes) (nowMs : Nat) {s : SessionDriver T}
    (hs : s.ledger.Sound) :
    wp (predictInput p state bytes nowMs) (fun _ t => t.ledger = s.ledger)
      (fun e t => t.ledger = s.ledger ∧ ¬e.Internal) s := by
  have hframe := frame_predictInput (fun requested _ _ => ledger_requestOutput requested _) p state bytes nowMs s
  exact (hframe.and (follows_predictInput p state bytes nowMs s hs)).mono (fun _ _ h => h.1) fun _ _ h => ⟨h.1.1, h.2.2⟩

end SessionDriver

/-- The operation that a command stands for, if it does. -/
def SessionCommand.operation : SessionCommand → Option ClientOperation
  | .input bytes => if bytes.isEmpty then none else some (.input bytes)
  | .resize columns rows => some (.resize columns rows)
  | .repaint => none

namespace SessionDriver

/-- The client is advanced by an operation, and then a method runs that leaves the ledger. -/
theorem wp_advanceClient_bind (operation : ClientOperation) (now : Nat) {f : Nat → Driving T Unit} {s : SessionDriver T}
    (hs : s.ledger.Sound)
    (hf : ∀ n (t : SessionDriver T), t.ledger.Sound → wp (f n) (fun _ u => u.ledger = t.ledger)
      (fun e u => u.ledger = t.ledger ∧ ¬e.Internal) t) :
    wp (advanceClient operation now >>= f) (fun _ t => t.ledger = s.ledger.advance (some operation))
      (fun e t => Ledger.Runs s.ledger t.ledger ∧ ¬e.Internal) s := by
  rw [wp_bind]
  refine (wp_advanceClient operation now s).mono (fun n t ht => ?_) (fun _ _ h => h)
  refine (hf n t (ht ▸ hs.advance _)).mono (fun _ u hu => hu.trans ht) (fun e u hu => ⟨?_, hu.2⟩)
  rw [hu.1, ht]
  exact Ledger.runs_advance _ _

/-- A command that is handled advances the client by its operation. -/
theorem wp_handleCommand (p : Platform T) (elapsedMs : Nat) (command : SessionCommand) {s : SessionDriver T}
    (hs : s.ledger.Sound) :
    wp (handleCommand p elapsedMs command) (fun _ t => t.ledger = s.ledger.advance command.operation)
      (fun e t => Ledger.Runs s.ledger t.ledger ∧ ¬e.Internal) s := by
  have hnow : wp (nowMs elapsedMs) (fun _ t => t.ledger = s.ledger) (fun e t => t.ledger = s.ledger ∧ ¬e.Internal) s :=
    unseen_nowMs elapsedMs s
  rw [handleCommand, wp_bind]
  refine hnow.mono (fun now t ht => ?_) fun e t ht => ⟨ht.1 ▸ .refl, ht.2⟩
  rw [← ht] at hs ⊢
  cases command with
  | input bytes =>
    simp only [SessionCommand.operation]
    split
    · rfl
    · exact wp_advanceClient_bind _ now hs fun n u hu => wp_predictInput p n bytes now hu
  | resize columns rows =>
    refine wp_advanceClient_bind _ now hs fun n u hu => ?_
    rw [wp_bind, wp_get]
    exact wp_predictInput p _ [] now hu
  | repaint => rfl

/-! ### Runs -/

/-- The driver, seen through its ledger, with the acceptance of operations among the steps. -/
def recording : Simulation DriverError (SessionDriver T) (Ledger T) where
  view := ledger
  Step := Ledger.Move
  Invariant := Ledger.Sound
  invariant_step := Ledger.Sound.move
  Allowed e := ¬e.Internal

theorem follows_effect {V : Simulation DriverError (SessionDriver T) (Ledger T)} {m : Driving T α} (h : V.Follows m) :
    V.Follows (effect m) := h.bind fun _ => (unseen_pure _).follows

theorem recording_of_bookkeeping {m : Driving T α} (h : bookkeeping.Follows m) : recording.Follows m :=
  fun s => (h s).mono rfl (fun _ _ hstep => .step hstep) (fun _ ha => ha) fun _ he => he

/-- Every call but a command is followed without the acceptance of an operation. -/
theorem bookkeeping_call (p : Platform T) (c : Call) :
    (∃ elapsedMs command, c = .command elapsedMs command) ∨ bookkeeping.Follows (call p c) := by
  cases c with
  | command elapsedMs command => exact .inl ⟨elapsedMs, command, rfl⟩
  | pass env elapsedMs => exact .inr (follows_effect (follows_pass p env elapsedMs))
  | receive elapsedMs result => exact .inr (follows_effect (unseen_classifyReceive elapsedMs result).follows)
  | datagram decodedAtMs handledAtMs datagram source =>
    exact .inr (follows_effect (follows_handleDatagram p decodedAtMs handledAtMs datagram source))
  | normalInstruction elapsedMs instruction => exact .inr (follows_handleNormalInstruction p elapsedMs instruction)
  | remoteShutdown instruction => exact .inr (follows_handleRemoteShutdown p instruction)
  | shutdownAcknowledgement env nowMs => exact .inr (follows_effect (follows_sendShutdownAcknowledgement p env nowMs))
  | localShutdown elapsedMs => exact .inr (follows_effect (unseen_beginLocalShutdown elapsedMs).follows)
  | shutdownPass env elapsedMs progress => exact .inr (follows_effect (follows_shutdownPass p env elapsedMs progress))
  | shutdownDatagram env decodedAtMs handledAtMs datagram source =>
    exact .inr (follows_effect (follows_handleShutdownDatagram p env decodedAtMs handledAtMs datagram source))
  | output => exact .inr (follows_emitOutput p)

theorem follows_call (p : Platform T) (c : Call) : recording.Follows (call p c) := by
  obtain ⟨elapsedMs, command, rfl⟩ | h := bookkeeping_call p c
  · intro s hs
    refine (wp_handleCommand p elapsedMs command hs).mono (fun _ t ht => ?_) fun _ _ h => h
    show Ledger.Runs s.ledger t.ledger
    rw [ht]
    exact Ledger.runs_advance _ _
  · exact recording_of_bookkeeping h

/-- Every run of the driver is a run of its ledger, and no run ends with an internal error. -/
theorem follows_calls (p : Platform T) (cs : List Call) : recording.Follows (calls p cs) :=
  follows_runAll (follows_call p) cs

theorem sound_initial (serverAddr : SocketAddrV4) (initialTerminal : T) (mode : PredictionMode) :
    (initial serverAddr initialTerminal mode).ledger.Sound := by
  refine ⟨senderSound_new, receiverSound_new, ClientHistory.bookkept_new, fun n => ?_⟩
  simp [initial, ledger, SynchronizationState.new, OrderedMap.mem_keys, eq_comm]

end SessionDriver

/-- An opened session starts with the size of its terminal as its first operation. -/
theorem Connection.ledger_eq {p : Platform T} (c : Connection p) :
    ∃ initialTerminal, c.driver.ledger =
      (SessionDriver.initial c.serverAddr initialTerminal c.mode).ledger.advance (some (.resize c.columns c.rows)) := by
  have hopened := c.opened
  unfold SessionDriver.connect at hopened
  split at hopened
  · cases hopened
  · rename_i initialTerminal _
    refine ⟨initialTerminal, ?_⟩
    split at hopened
    · cases hopened
    · rename_i n driver hadvance
      cases hopened
      exact (SessionDriver.wp_advanceClient _ 0 _).ok hadvance

theorem Connection.sound {p : Platform T} (c : Connection p) : c.driver.ledger.Sound := by
  obtain ⟨initialTerminal, h⟩ := c.ledger_eq
  rw [h]
  exact (SessionDriver.sound_initial _ initialTerminal _).advance _

end MoshClient
