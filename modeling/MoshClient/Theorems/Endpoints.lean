import MoshClient.Endpoints
import MoshClient.Theorems.Synchronization

/-! Safety of the two-endpoint system. An instruction freezes the sender's numbers at the time of its
    plan; since the numbers of an endpoint only grow, what they promised the peer then still holds when
    the instruction arrives. -/

namespace MoshClient
open Effect Limits

namespace SynchronizationState

/-! ### Growth -/

/-- The numbers of an endpoint never fall. -/
structure Grows (s t : SynchronizationState) : Prop where
  localLatest : s.localLatest ≤ t.localLatest
  known : s.knownReceiverState ≤ t.knownReceiverState
  remoteLatest : s.remoteLatest ≤ t.remoteLatest

theorem Grows.refl (s : SynchronizationState) : Grows s s := ⟨Nat.le_refl _, Nat.le_refl _, Nat.le_refl _⟩

/-- The sender's numbers may grow, the receiver's are unchanged. -/
structure SenderStep (s t : SynchronizationState) : Prop where
  grows : Grows s t
  known : t.knownReceiverState = s.knownReceiverState
  receiver : SameReceiver s t
  sound : SenderSound s → SenderSound t

theorem senderStep_advance (s : SynchronizationState) : SenderStep s (exec advanceLocal s) := by
  apply exec_of_wp
  refine (wp_advanceLocal s).mono ?_ ?_
  · rintro _ _ ⟨-, -, rfl⟩
    exact ⟨⟨Nat.le_succ _, Nat.le_refl _, Nat.le_refl _⟩, rfl, ⟨rfl, rfl, rfl, rfl⟩, SenderSound.advance⟩
  · rintro _ _ ⟨rfl, -⟩
    exact ⟨.refl _, rfl, .refl _, id⟩

theorem senderStep_commit (s : SynchronizationState) (plan : SendPlan) : SenderStep s (exec (commitSend plan) s) := by
  apply exec_of_wp
  refine (wp_commitSend s plan).mono ?_ ?_
  · intro _ t hc
    exact ⟨⟨Nat.le_of_eq hc.latest.symm, Nat.le_of_eq hc.known.symm, Nat.le_of_eq hc.receiver.latest.symm⟩,
      hc.known, hc.receiver, fun hs => hs.commit hc⟩
  · rintro _ _ ⟨rfl, -⟩
    exact ⟨.refl _, rfl, .refl _, id⟩

/-! ### References -/

/-- The state `n` is retained as a reference, or it gave way to 31 newer ones, or it was thrown away. -/
def Accounted (s : SynchronizationState) (n : Nat) : Prop :=
  n ∈ s.receivedStates ∨ maxReceivedReferenceStates ≤ Increasing.above n s.receivedStates + 1 ∨
    n < s.remoteThrowawayFloor

theorem SameReceiver.accounted {s t : SynchronizationState} (h : SameReceiver s t) {n : Nat}
    (hn : Accounted s n) : Accounted t n := by
  unfold Accounted
  rw [h.received, h.floor]
  exact hn

theorem Acknowledged.grows {n : Nat} {d : AcknowledgementDisposition} {s t : SynchronizationState}
    (h : Acknowledged n s d t) : Grows s t := by
  refine ⟨Nat.le_of_eq h.localLatest_eq.symm, ?_, Nat.le_of_eq h.sameReceiver.latest.symm⟩
  rcases h.known_cases with heq | ⟨heq, hlt⟩
  · exact Nat.le_of_eq heq.symm
  · rw [heq]
    exact Nat.le_of_lt hlt

theorem Constructed.grows {s t : SynchronizationState} {plan : ApplyPlan} {commit : ReceiveCommit}
    (h : Constructed s plan commit t) : Grows s t :=
  ⟨Nat.le_of_eq h.sender.latest.symm, Nat.le_of_eq h.sender.known.symm, h.latest ▸ Nat.le_max_left _ _⟩

/-- A reference that goes when a state is constructed was thrown away or gave way to newer ones. -/
theorem Constructed.accounted {s t : SynchronizationState} {plan : ApplyPlan} {commit : ReceiveCommit}
    (h : Constructed s plan commit t) {n : Nat} (hn : Accounted s n) : Accounted t n := by
  by_cases hfloor : n < t.remoteThrowawayFloor
  · exact Or.inr (Or.inr hfloor)
  · have hfloor' := Nat.le_of_not_lt hfloor
    rcases hn with hmem | habove | hlt
    · by_cases hev : commit.capacityEvictedState = some n
      · exact Or.inr (Or.inl (h.evicted_above n hev))
      · exact Or.inl ((h.mem_iff n).mpr (Or.inr ⟨hmem, hfloor', hev⟩))
    · have := h.above_mono n hfloor'
      exact Or.inr (Or.inl (by omega))
    · exact absurd (Nat.lt_of_lt_of_le hlt h.floor_mono) hfloor

end SynchronizationState

open SynchronizationState

/-! ### One direction of the exchange -/

/-- What endpoint `a` promises its peer with an instruction. -/
structure Promise (a : SynchronizationState) (m : TransportInstruction) : Prop where
  version : m.protocolVersion = protocolVersion
  base_lt : m.baseState < m.newState
  new_le : m.newState ≤ a.localLatest
  acknowledged_le : m.acknowledgedState ≤ a.remoteLatest
  discard_le_base : m.discardBeforeState ≤ m.baseState
  discard_le_known : m.discardBeforeState ≤ a.knownReceiverState

theorem Promise.mono {a a' : SynchronizationState} {m : TransportInstruction} (h : Promise a m)
    (hg : Grows a a') : Promise a' m :=
  ⟨h.version, h.base_lt, Nat.le_trans h.new_le hg.localLatest, Nat.le_trans h.acknowledged_le hg.remoteLatest,
    h.discard_le_base, Nat.le_trans h.discard_le_known hg.known⟩

/-- What the endpoint `b` knows of its peer `a`, and the instructions that `a` has sent. -/
structure Link (a : Endpoint) (b : SynchronizationState) : Prop where
  promises : ∀ m ∈ a.sent, Promise a.state m
  received : ∀ n ∈ b.receivedStates, n ≠ 0 → ∃ m ∈ a.sent, m.newState = n
  latest_le : b.remoteLatest ≤ a.state.localLatest
  known_le : b.knownReceiverState ≤ a.state.remoteLatest
  floor_le : b.remoteThrowawayFloor ≤ a.state.knownReceiverState
  acknowledged : ∀ m ∈ a.sent, Accounted a.state m.acknowledgedState
  known : Accounted a.state b.knownReceiverState

/-- The sender of the link may take a step that keeps its references. -/
theorem Link.sender {a : Endpoint} {b s : SynchronizationState} (h : Link a b) (hg : Grows a.state s)
    (hacc : ∀ n, Accounted a.state n → Accounted s n) : Link { a with state := s } b where
  promises m hm := (h.promises m hm).mono hg
  received := h.received
  latest_le := Nat.le_trans h.latest_le hg.localLatest
  known_le := Nat.le_trans h.known_le hg.remoteLatest
  floor_le := Nat.le_trans h.floor_le hg.known
  acknowledged m hm := hacc _ (h.acknowledged m hm)
  known := hacc _ h.known

/-- The receiver of the link may take a step of its own sender side. -/
theorem Link.receiver {a : Endpoint} {b s : SynchronizationState} (h : Link a b) (hb : SenderStep b s) :
    Link a s where
  promises := h.promises
  received n hn := h.received n (hb.receiver.received ▸ hn)
  latest_le := hb.receiver.latest ▸ h.latest_le
  known_le := hb.known ▸ h.known_le
  floor_le := hb.receiver.floor ▸ h.floor_le
  acknowledged := h.acknowledged
  known := hb.known ▸ h.known

/-! ### Planning -/

theorem Link.plan {a : Endpoint} {b : SynchronizationState} (h : Link a b) (hs : SenderSound a.state)
    (hr : ReceiverSound a.state) (nowMs timeoutMs : Nat) (difference chaff : Bytes) :
    Link (a.plan nowMs timeoutMs difference chaff) b := by
  unfold Endpoint.plan
  split
  · exact h
  · rename_i plan hplan
    have hp := planned_of_planSend hplan
    have hnew : Promise a.state (plan.instruction difference chaff) :=
      ⟨rfl, Nat.lt_of_lt_of_eq hp.base_lt hp.target.symm, Nat.le_of_eq hp.target, Nat.le_of_eq hp.acknowledged, hp.throwaway_le hs,
        Nat.le_of_eq hp.throwaway⟩
    have hacc : Accounted a.state (plan.instruction difference chaff).acknowledgedState :=
      Or.inl (show plan.acknowledgedState ∈ _ from hp.acknowledged ▸ hr.latest_mem)
    constructor
    · intro m hm
      rcases List.mem_append.mp hm with hm | hm
      · exact h.promises m hm
      · exact List.mem_singleton.mp hm ▸ hnew
    · intro n hn hne
      obtain ⟨m, hm, rfl⟩ := h.received n hn hne
      exact ⟨m, List.mem_append_left _ hm, rfl⟩
    · exact h.latest_le
    · exact h.known_le
    · exact h.floor_le
    · intro m hm
      rcases List.mem_append.mp hm with hm | hm
      · exact h.acknowledged m hm
      · exact List.mem_singleton.mp hm ▸ hacc
    · exact h.known

theorem state_plan (a : Endpoint) (nowMs timeoutMs : Nat) (difference chaff : Bytes) :
    (a.plan nowMs timeoutMs difference chaff).state = a.state := by
  unfold Endpoint.plan
  split <;> rfl

/-! ### Delivering -/

/-- Every step that a delivery makes of its endpoint. -/
structure Delivered (a : Endpoint) (s t : SynchronizationState) : Prop where
  grows : Grows s t
  sender : SenderSound t
  receiver : ReceiverSound t
  accounted : ∀ n, Accounted s n → Accounted t n
  link : Link a t

theorem Link.acknowledge {a : Endpoint} {s t : SynchronizationState} {m : TransportInstruction}
    {d : AcknowledgementDisposition} (h : Link a s) (hm : m ∈ a.sent)
    (hack : Acknowledged m.acknowledgedState s d t) : Link a t := by
  have hsame := hack.sameReceiver
  constructor
  · exact h.promises
  · rw [hsame.received]; exact h.received
  · rw [hsame.latest]; exact h.latest_le
  · rcases hack.known_cases with heq | ⟨heq, -⟩
    · rw [heq]; exact h.known_le
    · rw [heq]; exact (h.promises m hm).acknowledged_le
  · rw [hsame.floor]; exact h.floor_le
  · exact h.acknowledged
  · rcases hack.known_cases with heq | ⟨heq, -⟩
    · rw [heq]; exact h.known
    · rw [heq]; exact h.acknowledged m hm

theorem Link.construct {a : Endpoint} {s t : SynchronizationState} {m : TransportInstruction} {plan : ApplyPlan}
    {commit : ReceiveCommit} (h : Link a s) (hm : m ∈ a.sent) (htarget : plan.targetState = m.newState)
    (hthrow : plan.throwawayState = m.discardBeforeState) (hc : Constructed s plan commit t) : Link a t := by
  have hp := h.promises m hm
  constructor
  · exact h.promises
  · intro n hn hne
    rcases (hc.mem_iff n).mp hn with rfl | ⟨hn, -⟩
    · exact ⟨m, hm, htarget.symm⟩
    · exact h.received n hn hne
  · have := h.latest_le
    have := hp.new_le
    rw [hc.latest, htarget]
    omega
  · rw [hc.sender.known]; exact h.known_le
  · have hmax := hc.floor_max
    have := h.floor_le
    have := hp.discard_le_known
    rw [hthrow] at hmax
    omega
  · exact h.acknowledged
  · rw [hc.sender.known]; exact h.known

/-- An instruction of the peer is valid where it arrives: it acknowledges no state that was not sent. -/
theorem Link.valid {a b : Endpoint} {m : TransportInstruction} (h : Link a b.state) (hback : Link b a.state)
    (hm : m ∈ a.sent) : Valid b.state m := by
  have hp := h.promises m hm
  exact ⟨hp.version, Nat.le_trans hp.acknowledged_le hback.latest_le, hp.base_lt, hp.discard_le_base⟩

theorem delivered_exec_receive {a : Endpoint} {s : SynchronizationState} {m : TransportInstruction}
    (hs : SenderSound s) (hr : ReceiverSound s) (h : Link a s) (hm : m ∈ a.sent) :
    Delivered a s (exec (receive m) s) := by
  apply exec_of_wp
  unfold receive
  rw [wp_bind]
  refine (wp_beginReceive m s).mono ?_ ?_
  · rintro transition t ⟨hv, hack, hremote⟩
    have hlink := h.acknowledge hm hack
    have hsame := hack.sameReceiver
    have hbegun : Delivered a s t :=
      ⟨hack.grows, hack.senderSound hs, hsame.sound hr, fun n hn => hsame.accounted hn, hlink⟩
    split
    · rename_i plan hplan
      obtain ⟨happ, htarget, hthrow⟩ :=
        applicable_of_disposition (hv.of_localLatest hack.localLatest_eq) (hremote ▸ hplan)
      rw [wp_bind]
      refine (wp_commitReceive hbegun.receiver happ).mono ?_ ?_
      · intro commit u hc
        have hg := hc.grows
        exact ⟨⟨Nat.le_trans hack.grows.localLatest hg.localLatest, Nat.le_trans hack.grows.known hg.known,
            Nat.le_trans hack.grows.remoteLatest hg.remoteLatest⟩,
          hc.sender.sound hbegun.sender, hc.sound, fun n hn => hc.accounted (hbegun.accounted n hn),
          hlink.construct hm htarget hthrow hc⟩
      · rintro _ _ ⟨rfl, -⟩
        exact hbegun
    · exact hbegun
  · rintro _ _ ⟨rfl, -⟩
    exact ⟨.refl _, hs, hr, fun _ hn => hn, h⟩

/-! ### Runs -/

/-- Both endpoints are sound, and each knows its peer. -/
structure Exchanging (a b : Endpoint) : Prop where
  sender : SenderSound a.state
  receiver : ReceiverSound a.state
  link : Link a b.state

def Network.Safe (n : Network) : Prop := ∀ side, Exchanging (n.endpoint side) (n.endpoint side.peer)

namespace Network

theorem Safe.peer {n : Network} (h : n.Safe) (side : Side) :
    Exchanging (n.endpoint side.peer) (n.endpoint side) := by
  have hpeer := h side.peer
  cases side <;> exact hpeer

theorem safe_setEndpoint {n : Network} {side : Side} {e : Endpoint} (h : Exchanging e (n.endpoint side.peer))
    (hback : Exchanging (n.endpoint side.peer) e) : (n.setEndpoint e side).Safe := by
  intro side'
  cases side <;> cases side' <;> first | exact h | exact hback

/-- The endpoint that acts stays sound, and so does what each endpoint knows of the other. -/
theorem exchanging_act {n : Network} (h : n.Safe) (side : Side) (action : NetworkAction) :
    Exchanging (n.act side action) (n.endpoint side.peer) ∧ Exchanging (n.endpoint side.peer) (n.act side action) := by
  have hself := h side
  have hpeer := h.peer side
  have hsend : ∀ s, SenderStep (n.endpoint side).state s →
      Exchanging { n.endpoint side with state := s } (n.endpoint side.peer) ∧
        Exchanging (n.endpoint side.peer) { n.endpoint side with state := s } := by
    intro s hs
    exact ⟨⟨hs.sound hself.sender, hs.receiver.sound hself.receiver,
        hself.link.sender hs.grows fun n hn => hs.receiver.accounted hn⟩,
      ⟨hpeer.sender, hpeer.receiver, hpeer.link.receiver hs⟩⟩
  cases action with
  | advance => exact hsend _ (senderStep_advance _)
  | plan nowMs timeoutMs difference chaff =>
    have hstate := state_plan (n.endpoint side) nowMs timeoutMs difference chaff
    refine ⟨⟨?_, ?_, hself.link.plan hself.sender hself.receiver nowMs timeoutMs difference chaff⟩,
      ⟨hpeer.sender, hpeer.receiver, ?_⟩⟩
    · exact hstate.symm ▸ hself.sender
    · exact hstate.symm ▸ hself.receiver
    · exact hstate.symm ▸ hpeer.link
  | commit index =>
    simp only [act, Endpoint.commit]
    split
    · exact ⟨hself, hpeer⟩
    · exact hsend _ (senderStep_commit _ _)
  | deliver index =>
    simp only [act, Endpoint.deliver]
    split
    · exact ⟨hself, hpeer⟩
    · rename_i m hm
      have hd := delivered_exec_receive hself.sender hself.receiver hpeer.link (List.mem_of_getElem? hm)
      exact ⟨⟨hd.sender, hd.receiver, hself.link.sender hd.grows hd.accounted⟩,
        ⟨hpeer.sender, hpeer.receiver, hd.link⟩⟩

theorem safe_new : new.Safe := by
  have hlink : Link Endpoint.new SynchronizationState.new := by
    constructor
    · intro m hm; cases hm
    · intro n hn hne; exact absurd (List.mem_singleton.mp hn) hne
    · exact Nat.le_refl _
    · exact Nat.le_refl _
    · exact Nat.le_refl _
    · intro m hm; cases hm
    · exact Or.inl List.mem_cons_self
  intro side
  cases side <;> exact ⟨senderSound_new, receiverSound_new, hlink⟩

theorem safe_run (actions : List (Side × NetworkAction)) : (run actions).Safe := by
  have hfold : ∀ (actions : List (Side × NetworkAction)) (n : Network), n.Safe →
      (actions.foldl (fun network action => network.step action.1 action.2) n).Safe := by
    intro actions
    induction actions with
    | nil => exact fun n hn => hn
    | cons action rest ih =>
      intro n hn
      obtain ⟨hself, hpeer⟩ := exchanging_act hn action.1 action.2
      exact ih _ (safe_setEndpoint hself hpeer)
  exact hfold actions new safe_new

/-- In every run of the two-endpoint system the numbers of each endpoint stay within those of its peer,
    and every instruction in flight is received without an error, unless the receiver has no generation
    left for its acknowledgement. -/
theorem run_safe (actions : List (Side × NetworkAction)) (side : Side) :
    let s := ((run actions).endpoint side).state
    let peer := (run actions).endpoint side.peer
    (∀ n ∈ s.receivedStates, n ≠ 0 → ∃ m ∈ peer.sent, m.newState = n) ∧
      s.remoteLatest ≤ peer.state.localLatest ∧
      s.knownReceiverState ≤ peer.state.remoteLatest ∧
      s.remoteThrowawayFloor ≤ peer.state.knownReceiverState ∧
      ∀ m ∈ peer.sent, (∃ transition t, beginReceive m s = .ok transition t) ∨
        beginReceive m s = .error .generationExhausted s ∧ 2 ^ 64 ≤ s.senderGeneration + 1 := by
  have hself := safe_run actions side
  have hlink := ((safe_run actions).peer side).link
  refine ⟨hlink.received, hlink.latest_le, hlink.known_le, hlink.floor_le, fun m hm => ?_⟩
  have hbegin := wp_beginReceive m ((run actions).endpoint side).state
  cases h : beginReceive m ((run actions).endpoint side).state with
  | ok transition t => exact Or.inl ⟨transition, t, rfl⟩
  | error e t =>
    obtain ⟨rfl, ⟨hinvalid, -⟩ | ⟨rfl, hexhausted⟩⟩ := hbegin.error h
    · exact absurd (hlink.valid hself.link hm) hinvalid
    · exact Or.inr ⟨rfl, hexhausted⟩

/-! ### Retention -/

/-- A new latest state always finds a place in the window. -/
theorem canRetain_of_latest {s : SynchronizationState} (hs : ReceiverSound s) {n : Nat} (hn : s.remoteLatest < n) :
    s.canRetainReceivedState n = true := by
  unfold canRetainReceivedState
  split
  · rfl
  · rename_i hlen
    have hlt : s.firstEvictable < s.receivedStates.length := by
      have := s.firstEvictable_le
      have : maxReceivedReferenceStates = 32 := rfl
      omega
    rw [List.getElem?_eq_getElem hlt]
    have := hs.le_latest _ (List.getElem_mem hlt)
    simp only [Option.any_some, decide_eq_true_eq]
    omega

/-- The answer to an instruction whose base is at or above the floor and whose target is at least the
    latest state. -/
theorem disposition_cases {s : SynchronizationState} (hs : ReceiverSound s) {m : TransportInstruction}
    (hbase : s.remoteThrowawayFloor ≤ m.baseState) (hlt : m.baseState < m.newState)
    (hlatest : s.remoteLatest ≤ m.newState) :
    s.disposition m = .alreadyConstructed ∨ (∃ plan, s.disposition m = .apply plan) ∨
      s.disposition m = .missingReference ∧ m.baseState ∉ s.receivedStates := by
  unfold disposition
  rw [if_neg (by omega)]
  split
  · exact Or.inl rfl
  · rename_i hnew
    split
    · rename_i hmissing
      exact Or.inr (Or.inr ⟨rfl, hmissing⟩)
    · have hne : m.newState ≠ s.remoteLatest := fun h => hnew (h ▸ hs.latest_mem)
      rw [canRetain_of_latest hs (by omega)]
      exact Or.inr (Or.inl ⟨_, rfl⟩)

theorem Link.known_retained {a b : Endpoint} (h : Link a b.state) (hback : Link b a.state) :
    b.state.knownReceiverState ∈ a.state.receivedStates ∨
      maxReceivedReferenceStates ≤ Increasing.above b.state.knownReceiverState a.state.receivedStates + 1 := by
  have hfloor := hback.floor_le
  rcases h.known with hmem | habove | hlt
  · exact Or.inl hmem
  · exact Or.inr habove
  · omega

/-- In every run each endpoint's known receiver state is retained by its peer, or gave way there to at
    least 31 newer references. An instruction freshly planned from the known receiver state is applied or
    was already constructed; only in the second case can its base be missing. -/
theorem run_retained (actions : List (Side × NetworkAction)) (side : Side) :
    let s := ((run actions).endpoint side).state
    let peer := ((run actions).endpoint side.peer).state
    (s.knownReceiverState ∈ peer.receivedStates ∨
        maxReceivedReferenceStates - 1 ≤ Increasing.above s.knownReceiverState peer.receivedStates) ∧
      ∀ nowMs timeoutMs difference chaff plan, s.planSend nowMs timeoutMs = .ok plan →
        plan.baseState = s.knownReceiverState →
        let answer := peer.answer (plan.instruction difference chaff)
        answer = .ok .alreadyConstructed ∨ (∃ apply, answer = .ok (.apply apply)) ∨
          answer = .ok .missingReference ∧ s.knownReceiverState ∉ peer.receivedStates ∧
            maxReceivedReferenceStates - 1 ≤ Increasing.above s.knownReceiverState peer.receivedStates ∨
          answer = .error .generationExhausted ∧ 2 ^ 64 ≤ peer.senderGeneration + 1 := by
  have hself := safe_run actions side
  have hpeer := (safe_run actions).peer side
  have hwindow : maxReceivedReferenceStates = 32 := rfl
  have hretained := Link.known_retained hpeer.link hself.link
  refine ⟨hretained.imp_right fun h => by omega, fun nowMs timeoutMs difference chaff plan hplan hbase => ?_⟩
  have hp := planned_of_planSend hplan
  have hvalid : Valid ((run actions).endpoint side.peer).state (plan.instruction difference chaff) :=
    ⟨rfl, Nat.le_trans (Nat.le_of_eq hp.acknowledged) hpeer.link.latest_le,
      Nat.lt_of_lt_of_eq hp.base_lt hp.target.symm, hp.throwaway_le hself.sender⟩
  have hbegin := wp_beginReceive (plan.instruction difference chaff) ((run actions).endpoint side.peer).state
  unfold answer
  cases h : beginReceive (plan.instruction difference chaff) ((run actions).endpoint side.peer).state with
  | error e t =>
    obtain ⟨rfl, ⟨hinvalid, -⟩ | ⟨rfl, hexhausted⟩⟩ := hbegin.error h
    · exact absurd hvalid hinvalid
    · exact Or.inr (Or.inr (Or.inr ⟨rfl, hexhausted⟩))
  | ok transition t =>
    obtain ⟨-, hack, hremote⟩ := hbegin.ok h
    have hsame := hack.sameReceiver
    have hcases := disposition_cases (m := plan.instruction difference chaff) (hsame.sound hpeer.receiver)
      (show _ ≤ plan.baseState by rw [hsame.floor, hbase]; exact hself.link.floor_le)
      (show plan.baseState < plan.targetState by rw [hp.target]; exact hp.base_lt)
      (show _ ≤ plan.targetState by rw [hsame.latest, hp.target]; exact hself.link.latest_le)
    rw [← hremote, hsame.received] at hcases
    rcases hcases with hdone | ⟨apply, happly⟩ | ⟨hmissing, hnot⟩
    · exact Or.inl (congrArg Except.ok hdone)
    · exact Or.inr (Or.inl ⟨apply, congrArg Except.ok happly⟩)
    · have hnot' : ((run actions).endpoint side).state.knownReceiverState ∉
          ((run actions).endpoint side.peer).state.receivedStates := hbase ▸ hnot
      have habove := hretained.resolve_left hnot'
      exact Or.inr (Or.inr (Or.inl ⟨congrArg Except.ok hmissing, hnot', by omega⟩))

/-- The left endpoint sends 32 states. The right one acknowledges the first and then receives the others,
    the last of which evicts the first; the acknowledgement arrives after that. -/
def evictingActions : List (Side × NetworkAction) :=
  (List.range 32).flatMap (fun i => [(.left, .advance), (.left, .plan 0 1000 [] []), (.left, .commit i)]) ++
    [(.right, .deliver 0), (.right, .advance), (.right, .plan 0 1000 [] [])] ++
    (List.range 31).map (fun i => (.right, .deliver (i + 1))) ++ [(.left, .deliver 0), (.left, .advance)]

/-- After `evictingActions` the left endpoint knows state 1, which the right one no longer retains, and
    the next instruction planned from it has no reference. -/
theorem known_state_evicted :
    let s := (run evictingActions).left.state
    let peer := (run evictingActions).right.state
    s.knownReceiverState = 1 ∧ 1 ∉ peer.receivedStates ∧
      (s.planSend 5000 1000).toOption.map (fun plan => (plan.baseState, plan.targetState)) = some (1, 33) ∧
      (s.planSend 5000 1000).toOption.bind (fun plan => (peer.answer (plan.instruction [] [])).toOption) =
        some .missingReference := by
  decide +kernel

end Network
end MoshClient
