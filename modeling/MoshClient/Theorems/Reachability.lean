import MoshClient.Reachability

/-! The reachability tracker. Its deadline is chosen from the value it last reported, the value is recalculated from two
    clocks with windows of their own; along every run the two agree, so that nothing is reported late and no wake is for
    nothing. -/

namespace MoshClient
open Machine Limits Effect

namespace ReachabilityTracker

/-! ### What is calculated -/

/-- What the tracker calculates, and from what. -/
inductive Calculates (s : ReachabilityTracker) (nowMs : Nat) : SessionReachability → Prop where
  | awaitingPeer (hcontact : s.lastContactMs = none) : Calculates s nowMs .awaitingPeer
  | noRecentContact : Calculates s nowMs (.interrupted .noRecentContact)
  | noRecentReply (lastContactMs : Nat) (hcontact : s.lastContactMs = some lastContactMs)
      (hrecent : nowMs < lastContactMs + noRecentContactMs) : Calculates s nowMs (.interrupted .noRecentReply)
  | responsive (lastContactMs : Nat) (hcontact : s.lastContactMs = some lastContactMs)
      (hrecent : nowMs < lastContactMs + noRecentContactMs) (hreply : nowMs < s.lastReplyMs + noRecentReplyMs) :
      Calculates s nowMs .responsive

theorem calculate_ok {s : ReachabilityTracker} {nowMs : Nat} {next : SessionReachability}
    (h : s.calculate nowMs = .ok next) : Calculates s nowMs next := by
  unfold calculate at h
  split at h
  · cases h
    exact .awaitingPeer ‹_›
  · rename_i lastContactMs hcontact
    split at h
    · cases h
    · rename_i contactAge hage
      obtain ⟨rfl, -⟩ := checkedSub_eq_some.mp hage
      split at h
      · cases h
        exact .noRecentContact
      · split at h
        · cases h
        · rename_i replyAge hreplyAge
          obtain ⟨rfl, -⟩ := checkedSub_eq_some.mp hreplyAge
          split at h
          · cases h
            exact .noRecentReply lastContactMs hcontact (by omega)
          · cases h
            exact .responsive lastContactMs hcontact (by omega) (by omega)

/-- An update leaves what it calculates. -/
theorem wp_update (nowMs : Nat) (s : ReachabilityTracker) :
    wp (update nowMs) (fun _ t => t.Calculates nowMs t.current) (fun _ _ => True) s := by
  unfold wp update
  cases h : s.calculate nowMs with
  | error e => exact trivial
  | ok next =>
    by_cases hsame : next = s.current
    · simp only [if_pos hsame]
      exact hsame ▸ calculate_ok h
    · simp only [if_neg hsame]
      exact calculate_ok (s := { s with current := next }) h

theorem contactDeadlineMs_ok {s : ReachabilityTracker} {lastContactMs deadline : Nat}
    (hcontact : s.lastContactMs = some lastContactMs) (h : s.contactDeadlineMs = .ok deadline) :
    deadline = lastContactMs + noRecentContactMs := by
  unfold contactDeadlineMs at h
  rw [hcontact] at h
  simp only at h
  split at h
  · cases h
  · rename_i hadd
    cases h
    exact (checkedAdd_eq_some.mp hadd).1

/-- When a value changes next with the time alone. -/
def changesAt (lastContactMs lastReplyMs : Nat) : SessionReachability → Option Nat
  | .awaitingPeer => some initialAttachmentTimeoutMs
  | .responsive => some (min (lastContactMs + noRecentContactMs) (lastReplyMs + noRecentReplyMs))
  | .interrupted .noRecentReply => some (lastContactMs + noRecentContactMs)
  | .interrupted .noRecentContact => none

theorem nextDeadlineMs_ok {s : ReachabilityTracker} {lastContactMs : Nat} {deadline : Option Nat}
    (hcontact : s.lastContactMs = some lastContactMs) (h : s.nextDeadlineMs = .ok deadline) :
    deadline = changesAt lastContactMs s.lastReplyMs s.current := by
  unfold nextDeadlineMs at h
  generalize s.current = current at h
  cases current with
  | awaitingPeer =>
    cases h
    rfl
  | responsive =>
    obtain ⟨contact, hdeadline, h⟩ := exists_of_bind_ok h
    split at h
    · cases h
    · rename_i reply hadd
      cases h
      obtain ⟨rfl, -⟩ := checkedAdd_eq_some.mp hadd
      rw [contactDeadlineMs_ok hcontact hdeadline]
      rfl
  | interrupted reason =>
    cases reason with
    | noRecentContact =>
      cases h
      rfl
    | noRecentReply =>
      obtain ⟨contact, hdeadline, h⟩ := exists_of_bind_ok h
      cases h
      rw [contactDeadlineMs_ok hcontact hdeadline]
      rfl

/-- The next change of an updated tracker lies ahead, unless the attachment has timed out. -/
theorem lt_nextDeadlineMs {s : ReachabilityTracker} {nowMs deadline : Nat} (hupdated : s.Calculates nowMs s.current)
    (hattached : s.attachmentTimedOut nowMs = false) (h : s.nextDeadlineMs = .ok (some deadline)) : nowMs < deadline := by
  have hchanges {lastContactMs : Nat} (hcontact : s.lastContactMs = some lastContactMs) :=
    (nextDeadlineMs_ok hcontact h).symm
  unfold nextDeadlineMs at h
  generalize s.current = current at hupdated h hchanges
  cases hupdated with
  | awaitingPeer hcontact =>
    cases h
    simpa [attachmentTimedOut, hcontact] using hattached
  | noRecentContact => cases h
  | noRecentReply lastContactMs hcontact hrecent =>
    have hat := hchanges hcontact
    simp only [changesAt, Option.some.injEq] at hat
    subst hat
    exact hrecent
  | responsive lastContactMs hcontact hrecent hreply =>
    have hat := hchanges hcontact
    simp only [changesAt, Option.some.injEq] at hat
    subst hat
    exact Nat.lt_min.mpr ⟨hrecent, hreply⟩

/-! ### Runs -/

/-- What the tracker has noted lies in the past. -/
structure Noted (s : ReachabilityTracker) (nowMs : Nat) : Prop where
  contact : ∀ lastContactMs, s.lastContactMs = some lastContactMs → lastContactMs ≤ nowMs
  reply : s.lastReplyMs ≤ nowMs

/-- The trackers at a time: time passes, and at any time contact is noted, or a reply to what was sent before, or the
    tracker is updated. -/
inductive Reached : Nat → ReachabilityTracker → Prop where
  | new : Reached 0 new
  | advance {nowMs laterMs : Nat} {s : ReachabilityTracker} (h : Reached nowMs s) (hlater : nowMs ≤ laterMs) :
      Reached laterMs s
  | noteContact {nowMs contactMs : Nat} {s : ReachabilityTracker} (h : Reached nowMs s) (hpast : contactMs ≤ nowMs) :
      Reached nowMs (s.noteContact contactMs)
  | noteReply {nowMs sentAtMs : Nat} {s : ReachabilityTracker} (h : Reached nowMs s) (hpast : sentAtMs ≤ nowMs) :
      Reached nowMs (s.noteReply sentAtMs)
  | update {nowMs : Nat} {s t : ReachabilityTracker} {published : Option SessionReachability} (h : Reached nowMs s)
      (hupdate : update nowMs s = .ok published t) : Reached nowMs t

/-- The value of a tracker that has had contact. The contact window is looked at first. -/
def observed (lastContactMs lastReplyMs nowMs : Nat) : SessionReachability :=
  if lastContactMs + noRecentContactMs ≤ nowMs then .interrupted .noRecentContact
  else if lastReplyMs + noRecentReplyMs ≤ nowMs then .interrupted .noRecentReply
  else .responsive

theorem calculate_none {s : ReachabilityTracker} (h : s.lastContactMs = none) (nowMs : Nat) :
    s.calculate nowMs = .ok .awaitingPeer := by
  simp only [calculate, h]

theorem calculate_some {s : ReachabilityTracker} {nowMs lastContactMs : Nat} (hs : s.Noted nowMs)
    (h : s.lastContactMs = some lastContactMs) :
    s.calculate nowMs = .ok (observed lastContactMs s.lastReplyMs nowMs) := by
  have hcontact := hs.contact lastContactMs h
  have hreply := hs.reply
  have hcontactAge : lastContactMs + noRecentContactMs ≤ nowMs ↔ nowMs - lastContactMs ≥ noRecentContactMs := by omega
  have hreplyAge : s.lastReplyMs + noRecentReplyMs ≤ nowMs ↔ nowMs - s.lastReplyMs ≥ noRecentReplyMs := by omega
  simp only [calculate, h, checkedSub, hcontact, hreply, if_true, observed, hcontactAge, hreplyAge]
  split
  · rfl
  · split <;> rfl

theorem Noted.calculate {s : ReachabilityTracker} {nowMs : Nat} (h : s.Noted nowMs) :
    ∃ next, s.calculate nowMs = .ok next := by
  cases hcontact : s.lastContactMs with
  | none => exact ⟨_, calculate_none hcontact nowMs⟩
  | some lastContactMs => exact ⟨_, calculate_some h hcontact⟩

theorem Noted.later {s : ReachabilityTracker} {nowMs laterMs : Nat} (h : s.Noted nowMs) (hlater : nowMs ≤ laterMs) :
    s.Noted laterMs :=
  ⟨fun lastContactMs hcontact => (h.contact lastContactMs hcontact).trans hlater, h.reply.trans hlater⟩

/-- An update that returns leaves the calculated value, and reports it exactly when it is new. -/
theorem update_ok {s t : ReachabilityTracker} {nowMs : Nat} {published : Option SessionReachability}
    (h : update nowMs s = .ok published t) :
    t = { s with current := t.current } ∧ t.calculate nowMs = .ok t.current ∧
      published = if t.current = s.current then none else some t.current := by
  unfold update at h
  cases hnext : s.calculate nowMs with
  | error e =>
    rw [hnext] at h
    cases h
  | ok next =>
    rw [hnext] at h
    by_cases hsame : next = s.current
    · simp only [if_pos hsame] at h
      cases h
      exact ⟨rfl, hsame ▸ hnext, by rw [if_pos rfl]⟩
    · simp only [if_neg hsame] at h
      cases h
      exact ⟨rfl, hnext, by rw [if_neg hsame]⟩

theorem Reached.noted {nowMs : Nat} {s : ReachabilityTracker} (h : Reached nowMs s) : s.Noted nowMs := by
  induction h with
  | new => exact ⟨fun _ h => absurd h (by simp [ReachabilityTracker.new]), Nat.le_refl 0⟩
  | advance _ hlater ih => exact ih.later hlater
  | noteContact _ hpast ih => exact ⟨fun _ h => Option.some.inj h ▸ hpast, ih.reply⟩
  | noteReply _ hpast ih => exact ⟨ih.contact, Nat.max_le.mpr ⟨ih.reply, hpast⟩⟩
  | update _ hupdate ih =>
    obtain ⟨ht, -, -⟩ := update_ok hupdate
    rw [ht]
    exact ⟨ih.contact, ih.reply⟩

/-! ### An updated tracker -/

theorem update_unchanged {s : ReachabilityTracker} {nowMs : Nat} (h : s.calculate nowMs = .ok s.current) :
    update nowMs s = .ok none s := by
  simp only [update, h, if_true]

theorem update_changed {s : ReachabilityTracker} {nowMs : Nat} {next : SessionReachability}
    (h : s.calculate nowMs = .ok next) (hnew : next ≠ s.current) :
    update nowMs s = .ok (some next) { s with current := next } := by
  simp only [update, h, if_neg hnew]

/-- The three values of a tracker that has had contact, each with the windows that are open. -/
theorem observed_cases (lastContactMs lastReplyMs nowMs : Nat) :
    (lastContactMs + noRecentContactMs ≤ nowMs ∧
      observed lastContactMs lastReplyMs nowMs = .interrupted .noRecentContact) ∨
    (nowMs < lastContactMs + noRecentContactMs ∧ lastReplyMs + noRecentReplyMs ≤ nowMs ∧
      observed lastContactMs lastReplyMs nowMs = .interrupted .noRecentReply) ∨
    (nowMs < lastContactMs + noRecentContactMs ∧ nowMs < lastReplyMs + noRecentReplyMs ∧
      observed lastContactMs lastReplyMs nowMs = .responsive) := by
  unfold observed
  split
  · exact .inl ⟨‹_›, rfl⟩
  · split
    · exact .inr (.inl ⟨by omega, ‹_›, rfl⟩)
    · exact .inr (.inr ⟨by omega, by omega, rfl⟩)

theorem observed_eq_of_lt {lastContactMs lastReplyMs nowMs t deadline : Nat} (hnow : nowMs ≤ t) (ht : t < deadline)
    (h : changesAt lastContactMs lastReplyMs (observed lastContactMs lastReplyMs nowMs) = some deadline) :
    observed lastContactMs lastReplyMs t = observed lastContactMs lastReplyMs nowMs := by
  obtain ⟨-, hvalue⟩ | ⟨-, hreply, hvalue⟩ | ⟨-, -, hvalue⟩ := observed_cases lastContactMs lastReplyMs nowMs
  · simp [hvalue, changesAt] at h
  · simp only [hvalue, changesAt, Option.some.injEq] at h
    subst h
    rw [hvalue]
    unfold observed
    rw [if_neg (by omega), if_pos (by omega)]
  · simp only [hvalue, changesAt, Option.some.injEq] at h
    subst h
    rw [hvalue]
    obtain ⟨hcontact, hreply⟩ := Nat.lt_min.mp ht
    unfold observed
    rw [if_neg (by omega), if_neg (by omega)]

theorem observed_ne_at {lastContactMs lastReplyMs nowMs deadline : Nat}
    (h : changesAt lastContactMs lastReplyMs (observed lastContactMs lastReplyMs nowMs) = some deadline) :
    observed lastContactMs lastReplyMs deadline ≠ observed lastContactMs lastReplyMs nowMs := by
  obtain ⟨-, hvalue⟩ | ⟨-, -, hvalue⟩ | ⟨-, -, hvalue⟩ := observed_cases lastContactMs lastReplyMs nowMs
  · simp [hvalue, changesAt] at h
  · simp only [hvalue, changesAt, Option.some.injEq] at h
    subst h
    rw [hvalue]
    unfold observed
    rw [if_pos (Nat.le_refl _)]
    simp
  · simp only [hvalue, changesAt, Option.some.injEq] at h
    subst h
    rw [hvalue]
    unfold observed
    split
    · simp
    · rw [if_pos (by omega)]
      simp

/-- Lost contact stays lost until there is contact. -/
theorem observed_eq_of_none {lastContactMs lastReplyMs nowMs t : Nat} (hnow : nowMs ≤ t)
    (h : changesAt lastContactMs lastReplyMs (observed lastContactMs lastReplyMs nowMs) = none) :
    observed lastContactMs lastReplyMs t = observed lastContactMs lastReplyMs nowMs := by
  obtain ⟨hcontact, hvalue⟩ | ⟨-, -, hvalue⟩ | ⟨-, -, hvalue⟩ := observed_cases lastContactMs lastReplyMs nowMs
  · rw [hvalue]
    unfold observed
    rw [if_pos (by omega)]
  · simp [hvalue, changesAt] at h
  · simp [hvalue, changesAt] at h

/-- The tracker has been updated at this time. -/
structure Updated (s : ReachabilityTracker) (nowMs : Nat) : Prop where
  noted : s.Noted nowMs
  current : s.calculate nowMs = .ok s.current

/-- An updated tracker still waits for the peer, or has had contact and reports what follows from its two clocks. -/
theorem Updated.cases {s : ReachabilityTracker} {nowMs : Nat} (h : s.Updated nowMs) :
    (s.lastContactMs = none ∧ s.current = .awaitingPeer) ∨
      ∃ lastContactMs, s.lastContactMs = some lastContactMs ∧ s.current = observed lastContactMs s.lastReplyMs nowMs := by
  have hcurrent := h.current
  cases hcontact : s.lastContactMs with
  | none =>
    rw [calculate_none hcontact] at hcurrent
    exact .inl ⟨rfl, (Except.ok.inj hcurrent).symm⟩
  | some lastContactMs =>
    rw [calculate_some h.noted hcontact] at hcurrent
    exact .inr ⟨lastContactMs, rfl, (Except.ok.inj hcurrent).symm⟩

/-- The deadline of a tracker that has had contact is where the value that it reports changes. -/
theorem changesAt_eq {s : ReachabilityTracker} {nowMs lastContactMs : Nat} {deadline : Option Nat}
    (hcontact : s.lastContactMs = some lastContactMs) (hcurrent : s.current = observed lastContactMs s.lastReplyMs nowMs)
    (hdeadline : s.nextDeadlineMs = .ok deadline) :
    changesAt lastContactMs s.lastReplyMs (observed lastContactMs s.lastReplyMs nowMs) = deadline := by
  rw [← hcurrent, nextDeadlineMs_ok hcontact hdeadline]

/-- Before its deadline the value stays. -/
theorem Updated.calculate_eq_of_lt {s : ReachabilityTracker} {nowMs t deadline : Nat} (h : s.Updated nowMs)
    (hdeadline : s.nextDeadlineMs = .ok (some deadline)) (hnow : nowMs ≤ t) (ht : t < deadline) :
    s.calculate t = .ok s.current := by
  obtain ⟨hcontact, hcurrent⟩ | ⟨lastContactMs, hcontact, hcurrent⟩ := h.cases
  · rw [calculate_none hcontact, hcurrent]
  · have hstays := observed_eq_of_lt hnow ht (changesAt_eq hcontact hcurrent hdeadline)
    rw [calculate_some (h.noted.later hnow) hcontact, hstays, hcurrent]

theorem Updated.calculate_eq_of_none {s : ReachabilityTracker} {nowMs t : Nat} (h : s.Updated nowMs)
    (hdeadline : s.nextDeadlineMs = .ok none) (hnow : nowMs ≤ t) : s.calculate t = .ok s.current := by
  obtain ⟨hcontact, hcurrent⟩ | ⟨lastContactMs, hcontact, hcurrent⟩ := h.cases
  · rw [calculate_none hcontact, hcurrent]
  · have hstays := observed_eq_of_none hnow (changesAt_eq hcontact hcurrent hdeadline)
    rw [calculate_some (h.noted.later hnow) hcontact, hstays, hcurrent]

/-- Before its deadline, an attachment that has not timed out does not. -/
theorem Updated.attachmentTimedOut_eq_of_lt {s : ReachabilityTracker} {nowMs t deadline : Nat} (h : s.Updated nowMs)
    (hdeadline : s.nextDeadlineMs = .ok (some deadline)) (hnow : nowMs ≤ t) (ht : t < deadline) :
    s.attachmentTimedOut t = s.attachmentTimedOut nowMs := by
  obtain ⟨hcontact, hcurrent⟩ | ⟨lastContactMs, hcontact, -⟩ := h.cases
  · simp only [nextDeadlineMs, hcurrent] at hdeadline
    cases hdeadline
    have hlater : ¬t ≥ initialAttachmentTimeoutMs := by omega
    have hpresent : ¬nowMs ≥ initialAttachmentTimeoutMs := by omega
    simp only [attachmentTimedOut, hlater, hpresent]
  · simp only [attachmentTimedOut, hcontact, Option.isNone_some, Bool.false_and]

/-- At its deadline something happens: the value changes, or the attachment times out. -/
theorem Updated.due {s : ReachabilityTracker} {nowMs deadline : Nat} (h : s.Updated nowMs)
    (hdeadline : s.nextDeadlineMs = .ok (some deadline)) :
    (∃ next, next ≠ s.current ∧ s.calculate deadline = .ok next) ∨ s.attachmentTimedOut deadline = true := by
  obtain ⟨hcontact, hcurrent⟩ | ⟨lastContactMs, hcontact, hcurrent⟩ := h.cases
  · simp only [nextDeadlineMs, hcurrent] at hdeadline
    cases hdeadline
    exact .inr (by simp [attachmentTimedOut, hcontact])
  · have hchanged := observed_ne_at (changesAt_eq hcontact hcurrent hdeadline)
    have hattached : s.attachmentTimedOut nowMs = false := by simp [attachmentTimedOut, hcontact]
    have hahead := lt_nextDeadlineMs (calculate_ok h.current) hattached hdeadline
    exact .inl ⟨_, hcurrent ▸ hchanged, calculate_some (h.noted.later hahead.le) hcontact⟩

/-- The deadline of an updated tracker fails only where a window ends past the last time. -/
theorem Updated.nextDeadlineMs_ne {s : ReachabilityTracker} {nowMs : Nat} (h : s.Updated nowMs) :
    s.nextDeadlineMs ≠ .error .timeMovedBackwards := by
  obtain ⟨-, hcurrent⟩ | ⟨lastContactMs, hcontact, -⟩ := h.cases
  · simp [nextDeadlineMs, hcurrent]
  · have hcontactDeadline : s.contactDeadlineMs ≠ .error .timeMovedBackwards := by
      simp only [contactDeadlineMs, hcontact]
      split <;> simp
    intro hfails
    unfold nextDeadlineMs at hfails
    split at hfails
    · cases hfails
    · obtain hfails | ⟨contact, -, hfails⟩ := exists_of_bind_error hfails
      · exact hcontactDeadline hfails
      · split at hfails <;> cases hfails
    · obtain hfails | ⟨contact, -, hfails⟩ := exists_of_bind_error hfails
      · exact hcontactDeadline hfails
      · cases hfails
    · cases hfails

theorem updated_of_reached {nowMs : Nat} {s : ReachabilityTracker} (h : Reached nowMs s) :
    ∃ published t, update nowMs s = .ok published t ∧ t.Updated nowMs := by
  obtain ⟨next, hnext⟩ := h.noted.calculate
  by_cases hsame : next = s.current
  · have hupdate := update_unchanged (hsame ▸ hnext)
    exact ⟨_, _, hupdate, (h.update hupdate).noted, hsame ▸ hnext⟩
  · have hupdate := update_changed hnext hsame
    exact ⟨_, _, hupdate, (h.update hupdate).noted, hnext⟩

/-- The deadlines of the tracker are exact. An update in a run returns; before the deadline it leaves, later updates
    report nothing and the attachment neither times out; the deadline lies ahead unless the attachment has timed
    out; at the deadline the value changes or the attachment times out; and where there is no deadline no later time
    alone changes the value. Lost contact hides a missing reply. -/
theorem reached_deadline_exact {nowMs : Nat} {s : ReachabilityTracker} (h : Reached nowMs s) :
    ∃ published t, update nowMs s = .ok published t ∧
      (∀ deadline, t.nextDeadlineMs = .ok (some deadline) →
        (∀ laterMs, nowMs ≤ laterMs → laterMs < deadline →
          update laterMs t = .ok none t ∧ t.attachmentTimedOut laterMs = t.attachmentTimedOut nowMs) ∧
        (t.attachmentTimedOut nowMs = false → nowMs < deadline) ∧
        ((∃ next, next ≠ t.current ∧ update deadline t = .ok (some next) { t with current := next }) ∨
          t.attachmentTimedOut deadline = true)) ∧
      (t.nextDeadlineMs = .ok none → ∀ laterMs, nowMs ≤ laterMs → update laterMs t = .ok none t) ∧
      t.nextDeadlineMs ≠ .error .timeMovedBackwards ∧
      ∀ lastContactMs, t.lastContactMs = some lastContactMs → lastContactMs + noRecentContactMs ≤ nowMs →
        t.current = .interrupted .noRecentContact := by
  obtain ⟨published, t, hupdate, ht⟩ := updated_of_reached h
  refine ⟨published, t, hupdate, ?_, ?_, ht.nextDeadlineMs_ne, ?_⟩
  · intro deadline hdeadline
    refine ⟨?_, ?_, ?_⟩
    · intro laterMs hlater hbefore
      exact ⟨update_unchanged (ht.calculate_eq_of_lt hdeadline hlater hbefore),
        ht.attachmentTimedOut_eq_of_lt hdeadline hlater hbefore⟩
    · intro hattached
      exact lt_nextDeadlineMs (calculate_ok ht.current) hattached hdeadline
    · obtain ⟨next, hnew, hnext⟩ | htimedOut := ht.due hdeadline
      · exact .inl ⟨next, hnew, update_changed hnext hnew⟩
      · exact .inr htimedOut
  · intro hdeadline laterMs hlater
    exact update_unchanged (ht.calculate_eq_of_none hdeadline hlater)
  · intro lastContactMs hcontact hlost
    obtain ⟨hnone, -⟩ | ⟨_, hsome, hcurrent⟩ := ht.cases
    · rw [hnone] at hcontact
      cases hcontact
    · rw [hsome] at hcontact
      cases hcontact
      rw [hcurrent, observed, if_pos hlost]

/-- After contact and a reply at 1000 ms the peer is responsive, and until 7500 ms nothing changes. -/
theorem reached_deadline_exact_responsive :
    Reached 1000 ((new.noteContact 1000).noteReply 1000) ∧
      nextDeadlineMs ⟨.responsive, some 1000, 1000⟩ = .ok (some 7500) ∧
      ∀ laterMs, 1000 ≤ laterMs → laterMs < 7500 →
        update laterMs ⟨.responsive, some 1000, 1000⟩ = .ok none ⟨.responsive, some 1000, 1000⟩ := by
  have hreached : Reached 1000 ((new.noteContact 1000).noteReply 1000) :=
    ((Reached.new.advance (by decide)).noteContact (Nat.le_refl 1000)).noteReply (Nat.le_refl 1000)
  have hdeadline : nextDeadlineMs ⟨.responsive, some 1000, 1000⟩ = .ok (some 7500) := by decide
  obtain ⟨published, t, hupdate, hdue, -⟩ := reached_deadline_exact hreached
  cases hupdate
  exact ⟨hreached, hdeadline, fun laterMs hlater hbefore => ((hdue 7500 hdeadline).1 laterMs hlater hbefore).1⟩

end ReachabilityTracker
end MoshClient
