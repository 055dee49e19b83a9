import BeLa.OffloadedFlows

/-!
A NAT that offloads. The calls on a card's channel are for packets that the NAT of
its VM translates. Then the switch translates exactly the packets whose calls have
returned 1, as long as nothing has taken their rules away, and it translates each
of them as the NAT would.
-/
namespace BeLa.NatOffload

open Runs BeLa.Flow OfctlRule MatchMeaning UpdateText Switch Command Stages SharedBridge
open BridgeTenants Translation NatFlows NatBridge Offloading OffloadedFlows

/-- A call that goes on over the channel of the card is for a packet that the NAT translates. -/
def FromNat (table : Translator Endpoint Endpoint) (k : ℕ) (s : System) (ev : SystemEvent) : Prop :=
  ∀ x ∈ s.daemon.events, x.arg = k → ∀ meeting, ev = .proceed x.id meeting →
    ∀ call, (s.vms x.id).call = some call → Offloaded table call.flow

/-- The switch makes the one packet the other by a rule of the card. -/
def Switched (reader : UpdateReader) (s : System) (k : ℕ) (p p' : Packet) : Prop :=
  ∃ r ∈ s.daemon.shared.rules, HeldBy s.daemon k r ∧ Takes (entryOf r) p ∧
    forward reader (entryOf r) p = p'

section

variable {table : Translator Endpoint Endpoint} {reader : UpdateReader} {rules : List SwitchRule}
variable {displaces : Entry → Entry → Prop} {evs : List SystemEvent} {s : System} {n k : ℕ}
variable {e : Entry}

theorem flow_of_enter {id : ℕ} {flow : AccFlow} {call : Pending} {vnf vnf' : Accelerate.Vnf}
    (h : enter id flow vnf = .ok (call, vnf')) : call.flow = flow := by
  unfold enter at h
  split at h
  · cases h
  · split at h
    · cases h
    · cases h
      rfl

theorem flow_of_left {run : Accelerate.ConnectRun} {call next : Pending} {vnf vnf' : Accelerate.Vnf}
    (h : proceed run call vnf = .ok (.left next, vnf')) : next.flow = call.flow := by
  unfold proceed at h
  split at h
  · split at h
    · cases h
    · split at h
      · cases h
        rfl
      · cases h
  · split at h
    · cases h
    · split at h
      · cases h
      · cases h
        rfl
  · split at h
    · cases h
    · cases h

def AllPending (F : AccFlow → Prop) (s : System) : Prop :=
  ∀ channel call, (s.vms channel).call = some call → F call.flow

theorem pending_goOn {F : AccFlow → Prop} {s s' : System} {channel : ℕ}
    {run : Accelerate.ConnectRun} {call : Pending} (hs : AllPending F s) (hcall : F call.flow)
    (h : goOn s channel run call = .ok s') : AllPending F s' := by
  unfold goOn at h
  split at h
  · cases h
  · rename_i rest vnf hproceed
    cases h
    intro other next hnext
    by_cases hother : other = channel
    · subst hother
      simp only [Function.update_self] at hnext
      cases rest with
      | returned ok => cases hnext
      | left left =>
        cases hnext
        rwa [flow_of_left hproceed]
    · simp only [Function.update_of_ne hother] at hnext
      exact hs other next hnext

/-- A flow stays that of its call until the call returns. -/
theorem pending_step {F : AccFlow → Prop} {s s' : System} {ev : SystemEvent} (hs : AllPending F s)
    (hev : ∀ channel id flow, ev = .enter channel id flow → F flow)
    (h : systemStep s ev = .ok s') : AllPending F s' := by
  cases ev with
  | request req =>
    simp only [systemStep] at h
    split at h
    · cases h
    · cases h
      exact hs
  | enter channel id flow =>
    simp only [systemStep] at h
    split at h
    · cases h
      exact hs
    · split at h
      · cases h
      · rename_i call vnf henter
        cases h
        intro other next hnext
        by_cases hother : other = channel
        · subst hother
          simp only [Function.update_self, Option.some.injEq] at hnext
          have hflow : call.flow = flow := flow_of_enter henter
          rw [← hnext, hflow]
          exact hev other id flow rfl
        · simp only [Function.update_of_ne hother] at hnext
          exact hs other next hnext
  | proceed channel meeting =>
    simp only [systemStep] at h
    cases hcall : (s.vms channel).call with
    | none =>
      simp only [hcall] at h
      cases h
      exact hs
    | some call =>
      simp only [hcall] at h
      split at h
      · exact pending_goOn hs (hs channel call hcall) h
      · split at h
        · cases h
        · refine pending_goOn ?_ (hs channel call hcall) h
          exact hs
  | other event d =>
    simp only [systemStep] at h
    split at h
    · cases h
      exact hs
    · split at h
      · cases h
      · cases h
        exact hs

/-- Where every call is for a packet that the NAT translates, so is each that goes on. -/
theorem fromNat_of_enters
    (hevs : ∀ channel id flow, .enter channel id flow ∈ evs → Offloaded table flow) :
    Each systemStep (FromNat table k) (start rules) evs := by
  have henters : ∀ ev ∈ evs, ∀ channel id flow, ev = .enter channel id flow →
      Offloaded table flow := by
    rintro ev hev channel id flow rfl
    exact hevs channel id flow hev
  refine Each.mono (fun _ _ _ hs hev h => pending_step hs hev h) ?_ (s := start rules) ?_
    (each_of_forall (fun ev hev _ => henters ev hev) _)
  · intro s ev hs _ x _ _ _ _ call hcall
    exact hs x.id call hcall
  · intro channel call hcall
    cases hcall

/-- What the daemon does in a run of the system is a run of the daemon. -/
theorem daemon_run {s s' : System} (h : exec systemStep s evs = .ok s')
    (hswitch : Each systemStep (OffloadedFlows.OnSwitch displaces) s evs) :
    ∃ rounds, exec daemonStep s.daemon rounds = .ok s'.daemon ∧
      ∀ round ∈ rounds, SharedBridge.OnSwitch displaces round := by
  induction evs generalizing s with
  | nil =>
    cases h
    exact ⟨[], rfl, fun _ hround => by cases hround⟩
  | cons ev evs ih =>
    cases hok : systemStep s ev with
    | error stop =>
      rw [exec_cons_of_error hok] at h
      cases h
    | ok s₁ =>
      rw [exec_cons_of_ok hok] at h
      obtain ⟨rounds, hrun, hrounds⟩ := ih h (hswitch.2 s₁ hok)
      rcases round_of_step hok with ⟨-, hsame⟩ | ⟨round, hround, hstep⟩
      · exact ⟨rounds, hsame ▸ hrun, hrounds⟩
      · exact ⟨round :: rounds, (exec_cons_of_ok hstep).trans hrun,
          List.forall_mem_cons.mpr ⟨hswitch.1 round hround, hrounds⟩⟩

/-- The entries for which calls have returned 1 are those of flows of the NAT. -/
theorem flow_of_since (hcalm : Each systemStep Calm (start rules) evs)
    (hnat : Each systemStep (FromNat table k) (start rules) evs)
    (h : Since displaces k e (start rules) evs) :
    ∃ flow, Offloaded table flow ∧ Supported flow ∧ entryOfFlow flow = e := by
  obtain ⟨before, ev, after, s₁, s₂, rfl, hbefore, hstep, ⟨s', hok, hreturned⟩, -⟩ := h
  cases hstep.symm.trans hok
  have hkept : Kept rules s₁ := (along_iff_reached _ _).mp
    (along_of_each (fun _ _ _ hs hev h => kept_step hs hev h) (kept_start rules) hcalm.front)
    before s₁ (List.prefix_refl _) hbefore
  obtain ⟨x, hx, harg, meeting, call, rfl, hcall, hsupported, he⟩ :=
    call_of_accelerated hkept (hcalm.step_at hbefore) hstep hreturned
  exact ⟨call.flow, hnat.step_at hbefore x hx harg meeting rfl call hcall, hsupported, he⟩

/-- In every run in which the calls on a card's channel come from a NAT, the switch makes a packet
another by a rule of the card just if a call has returned 1 for a flow whose rule does so, and
nothing has taken the rule away since; what it makes of the packet is what the NAT would; and it
makes only one packet of it, unless it is a hairpin. -/
theorem packets_offloaded (hn : n < 2 ^ 32) (hrules : Unstale n rules)
    (hstart : ∀ r ∈ rules, ∀ r' ∈ rules, sameMatch (entryOf r) (entryOf r') →
      entryOf r = entryOf r')
    (hcalm : Each systemStep Calm (start rules) evs)
    (hswitch : Each systemStep (OffloadedFlows.OnSwitch sameMatch) (start rules) evs)
    (hnat : Each systemStep (FromNat table k) (start rules) evs)
    (h : exec systemStep (start rules) evs = .ok s)
    (hcount : s.daemon.shared.history.hellos.length ≤ n) (p p' : Packet) :
    (Switched reader s k p p' ↔ ∃ e, Since sameMatch k e (start rules) evs ∧ Takes e p ∧
      forward reader e p = p') ∧
    (Switched reader s k p p' → Translates table p p' ∧
      ∀ p'', Switched reader s k p p'' → ¬ Hairpin table p → p'' = p') := by
  have hheld := @mem_bridge_iff s n rules sameMatch hn hrules evs hcalm hswitch h hcount k
  have hswitched : ∀ p', Switched reader s k p p' ↔ ∃ e, Since sameMatch k e (start rules) evs ∧
      Takes e p ∧ forward reader e p = p' := by
    intro p'
    constructor
    · rintro ⟨r, hr, hk, htakes, hforward⟩
      exact ⟨entryOf r, (hheld _).mp ⟨r, hr, rfl, hk⟩, htakes, hforward⟩
    · rintro ⟨e, hsince, htakes, hforward⟩
      obtain ⟨r, hr, rfl, hk⟩ := (hheld e).mpr hsince
      exact ⟨r, hr, hk, htakes, hforward⟩
  refine ⟨hswitched p', fun hp' => ?_⟩
  obtain ⟨e, hsince, htakes, rfl⟩ := (hswitched p').mp hp'
  obtain ⟨flow, hoff, hflow, rfl⟩ := flow_of_since hcalm hnat hsince
  refine ⟨translates_of_takes reader hoff hflow htakes, fun p'' hp'' hhairpin => ?_⟩
  obtain ⟨e', hsince', htakes', rfl⟩ := (hswitched p'').mp hp''
  obtain ⟨flow', hoff', hflow', rfl⟩ := flow_of_since hcalm hnat hsince'
  -- both entries have the match of the packet, and the bridge has one entry for each match
  obtain ⟨rounds, hrun, hrounds⟩ := daemon_run h hswitch
  have hone := onePerKey_bridge hn hrules hrounds hstart hrun hcount
  have hkey := matchKey_of_takes hoff hoff' hflow hflow' htakes htakes' hhairpin
  have hsame := hone _ ((hheld _).mpr hsince) _ ((hheld _).mpr hsince') hkey
  rw [(Prod.mk.inj hsame).2]

end

def sent : Packet where
  srcmac := outgoing.header.ethSrc
  dstmac := outgoing.header.ethDest
  srcIp := outgoing.header.srcAddr
  dstIp := outgoing.header.dstAddr
  srcPort := 4000
  dstPort := 80
  protocol := 6
  transport := by decide

/-- The switch translates the packet by the rule that the first call has put there. -/
theorem packets_offloaded_firstCall : ∃ s,
    exec systemStep (start []) (firstCall (pktWorkCgnaptIpv4Prv outgoing)) = .ok s ∧
    ∃ p', Switched ofctlReader s 1 sent p' ∧ Translates oneSession sent p' := by
  obtain ⟨s, hrun, hcount, r, hr, he, card, hcard, haddr, hcookie⟩ : ∃ s,
      exec systemStep (start []) (firstCall (pktWorkCgnaptIpv4Prv outgoing)) = .ok s ∧
      s.daemon.shared.history.hellos.length ≤ 1 ∧
      ∃ r ∈ s.daemon.shared.rules, entryOf r = entryOfFlow (pktWorkCgnaptIpv4Prv outgoing) ∧
        ∃ card ∈ s.daemon.cards, card.addr = 1 ∧
          card.context.map (fun c => c.hostid.toNat) = some r.cookie :=
    exists_of_eval (by decide +kernel)
  obtain ⟨context, hcontext, hhostid⟩ := Option.map_eq_some_iff.mp hcookie
  have htakes : Takes (entryOfFlow (pktWorkCgnaptIpv4Prv outgoing)) sent := by decide +kernel
  have hswitched : Switched ofctlReader s 1 sent (forward ofctlReader (entryOf r) sent) :=
    ⟨r, hr, ⟨context, ⟨card, hcard, haddr, hcontext⟩, hhostid.symm⟩, he ▸ htakes, rfl⟩
  have henters : ∀ channel id flow, SystemEvent.enter channel id flow ∈
      firstCall (pktWorkCgnaptIpv4Prv outgoing) → Offloaded oneSession flow := by
    intro channel id flow h
    obtain ⟨-, -, rfl⟩ : channel = 2 ∧ id = 1 ∧ flow = pktWorkCgnaptIpv4Prv outgoing := by
      simpa [firstCall] using h
    exact offloaded_outgoing
  obtain ⟨-, htranslates⟩ := packets_offloaded (n := 1) (by omega) (unstale_nil 1) (by simp)
    (calm_firstCall _) (onSwitch_firstCall _) (fromNat_of_enters henters) hrun hcount sent _
  exact ⟨s, hrun, _, hswitched, (htranslates hswitched).1⟩

end BeLa.NatOffload
