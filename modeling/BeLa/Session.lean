import BeLa.Client
import BeLa.Invariant
import BeLa.Requests

/-!
The session of one card. A small machine says what the messages and the close of
a channel need: a batch, a DISCONNECT and the close path all assert an attached
context. The daemon's handling of the channel simulates this machine, with the
other ways in which a session can end the daemon, so an assertion fails in
exactly the runs in which one of them comes while no context is attached.
-/
namespace BeLa.Session

open LittleEndian PartialTransfer Runs Slots Stops Framing Receiving BeLa.Flow Context Execute
open Editing Card Message Channel Command Client Handling Paths Steps Requests Invariant

inductive ChannelEvent
  | message (msg : Framing.Message) (d : Delivery)
  | close (d : Delivery)

namespace ChannelEvent

def delivery : ChannelEvent → Delivery
  | message _ d => d
  | close d => d

/-- A whole message of one of the three types, whose reply is sent or fails to be sent, or a
stream that ends, be it inside a message. -/
def Legal : ChannelEvent → Prop
  | message msg d => msg.Framed ∧
      msg.hdr.msgType ∈ [accUnixHello, accUnixAddFlows, accUnixDisconnect] ∧
      (∃ behind, d.stream = msg.bytes ++ behind) ∧
      Enough d.reads msg.bytes.length ∧ Ends d.writes AccMsgHeader.size
  | close d => ∃ (msg : Framing.Message) (k : ℕ), msg.Framed ∧ k < msg.bytes.length ∧
      d.stream = msg.bytes.take k ∧ Enough d.reads (k + 1)

end ChannelEvent

inductive Phase
  | idle
  | attached
  | gone
  deriving DecidableEq, Repr

/-- How a HELLO on the card moves the session; `none` where it crashes the daemon. -/
def Phase.hello (phase : Phase) : HelloOutcome → Option Phase
  | .refused => some phase
  | .unmatched => some phase
  | .crash => none
  | .dropped => some .idle
  | .attached => some .attached

/-- The reply behind a message that is handled; a closed socket ends the daemon. -/
def Phase.reply (phase : Phase) (d : Delivery) : Except (Option AssertSite) Phase :=
  if ReplyKills d then .error none else .ok phase

/-- The session machine of a card; a stop is the assertion that fails, or another crash. -/
def Phase.step (card : AccCard) (phase : Phase) : ChannelEvent → Except (Option AssertSite) Phase
  | .close _ =>
    if phase = .gone then .ok .gone
    else if phase = .idle then .error (some .beAccFlushRules)
    else if runsRemotely card then .error none
    else .ok .gone
  | .message msg d =>
    if phase = .gone then .ok .gone
    else if msg.hdr.msgType = accUnixHello then
      match phase.hello (helloOutcome d.world card msg.body.length) with
      | none => .error none
      | some phase => phase.reply d
    else if msg.hdr.msgType = accUnixAddFlows then
      if AccFlow.size ∣ msg.body.length ∧ phase = .idle then
        .error (some .addFlowsMessageHandle)
      else if runsRemotely card ∧ HasCommand d.world msg.body then .error none
      else phase.reply d
    else if msg.hdr.msgType = accUnixDisconnect then
      if phase = .idle then .error (some .beAccFlushRules)
      else if runsRemotely card then .error none
      else Phase.idle.reply d
    else .error none

section
variable {phase : Phase} {msg : Framing.Message} {d : Delivery} {card : AccCard}

end

structure Open (s : Daemon) (id : ℕ) (card : BeCardInner) : Prop where
  event : ∃ socket, s.events.find? (fun e => e.id = id) = some ⟨id, socket, card.addr⟩
  found : s.cardAt card.addr = some card
  readEvent : card.readEvent = some id
  sound : Sound card

def phaseOf (card : BeCardInner) : Phase := if card.context.isSome then .attached else .idle

inductive InPhase (s : Daemon) (id : ℕ) (record : AccCard) : Phase → Prop
  | gone : s.events.find? (fun e => e.id = id) = none → InPhase s id record .gone
  | live (card : BeCardInner) : Open s id card → card.card = record →
      InPhase s id record (phaseOf card)

variable {s : Daemon} {id : ℕ} {card card' : BeCardInner} {record : AccCard}

theorem Open.step (h : Open s id card) (d : Delivery) :
    daemonStep s (.readable id d) = (doVmRequestRead s card.addr d).result := by
  obtain ⟨socket, hevent⟩ := h.event
  simp only [daemonStep, hevent]

/-- The card stays open when a handler writes it. -/
theorem Open.write (h : Open s id card) (shared : Shared) (haddr : card'.addr = card.addr)
    (hread : card'.readEvent = card.readEvent) (hsound : Sound card') :
    Open { s.writeCard card' with shared := shared } id card' where
  event := by
    obtain ⟨socket, hevent⟩ := h.event
    exact ⟨socket, by rw [haddr]; exact hevent⟩
  found := by
    have hfound : (records s.table.slots).find? (fun z => z.addr = card'.addr) = some card := by
      rw [haddr]
      exact h.found
    exact find_overwrite hfound
  readEvent := hread.trans h.readEvent
  sound := hsound

/-- A stop of the daemon and a stop of the session machine are the same assertion, or none. -/
def SameStop (stop : Stop) (failed : Option AssertSite) : Prop :=
  ∀ site, stop = .assertion site ↔ failed = some site

def Agrees (id : ℕ) (record : AccCard) (next : Except Stop Daemon)
    (phase : Except (Option AssertSite) Phase) : Prop :=
  (∃ s' phase', next = .ok s' ∧ phase = .ok phase' ∧ InPhase s' id record phase') ∨
    ∃ stop failed, next = .error stop ∧ phase = .error failed ∧ SameStop stop failed

structure JustOpened (s : Daemon) (id : ℕ) (card : BeCardInner) : Prop where
  event : ∃ socket, s.events.find? (fun e => e.id = id) = some ⟨id, socket, card.addr⟩
  found : s.cardAt card.addr = some card
  readEvent : card.readEvent = some id
  context : card.context = none
  plugin : card.plugin = none

/-- In every run of the daemon an armed event of a card without a session is such a channel. -/
theorem justOpened_of_consistent {e : ReadEvent} (hs : Consistent s) (hcard : card ∈ s.cards)
    (he : e ∈ s.events) (harg : card.addr = e.arg) (hcontext : card.context = none)
    (hplugin : card.plugin = none) : JustOpened s e.id card where
  event := by
    refine ⟨e.socket, ?_⟩
    rw [find_ident hs.eventIds he, harg]
  found := find_ident hs.nodup hcard
  readEvent := hs.armed e he card hcard harg
  context := hcontext
  plugin := hplugin

end BeLa.Session
