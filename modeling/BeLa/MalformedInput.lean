import BeLa.Client
import BeLa.Invariant
import BeLa.Requests

/-!
Headers that a VM may send. A header is acceptable when the body it announces
fits the buffer and the table has a handler for its type. The daemon takes the
announced length and the type as they come, so it guards itself against a header
only where the length is in range and the table is never reached with a bad type.
-/
namespace BeLa.MalformedInput

open LittleEndian PartialTransfer Runs Stops Slots Framing Receiving Context Plugin Card Message
open Channel Command Client Handling Steps Requests Invariant

/-- The announced length counts the header and a body that fits the buffer. -/
def LengthInRange (hdr : AccMsgHeader) : Prop :=
  AccMsgHeader.size ≤ hdr.totalLen.toInt ∧
    hdr.totalLen.toInt ≤ (AccMsgHeader.size + bufSize : ℕ)

/-- The type indexes an entry of `s_msg_handle` that is not null. -/
def HasHandler (type : BitVec 32) : Prop := ∃ handler, handlerAt type = .ok handler

structure Refused (d : Delivery) (run : RequestRun) : Prop where
  uncalled : run.called = none
  answer : (∃ asked rest, accUnixRecvMessage bufSize ⟨d.stream, d.reads⟩ =
      ⟨asked, .ok ⟨none, rest⟩⟩) ∨ ∃ reply, run.reply = some reply ∧ reply.code = accUnixFail
  unasserted : ∀ site, run.result ≠ .error (.assertion site)

structure Guarded (hdr : AccMsgHeader) (d : Delivery) (run : RequestRun) : Prop where
  asked : ∀ len, run.asked = some len → 0 ≤ len ∧ len ≤ bufSize
  called : ∀ type, run.called = some type → HasHandler type
  refused : ¬ (LengthInRange hdr ∧ HasHandler hdr.msgType) → Refused d run

theorem hasHandler_iff (type : BitVec 32) :
    HasHandler type ↔ type ∈ [accUnixHello, accUnixAddFlows, accUnixDisconnect] := by
  rcases handlerAt_cases type with ⟨rfl, hat⟩ | ⟨rfl, hat⟩ | ⟨rfl, hat⟩ | ⟨hmem, hat⟩
  · exact iff_of_true ⟨_, hat⟩ (by simp)
  · exact iff_of_true ⟨_, hat⟩ (by simp)
  · exact iff_of_true ⟨_, hat⟩ (by simp)
  · refine iff_of_false ?_ hmem
    rintro ⟨handler, hsome⟩
    rcases hat with hat | hat
    · rw [hat] at hsome
      cases hsome
    · rw [hat] at hsome
      cases hsome

/-- A length in range announces a body of that many bytes. -/
theorem exists_body_length {hdr : AccMsgHeader} (h : LengthInRange hdr) :
    ∃ n : ℕ, hdr.totalLen.toInt = (AccMsgHeader.size + n : ℕ) ∧ n ≤ bufSize ∧ dataLen hdr = n := by
  obtain ⟨hlow, hhigh⟩ := h
  obtain ⟨n, hn⟩ := Int.eq_ofNat_of_zero_le (sub_nonneg.mpr hlow)
  have htotal : hdr.totalLen.toInt = (AccMsgHeader.size + n : ℕ) := by
    push_cast
    omega
  have hfits : n ≤ bufSize := by omega
  exact ⟨n, htotal, hfits, dataLen_of_total hfits htotal⟩

section
variable {s : Daemon} {arg : ℕ} {card : BeCardInner} {d : Delivery} {hdr : AccMsgHeader}
variable {tail : Bytes}

/-- Behind a complete header the call asks for the announced body, whatever its length, and
reaches the table at no other type. -/
theorem header_spec (hcard : s.cardAt arg = some card) (hstream : d.stream = hdr.bytes ++ tail)
    (hreads : Enough d.reads AccMsgHeader.size) :
    (doVmRequestRead s arg d).asked = some (dataLen hdr) ∧
      ∀ type, (doVmRequestRead s arg d).called = some type → type = hdr.msgType := by
  obtain ⟨reads', -, hrecv⟩ := recv_header bufSize hdr tail
    (show Enough d.reads (AccMsgHeader.size + 0) from hreads)
  unfold doVmRequestRead
  simp only [hcard, hstream, hrecv]
  cases hread : readn bufSize ⟨tail, reads'⟩ (dataLen hdr) with
  | error stop => exact ⟨rfl, fun _ h => by cases h⟩
  | ok received =>
    obtain ⟨body, rest⟩ := received
    cases body with
    | none => exact ⟨rfl, fun _ h => by cases h⟩
    | some body =>
      dsimp only
      split
      · exact ⟨rfl, fun _ h => (Option.some.inj h).symm⟩
      · split <;> exact ⟨rfl, fun _ h => (Option.some.inj h).symm⟩

/-- Behind a whole body the call goes through the table at the type of the header. -/
theorem called_of_body {n : ℕ} (hcard : s.cardAt arg = some card)
    (hstream : d.stream = hdr.bytes ++ tail) (hdata : dataLen hdr = n) (hfits : n ≤ bufSize)
    (hbody : n ≤ tail.length) (hreads : Enough d.reads (AccMsgHeader.size + n)) :
    (doVmRequestRead s arg d).called = some hdr.msgType := by
  obtain ⟨reads', hrecv, -⟩ := recv_full tail
    (show Enough d.reads (AccMsgHeader.size + n + 0) from hreads) hdata hbody hfits
  unfold doVmRequestRead
  simp only [hcard, hstream, hrecv]
  split
  · rfl
  · split <;> rfl

/-- A body cut by the end of the stream takes the close path, without a handler. -/
theorem closed_of_cut {n : ℕ} (hcard : s.cardAt arg = some card)
    (hstream : d.stream = hdr.bytes ++ tail) (hdata : dataLen hdr = n) (hfits : n ≤ bufSize)
    (hcut : tail.length < n) (hreads : Enough d.reads (AccMsgHeader.size + tail.length + 1)) :
    (∃ rest, accUnixRecvMessage bufSize ⟨d.stream, d.reads⟩ = ⟨some n, .ok ⟨none, rest⟩⟩) ∧
      doVmRequestRead s arg d = ⟨some n, none, none, [], closeChannel d.world card s⟩ := by
  obtain ⟨rest, hrecv⟩ := recv_cut tail hreads hdata hcut hfits
  rw [← hstream] at hrecv
  exact ⟨⟨rest, hrecv⟩, read_failed hcard hrecv⟩

/-- The close path fails no assertion exactly on a card with a context. -/
theorem close_unasserted_iff {id : ℕ} {w : Execute.World} (hsound : Sound card)
    (hread : card.readEvent = some id) :
    (∀ site, closeChannel w card s ≠ .error (.assertion site)) ↔ card.context.isSome := by
  cases hcontext : card.context with
  | none =>
    rw [close_none s hread hcontext]
    exact iff_of_false (fun h => h .beAccFlushRules rfl) (by simp)
  | some context =>
    by_cases hremote : context.sshRemote.isSome
    · rw [close_remote s hsound hread hcontext hremote]
      exact iff_of_true (fun site h => by cases h) rfl
    · obtain ⟨result, -, hclose⟩ := close_some (w := w) s hsound hread hcontext
        (Option.not_isSome_iff_eq_none.mp hremote)
      rw [hclose]
      exact iff_of_true (fun site h => by cases h) rfl

/-- A type without a handler is refused exactly when its body is cut and the card has a
context. -/
theorem guarded_noHandler_iff {id : ℕ} {n : ℕ} (hcard : s.cardAt arg = some card)
    (hsound : Sound card) (hread : card.readEvent = some id)
    (hstream : d.stream = hdr.bytes ++ tail) (hdata : dataLen hdr = n) (hfits : n ≤ bufSize)
    (hreads : Enough d.reads (AccMsgHeader.size + tail.length + 1))
    (htype : ¬ HasHandler hdr.msgType) :
    Guarded hdr d (doVmRequestRead s arg d) ↔ tail.length < n ∧ card.context.isSome := by
  by_cases hcut : tail.length < n
  · obtain ⟨⟨rest, hrecv⟩, hrun⟩ := closed_of_cut hcard hstream hdata hfits hcut hreads
    rw [hrun, ← close_unasserted_iff (w := d.world) (s := s) hsound hread]
    constructor
    · intro h
      exact ⟨hcut, (h.refused fun hok => htype hok.2).unasserted⟩
    · rintro ⟨-, hclose⟩
      constructor
      · intro len hlen
        obtain rfl : (n : ℤ) = len := Option.some.inj hlen
        omega
      · intro type htype
        cases htype
      · exact fun _ => ⟨rfl, .inl ⟨some n, rest, hrecv⟩, hclose⟩
  · have hcalled := called_of_body hcard hstream hdata hfits (by omega)
      (hreads.mono (by omega))
    exact iff_of_false (fun h => htype (h.called _ hcalled)) (fun h => hcut h.1)

/-- A length in range and a type with a handler are always safe. -/
theorem guarded_acceptable (hcard : s.cardAt arg = some card)
    (hstream : d.stream = hdr.bytes ++ tail) (hreads : Enough d.reads AccMsgHeader.size)
    (hlen : LengthInRange hdr) (htype : HasHandler hdr.msgType) :
    Guarded hdr d (doVmRequestRead s arg d) where
  asked len hasked := by
    rw [(header_spec hcard hstream hreads).1, Option.some.injEq] at hasked
    rw [← hasked]
    exact (dataLen_fits_iff hdr).mpr hlen
  called type hcalled := by
    rw [(header_spec hcard hstream hreads).2 type hcalled]
    exact htype
  refused hbad := absurd ⟨hlen, htype⟩ hbad

end

/-- The call is safe against a header of four arbitrary words in exactly two cases: the
length is in range and the type is one of the three, or the length is in range and
the body is cut while the card has a context. -/
theorem guarded_iff {rules : List Switch.SwitchRule} {evs : List DaemonEvent} {s : Daemon}
    {e : ReadEvent} {card : BeCardInner} {hdr : AccMsgHeader} {tail : Bytes} {d : Delivery}
    (hrun : exec daemonStep (boot rules) evs = .ok s) (he : e ∈ s.events) (hcard : card ∈ s.cards)
    (harg : card.addr = e.arg) (hstream : d.stream = hdr.bytes ++ tail)
    (hreads : Enough d.reads (AccMsgHeader.size + tail.length + 1)) :
    Guarded hdr d (doVmRequestRead s e.arg d) ↔
      LengthInRange hdr ∧ (hdr.msgType ∈ [accUnixHello, accUnixAddFlows, accUnixDisconnect] ∨
        ((AccMsgHeader.size + tail.length : ℕ) < hdr.totalLen.toInt ∧ card.context.isSome)) := by
  have hs := consistent_of_run hrun
  have hread := hs.armed e he card hcard harg
  have hfound : s.cardAt e.arg = some card := by
    rw [← harg]
    exact find_ident hs.nodup hcard
  have hhead : Enough d.reads AccMsgHeader.size := hreads.mono (by omega)
  rw [← hasHandler_iff]
  by_cases hlen : LengthInRange hdr
  · by_cases htype : HasHandler hdr.msgType
    · exact iff_of_true (guarded_acceptable hfound hstream hhead hlen htype) ⟨hlen, .inl htype⟩
    · obtain ⟨n, htotal, hfits, hdata⟩ := exists_body_length hlen
      have hcut : ((AccMsgHeader.size + tail.length : ℕ) < hdr.totalLen.toInt) ↔
          tail.length < n := by
        rw [htotal]
        omega
      rw [guarded_noHandler_iff hfound (hs.sound card hcard) hread hstream hdata hfits hreads
        htype, hcut]
      simp only [hlen, htype, true_and, false_or]
  · refine iff_of_false (fun h => hlen ?_) (fun h => hlen h.1)
    exact (dataLen_fits_iff hdr).mp (h.asked _ (header_spec hfound hstream hhead).1)

def helloRun : List DaemonEvent :=
  [registerPlain 0x73, .readable 2 (arriving (helloMessage []) .healthy)]

/-- A message of the given length and type, of which only the header arrives. -/
def bareHeader (totalLen msgType : BitVec 32) : AccMsgHeader where
  totalLen := totalLen
  accType := accTypeFlow
  msgType := msgType
  code := 0

def bareDelivery (hdr : AccMsgHeader) : Delivery where
  stream := hdr.bytes ++ []
  reads := List.replicate 17 (.moved AccMsgHeader.size)
  writes := []
  outBuf := []
  world := .healthy

/-- An unknown type whose body is cut is refused on a card with a session. -/
theorem guarded_cut_unknown : ∃ s, exec daemonStep (boot []) helloRun = .ok s ∧
    ∃ e ∈ s.events, ∃ card ∈ s.cards, card.addr = e.arg ∧
      Guarded (bareHeader 20 9) (bareDelivery (bareHeader 20 9))
        (doVmRequestRead s e.arg (bareDelivery (bareHeader 20 9))) := by
  obtain ⟨s, hexec, e, he, card, hcard, harg, hcontext⟩ : ∃ s,
      exec daemonStep (boot []) helloRun = .ok s ∧
      ∃ e ∈ s.events, ∃ card ∈ s.cards, card.addr = e.arg ∧ card.context.isSome :=
    exists_of_eval (by decide +kernel)
  refine ⟨s, hexec, e, he, card, hcard, harg, ?_⟩
  exact (guarded_iff hexec he hcard harg rfl (enough_replicate 17 _)).mpr
    ⟨⟨by decide, by decide⟩, .inr ⟨by decide, hcontext⟩⟩

/-- A bare header of an unknown type makes the daemon call through a null entry. -/
theorem unknown_type_calls_null :
    ¬ ∀ rules evs s e card hdr tail d, exec daemonStep (boot rules) evs = .ok s → e ∈ s.events →
      card ∈ s.cards → card.addr = e.arg → Delivery.stream d = AccMsgHeader.bytes hdr ++ tail →
      Enough d.reads (AccMsgHeader.size + tail.length + 1) →
      Guarded hdr d (doVmRequestRead s e.arg d) := by
  intro hall
  obtain ⟨s, hexec, e, he, card, hcard, harg, hcalled⟩ : ∃ s,
      exec daemonStep (boot []) [registerPlain 0x73] = .ok s ∧
      ∃ e ∈ s.events, ∃ card ∈ s.cards, card.addr = e.arg ∧
        (doVmRequestRead s e.arg (bareDelivery (bareHeader 16 9))).called = some 9 :=
    exists_of_eval (by decide +kernel)
  have hguarded := hall [] _ s e card (bareHeader 16 9) [] (bareDelivery (bareHeader 16 9)) hexec
    he hcard harg rfl (enough_replicate 17 _)
  obtain ⟨handler, hsome⟩ := hguarded.called 9 hcalled
  cases hsome

end BeLa.MalformedInput
