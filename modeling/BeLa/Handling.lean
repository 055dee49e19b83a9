import BeLa.Message
import BeLa.Editing
import Mathlib.Tactic.IntervalCases

/-!
What each handler does, stated once. A HELLO has one of five outcomes, which its
length, the card's plugin match and the allocations decide; ADD_FLOWS of whole
records and DISCONNECT need an attached context. A context that a HELLO has
attached is sound: it runs on br0 with the ovs back end, and its plugin can
destroy it.
-/
namespace BeLa.Handling

open LittleEndian Numerals Stops Switch Context Execute Editing Plugin Card Framing BeLa.Flow
open Message

theorem length_writeAt {memory bytes : Bytes} {offset : ℕ}
    (h : offset + bytes.length ≤ memory.length) :
    (writeAt memory offset bytes).length = memory.length := by
  simp only [writeAt, List.length_append, List.length_take, List.length_drop]
  omega

theorem length_strncpy (source : Bytes) (len : ℕ) : (strncpy source len).length = len := by
  have hprefix : (cString (source.take len)).length ≤ len :=
    (List.takeWhile_prefix _).length_le.trans (List.length_take_le len source)
  simp only [strncpy, List.length_append, List.length_replicate]
  omega

/-- Whatever host name is copied, the bridge is br0 afterwards. -/
theorem bridge_helloNames {names message : Bytes} (hnames : names.length = 2 * nameSize)
    (hmessage : message.length ≤ nameSize) :
    charsOf ((helloNames names message).drop nameSize) = br0 := by
  have hsize : nameSize = 256 := rfl
  have hcopied : (writeAt names 0 (strncpy message message.length)).length = 2 * nameSize := by
    rw [length_writeAt (by rw [length_strncpy]; omega), hnames]
  have hterminated : (writeAt (writeAt names 0 (strncpy message message.length))
      message.length [0]).length = 2 * nameSize := by
    rw [length_writeAt (by rw [hcopied]; simp; omega), hcopied]
  have htake : ((writeAt (writeAt names 0 (strncpy message message.length))
      message.length [0]).take nameSize).length = nameSize := by
    rw [List.length_take, hterminated]
    omega
  unfold helloNames
  dsimp only
  rw [writeAt, List.append_assoc, List.drop_left' htake]
  rfl

/-- Every plugin destroys contexts by the hook that matches its init hook. -/
theorem gAccPlugins_contextDestroy (vendor model : ℕ) :
    (gAccPlugins vendor model).contextDestroy = (gAccPlugins vendor model).contextInit := by
  unfold gAccPlugins Registry.store
  dsimp only
  split
  · rfl
  · split
    · rfl
    · split <;> rfl

/-- What a HELLO leaves attached: the ovs back end on br0, and a plugin match whose hook has
made the context and can destroy it. -/
structure SoundContext (card : AccCard) (context : AccContext) : Prop where
  bridge : context.bridge = br0
  be : context.be = some .ovsRule
  plugin : ∃ slot hook,
    bePluginMatch gAccPlugins card.vendor card.model card.accType = .ok (some slot) ∧
      (gAccPlugins slot.vendor slot.model).contextInit = some hook ∧
      (context.sshRemote.isSome ↔ hook = .liquidio)

/-- The sessions of a card run their commands on a remote host: they have LiquidIO contexts. -/
def runsRemotely (card : AccCard) : Bool :=
  match bePluginMatch gAccPlugins card.vendor card.model card.accType with
  | .ok (some slot) => (gAccPlugins slot.vendor slot.model).contextInit = some .liquidio
  | _ => false

theorem SoundContext.remote_iff {card : AccCard} {context : AccContext}
    (h : SoundContext card context) : context.sshRemote.isSome ↔ runsRemotely card := by
  obtain ⟨slot, hook, hmatch, hinit, hremote⟩ := h.plugin
  simp only [hremote, runsRemotely, hmatch, hinit, Option.some.injEq, decide_eq_true_eq]

def Sound (card : BeCardInner) : Prop :=
  ∀ context, card.context = some context → SoundContext card.card context

inductive HelloOutcome
  /-- the host name is too long: nothing changes -/
  | refused
  /-- no plugin matches: the context stays attached -/
  | unmatched
  /-- the match reads outside the registry or the init hook is null -/
  | crash
  /-- the plugin cannot make a context: the card is left without one -/
  | dropped
  | attached
  deriving DecidableEq, Repr

def helloOutcome (w : World) (card : AccCard) (len : ℕ) : HelloOutcome :=
  if nameSize < len then .refused
  else
    match bePluginMatch gAccPlugins card.vendor card.model card.accType with
    | .error _ => .crash
    | .ok none => .unmatched
    | .ok (some slot) =>
      match (gAccPlugins slot.vendor slot.model).contextInit with
      | none => .crash
      | some hook => if (initContext hook w 0 0).isSome then .attached else .dropped

def noteHello (card context : ℕ) (sh : Shared) : Shared :=
  { sh with
    contextHostId := sh.contextHostId + 1
    nextAddr := sh.nextAddr + 1
    history.hellos := sh.history.hellos ++ [⟨card, context, sh.contextHostId⟩] }

structure NewContext (card : BeCardInner) (sh : Shared) (context : AccContext) : Prop where
  addr : context.addr = sh.nextAddr
  hostid : context.hostid = sh.contextHostId
  sound : SoundContext card.card context
  card : context.card = card.addr

theorem initContext_isSome (hook : ContextHook) (w : World) (card addr : ℕ) :
    (initContext hook w card addr).isSome = (initContext hook w 0 0).isSome := by
  cases hook with
  | plain => by_cases h : w.allocContext <;> simp [initContext, h]
  | liquidio =>
    by_cases h : w.allocContext <;> by_cases h' : w.allocRemote <;> simp [initContext, h, h']

theorem initContext_spec {hook : ContextHook} {w : World} {card addr : ℕ} {context : AccContext}
    (h : initContext hook w card addr = some context) :
    context.addr = addr ∧ context.card = card ∧ context.names = List.replicate (2 * nameSize) 0 ∧
      (context.sshRemote.isSome ↔ hook = .liquidio) := by
  cases hook with
  | plain =>
    simp only [initContext, Option.ite_none_right_eq_some, Option.some.injEq] at h
    obtain ⟨_, rfl⟩ := h
    exact ⟨rfl, rfl, rfl, by simp⟩
  | liquidio =>
    simp only [initContext, Option.ite_none_left_eq_some, Option.ite_none_right_eq_some,
      Option.some.injEq] at h
    obtain ⟨_, _, rfl⟩ := h
    exact ⟨rfl, rfl, rfl, by simp⟩

theorem ok_of_destroyed {destroyed : Except Stop Unit} {after : Except Stop Handled}
    {handled : Handled}
    (h : (match destroyed with
      | .error stop => Except.error stop
      | .ok () => after) = .ok handled) : after = .ok handled := by
  cases destroyed with
  | error stop => cases h
  | ok _ => exact h

/-- A HELLO that is accepted fits the host name, and leaves it in a zeroed context. -/
theorem names_of_hello {w : World} {card : BeCardInner} {message : Bytes} {outLen : ℕ}
    {sh : Shared} {handled : Handled}
    (h : helloMessageHandle w card message outLen sh = .ok handled) (hok : handled.ok) :
    message.length ≤ nameSize ∧ ∃ context, handled.card.context = some context ∧
      context.names = helloNames (List.replicate (2 * nameSize) 0) message := by
  by_cases hlen : nameSize < message.length
  · simp only [helloMessageHandle, if_pos hlen] at h
    cases h
    cases hok
  · refine ⟨by omega, ?_⟩
    cases hmatch : bePluginMatch gAccPlugins card.card.vendor card.card.model
        card.card.accType with
    | error stop =>
      simp only [helloMessageHandle, if_neg hlen, hmatch] at h
      cases h
    | ok found =>
      cases found with
      | none =>
        simp only [helloMessageHandle, if_neg hlen, hmatch] at h
        cases h
        cases hok
      | some slot =>
        simp only [helloMessageHandle, if_neg hlen, hmatch] at h
        have hafter := ok_of_destroyed h
        split at hafter
        · cases hafter
        · cases hafter
          cases hok
        · rename_i zeroed hinit
          cases hafter
          refine ⟨_, rfl, ?_⟩
          unfold bePluginContextInit at hinit
          split at hinit
          · cases hinit
          · dsimp only
            rw [(initContext_spec (Except.ok.inj hinit)).2.2.1]

/-- The destroy step of a repeated HELLO succeeds on a sound context. -/
theorem destroy_sound {card : BeCardInner} {slot : PluginSlot} {context : AccContext}
    (hsound : SoundContext card.card context)
    (hmatch : bePluginMatch gAccPlugins card.card.vendor card.card.model card.card.accType =
      .ok (some slot)) :
    bePluginContextDestory gAccPlugins slot context = .ok () := by
  obtain ⟨slot', hook, hmatch', hinit, hremote⟩ := hsound.plugin
  rw [hmatch] at hmatch'
  obtain rfl : slot = slot' := by simpa using hmatch'
  unfold bePluginContextDestory
  rw [gAccPlugins_contextDestroy, hinit]
  cases hook with
  | plain => rfl
  | liquidio =>
    obtain ⟨remote, hsome⟩ := Option.isSome_iff_exists.mp (hremote.mpr rfl)
    simp only [hsome]

theorem bePluginMatch_error {vendor model accType : BitVec 32} {stop : Stop}
    (h : bePluginMatch gAccPlugins vendor model accType = .error stop) :
    stop = .outOfBounds := by
  unfold bePluginMatch at h
  split at h
  · exact (Except.error.inj h).symm
  · split at h <;> cases h

/-- Past the plugin match a HELLO on a sound card goes on to the new context. -/
theorem hello_matched {w : World} {card : BeCardInner} (hsound : Sound card) {message : Bytes}
    (hlen : ¬ nameSize < message.length) {slot : PluginSlot}
    (hmatch : bePluginMatch gAccPlugins card.card.vendor card.card.model card.card.accType =
      .ok (some slot)) (outLen : ℕ) (sh : Shared) :
    helloMessageHandle w card message outLen sh =
      match (gAccPlugins slot.vendor slot.model).contextInit with
      | none => .error .nullCall
      | some hook =>
        match initContext hook w card.addr sh.nextAddr with
        | none => .ok ⟨false, outLen, { card with plugin := none, context := none }, sh⟩
        | some zeroed =>
          .ok ⟨true, 0, { card with
            plugin := some slot
            context := some { zeroed with
              names := helloNames zeroed.names message
              hostid := sh.contextHostId
              be := some .ovsRule } }, noteHello card.addr zeroed.addr sh⟩ := by
  unfold helloMessageHandle bePluginContextInit
  simp only [if_neg hlen, hmatch]
  cases hhook : (gAccPlugins slot.vendor slot.model).contextInit with
  | none =>
    cases hcontext : card.context with
    | none => rfl
    | some context => simp only [destroy_sound (hsound context hcontext) hmatch]
  | some hook =>
    cases hcontext : card.context with
    | none =>
      dsimp only
      cases initContext hook w card.addr sh.nextAddr <;> rfl
    | some context =>
      simp only [destroy_sound (hsound context hcontext) hmatch]
      cases initContext hook w card.addr sh.nextAddr <;> rfl

/-- A HELLO on a sound card, by its outcome. -/
theorem hello_spec {w : World} {card : BeCardInner} (hsound : Sound card) (message : Bytes)
    (outLen : ℕ) (sh : Shared) :
    match helloOutcome w card.card message.length with
    | .refused => helloMessageHandle w card message outLen sh = .ok ⟨false, outLen, card, sh⟩
    | .unmatched => helloMessageHandle w card message outLen sh =
        .ok ⟨false, outLen, { card with plugin := none }, sh⟩
    | .crash => helloMessageHandle w card message outLen sh = .error .outOfBounds ∨
        helloMessageHandle w card message outLen sh = .error .nullCall
    | .dropped => helloMessageHandle w card message outLen sh =
        .ok ⟨false, outLen, { card with plugin := none, context := none }, sh⟩
    | .attached => ∃ slot context, NewContext card sh context ∧
        helloMessageHandle w card message outLen sh =
          .ok ⟨true, 0, { card with plugin := some slot, context := some context },
            noteHello card.addr context.addr sh⟩ := by
  unfold helloOutcome
  by_cases hlen : nameSize < message.length
  · simp only [helloMessageHandle, if_pos hlen]
  · cases hmatch : bePluginMatch gAccPlugins card.card.vendor card.card.model
        card.card.accType with
    | error stop =>
      obtain rfl := bePluginMatch_error hmatch
      simp only [helloMessageHandle, if_neg hlen, hmatch, true_or]
    | ok found =>
      cases found with
      | none => simp only [helloMessageHandle, if_neg hlen, hmatch]
      | some slot =>
        rw [hello_matched hsound hlen hmatch]
        simp only [if_neg hlen]
        cases hhook : (gAccPlugins slot.vendor slot.model).contextInit with
        | none => exact .inr rfl
        | some hook =>
          dsimp only
          rw [← initContext_isSome hook w card.addr sh.nextAddr]
          cases hinit : initContext hook w card.addr sh.nextAddr with
          | none => rfl
          | some zeroed =>
            let context : AccContext := { zeroed with
              names := helloNames zeroed.names message
              hostid := sh.contextHostId
              be := some .ovsRule }
            obtain ⟨haddr, hcard, hnames, hremote⟩ := initContext_spec hinit
            have hsize : zeroed.names.length = 2 * nameSize := by
              rw [hnames, List.length_replicate]
            have hmessage : message.length ≤ nameSize := by omega
            refine ⟨slot, context, ⟨haddr, rfl, ?_, hcard⟩, rfl⟩
            exact ⟨bridge_helloNames hsize hmessage, rfl, slot, hook, hmatch, hhook, hremote⟩

/-- ADD_FLOWS of a body that is not an array of records is refused. -/
theorem addFlows_odd {w : World} {card : BeCardInner} {message : Bytes} (outLen : ℕ) (sh : Shared)
    (h : ¬ AccFlow.size ∣ message.length) :
    addFlowsMessageHandle w card message outLen sh = .ok ⟨false, outLen, card, sh⟩ := by
  have hne : message.length / AccFlow.size * AccFlow.size ≠ message.length := fun heq =>
    h ⟨message.length / AccFlow.size, by rw [Nat.mul_comm, heq]⟩
  simp only [addFlowsMessageHandle, if_pos hne]

/-- ADD_FLOWS of whole records needs a context, and hands the flows to its back end. The
first command for a remote host stops the daemon. -/
theorem addFlows_spec {w : World} {card : BeCardInner} (hsound : Sound card) {message : Bytes}
    (outLen : ℕ) (sh : Shared) (h : AccFlow.size ∣ message.length) :
    addFlowsMessageHandle w card message outLen sh =
      match card.context with
      | none => .error (.assertion .addFlowsMessageHandle)
      | some context =>
        let flows := flowsOf (message.length / AccFlow.size) message
        if RemoteCommand w context flows then .error .badString
        else .ok ⟨(addResult w context flows sh).1, 0, card, (addResult w context flows sh).2⟩ := by
  have heq : ¬ message.length / AccFlow.size * AccFlow.size ≠ message.length :=
    not_not.mpr (Nat.div_mul_cancel h)
  simp only [addFlowsMessageHandle, if_neg heq]
  cases hcontext : card.context with
  | none => rfl
  | some context =>
    have hbridge := bridge_length_of_br0 (hsound context hcontext).bridge
    simp only [(hsound context hcontext).be, addRules_eq hbridge]
    by_cases hremote : RemoteCommand w context
        (flowsOf (message.length / AccFlow.size) message)
    · simp only [if_pos hremote]
    · simp only [if_neg hremote]

/-- A flush of the card needs a context that runs its commands here, and leaves the card
without one. -/
theorem flush_spec {w : World} {card : BeCardInner} (hsound : Sound card) (sh : Shared) :
    beAccFlushRules w card sh =
      match card.context with
      | none => .error (.assertion .beAccFlushRules)
      | some context =>
        if context.sshRemote.isSome then .error .badString
        else .ok ({ card with plugin := none, context := none },
          afterFlush w context (w.shell 0) sh) := by
  unfold beAccFlushRules
  cases hcontext : card.context with
  | none => rfl
  | some context =>
    have hbridge := bridge_length_of_br0 (hsound context hcontext).bridge
    simp only [(hsound context hcontext).be, flushRules_eq hbridge]
    by_cases hremote : context.sshRemote.isSome
    · simp only [if_pos hremote]
    · simp only [if_neg hremote]

theorem disconnect_spec {w : World} {card : BeCardInner} (hsound : Sound card) (sh : Shared) :
    disconnectMessageHandle w card sh =
      match card.context with
      | none => .error (.assertion .beAccFlushRules)
      | some context =>
        if context.sshRemote.isSome then .error .badString
        else .ok ⟨true, 0, { card with plugin := none, context := none },
          afterFlush w context (w.shell 0) sh⟩ := by
  unfold disconnectMessageHandle
  rw [flush_spec hsound]
  cases card.context with
  | none => rfl
  | some context =>
    dsimp only
    by_cases hremote : context.sshRemote.isSome
    · simp only [if_pos hremote]
    · simp only [if_neg hremote]

theorem handlerAt_hello : handlerAt accUnixHello = .ok .hello := by decide

theorem handlerAt_addFlows : handlerAt accUnixAddFlows = .ok .addFlows := by decide

theorem handlerAt_disconnect : handlerAt accUnixDisconnect = .ok .disconnect := by decide

/-- The table has a handler for the three message types and for no other index. -/
theorem handlerAt_cases (type : BitVec 32) :
    (type = accUnixHello ∧ handlerAt type = .ok .hello) ∨
    (type = accUnixAddFlows ∧ handlerAt type = .ok .addFlows) ∨
    (type = accUnixDisconnect ∧ handlerAt type = .ok .disconnect) ∨
    (type ∉ [accUnixHello, accUnixAddFlows, accUnixDisconnect] ∧
      (handlerAt type = .error .outOfBounds ∨ handlerAt type = .error .nullCall)) := by
  by_cases hrange : type.toInt < 0 ∨ accUnixMaxType ≤ type.toInt.toNat
  · refine .inr (.inr (.inr ⟨?_, .inl (by rw [handlerAt, if_pos hrange])⟩))
    intro hmem
    simp only [List.mem_cons, List.not_mem_nil, or_false] at hmem
    rcases hmem with rfl | rfl | rfl <;> exact absurd hrange (by decide)
  · have hlow : type = BitVec.ofInt 32 type.toInt := (BitVec.ofInt_toInt).symm
    simp only [not_or, Int.not_lt, Nat.not_le, accUnixMaxType] at hrange
    obtain ⟨n, hn⟩ := Int.eq_ofNat_of_zero_le hrange.1
    rw [hn] at hlow hrange
    rw [hlow]
    have hbound : n < 10 := hrange.2
    clear hlow hrange hn
    interval_cases n <;> decide

def HasCommand (w : World) (body : Bytes) : Prop :=
  AccFlow.size ∣ body.length ∧ Built w (flowsOf (body.length / AccFlow.size) body) ∧
    flowsOf (body.length / AccFlow.size) body ≠ []

instance (w : World) (body : Bytes) : Decidable (HasCommand w body) := by
  unfold HasCommand
  infer_instance

/-- A handler that stops without an assertion: the HELLO of a card whose match reads outside
the registry or has no init hook, or a command for a remote host. -/
def Fatal (w : World) (card : BeCardInner) (type : BitVec 32) (message : Bytes) : Prop :=
  type = accUnixHello ∧ helloOutcome w card.card message.length = .crash ∨
    ∃ context, card.context = some context ∧ context.sshRemote.isSome ∧
      (type = accUnixDisconnect ∨ type = accUnixAddFlows ∧ HasCommand w message)

theorem fatal_hello {w : World} {card : BeCardInner} {message : Bytes} :
    Fatal w card accUnixHello message ↔ helloOutcome w card.card message.length = .crash := by
  have hadd : accUnixHello ≠ accUnixAddFlows := by decide
  have hbye : accUnixHello ≠ accUnixDisconnect := by decide
  simp [Fatal, hadd, hbye]

theorem fatal_addFlows {w : World} {card : BeCardInner} {message : Bytes} :
    Fatal w card accUnixAddFlows message ↔ ∃ context, card.context = some context ∧
      context.sshRemote.isSome ∧ HasCommand w message := by
  have hhello : accUnixAddFlows ≠ accUnixHello := by decide
  have hbye : accUnixAddFlows ≠ accUnixDisconnect := by decide
  simp [Fatal, hhello, hbye]

theorem fatal_disconnect {w : World} {card : BeCardInner} {message : Bytes} :
    Fatal w card accUnixDisconnect message ↔
      ∃ context, card.context = some context ∧ context.sshRemote.isSome := by
  have hhello : accUnixDisconnect ≠ accUnixHello := by decide
  simp [Fatal, hhello]

theorem hello_crashed {w : World} {card : BeCardInner} (hsound : Sound card) (message : Bytes)
    (outLen : ℕ) (sh : Shared) :
    Crashed (helloMessageHandle w card message outLen sh) ↔
      helloOutcome w card.card message.length = .crash := by
  have hspec := hello_spec (w := w) hsound message outLen sh
  cases houtcome : helloOutcome w card.card message.length with
  | crash =>
    rw [houtcome] at hspec
    rcases hspec with hstop | hstop <;> simp [hstop]
  | attached =>
    rw [houtcome] at hspec
    obtain ⟨slot, context, -, hrun⟩ := hspec
    simp [hrun]
  | _ =>
    rw [houtcome] at hspec
    simp [hspec]

theorem addFlows_crashed {w : World} {card : BeCardInner} (hsound : Sound card) (message : Bytes)
    (outLen : ℕ) (sh : Shared) :
    Crashed (addFlowsMessageHandle w card message outLen sh) ↔ ∃ context,
      card.context = some context ∧ context.sshRemote.isSome ∧ HasCommand w message := by
  by_cases hsize : AccFlow.size ∣ message.length
  · rw [addFlows_spec hsound outLen sh hsize]
    cases hcontext : card.context with
    | none => simp
    | some context =>
      have hremote : RemoteCommand w context (flowsOf (message.length / AccFlow.size) message) ↔
          context.sshRemote.isSome ∧ HasCommand w message := by
        rw [RemoteCommand, HasCommand, and_iff_right hsize]
      dsimp only
      by_cases hstops : RemoteCommand w context
          (flowsOf (message.length / AccFlow.size) message)
      · rw [if_pos hstops]
        exact iff_of_true (by simp) ⟨context, rfl, hremote.mp hstops⟩
      · rw [if_neg hstops]
        refine iff_of_false (by simp) ?_
        rintro ⟨other, hother, hcommand⟩
        obtain rfl := Option.some.inj hother
        exact hstops (hremote.mpr hcommand)
  · rw [addFlows_odd outLen sh hsize]
    simp [HasCommand, hsize]

theorem disconnect_crashed {w : World} {card : BeCardInner} (hsound : Sound card) (sh : Shared) :
    Crashed (disconnectMessageHandle w card sh) ↔
      ∃ context, card.context = some context ∧ context.sshRemote.isSome := by
  rw [disconnect_spec hsound]
  cases hcontext : card.context with
  | none => simp
  | some context =>
    dsimp only
    by_cases hstops : context.sshRemote.isSome
    · simp [hstops]
    · simp [hstops]

/-- A message of one of the three types crashes its handler just where it is fatal. -/
theorem process_crashed {w : World} {card : BeCardInner} {type : BitVec 32} (hsound : Sound card)
    (htype : type ∈ [accUnixHello, accUnixAddFlows, accUnixDisconnect]) (message : Bytes)
    (outLen : ℕ) (sh : Shared) :
    Crashed (beAccMessageProcess w card type message outLen sh) ↔ Fatal w card type message := by
  simp only [List.mem_cons, List.not_mem_nil, or_false] at htype
  unfold beAccMessageProcess
  rcases htype with rfl | rfl | rfl
  · rw [handlerAt_hello, fatal_hello]
    exact hello_crashed hsound message outLen sh
  · rw [handlerAt_addFlows, fatal_addFlows]
    exact addFlows_crashed hsound message outLen sh
  · rw [handlerAt_disconnect, fatal_disconnect]
    exact disconnect_crashed hsound sh

/-- What a handler that returns has done to its card and to the shared state, by the type
and the body of the message. -/
inductive Handles (w : World) (type : BitVec 32) (message : Bytes) (card : BeCardInner)
    (sh : Shared) : BeCardInner → Shared → Prop
  | refused : type ≠ accUnixDisconnect → Handles w type message card sh card sh
  | unmatched : type = accUnixHello →
      Handles w type message card sh { card with plugin := none } sh
  | dropped : type = accUnixHello → helloOutcome w card.card message.length = .dropped →
      Handles w type message card sh { card with plugin := none, context := none } sh
  | attached (slot : PluginSlot) (context : AccContext) : type = accUnixHello →
      helloOutcome w card.card message.length = .attached → NewContext card sh context →
      Handles w type message card sh { card with plugin := some slot, context := some context }
        (noteHello card.addr context.addr sh)
  | added (context : AccContext) : type = accUnixAddFlows → card.context = some context →
      Handles w type message card sh card
        (addResult w context (flowsOf (message.length / AccFlow.size) message) sh).2
  | flushed (context : AccContext) : type = accUnixDisconnect → card.context = some context →
      context.sshRemote = none →
      Handles w type message card sh { card with plugin := none, context := none }
        (afterFlush w context (w.shell 0) sh)

/-- On a sound card every message that returns is one of these. -/
theorem handles_of_process {w : World} {type : BitVec 32} {message : Bytes} {card : BeCardInner}
    {outLen : ℕ} {sh : Shared} {handled : Handled} (hsound : Sound card)
    (h : beAccMessageProcess w card type message outLen sh = .ok handled) :
    Handles w type message card sh handled.card handled.shared := by
  unfold beAccMessageProcess at h
  rcases handlerAt_cases type with ⟨htype, hat⟩ | ⟨htype, hat⟩ | ⟨htype, hat⟩ | ⟨-, hat | hat⟩
  · rw [hat] at h
    have hspec := hello_spec (w := w) hsound message outLen sh
    have hrun : helloMessageHandle w card message outLen sh = .ok handled := h
    cases houtcome : helloOutcome w card.card message.length with
    | refused =>
      simp only [houtcome, hrun, Except.ok.injEq] at hspec
      subst hspec
      exact .refused (by rw [htype]; decide)
    | unmatched =>
      simp only [houtcome, hrun, Except.ok.injEq] at hspec
      subst hspec
      exact .unmatched htype
    | crash => simp [houtcome, hrun] at hspec
    | dropped =>
      simp only [houtcome, hrun, Except.ok.injEq] at hspec
      subst hspec
      exact .dropped htype houtcome
    | attached =>
      simp only [houtcome, hrun, Except.ok.injEq] at hspec
      obtain ⟨slot, context, hnew, rfl⟩ := hspec
      exact .attached slot context htype houtcome hnew
  · rw [hat] at h
    have hrun : addFlowsMessageHandle w card message outLen sh = .ok handled := h
    by_cases hsize : AccFlow.size ∣ message.length
    · rw [addFlows_spec hsound outLen sh hsize] at hrun
      cases hcontext : card.context with
      | none => simp [hcontext] at hrun
      | some context =>
        simp only [hcontext] at hrun
        split at hrun
        · cases hrun
        · obtain rfl := Except.ok.inj hrun
          exact .added context htype hcontext
    · rw [addFlows_odd outLen sh hsize, Except.ok.injEq] at hrun
      subst hrun
      exact .refused (by rw [htype]; decide)
  · rw [hat] at h
    have hrun : disconnectMessageHandle w card sh = .ok handled := h
    rw [disconnect_spec hsound] at hrun
    cases hcontext : card.context with
    | none => simp [hcontext] at hrun
    | some context =>
      simp only [hcontext] at hrun
      split at hrun
      · cases hrun
      · rename_i hlocal
        obtain rfl := Except.ok.inj hrun
        exact .flushed context htype hcontext (Option.not_isSome_iff_eq_none.mp hlocal)
  · simp [hat] at h
  · simp [hat] at h

end BeLa.Handling
