import BeLa.Invariant

/-!
The ledger of host ids. The HELLOs of a run are numbered, each gets the host id
of its number, every attached context is one of them, and every rule on the
bridge was there at the start or was added by one of them under its cookie.
-/
namespace BeLa.Ledger

open Runs Logs Switch Context Execute Plugin Card Message Channel Command Editing Footprint
open Handling Steps Invariant

variable {s s' : Daemon} {rules : List SwitchRule}

def hostIdAt (i : ℕ) : BitVec 32 := 0xDEAD0000 + BitVec.ofNat 32 i

theorem hostIdAt_succ (i : ℕ) : hostIdAt i + 1 = hostIdAt (i + 1) := by
  unfold hostIdAt
  rw [BitVec.add_assoc]
  congr 1
  exact (BitVec.ofNat_add i 1).symm

/-- Host ids repeat only after 2^32 HELLOs. -/
theorem hostIdAt_injective {i j : ℕ} (hi : i < 2 ^ 32) (hj : j < 2 ^ 32)
    (h : (hostIdAt i).toNat = (hostIdAt j).toNat) : i = j := by
  simp only [hostIdAt, BitVec.toNat_add, BitVec.toNat_ofNat] at h
  omega

def Attached (s : Daemon) (addr : ℕ) (context : AccContext) : Prop :=
  ∃ card ∈ s.cards, card.addr = addr ∧ card.context = some context

structure Ledger (rules : List SwitchRule) (s : Daemon) : Prop where
  counter : s.shared.contextHostId = hostIdAt s.shared.history.hellos.length
  hostids : ∀ i hello, s.shared.history.hellos[i]? = some hello → hello.hostid = hostIdAt i
  attached : ∀ addr context, Attached s addr context → context.card = addr ∧
    (⟨addr, context.addr, context.hostid⟩ : Hello) ∈ s.shared.history.hellos
  installs : ∀ install ∈ s.shared.history.installs, ∃ hello ∈ s.shared.history.hellos,
    hello.card = install.card ∧ hello.context = install.context ∧
      install.rule.cookie = hello.hostid.toNat
  rules : ∀ r ∈ s.shared.rules, r ∈ rules ∨
    ∃ install ∈ s.shared.history.installs, install.rule = r

/-- Within 2^32 HELLOs the host id tells the HELLO. -/
theorem Ledger.hello_eq (hl : Ledger rules s)
    (hcount : s.shared.history.hellos.length < 2 ^ 32) {hello other : Hello}
    (hin : hello ∈ s.shared.history.hellos) (hin' : other ∈ s.shared.history.hellos)
    (h : hello.hostid.toNat = other.hostid.toNat) : hello = other := by
  obtain ⟨i, hi, hgeti⟩ := List.mem_iff_getElem.mp hin
  obtain ⟨j, hj, hgetj⟩ := List.mem_iff_getElem.mp hin'
  have hid := hl.hostids i hello (by rw [List.getElem?_eq_getElem hi, hgeti])
  have hid' := hl.hostids j other (by rw [List.getElem?_eq_getElem hj, hgetj])
  rw [hid, hid'] at h
  obtain rfl := hostIdAt_injective (by omega) (by omega) h
  rw [← hgeti, ← hgetj]

theorem ledger_boot (rules : List SwitchRule) : Ledger rules (boot rules) where
  counter := rfl
  hostids i hello h := by simp [boot, Shared.start] at h
  attached addr context h := by
    obtain ⟨card, hcard, -⟩ := h
    rw [show (boot rules).cards = [] from Slots.records_replicate_none accCardMaxNum] at hcard
    cases hcard
  installs install h := by simp [boot, Shared.start] at h
  rules r h := .inl h

/-- A round without a HELLO: contexts may only leave, and what is added is accounted for. -/
theorem ledger_mono (hl : Ledger rules s)
    (hattached : ∀ addr context, Attached s' addr context → Attached s addr context)
    (hcounter : s'.shared.contextHostId = s.shared.contextHostId)
    (hhellos : s'.shared.history.hellos = s.shared.history.hellos)
    (hinstalls : Grown (fun install => ∃ hello ∈ s.shared.history.hellos,
      hello.card = install.card ∧ hello.context = install.context ∧
        install.rule.cookie = hello.hostid.toNat)
      s.shared.history.installs s'.shared.history.installs)
    (hrules : ∀ r ∈ s'.shared.rules, r ∈ s.shared.rules ∨
      ∃ install ∈ s'.shared.history.installs, install.rule = r) : Ledger rules s' where
  counter := by rw [hcounter, hhellos, hl.counter]
  hostids := by
    rw [hhellos]
    exact hl.hostids
  attached addr context h := by
    rw [hhellos]
    exact hl.attached addr context (hattached addr context h)
  installs install h := by
    rw [hhellos]
    rcases hinstalls.old_or h with hold | hnew
    · exact hl.installs install hold
    · exact hnew
  rules r hr := by
    rcases hrules r hr with hold | hin
    · rcases hl.rules r hold with hstart | ⟨install, hin, hrule⟩
      · exact .inl hstart
      · exact .inr ⟨install, hinstalls.mem_of_old hin, hrule⟩
    · exact .inr hin

/-- Executing commands for an attached context keeps the ledger. -/
theorem ledger_footprint (hl : Ledger rules s) {addr : ℕ} {context : AccContext}
    (hcontext : Attached s addr context) (h : Footprint context s.shared s'.shared)
    (hattached : ∀ addr context, Attached s' addr context → Attached s addr context) :
    Ledger rules s' := by
  obtain ⟨hcard, hhello⟩ := hl.attached addr context hcontext
  refine ledger_mono hl hattached h.counters.contextHostId h.counters.hellos
    (h.installs.mono ?_) (fun r hr => (h.rules r hr).imp_right And.right)
  rintro install ⟨hinstall, hname, hcookie⟩
  exact ⟨_, hhello, hcard.symm.trans hinstall.symm, hname.symm, hcookie⟩

/-- The contexts after a write to a card: the one written, or one of another card. -/
theorem attached_writeCard {card' : BeCardInner} {shared : Shared} {addr : ℕ}
    {context : AccContext} (h : Attached { s.writeCard card' with shared := shared } addr context) :
    (addr = card'.addr ∧ card'.context = some context) ∨ Attached s addr context := by
  obtain ⟨x, hx, haddr, hcontext⟩ := h
  rcases mem_writeCard.mp hx with ⟨rfl, -⟩ | ⟨hx, -⟩
  · exact .inl ⟨haddr.symm, hcontext⟩
  · exact .inr ⟨x, hx, haddr, hcontext⟩

/-- A HELLO that attaches a context gets the next number. -/
theorem ledger_hello (hl : Ledger rules s) {card card' : BeCardInner} {context : AccContext}
    (hnew : NewContext card s.shared context) (haddr : card'.addr = card.addr)
    (hcontext : card'.context = some context) :
    Ledger rules
      { s.writeCard card' with shared := noteHello card.addr context.addr s.shared } where
  counter := by
    simp only [noteHello, List.length_append, List.length_singleton]
    rw [hl.counter, hostIdAt_succ]
  hostids i hello h := by
    simp only [noteHello] at h
    by_cases hi : i < s.shared.history.hellos.length
    · rw [List.getElem?_append_left hi] at h
      exact hl.hostids i hello h
    · rw [List.getElem?_append_right (by omega)] at h
      have hzero : i - s.shared.history.hellos.length = 0 := by
        have hlt := (List.getElem?_eq_some_iff.mp h).1
        simpa using hlt
      rw [hzero] at h
      obtain rfl := Option.some.inj h
      have hlast : i = s.shared.history.hellos.length := by omega
      rw [hlast]
      exact hl.counter
  attached addr other h := by
    rcases attached_writeCard h with ⟨rfl, hsome⟩ | hold
    · obtain rfl : context = other := Option.some.inj (hcontext.symm.trans hsome)
      refine ⟨hnew.card.trans haddr.symm, List.mem_append_right _ ?_⟩
      rw [haddr, hnew.hostid]
      exact List.mem_singleton_self _
    · obtain ⟨hcard, hin⟩ := hl.attached addr other hold
      exact ⟨hcard, List.mem_append_left _ hin⟩
  installs install h := by
    obtain ⟨hello, hin, hrest⟩ := hl.installs install h
    exact ⟨hello, List.mem_append_left _ hin, hrest⟩
  rules r hr := hl.rules r hr

inductive SessionChange (s : Daemon) : Daemon → Prop
  | quiet {s' : Daemon} (n : ℕ) :
      (∀ addr context, Attached s' addr context → Attached s addr context) →
      s'.shared = { s.shared with nextAddr := n } → SessionChange s s'
  | ran {s' : Daemon} (addr : ℕ) (context : AccContext) : Attached s addr context →
      (∀ addr context, Attached s' addr context → Attached s addr context) →
      Footprint context s.shared s'.shared → SessionChange s s'
  | hello (card card' : BeCardInner) (context : AccContext) : card ∈ s.cards →
      NewContext card s.shared context → card'.addr = card.addr →
      card'.context = some context →
      SessionChange s
        { s.writeCard card' with shared := noteHello card.addr context.addr s.shared }

/-- A write that leaves a card with the context it had, or with none. -/
theorem attached_kept {card card' : BeCardInner} {shared : Shared} (hcard : card ∈ s.cards)
    (haddr : card'.addr = card.addr)
    (hcontext : ∀ context, card'.context = some context → card.context = some context)
    (addr : ℕ) (context : AccContext)
    (h : Attached { s.writeCard card' with shared := shared } addr context) :
    Attached s addr context := by
  rcases attached_writeCard h with ⟨rfl, hsome⟩ | hold
  · exact ⟨card, hcard, haddr.symm, hcontext context hsome⟩
  · exact hold

theorem sessionChange_of_handles {card card' : BeCardInner} {w : World} {type : BitVec 32}
    {message : LittleEndian.Bytes} {shared : Shared} (hs : Consistent s) (hcard : card ∈ s.cards)
    (h : Handles w type message card s.shared card' shared) :
    SessionChange s { s.writeCard card' with shared := shared } := by
  have hbr0 : ∀ context, card.context = some context → context.bridge = br0 :=
    fun context hcontext => (hs.sound card hcard context hcontext).bridge
  cases h with
  | refused => exact .quiet _ (attached_kept hcard rfl fun _ h => h) rfl
  | unmatched => exact .quiet _ (attached_kept hcard rfl fun _ h => h) rfl
  | dropped => exact .quiet _ (attached_kept hcard rfl fun _ h => by cases h) rfl
  | attached slot context _ _ hnew => exact .hello card _ context hcard hnew rfl rfl
  | added context _ hcontext =>
    exact .ran card.addr context ⟨card, hcard, rfl, hcontext⟩
      (attached_kept hcard rfl fun _ h => h) (footprint_addRules (hbr0 context hcontext) _)
  | flushed context _ hcontext =>
    exact .ran card.addr context ⟨card, hcard, rfl, hcontext⟩
      (attached_kept hcard rfl fun _ h => by cases h) (footprint_flush (hbr0 context hcontext) _)

theorem sessionChange_of_step {ev : DaemonEvent} (hs : Consistent s)
    (h : daemonStep s ev = .ok s') : SessionChange s s' := by
  -- a card without a context joins the table
  have hjoin : ∀ {card : BeCardInner}, s'.cards.Perm (card :: s.cards) → card.context = none →
      ∀ addr context, Attached s' addr context → Attached s addr context := by
    rintro card hcards hnone addr context ⟨x, hx, haddr, hcontext⟩
    rcases List.mem_cons.mp (hcards.mem_iff.mp hx) with rfl | hold
    · rw [hnone] at hcontext
      cases hcontext
    · exact ⟨x, hold, haddr, hcontext⟩
  cases change_of_step hs h with
  | idle => exact .quiet _ (fun _ _ h => h) rfl
  | registered card _ hblank hcards _ _ hshared =>
    exact .quiet _ (hjoin hcards hblank.context) hshared
  | opened card socket _ hblank _ hcards _ _ hshared =>
    exact .quiet _ (hjoin hcards hblank.context) hshared
  | unregistered card _ hcards _ _ hshared =>
    refine .quiet s.shared.nextAddr ?_ hshared
    rintro addr context ⟨x, hx, haddr, hcontext⟩
    exact ⟨x, hcards.mem_iff.mpr (List.mem_cons_of_mem _ hx), haddr, hcontext⟩
  | handled e card card' msg shared _ hcard _ _ hhandles =>
    exact sessionChange_of_handles hs hcard hhandles
  | closed e card context _ hcard _ hcontext _ hcards _ _ hshared =>
    refine .ran card.addr context ⟨card, hcard, rfl, hcontext⟩ ?_ ?_
    · rintro addr other ⟨x, hx, haddr, hother⟩
      exact ⟨x, ((closed_cards hs hcards).2 x hx).1, haddr, hother⟩
    · rw [hshared]
      exact footprint_flush (hs.sound card hcard context hcontext).bridge _

theorem ledger_step {ev : DaemonEvent} (hs : Consistent s) (hl : Ledger rules s)
    (h : daemonStep s ev = .ok s') : Ledger rules s' := by
  cases sessionChange_of_step hs h with
  | quiet n hattached hshared =>
    refine ledger_mono hl hattached ?_ ?_ (Grown.of_eq ?_) (fun r hr => .inl ?_)
    · rw [hshared]
    · rw [hshared]
    · rw [hshared]
    · rwa [hshared] at hr
  | ran addr context hcontext hattached hfootprint =>
    exact ledger_footprint hl hcontext hfootprint hattached
  | hello card card' context _ hnew haddr hcontext => exact ledger_hello hl hnew haddr hcontext

theorem ledger_of_run {evs : List DaemonEvent} (h : exec daemonStep (boot rules) evs = .ok s) :
    Consistent s ∧ Ledger rules s :=
  (along_iff_reached (P := fun s => Consistent s ∧ Ledger rules s) _ _).mp
    (along_of_step (fun _ _ _ hs h => ⟨consistent_step hs.1 h, ledger_step hs.1 hs.2 h⟩) evs
      ⟨consistent_boot rules, ledger_boot rules⟩)
    evs s (List.prefix_refl _) h

end BeLa.Ledger
