import BeLa.Plugin
import BeLa.Slots
import Mathlib.Data.Vector.Basic

/-!
Cards and the table `g_acc_cards`. A record in the table is an `acc_card_t` with
the session pointers behind it; a record in a received command is only the
`acc_card_t`, and what stands behind it is the rest of the command buffer.
-/
namespace BeLa.Card

open LittleEndian Stops Slots Context Plugin

/-- `VMPATH_MAX_LEN` and `VMUUID_MAX_LEN`. -/
def nameMaxLen : ℕ := 128

def accCardMaxNum : ℕ := 64

abbrev CharArray := List.Vector Byte nameMaxLen

/-- `acc_card_t`. -/
structure AccCard where
  vendor : BitVec 32
  model : BitVec 32
  accType : BitVec 32
  vmUuid : CharArray
  vmpath : CharArray
  deriving DecidableEq

/-- A Netronome flow card whose uuid and path have one character. -/
def AccCard.plain (path : Byte) : AccCard where
  vendor := 1
  model := 1
  accType := accTypeFlow
  vmUuid := ⟨0x75 :: List.replicate 127 0, by simp [nameMaxLen]⟩
  vmpath := ⟨path :: List.replicate 127 0, by simp [nameMaxLen]⟩

/-- The string at `vmpath` when the given bytes stand behind the record. -/
def AccCard.pathBefore (card : AccCard) (behind : Bytes) : Bytes :=
  cString (card.vmpath.toList ++ behind)

/-- `be_card_inner_t`; its `fd` is never written and stays 0. -/
structure BeCardInner where
  addr : ℕ
  card : AccCard
  context : Option AccContext
  readEvent : Option ℕ
  plugin : Option PluginSlot
  deriving DecidableEq

/-- The string at `vmpath` of a record in the table, where the zero `fd` follows. -/
def BeCardInner.path (card : BeCardInner) : Bytes := card.card.pathBefore [0, 0, 0, 0]

structure AccCardsTable where
  slots : List (Option BeCardInner)
  regNum : ℤ
  deriving DecidableEq

def AccCardsTable.cards (table : AccCardsTable) : List BeCardInner := records table.slots

def beLaAccCardsInit : AccCardsTable := ⟨List.replicate accCardMaxNum none, 0⟩

/-- `be_la_get_acc_cardptr`: the first card whose path is the given string. -/
def beLaGetAccCardptr (table : AccCardsTable) (path : Bytes) : Option BeCardInner :=
  table.cards.find? (fun card => card.path = path)

/-- `be_acc_card_reg` of the record at the start of a command, with a fresh address for
the copy; `none` where the source returns -1. -/
def beAccCardReg (alloc : Bool) (addr : ℕ) (reginfo : AccCard) (behind : Bytes)
    (table : AccCardsTable) : Except Stop (Option AccCardsTable) :=
  if reginfo.vmUuid.toList.headD 0 = 0 then .error (.assertion .beAccCardReg)
  else if reginfo.vmpath.toList.headD 0 = 0 then .error (.assertion .beAccCardReg)
  else if (beLaGetAccCardptr table (reginfo.pathBefore behind)).isSome then .ok none
  else
    let copy : BeCardInner := ⟨addr, reginfo, none, none, none⟩
    match place copy table.slots with
    | none => .ok none
    | some slots => if alloc then .ok (some ⟨slots, table.regNum + 1⟩) else .ok none

/-- What `be_acc_card_unreg` is called with: the string at `vmpath`, and whether the
words it takes for the session pointers are null. -/
structure UnregInfo where
  path : Bytes
  context : Bool
  plugin : Bool
  readEvent : Bool
  deriving DecidableEq, Repr

/-- The close path passes a card of the table. -/
def UnregInfo.ofCard (card : BeCardInner) : UnregInfo where
  path := card.path
  context := card.context.isSome
  plugin := card.plugin.isSome
  readEvent := card.readEvent.isSome

def pointerAt (memory : Bytes) (offset : ℕ) : Bool := wordOf 8 (memory.drop offset) ≠ 0

/-- The command path passes the record in the received block: `fd` overlays the command
type, and the session pointers lie in what the buffer holds behind the block. -/
def UnregInfo.ofCommand (card : AccCard) (cmdType : BitVec 32) (behind : Bytes) : UnregInfo where
  path := card.pathBefore (wordBytes 4 cmdType ++ behind)
  context := pointerAt behind 0
  readEvent := pointerAt behind 8
  plugin := pointerAt behind 16

/-- `be_acc_card_unreg`, with the record it frees. -/
def beAccCardUnreg (unreginfo : UnregInfo) (table : AccCardsTable) :
    Except Stop (AccCardsTable × Option BeCardInner) :=
  if unreginfo.context then .error (.assertion .beAccCardUnreg)
  else if unreginfo.plugin then .error (.assertion .beAccCardUnreg)
  else if unreginfo.readEvent then .error (.assertion .beAccCardUnreg)
  else
    let (slots, freed) := takeOut (fun card => card.path = unreginfo.path) table.slots
    .ok (⟨slots, if freed.isSome then table.regNum - 1 else table.regNum⟩, freed)

end BeLa.Card
