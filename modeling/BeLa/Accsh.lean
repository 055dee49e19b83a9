import BeLa.CommandServer
import BeLa.Components
import BeLa.Writes

/-!
The command line tool `accsh`. Its options fill in the fields of one command
block, which it sends to the command server unless a field is still empty. Paths
and uuids are copied without a look at their length, so one that does not fit its
field runs into the next one.
-/
namespace BeLa.Accsh

open LittleEndian Stops Context Plugin Card Channel Command CommandServer Writes Runs Components

/-- An argument of the command line: a C string. -/
abbrev Argument := { text : Bytes // 0 ∉ text }

/-- What `getopt_long` returns: an option with its `optarg`, if it takes one. -/
inductive Opt
  | vendor (optarg : Argument)
  | model (optarg : Argument)
  | channel (optarg : Argument)
  | uuid (optarg : Argument)
  | type (optarg : Argument)
  | register
  | unregister
  /-- `-V`, or an option that is not known -/
  | other
  deriving DecidableEq

def netronome : Bytes := [0x6E, 0x65, 0x74, 0x72, 0x6F, 0x6E, 0x6F, 0x6D, 0x65]

def agilioIsa : Bytes :=
  [0x61, 0x67, 0x69, 0x6C, 0x69, 0x6F, 0x5F, 0x69, 0x73, 0x61, 0x5F, 0x34, 0x30, 0x30, 0x30]

def flow : Bytes := [0x66, 0x6C, 0x6F, 0x77]

def compress : Bytes := [0x63, 0x6F, 0x6D, 0x70, 0x72, 0x65, 0x73, 0x73]

def vendorNetronome : BitVec 32 := 1

def agilioIsa4000 : BitVec 32 := 1

inductive Field
  | vendor
  | model
  | accType
  | vmUuid
  | vmpath
  | cmdType
  deriving DecidableEq, Repr

namespace Field

def offset : Field → ℕ
  | vendor => 0
  | model => 4
  | accType => 8
  | vmUuid => 12
  | vmpath => 140
  | cmdType => 268

def size : Field → ℕ
  | vendor => 4
  | model => 4
  | accType => 4
  | vmUuid => nameMaxLen
  | vmpath => nameMaxLen
  | cmdType => 4

end Field

def assign (block : Bytes) (f : Field) (x : BitVec 32) : Bytes :=
  put block ⟨f.offset, wordBytes 4 x⟩

/-- `strcpy` into a field: the string and its terminator, also where they run out of the field. -/
def strcpy (block : Bytes) (f : Field) (optarg : Argument) : Except Stop Bytes :=
  let w : Write Byte := ⟨f.offset, optarg.1 ++ [0]⟩
  if w.Within cmdHdrSize then .ok (put block w) else .error .outOfBounds

def optionStep (block : Bytes) : Opt → Except Stop Bytes
  | .vendor optarg =>
    if optarg.1 = netronome then .ok (assign block .vendor vendorNetronome) else .ok block
  | .model optarg =>
    if optarg.1 = agilioIsa then .ok (assign block .model agilioIsa4000) else .ok block
  | .channel optarg => if optarg.1 ≠ [] then strcpy block .vmpath optarg else .ok block
  | .uuid optarg => if optarg.1 ≠ [] then strcpy block .vmUuid optarg else .ok block
  | .register => .ok (assign block .cmdType cmdTypeRegister)
  | .unregister => .ok (assign block .cmdType cmdTypeUnregister)
  | .type optarg =>
    if optarg.1 = flow then
      .ok (assign block .accType ((cmdOf block).card.accType ||| accTypeFlow))
    else if optarg.1 = compress then
      .ok (assign block .accType ((cmdOf block).card.accType ||| accTypeCompress))
    else .ok block
  | .other => .ok block

structure World where
  allocated : Bool
  connected : Bool
  deriving DecidableEq, Repr

inductive Outcome
  | usage
  | sent (block : Bytes)
  | failed
  deriving DecidableEq, Repr

/-- The block after `memset`. -/
def zeroBlock : Bytes := List.replicate cmdHdrSize 0

def BadUsage (cmd : CmdHdr) : Prop :=
  cmd.card.vendor = 0 ∨ cmd.cmdType = 0 ∨ cmd.card.model = 0 ∨ cmd.card.accType = 0 ∨
    cmd.card.vmpath.toList.headD 0 = 0 ∨ cmd.card.vmUuid.toList.headD 0 = 0

instance (cmd : CmdHdr) : Decidable (BadUsage cmd) := by
  unfold BadUsage
  infer_instance

/-- `main`. -/
def accsh (world : World) (os : List Opt) : Except Stop Outcome :=
  if ¬ world.allocated then .ok .failed
  else
    match exec optionStep zeroBlock os with
    | .error stop => .error stop
    | .ok block =>
      if BadUsage (cmdOf block) then .ok .usage
      else if world.connected then .ok (.sent block)
      else .ok .failed

namespace Opt

def kind : Opt → Option Field
  | vendor _ => some .vendor
  | model _ => some .model
  | channel _ => some .vmpath
  | uuid _ => some .vmUuid
  | type _ => some .accType
  | register => some .cmdType
  | unregister => some .cmdType
  | other => none

def channelText : Opt → Option Bytes
  | channel optarg => if optarg.1 ≠ [] then some optarg.1 else none
  | _ => none

def uuidText : Opt → Option Bytes
  | uuid optarg => if optarg.1 ≠ [] then some optarg.1 else none
  | _ => none

def command : Opt → Option (BitVec 32)
  | register => some cmdTypeRegister
  | unregister => some cmdTypeUnregister
  | _ => none

def typeBits : Opt → BitVec 32
  | type optarg =>
    if optarg.1 = flow then accTypeFlow
    else if optarg.1 = compress then accTypeCompress
    else 0
  | _ => 0

/-- The text that an option copies fits its field, with its terminator. -/
def Fits : Opt → Prop
  | channel optarg => optarg.1.length < nameMaxLen
  | uuid optarg => optarg.1.length < nameMaxLen
  | _ => True

end Opt

/-- The command says what the options say: the last path and the last uuid that are not empty,
the last of `-r` and `-R`, and all types together. -/
structure Describes (os : List Opt) (cmd : CmdHdr) : Prop where
  vmpath : (os.filterMap Opt.channelText).getLast? = some (cString cmd.card.vmpath.toList)
  vmUuid : (os.filterMap Opt.uuidText).getLast? = some (cString cmd.card.vmUuid.toList)
  cmdType : (os.filterMap Opt.command).getLast? = some cmd.cmdType
  accType : cmd.card.accType = os.foldl (fun types o => types ||| o.typeBits) 0

def part : Option Field → Bytes → Bytes
  | some f, block => field f.offset f.size block
  | none, _ => []

def Contained (o : Opt) : Prop :=
  ∀ before block, exec optionStep zeroBlock before = .ok block →
    ∃ block', optionStep block o = .ok block' ∧ ∀ k, k ≠ o.kind → part k block' = part k block

/-- Usage is printed, or the block that is sent describes the options; rearranging options of
different kinds makes no difference, and no option alters a field that is not its own. -/
structure Meets (world : World) (os : List Opt) : Prop where
  outcome : accsh world os = .ok .usage ∨
    (∃ block, accsh world os = .ok (.sent block) ∧ Describes os (cmdOf block)) ∨
    ((world.allocated = false ∨ world.connected = false) ∧ accsh world os = .ok .failed)
  rearranged : ∀ os', Rearranged Opt.kind os os' → accsh world os' = accsh world os
  contained : ∀ o ∈ os, Contained o

def overwrite (values old : Bytes) : Bytes := values ++ old.drop values.length

def written : Opt → Bytes → Option Bytes
  | .vendor optarg, _ => if optarg.1 = netronome then some (wordBytes 4 vendorNetronome) else none
  | .model optarg, _ => if optarg.1 = agilioIsa then some (wordBytes 4 agilioIsa4000) else none
  | .channel optarg, _ => if optarg.1 ≠ [] then some (optarg.1 ++ [0]) else none
  | .uuid optarg, _ => if optarg.1 ≠ [] then some (optarg.1 ++ [0]) else none
  | .register, _ => some (wordBytes 4 cmdTypeRegister)
  | .unregister, _ => some (wordBytes 4 cmdTypeUnregister)
  | .type optarg, old =>
    if optarg.1 = flow then some (wordBytes 4 (wordOf 4 old ||| accTypeFlow))
    else if optarg.1 = compress then some (wordBytes 4 (wordOf 4 old ||| accTypeCompress))
    else none
  | .other, _ => none

def act (o : Opt) (old : Bytes) : Bytes :=
  match written o old with
  | none => old
  | some values => overwrite values old

variable {block : Bytes} {f g : Field} {o : Opt}

theorem Field.within (f : Field) : f.offset + f.size ≤ cmdHdrSize := by
  cases f <;> simp [offset, size, nameMaxLen, cmdHdrSize]

/-- The fields do not overlap. -/
theorem Field.apart (h : f ≠ g) :
    f.offset + f.size ≤ g.offset ∨ g.offset + g.size ≤ f.offset := by
  cases f <;> cases g <;> simp [offset, size, nameMaxLen] at h ⊢

/-- The fields make up the block. -/
theorem Field.cover {i : ℕ} (hi : i < cmdHdrSize) :
    ∃ f : Field, f.offset ≤ i ∧ i < f.offset + f.size := by
  have hsize : cmdHdrSize = 272 := rfl
  by_cases hvendor : i < 4
  · exact ⟨.vendor, by simp only [offset]; omega, by simp only [offset, size]; omega⟩
  by_cases hmodel : i < 8
  · exact ⟨.model, by simp only [offset]; omega, by simp only [offset, size]; omega⟩
  by_cases haccType : i < 12
  · exact ⟨.accType, by simp only [offset]; omega, by simp only [offset, size]; omega⟩
  by_cases hvmUuid : i < 140
  · exact ⟨.vmUuid, by simp only [offset]; omega, by simp only [offset, size, nameMaxLen]; omega⟩
  by_cases hvmpath : i < 268
  · exact ⟨.vmpath, by simp only [offset]; omega, by simp only [offset, size, nameMaxLen]; omega⟩
  · exact ⟨.cmdType, by simp only [offset]; omega, by simp only [offset, size]; omega⟩

theorem part_getElem? (f : Field) (block : Bytes) {i : ℕ} (hi : f.offset ≤ i)
    (hlt : i < f.offset + f.size) : (part (some f) block)[i - f.offset]? = block[i]? := by
  rw [part, getElem?_field, if_pos (by omega), Nat.add_sub_cancel' hi]

/-- A block is what its fields are. -/
theorem block_ext {s t : Bytes} (hs : s.length = cmdHdrSize) (ht : t.length = cmdHdrSize)
    (h : ∀ k, part k s = part k t) : s = t := by
  apply List.ext_getElem?
  intro i
  by_cases hi : i < cmdHdrSize
  · obtain ⟨f, hfi, hlt⟩ := Field.cover hi
    rw [← part_getElem? f s hfi hlt, ← part_getElem? f t hfi hlt, h]
  · rw [List.getElem?_eq_none (by omega), List.getElem?_eq_none (by omega)]

theorem within_put {values : Bytes} (hvalues : values.length ≤ f.size)
    (hblock : block.length = cmdHdrSize) : (Write.mk f.offset values).Within block.length := by
  have hfield := f.within
  simp only [Write.Within]
  omega

/-- A write that fits its field leaves the others. -/
theorem part_put {values : Bytes} (hvalues : values.length ≤ f.size)
    (hblock : block.length = cmdHdrSize) (k : Option Field) :
    part k (put block ⟨f.offset, values⟩) =
      if k = some f then overwrite values (part k block) else part k block := by
  have hwithin := within_put hvalues hblock
  cases k with
  | none => rfl
  | some g =>
    have hfield := f.within
    by_cases hg : g = f
    · subst hg
      rw [if_pos rfl, part, part, field_put_start (by omega) hvalues, overwrite]
    · have happart := Field.apart hg
      rw [if_neg (by simpa using hg), part, part, field_put_apart hwithin (by dsimp only; omega)]

theorem wordOf_field (offset : ℕ) (block : Bytes) :
    wordOf 4 (field offset 4 block) = wordOf 4 (block.drop offset) := by
  rw [wordOf, wordOf, field, List.take_take, Nat.min_self]

theorem accType_eq (block : Bytes) :
    (cmdOf block).card.accType = wordOf 4 (part (some .accType) block) :=
  (wordOf_field 8 block).symm

/-- Words fit the fields of words. -/
theorem assign_eq (block : Bytes) (hsize : f.size = 4) (x : BitVec 32) :
    (.ok (assign block f x) : Except Stop Bytes) =
      if (Write.mk f.offset (wordBytes 4 x)).Within cmdHdrSize
      then .ok (put block ⟨f.offset, wordBytes 4 x⟩) else .error .outOfBounds := by
  have hfield := f.within
  have hwithin : (Write.mk f.offset (wordBytes 4 x)).Within cmdHdrSize := by
    simp only [Write.Within, length_wordBytes]
    omega
  rw [if_pos hwithin, assign]

/-- An option leaves the block, or writes from the start of its field on. -/
theorem step_cases (block : Bytes) (o : Opt) :
    (written o (part o.kind block) = none ∧ optionStep block o = .ok block) ∨
      ∃ f values, o.kind = some f ∧ written o (part o.kind block) = some values ∧
        optionStep block o = if (Write.mk f.offset values).Within cmdHdrSize
          then .ok (put block ⟨f.offset, values⟩) else .error .outOfBounds := by
  cases o with
  | vendor optarg =>
    by_cases hname : optarg.1 = netronome
    · exact Or.inr ⟨.vendor, _, rfl, if_pos hname, (if_pos hname).trans (assign_eq _ rfl _)⟩
    · exact Or.inl ⟨if_neg hname, if_neg hname⟩
  | model optarg =>
    by_cases hname : optarg.1 = agilioIsa
    · exact Or.inr ⟨.model, _, rfl, if_pos hname, (if_pos hname).trans (assign_eq _ rfl _)⟩
    · exact Or.inl ⟨if_neg hname, if_neg hname⟩
  | channel optarg =>
    by_cases hempty : optarg.1 ≠ []
    · exact Or.inr ⟨.vmpath, _, rfl, if_pos hempty, if_pos hempty⟩
    · exact Or.inl ⟨if_neg hempty, if_neg hempty⟩
  | uuid optarg =>
    by_cases hempty : optarg.1 ≠ []
    · exact Or.inr ⟨.vmUuid, _, rfl, if_pos hempty, if_pos hempty⟩
    · exact Or.inl ⟨if_neg hempty, if_neg hempty⟩
  | type optarg =>
    have htype := accType_eq block
    by_cases hflow : optarg.1 = flow
    · refine Or.inr ⟨.accType, _, rfl, if_pos hflow, ?_⟩
      rw [optionStep, if_pos hflow, htype]
      exact assign_eq _ rfl _
    · by_cases hcompress : optarg.1 = compress
      · refine Or.inr ⟨.accType, _, rfl, (if_neg hflow).trans (if_pos hcompress), ?_⟩
        rw [optionStep, if_neg hflow, if_pos hcompress, htype]
        exact assign_eq _ rfl _
      · exact Or.inl ⟨(if_neg hflow).trans (if_neg hcompress),
          (if_neg hflow).trans (if_neg hcompress)⟩
  | register => exact Or.inr ⟨.cmdType, _, rfl, rfl, assign_eq _ rfl _⟩
  | unregister => exact Or.inr ⟨.cmdType, _, rfl, rfl, assign_eq _ rfl _⟩
  | other => exact Or.inl ⟨rfl, rfl⟩

/-- What an option that fits writes fits its field. -/
theorem length_written {old values : Bytes} (hfits : o.Fits) (hkind : o.kind = some f)
    (h : written o old = some values) : values.length ≤ f.size := by
  have htext : ∀ optarg : Argument, optarg.1.length < nameMaxLen →
      (optarg.1 ++ [0]).length ≤ nameMaxLen := by
    intro optarg hlt
    rw [List.length_append]
    exact hlt
  cases o with
  | other => cases h
  | channel optarg =>
    cases hkind
    obtain ⟨-, hvalues⟩ := Option.ite_none_right_eq_some.mp h
    cases hvalues
    exact htext optarg hfits
  | uuid optarg =>
    cases hkind
    obtain ⟨-, hvalues⟩ := Option.ite_none_right_eq_some.mp h
    cases hvalues
    exact htext optarg hfits
  | vendor optarg =>
    cases hkind
    obtain ⟨-, hvalues⟩ := Option.ite_none_right_eq_some.mp h
    cases hvalues
    exact (length_wordBytes 4 _).le
  | model optarg =>
    cases hkind
    obtain ⟨-, hvalues⟩ := Option.ite_none_right_eq_some.mp h
    cases hvalues
    exact (length_wordBytes 4 _).le
  | type optarg =>
    cases hkind
    rw [written] at h
    split at h
    · cases h
      exact (length_wordBytes 4 _).le
    · obtain ⟨-, hvalues⟩ := Option.ite_none_right_eq_some.mp h
      cases hvalues
      exact (length_wordBytes 4 _).le
  | register =>
    cases hkind
    cases h
    exact (length_wordBytes 4 _).le
  | unregister =>
    cases hkind
    cases h
    exact (length_wordBytes 4 _).le

/-- Options that fit set their own field only. -/
theorem separate : Separate optionStep Opt.kind part act
    (fun block => block.length = cmdHdrSize) Opt.Fits := by
  intro block o hblock hfits
  rcases step_cases block o with ⟨hnone, hstep⟩ | ⟨f, values, hkind, hsome, hstep⟩
  · refine ⟨block, hstep, hblock, fun k => ?_⟩
    by_cases hk : k = o.kind
    · rw [if_pos hk, act, hk, hnone]
    · rw [if_neg hk]
  · have hvalues := length_written hfits hkind hsome
    have hwithin := within_put hvalues hblock
    rw [if_pos (hblock ▸ hwithin)] at hstep
    refine ⟨_, hstep, ?_, fun k => ?_⟩
    · exact (length_put hwithin).trans hblock
    · rw [part_put hvalues hblock, hkind]
      by_cases hk : k = some f
      · rw [if_pos hk, if_pos hk, act, hk, ← hkind, hsome]
      · rw [if_neg hk, if_neg hk]

/-- Whatever the options, they leave a whole block. -/
theorem length_exec {before : List Opt} {s : Bytes} (hs : s.length = cmdHdrSize)
    (h : exec optionStep s before = .ok block) : block.length = cmdHdrSize := by
  have hstep : ∀ s o s', s.length = cmdHdrSize → optionStep s o = .ok s' →
      s'.length = cmdHdrSize := by
    intro s o s' hs hok
    rcases step_cases s o with ⟨-, hsame⟩ | ⟨f, values, -, -, hwrite⟩
    · rw [hsame] at hok
      cases hok
      exact hs
    · rw [hwrite] at hok
      split at hok
      · rename_i hwithin
        cases hok
        rw [length_put (hs ▸ hwithin), hs]
      · cases hok
  exact (along_iff_reached s before).mp (along_of_step hstep before hs) before block
    (List.prefix_refl _) h

/-- The string in a field that was just written, and what is written of a word. -/
theorem cString_overwrite (optarg : Argument) (old : Bytes) :
    cString (overwrite (optarg.1 ++ [0]) old) = optarg.1 := by
  rw [overwrite, List.append_assoc, List.singleton_append, Paths.cString_zero optarg.2]

theorem wordOf_overwrite (x : BitVec 32) (old : Bytes) :
    wordOf 4 (overwrite (wordBytes 4 x) old) = x := wordOf_wordBytes 4 x _

theorem cString_act_channel (o : Opt) (hkind : o.kind = some .vmpath) (old : Bytes) :
    cString (act o old) = o.channelText.getD (cString old) := by
  cases o with
  | channel optarg =>
    by_cases hempty : optarg.1 ≠ []
    · rw [act, written, if_pos hempty, Opt.channelText, if_pos hempty]
      exact cString_overwrite optarg old
    · rw [act, written, if_neg hempty, Opt.channelText, if_neg hempty]
      rfl
  | _ => cases hkind

theorem cString_act_uuid (o : Opt) (hkind : o.kind = some .vmUuid) (old : Bytes) :
    cString (act o old) = o.uuidText.getD (cString old) := by
  cases o with
  | uuid optarg =>
    by_cases hempty : optarg.1 ≠ []
    · rw [act, written, if_pos hempty, Opt.uuidText, if_pos hempty]
      exact cString_overwrite optarg old
    · rw [act, written, if_neg hempty, Opt.uuidText, if_neg hempty]
      rfl
  | _ => cases hkind

theorem wordOf_act_command (o : Opt) (hkind : o.kind = some .cmdType) (old : Bytes) :
    wordOf 4 (act o old) = o.command.getD (wordOf 4 old) := by
  cases o with
  | register => exact wordOf_overwrite _ old
  | unregister => exact wordOf_overwrite _ old
  | _ => cases hkind

theorem wordOf_act_type (o : Opt) (hkind : o.kind = some .accType) (old : Bytes) :
    wordOf 4 (act o old) = wordOf 4 old ||| o.typeBits := by
  cases o with
  | type optarg =>
    rw [act, written, Opt.typeBits]
    by_cases hflow : optarg.1 = flow
    · rw [if_pos hflow, if_pos hflow]
      exact wordOf_overwrite _ old
    · rw [if_neg hflow, if_neg hflow]
      by_cases hcompress : optarg.1 = compress
      · rw [if_pos hcompress, if_pos hcompress]
        exact wordOf_overwrite _ old
      · rw [if_neg hcompress, if_neg hcompress]
        exact (BitVec.or_zero).symm
  | _ => cases hkind

theorem charArrayAt_toList (f : Field) (hsize : f.size = nameMaxLen)
    (hblock : block.length = cmdHdrSize) :
    (charArrayAt (block.drop f.offset)).toList = part (some f) block := by
  have hfield := f.within
  have hlength : nameMaxLen ≤ (block.drop f.offset).length := by
    rw [List.length_drop]
    omega
  have htake : ((block.drop f.offset) ++ List.replicate nameMaxLen 0).take nameMaxLen =
      (block.drop f.offset).take nameMaxLen := List.take_append_of_le_length hlength
  rw [part, field, hsize]
  exact htake

/-- The block after options that fit, as the command server reads it. -/
theorem fields_of_exec {os : List Opt} (hfits : ∀ o ∈ os, o.Fits) :
    ∃ block, exec optionStep zeroBlock os = .ok block ∧
      cString (cmdOf block).card.vmpath.toList =
        (os.filterMap Opt.channelText).getLast?.getD [] ∧
      cString (cmdOf block).card.vmUuid.toList =
        (os.filterMap Opt.uuidText).getLast?.getD [] ∧
      (cmdOf block).cmdType = (os.filterMap Opt.command).getLast?.getD 0 ∧
      (cmdOf block).card.accType = os.foldl (fun types o => types ||| o.typeBits) 0 := by
  have hzero : zeroBlock.length = cmdHdrSize := List.length_replicate
  obtain ⟨block, hexec, hblock, hpart⟩ := separate.exec hzero hfits
  refine ⟨block, hexec, ?_, ?_, ?_, ?_⟩
  · have harray : (cmdOf block).card.vmpath.toList = part (some .vmpath) block :=
      charArrayAt_toList .vmpath rfl hblock
    have hother : ∀ o : Opt, o.kind ≠ some .vmpath → ∀ x, o.channelText.getD x = x := by
      intro o hkind x
      cases o with
      | channel optarg => exact absurd rfl hkind
      | _ => rfl
    rw [harray, hpart, observe_actAll cString_act_channel hother, foldl_getD]
    rfl
  · have harray : (cmdOf block).card.vmUuid.toList = part (some .vmUuid) block :=
      charArrayAt_toList .vmUuid rfl hblock
    have hother : ∀ o : Opt, o.kind ≠ some .vmUuid → ∀ x, o.uuidText.getD x = x := by
      intro o hkind x
      cases o with
      | uuid optarg => exact absurd rfl hkind
      | _ => rfl
    rw [harray, hpart, observe_actAll cString_act_uuid hother, foldl_getD]
    rfl
  · have hword : (cmdOf block).cmdType = wordOf 4 (part (some .cmdType) block) :=
      (wordOf_field 268 block).symm
    have hother : ∀ o : Opt, o.kind ≠ some .cmdType → ∀ x, o.command.getD x = x := by
      intro o hkind x
      cases o with
      | register => exact absurd rfl hkind
      | unregister => exact absurd rfl hkind
      | _ => rfl
    rw [hword, hpart, observe_actAll wordOf_act_command hother, foldl_getD]
    rfl
  · have hother : ∀ o : Opt, o.kind ≠ some .accType → ∀ x, x ||| o.typeBits = x := by
      intro o hkind x
      cases o with
      | type optarg => exact absurd rfl hkind
      | _ => exact BitVec.or_zero
    rw [accType_eq, hpart, observe_actAll wordOf_act_type hother]
    rfl

theorem eq_some_of_getD {γ : Type*} {x : Option γ} {d v : γ} (h : v = x.getD d) (hne : v ≠ d) :
    x = some v := by
  cases x with
  | none => exact absurd h hne
  | some w => rw [h, Option.getD_some]

theorem cString_ne_nil {bs : Bytes} (h : ¬ bs.headD 0 = 0) : cString bs ≠ [] := by
  cases bs with
  | nil => exact absurd rfl h
  | cons b bs =>
    have hb : b ≠ 0 := h
    rw [cString, List.takeWhile_cons, if_pos (decide_eq_true hb)]
    exact List.cons_ne_nil _ _

/-- With options that fit, what is sent describes them. -/
theorem outcome_of_fits {world : World} {os : List Opt} (hfits : ∀ o ∈ os, o.Fits) :
    accsh world os = .ok .usage ∨
      (∃ block, accsh world os = .ok (.sent block) ∧ Describes os (cmdOf block)) ∨
      ((world.allocated = false ∨ world.connected = false) ∧ accsh world os = .ok .failed) := by
  obtain ⟨block, hexec, hvmpath, hvmUuid, hcmdType, haccType⟩ := fields_of_exec hfits
  unfold accsh
  by_cases hallocated : world.allocated = true
  · rw [if_neg (not_not.mpr hallocated), hexec]
    dsimp only
    by_cases hbad : BadUsage (cmdOf block)
    · exact Or.inl (if_pos hbad)
    · rw [if_neg hbad]
      refine Or.inr ?_
      by_cases hconnected : world.connected = true
      · refine Or.inl ⟨block, if_pos hconnected, ?_⟩
        simp only [BadUsage, not_or] at hbad
        obtain ⟨-, hcommand, -, -, hpath, huuid⟩ := hbad
        exact ⟨eq_some_of_getD hvmpath (cString_ne_nil hpath),
          eq_some_of_getD hvmUuid (cString_ne_nil huuid), eq_some_of_getD hcmdType hcommand,
          haccType⟩
      · exact Or.inr ⟨Or.inr (Bool.not_eq_true _ ▸ hconnected), if_neg hconnected⟩
  · exact Or.inr (Or.inr ⟨Or.inl (Bool.not_eq_true _ ▸ hallocated), if_pos hallocated⟩)

/-- Rearranging options that fit leaves the block as it is. -/
theorem accsh_rearranged {world : World} {os os' : List Opt} (hfits : ∀ o ∈ os, o.Fits)
    (hes : Rearranged Opt.kind os os') : accsh world os' = accsh world os := by
  have hzero : zeroBlock.length = cmdHdrSize := List.length_replicate
  have hsame := separate.exec_rearranged (fun _ _ hs ht => block_ext hs ht) hzero hfits hes
  rw [accsh, accsh, hsame]

theorem contained_of_fits (hfits : o.Fits) : Contained o := by
  intro before block hexec
  have hblock := length_exec List.length_replicate hexec
  obtain ⟨block', hstep, -, hpart⟩ := separate block o hblock hfits
  exact ⟨block', hstep, fun k hk => (hpart k).trans (if_neg hk)⟩

/-- A string that does not fit runs into the next field. -/
theorem strcpy_overrun {block' : Bytes} {optarg : Argument} (hblock : block.length = cmdHdrSize)
    (hnext : g.offset = f.offset + f.size) (hsize : 0 < g.size)
    (hlong : f.size ≤ optarg.1.length) (h : strcpy block f optarg = .ok block') :
    (part (some g) block')[0]? = (optarg.1 ++ [0])[f.size]? := by
  unfold strcpy at h
  dsimp only at h
  split at h
  · rename_i hwithin
    cases h
    have hbyte := part_getElem? g (put block ⟨f.offset, optarg.1 ++ [0]⟩) (Nat.le_refl g.offset)
      (by omega)
    rw [Nat.sub_self] at hbyte
    have hlength : (optarg.1 ++ [0]).length = optarg.1.length + 1 := by simp
    rw [hbyte, getElem?_put (hblock ▸ hwithin), hlength, if_pos (by dsimp only; omega), hnext,
      Nat.add_sub_cancel_left]
  · cases h

/-- Such a string leaves the same byte there, whatever was there before. -/
theorem not_contained_of_long {optarg : Argument} {before before' block' : List _}
    (hkind : o.kind = some f) (hstep : ∀ block, optionStep block o = strcpy block f optarg)
    (hlong : f.size ≤ optarg.1.length) (hnext : g.offset = f.offset + f.size) (hsize : 0 < g.size)
    (hne : g ≠ f) (hexec : exec optionStep zeroBlock before = .ok block)
    (hexec' : exec optionStep zeroBlock before' = .ok block')
    (hdiffer : (part (some g) block)[0]? ≠ (part (some g) block')[0]?) : ¬ Contained o := by
  intro hcontained
  have hother : some g ≠ o.kind := by simpa [hkind] using hne
  have hbyte : ∀ before block, exec optionStep zeroBlock before = .ok block →
      (part (some g) block)[0]? = (optarg.1 ++ [0])[f.size]? := by
    intro before block hexec
    obtain ⟨after, hcopy, hsame⟩ := hcontained before block hexec
    rw [hstep] at hcopy
    rw [← hsame (some g) hother]
    exact strcpy_overrun (length_exec List.length_replicate hexec) hnext hsize hlong hcopy
  exact hdiffer ((hbyte _ _ hexec).trans (hbyte _ _ hexec').symm)

def letter (b : Byte) (hb : b ≠ 0) : Argument := ⟨[b], by simpa using Ne.symm hb⟩

/-- An option that leaves the other fields of every block copies no string that is too long. -/
theorem fits_of_contained (h : Contained o) : o.Fits := by
  cases o with
  | channel optarg =>
    by_contra hfits
    have hlong : nameMaxLen ≤ optarg.1.length := Nat.le_of_not_lt hfits
    have hempty : optarg.1 ≠ [] := List.ne_nil_of_length_pos (Nat.lt_of_lt_of_le (by decide) hlong)
    have hstep : ∀ block, optionStep block (.channel optarg) = strcpy block .vmpath optarg :=
      fun _ => if_pos hempty
    have hregister : exec optionStep zeroBlock [.register] =
        .ok (assign zeroBlock .cmdType cmdTypeRegister) := rfl
    have hunregister : exec optionStep zeroBlock [.unregister] =
        .ok (assign zeroBlock .cmdType cmdTypeUnregister) := rfl
    exact not_contained_of_long rfl hstep hlong (g := .cmdType) rfl (by decide) (by decide)
      hregister hunregister (by decide) h
  | uuid optarg =>
    by_contra hfits
    have hlong : nameMaxLen ≤ optarg.1.length := Nat.le_of_not_lt hfits
    have hempty : optarg.1 ≠ [] := List.ne_nil_of_length_pos (Nat.lt_of_lt_of_le (by decide) hlong)
    have hstep : ∀ block, optionStep block (.uuid optarg) = strcpy block .vmUuid optarg :=
      fun _ => if_pos hempty
    have hchannel : ∀ (b : Byte) (hb : b ≠ 0),
        exec optionStep zeroBlock [.channel (letter b hb)] =
          .ok (put zeroBlock ⟨Field.vmpath.offset, [b, 0]⟩) := fun _ _ => rfl
    exact not_contained_of_long rfl hstep hlong (g := .vmpath) rfl (by decide) (by decide)
      (hchannel 1 (by decide)) (hchannel 2 (by decide)) (by decide) h
  | _ => trivial

/-- A command line does what its options say, in every arrangement of them and with every option
in its own field, just when all paths and uuids on it fit their fields. -/
theorem accsh_meets_iff (world : World) (os : List Opt) : Meets world os ↔ ∀ o ∈ os, o.Fits := by
  constructor
  · intro h o ho
    exact fits_of_contained (h.contained o ho)
  · intro hfits
    refine ⟨outcome_of_fits hfits, fun os' hes => accsh_rearranged hfits hes, fun o ho => ?_⟩
    exact contained_of_fits (hfits o ho)

/-- A registration whose channel is `p` and whose uuid is 128 letters `a` with a `q` behind. -/
def overlongUuid : List Opt :=
  [.vendor ⟨netronome, by decide⟩, .model ⟨agilioIsa, by decide⟩, .type ⟨flow, by decide⟩,
    .register, .channel (letter 0x70 (by decide)),
    .uuid ⟨List.replicate 128 0x61 ++ [0x71], by decide⟩]

/-- The uuid runs into the path, so the block that is sent has the path `q`. -/
theorem overlong_uuid_is_sent_as_path : ¬ ∀ (world : World) (os : List Opt), Meets world os := by
  intro hall
  obtain ⟨hmeets, -, -⟩ := hall ⟨true, true⟩ overlongUuid
  have hsent : accsh ⟨true, true⟩ overlongUuid = .ok (.sent
      (wordBytes 4 vendorNetronome ++ wordBytes 4 agilioIsa4000 ++ wordBytes 4 accTypeFlow ++
        List.replicate 128 0x61 ++ (0x71 :: List.replicate 127 0) ++
        wordBytes 4 cmdTypeRegister)) := by decide +kernel
  rw [hsent] at hmeets
  rcases hmeets with husage | ⟨block, hblock, hdescribes⟩ | ⟨-, hfailed⟩
  · cases husage
  · cases hblock
    have hpath := hdescribes.vmpath
    revert hpath
    decide +kernel
  · cases hfailed

/-- A word that options leave or set to one value is this value, or as it was. -/
theorem wordOf_actAll_or {x : BitVec 32} {os : List Opt} {old : Bytes}
    (hos : ∀ o ∈ os, ∀ old, act o old = old ∨ act o old = overwrite (wordBytes 4 x) old)
    (hold : wordOf 4 old = 0 ∨ wordOf 4 old = x) :
    wordOf 4 (actAll act os old) = 0 ∨ wordOf 4 (actAll act os old) = x := by
  induction os generalizing old with
  | nil => exact hold
  | cons o os ih =>
    rw [List.forall_mem_cons] at hos
    have hnext : wordOf 4 (act o old) = 0 ∨ wordOf 4 (act o old) = x := by
      rcases hos.1 old with hsame | hnew
      · rwa [hsame]
      · exact Or.inr (by rw [hnew, wordOf_overwrite])
    exact ih hos.2 hnext

/-- The vendor and the model of a block are known, or not set. -/
theorem known_of_exec {os : List Opt} (hfits : ∀ o ∈ os, o.Fits)
    (hexec : exec optionStep zeroBlock os = .ok block) :
    ((cmdOf block).card.vendor = 0 ∨ (cmdOf block).card.vendor = vendorNetronome) ∧
      ((cmdOf block).card.model = 0 ∨ (cmdOf block).card.model = agilioIsa4000) := by
  have hzero : zeroBlock.length = cmdHdrSize := List.length_replicate
  obtain ⟨block', hexec', -, hpart⟩ := separate.exec hzero hfits
  cases hexec.symm.trans hexec'
  have hvendor : (cmdOf block).card.vendor = wordOf 4 (part (some .vendor) block) :=
    (wordOf_field 0 block).symm
  have hmodel : (cmdOf block).card.model = wordOf 4 (part (some .model) block) :=
    (wordOf_field 4 block).symm
  rw [hvendor, hmodel, hpart, hpart]
  constructor
  · refine wordOf_actAll_or (fun o ho old => ?_) (Or.inl rfl)
    have hkind := of_decide_eq_true (List.mem_filter.mp ho).2
    cases o with
    | vendor optarg =>
      rw [act, written]
      by_cases hname : optarg.1 = netronome
      · exact Or.inr (by rw [if_pos hname])
      · exact Or.inl (by rw [if_neg hname])
    | _ => cases hkind
  · refine wordOf_actAll_or (fun o ho old => ?_) (Or.inl rfl)
    have hkind := of_decide_eq_true (List.mem_filter.mp ho).2
    cases o with
    | model optarg =>
      rw [act, written]
      by_cases hname : optarg.1 = agilioIsa
      · exact Or.inr (by rw [if_pos hname])
      · exact Or.inl (by rw [if_neg hname])
    | _ => cases hkind

theorem sent_eq {world : World} {os : List Opt} (h : accsh world os = .ok (.sent block)) :
    exec optionStep zeroBlock os = .ok block ∧ ¬ BadUsage (cmdOf block) := by
  unfold accsh at h
  split at h
  · cases h
  · split at h
    · cases h
    · rename_i sent hexec
      split at h
      · cases h
      · rename_i hgood
        split at h
        · cases h
          exact ⟨hexec, hgood⟩
        · cases h

/-- The card of a block that is sent is one that the daemon can rely on. -/
theorem usable_of_sent {world : World} {os : List Opt} (hfits : ∀ o ∈ os, o.Fits)
    (h : accsh world os = .ok (.sent block)) : Usable (cmdOf block).card := by
  obtain ⟨hexec, hgood⟩ := sent_eq h
  obtain ⟨hvendor, hmodel⟩ := known_of_exec hfits hexec
  simp only [BadUsage, not_or] at hgood
  obtain ⟨hvendor', -, hmodel', -, hpath, -⟩ := hgood
  refine ⟨?_, ?_, hpath, ?_⟩
  · rw [hvendor.resolve_left hvendor']
    decide
  · rw [hmodel.resolve_left hmodel']
    decide
  · by_contra hopen
    obtain ⟨block', hexec', hvmpath, -⟩ := fields_of_exec hfits
    cases hexec.symm.trans hexec'
    rw [Paths.cString_of_not_mem hopen] at hvmpath
    have hne : (cmdOf block).card.vmpath.toList ≠ [] := fun hnil => hpath (by rw [hnil]; rfl)
    have hlast := List.mem_of_getLast? (eq_some_of_getD hvmpath hne)
    obtain ⟨o, ho, htext⟩ := List.mem_filterMap.mp hlast
    have hlength : (cmdOf block).card.vmpath.toList.length = nameMaxLen :=
      (cmdOf block).card.vmpath.toList_length
    have hfit := hfits o ho
    cases o with
    | channel optarg =>
      obtain ⟨-, hsame⟩ := Option.ite_none_right_eq_some.mp htext
      rw [Opt.Fits, Option.some.inj hsame, hlength] at hfit
      exact Nat.lt_irrefl _ hfit
    | _ => cases htext

/-- The command server serves what the tool sends; an unregistration needs nulls behind its
block. -/
theorem sent_request_served {world : World} {os : List Opt} {s : Daemon} {behind : Bytes}
    (env : CommandWorld) (hfits : ∀ o ∈ os, o.Fits) (h : accsh world os = .ok (.sent block))
    (hs : AllUsable s) (hnulls : (cmdOf block).cmdType = cmdTypeUnregister →
      pointerAt behind 0 = false ∧ pointerAt behind 8 = false ∧ pointerAt behind 16 = false) :
    ∃ s', beCmdRequestProcess s ⟨some block, behind, env⟩ = .ok s' ∧ AllUsable s' := by
  obtain ⟨hexec, hgood⟩ := sent_eq h
  have hlength := length_exec List.length_replicate hexec
  have husable := usable_of_sent hfits h
  simp only [BadUsage, not_or] at hgood
  obtain ⟨-, -, -, -, hpath, huuid⟩ := hgood
  have hsafe : CommandSafe s (cmdOf block) behind env :=
    (commandSafe_iff hs).mpr ⟨fun _ => huuid, fun _ => hpath, fun _ _ => husable, hnulls⟩
  obtain ⟨ok, s', hprocess, hafter⟩ := hsafe
  refine ⟨s', ?_, hafter⟩
  have hne : ¬ block.length = 0 := by
    rw [hlength]
    decide
  simp only [beCmdRequestProcess, if_neg hne, if_neg (not_not.mpr hlength), hprocess]
  rfl

end BeLa.Accsh
