import BeLa.OfctlRule
import BeLa.Words

/-!
The printed values of the fields of a rule, read back: ports and the bytes of
an address are decimal numbers, the bytes of a MAC are pairs of upper-case
hexadecimal digits. Each reader inverts its printer, so a printed value
determines the field, and no printed value contains a space.
-/
namespace BeLa.FieldText

open LittleEndian Numerals Words BeLa.Flow OfctlRule

def readByte (b : ℕ) (t : Text) : Option Byte :=
  match readNumeral b t with
  | some n => if n < 256 then some (BitVec.ofNat 8 n) else none
  | none => none

def readMac (t : Text) : Option Mac :=
  match (t.splitOn ':').mapM (readByte 16) with
  | some [b0, b1, b2, b3, b4, b5] => some ⟨b0, b1, b2, b3, b4, b5⟩
  | _ => none

def readIp (t : Text) : Option (BitVec 32) :=
  match (t.splitOn '.').mapM (readByte 10) with
  | some [b0, b1, b2, b3] => some (wordOf 4 [b0, b1, b2, b3])
  | _ => none

def readPort (t : Text) : Option (BitVec 16) :=
  match readNumeral 10 t with
  | some n => if n < 65536 then some (BitVec.ofNat 16 n) else none
  | none => none

theorem readByte_eq {b n : ℕ} {t : Text} (hread : readNumeral b t = some n) (hn : n < 256) :
    readByte b t = some (BitVec.ofNat 8 n) := by
  simp only [readByte, hread, if_pos hn]

theorem mapM_readByte {b : ℕ} {print : ℕ → Text}
    (hprint : ∀ n, readNumeral b (print n) = some n) (bs : Bytes) :
    (bs.map (fun byte => print byte.toNat)).mapM (readByte b) = some bs := by
  induction bs with
  | nil => rfl
  | cons byte bs ih =>
    have hbyte := readByte_eq (hprint byte.toNat) (by omega)
    simp [List.mapM_cons, hbyte, ih]

theorem readMac_printMac (mac : Mac) : readMac (printMac mac) = some mac := by
  have hsplit : (printMac mac).splitOn ':' = mac.bytes.map (fun b => padded 2 16 b.toNat) := by
    apply List.splitOn_intercalate
    · intro part hpart
      obtain ⟨b, _, rfl⟩ := List.mem_map.mp hpart
      exact not_mem_padded 2 (by omega) (by omega) rfl
    · simp [Mac.bytes]
  have hread : ∀ n, readNumeral 16 (padded 2 16 n) = some n := fun n =>
    readNumeral_padded 2 (by omega) (by omega)
  rw [readMac, hsplit, mapM_readByte hread]
  rfl

theorem readIp_printIp (ip : BitVec 32) : readIp (printIp ip) = some ip := by
  have hsplit : (printIp ip).splitOn '.' = (wordBytes 4 ip).map (fun b => numeral 10 b.toNat) := by
    apply List.splitOn_intercalate
    · intro part hpart
      obtain ⟨b, _, rfl⟩ := List.mem_map.mp hpart
      exact not_mem_numeral (by omega) (by omega) rfl
    · exact List.ne_nil_of_length_pos (by simp)
  have hread : ∀ n, readNumeral 10 (numeral 10 n) = some n := fun n =>
    readNumeral_numeral (by omega) (by omega)
  obtain ⟨b0, b1, b2, b3, hword⟩ : ∃ b0 b1 b2 b3, wordBytes 4 ip = [b0, b1, b2, b3] :=
    ⟨_, _, _, _, rfl⟩
  have hvalue : wordOf 4 [b0, b1, b2, b3] = ip := by
    have h := wordOf_wordBytes 4 ip []
    rwa [List.append_nil, hword] at h
  rw [readIp, hsplit, mapM_readByte hread, hword]
  exact congrArg some hvalue

theorem readPort_printPort (port : BitVec 16) : readPort (printPort port) = some port := by
  have hread : readNumeral 10 (printPort port) = some port.toNat :=
    readNumeral_numeral (by omega) (by omega)
  have hlt : port.toNat < 65536 := port.isLt
  simp only [readPort, hread, if_pos hlt, BitVec.ofNat_toNat, BitVec.setWidth_eq]

theorem injective_of_read {α : Type} {print : α → Text} {read : Text → Option α}
    (h : ∀ x, read (print x) = some x) : Function.Injective print := by
  intro x y hxy
  have hread := congrArg read hxy
  simpa [h] using hread

theorem printMac_injective : Function.Injective printMac := injective_of_read readMac_printMac

theorem printIp_injective : Function.Injective printIp := injective_of_read readIp_printIp

theorem printPort_injective : Function.Injective printPort :=
  injective_of_read readPort_printPort

theorem solid_printPort (port : BitVec 16) : Solid (printPort port) :=
  solid_numeral (by omega) (by omega)

theorem solid_printIp (ip : BitVec 32) : Solid (printIp ip) := by
  apply solid_intercalate (by decide)
  intro part hpart
  obtain ⟨b, _, rfl⟩ := List.mem_map.mp hpart
  exact solid_numeral (by omega) (by omega)

theorem solid_printMac (mac : Mac) : Solid (printMac mac) := by
  apply solid_intercalate (by decide)
  intro part hpart
  obtain ⟨b, _, rfl⟩ := List.mem_map.mp hpart
  exact not_mem_padded 2 (by omega) (by omega) rfl

end BeLa.FieldText
