import BeLa.Handling
import BeLa.Paths
import BeLa.Writes

/-!
The host name that an accepted HELLO leaves behind. `strncpy` and the terminator
behind it stay inside the field for a body that is shorter than the field. A body
of exactly its size passes the length check, and its terminator goes into the
bridge name.
-/
namespace BeLa.HostName

open LittleEndian Writes Switch Context Execute Card Message Handling Paths

/-- The writes to `hostname`: the copy of the body, and the terminator behind it. -/
def hostnameWrites (message : Bytes) : List (Write Byte) :=
  [⟨0, strncpy message message.length⟩, ⟨message.length, [0]⟩]

/-- The names after a HELLO: the writes to `hostname`, and "br0" at `bridge`. -/
theorem helloNames_eq (names message : Bytes) :
    helloNames names message =
      put (putAll names (hostnameWrites message)) ⟨nameSize, [0x62, 0x72, 0x30, 0]⟩ := by
  rfl

/-- The writes stay inside the field, which then holds the body up to its first zero and ends
with a zero of its own. -/
structure NameKept (context : AccContext) (message : Bytes) : Prop where
  inside : ∀ w ∈ hostnameWrites message, w.Within nameSize
  terminated : 0 ∈ context.hostname
  name : cString context.hostname = cString message

theorem cString_cString (bs : Bytes) : cString (cString bs) = cString bs :=
  List.takeWhile_idem

/-- A copy of its own length is the string and zeros behind it. -/
theorem strncpy_self (message : Bytes) :
    strncpy message message.length =
      cString message ++ List.replicate (message.length - (cString message).length) 0 := by
  rw [strncpy, List.take_length]

/-- The field after a body that is shorter than it: the string and zeros. -/
theorem hostname_of_short {message : Bytes} (h : message.length < nameSize) :
    (helloNames (List.replicate (2 * nameSize) 0) message).take nameSize =
      cString message ++ List.replicate (nameSize - (cString message).length) 0 := by
  have hstring : (cString message).length ≤ message.length :=
    (List.takeWhile_prefix _).length_le
  have hcopy : (strncpy message message.length).length = message.length :=
    length_strncpy message message.length
  -- both writes replace zeros by zeros but for the string itself
  have hputs : putAll (List.replicate (2 * nameSize) 0) (hostnameWrites message) =
      cString message ++ List.replicate (2 * nameSize - (cString message).length) 0 := by
    have hfirst := put_append [] (strncpy message message.length)
      (List.replicate (2 * nameSize) (0 : Byte))
    have hsecond := put_append (strncpy message message.length) [0]
      (List.replicate (2 * nameSize - message.length) (0 : Byte))
    rw [hcopy] at hfirst hsecond
    rw [List.drop_replicate] at hfirst hsecond
    simp only [List.nil_append, List.length_nil] at hfirst
    rw [hostnameWrites, putAll, List.foldl_cons, List.foldl_cons, List.foldl_nil, hfirst, hsecond,
      strncpy_self, List.append_assoc, List.append_assoc, List.singleton_append,
      ← List.replicate_succ, ← List.replicate_add, List.length_singleton]
    congr 2
    omega
  rw [helloNames_eq, take_put _ (Nat.le_refl _), hputs, List.take_append, List.take_replicate,
    List.take_of_length_le (by omega)]
  · congr 2
    omega
  · rw [hputs, List.length_append, List.length_replicate]
    omega

/-- Of the accepted bodies those shorter than the field, and no others, are kept as they
should be; the bridge is br0 after every one. -/
theorem accepted_name_kept_iff {w : World} {card : BeCardInner} {message : Bytes} {outLen : ℕ}
    {sh : Shared} {handled : Handled}
    (h : helloMessageHandle w card message outLen sh = .ok handled) (hok : handled.ok) :
    ∃ context, handled.card.context = some context ∧ context.bridge = br0 ∧
      (NameKept context message ↔ message.length < nameSize) := by
  obtain ⟨hlen, context, hcontext, hnames⟩ := names_of_hello h hok
  refine ⟨context, hcontext, ?_, ?_, ?_⟩
  · rw [AccContext.bridge, hnames]
    exact bridge_helloNames (List.length_replicate ..) hlen
  · intro hkept
    have hlast := hkept.inside ⟨message.length, [0]⟩ (by simp [hostnameWrites])
    simp only [Write.Within, List.length_singleton] at hlast
    omega
  · intro hshort
    have hstring : (cString message).length ≤ message.length :=
      (List.takeWhile_prefix _).length_le
    have hhostname : context.hostname = cString message ++
        List.replicate (nameSize - (cString message).length) 0 := by
      rw [AccContext.hostname, hnames, hostname_of_short hshort]
    refine ⟨?_, ?_, ?_⟩
    · simp only [hostnameWrites, List.forall_mem_cons, Write.Within, length_strncpy,
        List.length_singleton]
      refine ⟨by omega, by omega, by simp⟩
    · rw [hhostname, List.mem_append, List.mem_replicate]
      exact .inr ⟨by omega, rfl⟩
    · rw [hhostname, cString_zeros, cString_cString]

/-- A HELLO of the given body on a card of a vendor whose plugin makes contexts. -/
def hello (message : Bytes) : Except Stops.Stop Handled :=
  helloMessageHandle .healthy ⟨1, .plain 0x73, none, none, none⟩ message 0 (.start [])

set_option maxRecDepth 8192 in
/-- A name with a zero inside is cut there, and kept. -/
theorem accepted_name_kept_short :
    ∃ handled context, hello [0x76, 0x6D, 0, 0x31] = .ok handled ∧
      handled.card.context = some context ∧ NameKept context [0x76, 0x6D, 0, 0x31] := by
  obtain ⟨handled, h, hok⟩ : ∃ handled, hello [0x76, 0x6D, 0, 0x31] = .ok handled ∧
      handled.ok := ⟨_, rfl, rfl⟩
  obtain ⟨context, hcontext, -, hkept⟩ := accepted_name_kept_iff h hok
  exact ⟨handled, context, h, hcontext, hkept.mpr (by decide)⟩

def accepted (run : Except Stops.Stop Handled) : Bool :=
  match run with
  | .ok handled => handled.ok
  | .error _ => false

theorem exists_of_accepted {run : Except Stops.Stop Handled} (h : accepted run = true) :
    ∃ handled, run = .ok handled ∧ handled.ok = true := by
  cases run with
  | error stop => cases h
  | ok handled => exact ⟨handled, rfl, h⟩

def fullName : Bytes := List.replicate nameSize 0x61

/-- The full name is accepted; its terminator is written behind the field, which is left
without one. -/
theorem full_name_unterminated : ¬ ∀ (message : Bytes) (handled : Handled),
    hello message = .ok handled → handled.ok = true →
      ∃ context, handled.card.context = some context ∧ NameKept context message := by
  intro hall
  obtain ⟨handled, h, hok⟩ := exists_of_accepted
    (show accepted (hello fullName) = true by decide +kernel)
  obtain ⟨context, -, hkept⟩ := hall fullName handled h hok
  have hlast := hkept.inside ⟨fullName.length, [0]⟩ (by simp [hostnameWrites])
  rw [fullName, List.length_replicate] at hlast
  exact absurd hlast (by decide)

end BeLa.HostName
