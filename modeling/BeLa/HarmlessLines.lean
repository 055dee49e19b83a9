import BeLa.ShellWords
import BeLa.Editing
import BeLa.Handling

/-!
What a guest can make the daemon execute. The bytes of a guest reach a command
line as decimal and hexadecimal numbers behind fixed keys, so a line is made of
harmless characters and of the two quotes around the rule, and a shell finds one
`ovs-ofctl` command in it.
-/
namespace BeLa.HarmlessLines

open LittleEndian Numerals Words BeLa.Flow OfctlRule CommandLine Switch Context Execute Editing
open Plugin Card Message Handling ShellWords

/-- ASCII letters and digits, the space, and = : . _ / -. -/
def harmlessChar (c : Char) : Bool := c = ' ' || plainChar c

def Harmless (t : Text) : Prop := t.all harmlessChar

instance (t : Text) : Decidable (Harmless t) := by
  unfold Harmless
  infer_instance

def HarmlessPiece : Piece → Prop
  | .lit text => Harmless text
  | .field arg => Harmless arg.key ∧ Harmless arg.value

/-- An add-flow line on br0: two quotes around a harmless argument, one command. -/
structure AddLine (line : Text) : Prop where
  quotes : line.count quoteChar = 2
  command : ∃ argument, Harmless argument ∧
    line = "ovs-ofctl add-flow br0 ".toList ++ ([quoteChar] ++ argument ++ [quoteChar]) ∧
    shellCommands line =
      some [["ovs-ofctl".toList, "add-flow".toList, "br0".toList, argument]]

/-- A del-flows line on br0: harmless throughout, one command. -/
structure FlushLine (line : Text) : Prop where
  quotes : line.count quoteChar = 0
  command : ∃ argument, Harmless argument ∧
    line = "ovs-ofctl del-flows br0 ".toList ++ argument ∧
    shellCommands line =
      some [["ovs-ofctl".toList, "del-flows".toList, "br0".toList, argument]]

/-- What `acc_ovs_flush_rules` passes to `execute_openflow_rule`. -/
def PassedByFlush (context : AccContext) (line : Text) : Prop :=
  commandLine (flushText context.bridge context.hostid) = some line

/-- What `acc_ovs_add_rules` can pass to `execute_openflow_rule`, whether or not this returns. -/
def PassedByAdd (w : World) (context : AccContext) (flows : List AccFlow) (line : Text) : Prop :=
  (∃ rules, accOvsMakeOfctlRules w context flows = some rules ∧
    ∃ rule ∈ rules, commandLine (editText false context.bridge rule) = some line) ∨
  PassedByFlush context line

/-- The lines executed on the way from one state to the other have the property. -/
def Executes (P : Text → Prop) (sh after : Shared) : Prop :=
  ∃ lines, after.history.lines = sh.history.lines ++ lines ∧ ∀ line ∈ lines, P line

variable {w : World} {context : AccContext} {sh : Shared}

theorem Harmless.append {a b : Text} (ha : Harmless a) (hb : Harmless b) : Harmless (a ++ b) := by
  unfold Harmless at ha hb ⊢
  rw [List.all_append, ha, hb]
  rfl

theorem Harmless.flatten {ts : List Text} (h : ∀ t ∈ ts, Harmless t) : Harmless ts.flatten := by
  induction ts with
  | nil => rfl
  | cons t ts ih =>
    have hrest := ih fun t' ht' => h t' (List.mem_cons_of_mem _ ht')
    exact (h t List.mem_cons_self).append hrest

theorem Harmless.intercalate {sep : Text} {parts : List Text} (hsep : Harmless sep)
    (hparts : ∀ t ∈ parts, Harmless t) : Harmless (sep.intercalate parts) := by
  refine List.all_eq_true.mpr (forall_mem_intercalate (List.all_eq_true.mp hsep) ?_)
  intro t ht
  exact List.all_eq_true.mp (hparts t ht)

/-- A digit is a plain character. -/
theorem plainChar_of_digit {c : Char} (h : digitValue c < 16) : plainChar c := by
  have halnum : c.isAlphanum := by
    unfold digitValue at h
    split at h
    · rename_i hdigit
      have hclass : c.isDigit := (Bool.and_eq_true _ _).mpr
        ⟨decide_eq_true (Char.le_def.mp hdigit.1), decide_eq_true (Char.le_def.mp hdigit.2)⟩
      exact (Bool.or_eq_true _ _).mpr (.inr hclass)
    · split at h
      · rename_i hupper
        have hbound : c.val ≤ 'Z'.val := UInt32.le_trans (Char.le_def.mp hupper.2) (by decide)
        have hclass : c.isUpper := decide_eq_true ⟨Char.le_def.mp hupper.1, hbound⟩
        have halpha : c.isAlpha := (Bool.or_eq_true _ _).mpr (.inl hclass)
        exact (Bool.or_eq_true _ _).mpr (.inl halpha)
      · omega
  simp [plainChar, halnum]

theorem plain_numeral {b n : ℕ} (hb : 1 < b) (hb' : b ≤ 16) : (numeral b n).all plainChar := by
  rw [List.all_eq_true]
  intro c hc
  have hdigit := digitValue_lt_of_mem_numeral hb hb' c hc
  exact plainChar_of_digit (by omega)

theorem harmless_of_plain {t : Text} (h : t.all plainChar) : Harmless t := by
  rw [List.all_eq_true] at h
  refine List.all_eq_true.mpr fun c hc => ?_
  simp [harmlessChar, h c hc]

theorem harmless_numeral {b n : ℕ} (hb : 1 < b) (hb' : b ≤ 16) : Harmless (numeral b n) :=
  harmless_of_plain (plain_numeral hb hb')

theorem harmless_padded {b n : ℕ} (width : ℕ) (hb : 1 < b) (hb' : b ≤ 16) :
    Harmless (padded width b n) := by
  apply Harmless.append
  · refine List.all_eq_true.mpr fun c hc => ?_
    rw [List.eq_of_mem_replicate hc]
    rfl
  · exact harmless_numeral hb hb'

/-- No harmless character is a quote. -/
theorem quote_not_mem {t : Text} (h : Harmless t) : quoteChar ∉ t := by
  intro hmem
  have hquote := List.all_eq_true.mp h quoteChar hmem
  revert hquote
  decide

theorem count_quote {t : Text} (h : Harmless t) : t.count quoteChar = 0 :=
  List.count_eq_zero_of_not_mem (quote_not_mem h)

theorem harmless_printMac (mac : Mac) : Harmless (printMac mac) := by
  apply Harmless.intercalate (by decide)
  intro t ht
  obtain ⟨b, _, rfl⟩ := List.mem_map.mp ht
  exact harmless_padded 2 (by omega) (by omega)

theorem harmless_printIp (ip : BitVec 32) : Harmless (printIp ip) := by
  apply Harmless.intercalate (by decide)
  intro t ht
  obtain ⟨b, _, rfl⟩ := List.mem_map.mp ht
  exact harmless_numeral (by omega) (by omega)

theorem harmless_printPort (port : BitVec 16) : Harmless (printPort port) :=
  harmless_numeral (by omega) (by omega)

theorem harmless_lit {text : Text} (h : Harmless text) : HarmlessPiece (.lit text) := h

theorem harmless_field {isSet : Bool} {key : Text} {buffer : StaticBuffer} {value : Text}
    (hkey : Harmless key) (hvalue : Harmless value) :
    HarmlessPiece (.field ⟨isSet, key, buffer, value⟩) :=
  ⟨hkey, hvalue⟩

/-- Pieces of harmless keys and values are a harmless text, whatever fields are set. -/
theorem harmless_pieces {pieces : List Piece} (h : ∀ piece ∈ pieces, HarmlessPiece piece) :
    Harmless ((pieces.map Piece.text).flatten) := by
  apply Harmless.flatten
  intro t ht
  obtain ⟨piece, hmem, rfl⟩ := List.mem_map.mp ht
  have hpiece := h piece hmem
  cases piece with
  | lit text => exact hpiece
  | field arg =>
    by_cases hset : arg.isSet
    · simp only [Piece.text, FieldArg.text, if_pos hset]
      exact hpiece.1.append hpiece.2
    · simp only [Piece.text, FieldArg.text, if_neg hset]
      rfl

theorem harmless_matchHead (flow : AccFlow) : Harmless (matchHead flow) := by
  apply harmless_pieces
  simp only [matchPieces, matchArg, List.forall_mem_cons]
  exact ⟨harmless_field (by decide) (harmless_printMac _), harmless_lit (by decide),
    harmless_field (by decide) (harmless_printMac _), harmless_lit (by decide),
    harmless_field (by decide) (harmless_printIp _), harmless_lit (by decide),
    harmless_field (by decide) (harmless_printIp _), by simp⟩

theorem harmless_portPieces (flow : AccFlow) {word srcKey dstKey : Text} (hword : Harmless word)
    (hsrc : Harmless srcKey) (hdst : Harmless dstKey) :
    Harmless (((portPieces flow word srcKey dstKey).map Piece.text).flatten) := by
  apply harmless_pieces
  simp only [portPieces, matchArg, List.forall_mem_cons]
  exact ⟨harmless_lit hword, harmless_field hsrc (harmless_printPort _), harmless_lit (by decide),
    harmless_field hdst (harmless_printPort _), by simp⟩

theorem harmless_portText (flow : AccFlow) : Harmless (portText flow) := by
  unfold portText
  split
  · exact harmless_portPieces flow (by decide) (by decide) (by decide)
  · exact harmless_portPieces flow (by decide) (by decide) (by decide)

theorem harmless_actionText (flow : AccFlow) : Harmless (actionText flow) := by
  apply harmless_pieces
  simp only [actionPieces, actionArg, List.forall_mem_cons]
  exact ⟨harmless_lit (by decide), harmless_field (by decide) (harmless_printMac _),
    harmless_lit (by decide), harmless_field (by decide) (harmless_printMac _),
    harmless_lit (by decide), harmless_field (by decide) (harmless_printIp _),
    harmless_lit (by decide), harmless_field (by decide) (harmless_printIp _),
    harmless_lit (by decide), harmless_field (by decide) (harmless_printPort _),
    harmless_lit (by decide), harmless_field (by decide) (harmless_printPort _),
    harmless_lit (by decide), by simp⟩

/-- The rule between the quotes is harmless, for any flow and any host id. -/
theorem harmless_editArgument (hostid : BitVec 32) (flow : AccFlow) :
    Harmless (editArgument (ruleOf hostid flow)) := by
  have hcookie : Harmless (numeral 16 hostid.toNat) := harmless_numeral (by omega) (by omega)
  have hpriority : Harmless (numeral 10 (ruleOf hostid flow).priority) :=
    harmless_numeral (by omega) (by omega)
  have htable : Harmless (numeral 10 (ruleOf hostid flow).table) :=
    harmless_numeral (by omega) (by omega)
  have hmatch : Harmless (ruleOf hostid flow).match :=
    (harmless_matchHead flow).append (harmless_portText flow)
  have hspace : Harmless " ".toList := by decide
  have hkeys : Harmless "cookie=0X".toList ∧ Harmless " priority=".toList ∧
      Harmless " table=".toList := by decide
  unfold editArgument
  exact (((((((hkeys.1.append hcookie).append hkeys.2.1).append hpriority).append
    hkeys.2.2).append htable).append hspace).append hmatch).append hspace |>.append
    (harmless_actionText flow)

theorem addLine_editText (hostid : BitVec 32) (flow : AccFlow) :
    AddLine (editText false br0 (ruleOf hostid flow)) := by
  have hargument := harmless_editArgument hostid flow
  have hline : editText false br0 (ruleOf hostid flow) = "ovs-ofctl add-flow br0 ".toList ++
      ([quoteChar] ++ editArgument (ruleOf hostid flow) ++ [quoteChar]) := by
    have hfixed : "ovs-ofctl ".toList ++ "add-flow".toList ++ " ".toList ++ br0 ++ " '".toList =
        "ovs-ofctl add-flow br0 ".toList ++ [quoteChar] := rfl
    have hclose : "'".toList = [quoteChar] := rfl
    unfold editText
    rw [if_neg Bool.false_ne_true, hfixed, hclose]
    simp only [List.append_assoc]
  refine ⟨?_, editArgument (ruleOf hostid flow), hargument, hline, ?_⟩
  · rw [hline, List.count_append, List.count_append, List.count_append, count_quote hargument]
    decide
  · have hfront : Reader.start.readText ("ovs-ofctl add-flow br0 ".toList ++ [quoteChar]) =
        some ⟨true, some [], ["ovs-ofctl".toList, "add-flow".toList, "br0".toList], []⟩ := by
      decide
    rw [hline, List.append_assoc, ← List.append_assoc]
    exact shellCommands_quoted hfront (quote_not_mem hargument)

theorem flushLine_flushText (hostid : BitVec 32) : FlushLine (flushText br0 hostid) := by
  have hnumeral : (numeral 16 hostid.toNat).all plainChar := plain_numeral (by omega) (by omega)
  have hvalue : (numeral 16 hostid.toNat ++ "/-1".toList).all plainChar := by
    rw [List.all_append, hnumeral]
    decide
  have hargument : Harmless ("cookie=0X".toList ++ (numeral 16 hostid.toNat ++ "/-1".toList)) :=
    Harmless.append (by decide) (harmless_of_plain hvalue)
  have hline : flushText br0 hostid = "ovs-ofctl del-flows br0 ".toList ++
      ("cookie=0X".toList ++ (numeral 16 hostid.toNat ++ "/-1".toList)) := by
    have hfixed : "ovs-ofctl del-flows ".toList ++ br0 ++ " cookie=0X".toList =
        "ovs-ofctl del-flows br0 ".toList ++ "cookie=0X".toList := rfl
    have hmask : "/".toList ++ "-1".toList = "/-1".toList := rfl
    unfold flushText
    rw [hfixed]
    simp only [List.append_assoc, hmask]
  have hfront : Harmless "ovs-ofctl del-flows br0 ".toList := by decide
  refine ⟨?_, _, hargument, hline, ?_⟩
  · rw [hline]
    exact count_quote (hfront.append hargument)
  · have hread : Reader.start.readText
        ("ovs-ofctl del-flows br0 ".toList ++ "cookie=0X".toList) = some ⟨false,
          some "cookie=0X".toList, ["ovs-ofctl".toList, "del-flows".toList, "br0".toList], []⟩ := by
      decide
    rw [hline, ← List.append_assoc]
    exact shellCommands_plain hread hvalue

theorem flushLine_passed (hbr0 : context.bridge = br0) {line : Text}
    (h : PassedByFlush context line) : FlushLine line := by
  obtain ⟨-, rfl⟩ := commandLine_eq_some_iff.mp h
  rw [hbr0]
  exact flushLine_flushText context.hostid

theorem harmless_passed (hbr0 : context.bridge = br0) {flows : List AccFlow} {line : Text}
    (h : PassedByAdd w context flows line) : AddLine line ∨ FlushLine line := by
  rcases h with ⟨rules, hrules, rule, hrule, hline⟩ | hflush
  · rw [makeOfctlRules_eq] at hrules
    split_ifs at hrules
    cases hrules
    obtain ⟨flow, -, rfl⟩ := List.mem_map.mp hrule
    obtain ⟨-, rfl⟩ := commandLine_eq_some_iff.mp hline
    rw [hbr0]
    exact .inl (addLine_editText context.hostid flow)
  · exact .inr (flushLine_passed hbr0 hflush)

theorem Executes.refl (P : Text → Prop) (sh : Shared) : Executes P sh sh :=
  ⟨[], (List.append_nil _).symm, by simp⟩

theorem Executes.trans {P : Text → Prop} {sh₁ sh₂ sh₃ : Shared} (h : Executes P sh₁ sh₂)
    (h' : Executes P sh₂ sh₃) : Executes P sh₁ sh₃ := by
  obtain ⟨lines, heq, hlines⟩ := h
  obtain ⟨lines', heq', hlines'⟩ := h'
  refine ⟨lines ++ lines', ?_, List.forall_mem_append.mpr ⟨hlines, hlines'⟩⟩
  rw [heq', heq, List.append_assoc]

theorem Executes.mono {P Q : Text → Prop} {sh₁ sh₂ : Shared} (h : Executes P sh₁ sh₂)
    (hPQ : ∀ line, P line → Q line) : Executes Q sh₁ sh₂ := by
  obtain ⟨lines, heq, hlines⟩ := h
  exact ⟨lines, heq, fun line hline => hPQ line (hlines line hline)⟩

theorem executes_editFlows (hbr0 : context.bridge = br0) (i : ℕ) (flows : List AccFlow) :
    Executes AddLine sh (editFlows w context false i flows sh) := by
  refine ⟨_, lines_editFlows i flows, ?_⟩
  intro line hline
  obtain ⟨flow, _, rfl⟩ := List.mem_map.mp hline
  rw [hbr0]
  exact addLine_editText context.hostid flow

theorem executes_flush (hbr0 : context.bridge = br0) (run : CommandRun) :
    Executes FlushLine sh (afterFlush w context run sh) := by
  refine ⟨[flushText context.bridge context.hostid], rfl, ?_⟩
  rw [hbr0]
  exact List.forall_mem_singleton.mpr (flushLine_flushText context.hostid)

/-- On br0 a batch executes add lines, and behind a failed one the recovery flush. -/
theorem executes_addRules (hbr0 : context.bridge = br0) (flows : List AccFlow) :
    Executes (fun line => AddLine line ∨ FlushLine line) sh
      (addResult w context flows sh).2 := by
  have hnote : Executes (fun line => AddLine line ∨ FlushLine line) sh
      (noteBatch context flows sh) := Executes.refl _ _
  have hedit := fun flows' => (@executes_editFlows w context (noteBatch context flows sh) hbr0 0
    flows').mono (Q := fun line => AddLine line ∨ FlushLine line) fun _ => .inl
  rcases addResult_cases w context flows sh with ⟨heq, _⟩ | ⟨heq, _⟩ | ⟨k, _, _, _, heq⟩
  · rw [heq]
    exact hnote
  · rw [heq]
    exact hnote.trans (hedit flows)
  · rw [heq]
    exact (hnote.trans (hedit _)).trans ((executes_flush hbr0 _).mono fun _ => .inr)

/-- Whatever host name a HELLO carries, the context it attaches is on br0. -/
theorem bridge_of_hello {card : BeCardInner} {message : Bytes} {outLen : ℕ} {handled : Handled}
    (h : helloMessageHandle w card message outLen sh = .ok handled) (hok : handled.ok) :
    ∃ context, handled.card.context = some context ∧ context.bridge = br0 := by
  obtain ⟨hlen, context, hcontext, hnames⟩ := names_of_hello h hok
  refine ⟨context, hcontext, ?_⟩
  rw [AccContext.bridge, hnames]
  exact bridge_helloNames (List.length_replicate ..) hlen

/-- A guest's HELLO, accepted, and any flows behind it: whatever their bytes and the host id,
each line that is passed on is one harmless `ovs-ofctl` command on br0, and where the call
returns, so is each line that it has executed. -/
theorem guest_lines_harmless {card : BeCardInner} {message : Bytes} {outLen : ℕ}
    {handled : Handled} (h : helloMessageHandle w card message outLen sh = .ok handled)
    (hok : handled.ok) :
    ∃ context, handled.card.context = some context ∧
      ∀ (hostid : BitVec 32) (w' : World) (flows : List AccFlow) (run : CommandRun)
        (sh' : Shared),
        (∀ line, PassedByAdd w' { context with hostid := hostid } flows line →
          AddLine line ∨ FlushLine line) ∧
        (∀ line, PassedByFlush { context with hostid := hostid } line → FlushLine line) ∧
        (∀ ok after,
          accOvsAddRules w' { context with hostid := hostid } flows sh' = .ok (ok, after) →
            Executes (fun line => AddLine line ∨ FlushLine line) sh' after) ∧
        ∀ ok after,
          accOvsFlushRules w' { context with hostid := hostid } run sh' = .ok (ok, after) →
            Executes FlushLine sh' after := by
  obtain ⟨context, hcontext, hbr0⟩ := bridge_of_hello h hok
  refine ⟨context, hcontext, fun hostid w' flows run sh' => ?_⟩
  have hhost : ({ context with hostid := hostid } : AccContext).bridge = br0 := by
    rw [← hbr0]
    rfl
  have hlength := bridge_length_of_br0 hhost
  refine ⟨fun line => harmless_passed hhost, fun line => flushLine_passed hhost, ?_, ?_⟩
  · intro ok after hadd
    rw [addRules_eq hlength] at hadd
    split at hadd
    · cases hadd
    · have hlines := @executes_addRules w' _ sh' hhost flows
      rwa [Except.ok.inj hadd] at hlines
  · intro ok after hflush
    rw [flushRules_eq hlength] at hflush
    split at hflush
    · cases hflush
    · cases hflush
      exact executes_flush hhost run

set_option maxRecDepth 8192 in
/-- A host name with a quote, a semicolon and a newline in it is accepted, and no line shows it. -/
theorem guest_lines_harmless_quoted_name :
    ∃ handled, helloMessageHandle .healthy ⟨1, .plain 0x73, none, none, none⟩ [0x27, 0x3B, 0x0A] 0
        (.start []) = .ok handled ∧ handled.ok ∧
      ∃ context after, handled.card.context = some context ∧
        accOvsAddRules .healthy { context with hostid := 0x27 } [.plain 6] (.start []) =
          .ok (true, after) ∧
        Executes (fun line => AddLine line ∨ FlushLine line) (.start []) after := by
  obtain ⟨handled, h, hok, hlocal⟩ : ∃ handled, helloMessageHandle .healthy
      ⟨1, .plain 0x73, none, none, none⟩ [0x27, 0x3B, 0x0A] 0 (.start []) = .ok handled ∧
        handled.ok ∧ ∀ context, handled.card.context = some context →
          ∃ after, accOvsAddRules .healthy { context with hostid := 0x27 } [.plain 6]
            (.start []) = .ok (true, after) := by
    refine ⟨_, rfl, rfl, ?_⟩
    rintro context ⟨⟩
    exact ⟨_, rfl⟩
  obtain ⟨context, hcontext, hlines⟩ := guest_lines_harmless h hok
  obtain ⟨after, hadd⟩ := hlocal context hcontext
  exact ⟨handled, h, hok, context, after, hcontext, hadd,
    (hlines 0x27 .healthy [.plain 6] (.ended 0) (.start [])).2.2.1 true after hadd⟩

end BeLa.HarmlessLines
