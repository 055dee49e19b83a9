import BeLa.Framing

/-!
What the receiving loops deliver. A buffer is filled exactly from the bytes on
the channel however the reads split them, a stream that ends too soon is
reported, and a whole framed message is received with nothing left over.
-/
namespace BeLa.Receiving

open LittleEndian PartialTransfer Stops Framing

/-- With enough answers and bytes the loop fills the buffer, whatever the pieces. -/
theorem readnLoop_enough (cap : ℕ) (stream msg : Bytes) {reads : List Answer} {n m : ℕ}
    (hreads : Enough reads (n + m)) (hstream : n ≤ stream.length) (hcap : msg.length + n ≤ cap) :
    ∃ reads', readnLoop cap reads stream n msg =
      .ok ⟨some (msg ++ stream.take n), ⟨stream.drop n, reads'⟩⟩ ∧ Enough reads' m := by
  induction reads generalizing stream msg n with
  | nil =>
    cases n with
    | zero => exact ⟨[], by simp [readnLoop], hreads.mono (by omega)⟩
    | succ n => exact absurd (hreads.mono (by omega)) (Enough.not_nil (n := n))
  | cons a reads ih =>
    cases n with
    | zero => exact ⟨a :: reads, by simp [readnLoop], hreads.mono (by omega)⟩
    | succ n =>
      cases a with
      | again => exact ih stream msg hreads.tail_again hstream hcap
      | broken => exact absurd hreads Enough.not_broken
      | moved k =>
        have hreads' : Enough (.moved k :: reads) (n + m + 1) := hreads.mono (by omega)
        have hle := clip_le k (min (n + 1) stream.length)
        have hpos := clip_pos k (min (n + 1) stream.length) (by omega)
        simp only [readnLoop]
        generalize clip k (min (n + 1) stream.length) = ret at hle hpos
        have htake : (stream.take ret).length = ret := by
          simp only [List.length_take]
          omega
        have hsum : ret + (n + 1 - ret) = n + 1 := by omega
        have hgot : msg ++ stream.take (n + 1) =
            msg ++ stream.take ret ++ (stream.drop ret).take (n + 1 - ret) := by
          rw [List.append_assoc, ← List.take_add, hsum]
        have hleft : stream.drop (n + 1) = (stream.drop ret).drop (n + 1 - ret) := by
          rw [List.drop_drop, hsum]
        rw [if_neg (by omega), if_neg (by omega), hgot, hleft]
        refine ih _ _ (hreads'.tail_moved.mono (by omega)) ?_ ?_
        · simp only [List.length_drop]
          omega
        · simp only [List.length_append, htake]
          omega

/-- When the stream ends before the buffer is full the loop reports failure. -/
theorem readnLoop_short (cap : ℕ) (stream msg : Bytes) {reads : List Answer} {n : ℕ}
    (hreads : Enough reads (stream.length + 1)) (hstream : stream.length < n)
    (hcap : msg.length + stream.length ≤ cap) :
    ∃ rest, readnLoop cap reads stream n msg = .ok ⟨none, rest⟩ := by
  induction reads generalizing stream msg n with
  | nil => exact absurd hreads Enough.not_nil
  | cons a reads ih =>
    cases n with
    | zero => omega
    | succ n =>
      cases a with
      | again => exact ih stream msg hreads.tail_again hstream hcap
      | broken => exact absurd hreads Enough.not_broken
      | moved k =>
        have hmin : min (n + 1) stream.length = stream.length := by omega
        simp only [readnLoop, hmin]
        cases hlen : stream.length with
        | zero =>
          rw [if_pos (clip_zero k)]
          exact ⟨_, rfl⟩
        | succ l =>
          have hle := clip_le k (l + 1)
          have hpos := clip_pos k (l + 1) (by omega)
          generalize clip k (l + 1) = ret at hle hpos
          have htake : (stream.take ret).length = ret := by
            simp only [List.length_take]
            omega
          rw [if_neg (by omega), if_neg (by omega)]
          refine ih _ _ (hreads.tail_moved.mono ?_) ?_ ?_
          · simp only [List.length_drop]
            omega
          · simp only [List.length_drop]
            omega
          · simp only [List.length_append, htake, List.length_drop]
            omega

/-- The body length as an integer: the difference, reduced to 32 signed bits. -/
theorem dataLen_eq_bmod (hdr : AccMsgHeader) :
    dataLen hdr = Int.bmod (hdr.totalLen.toInt - AccMsgHeader.size) (2 ^ 32) := by
  have hwide : (hdr.totalLen.signExtend 64).toInt = hdr.totalLen.toInt :=
    BitVec.toInt_signExtend_of_le (by decide)
  have hsize : (BitVec.ofNat 64 AccMsgHeader.size).toInt = AccMsgHeader.size := by decide
  have hdiff : (hdr.totalLen.signExtend 64 - BitVec.ofNat 64 AccMsgHeader.size).toInt =
      Int.bmod ((hdr.totalLen.signExtend 64).toInt - (BitVec.ofNat 64 AccMsgHeader.size).toInt)
        (2 ^ 64) := BitVec.toInt_sub
  rw [hwide, hsize, BitVec.toInt_eq_toNat_bmod] at hdiff
  have hmod := congrArg (fun z : ℤ => Int.bmod z (2 ^ 32)) hdiff
  simp only [Int.bmod_bmod_of_dvd (show (2 ^ 32 : ℕ) ∣ 2 ^ 64 by decide)] at hmod
  rw [dataLen, BitVec.toInt_setWidth, hmod]

/-- A header that announces `n` more bytes asks for exactly `n`. -/
theorem dataLen_of_total {hdr : AccMsgHeader} {n : ℕ} (hn : n ≤ bufSize)
    (h : hdr.totalLen.toInt = (AccMsgHeader.size + n : ℕ)) : dataLen hdr = n := by
  rw [dataLen_eq_bmod, h]
  unfold bufSize at hn
  simp only [AccMsgHeader.size, Int.bmod]
  omega

theorem dataLen_fits_iff (hdr : AccMsgHeader) :
    (0 ≤ dataLen hdr ∧ dataLen hdr ≤ bufSize) ↔
      AccMsgHeader.size ≤ hdr.totalLen.toInt ∧
        hdr.totalLen.toInt ≤ (AccMsgHeader.size + bufSize : ℕ) := by
  have hlo := BitVec.le_toInt hdr.totalLen
  have hhi := BitVec.toInt_lt (x := hdr.totalLen)
  rw [dataLen_eq_bmod]
  simp only [AccMsgHeader.size, bufSize, Int.bmod]
  omega

/-- Behind a complete header the receiver asks for the body that header announces. -/
theorem recv_header (cap : ℕ) (hdr : AccMsgHeader) (tail : Bytes) {reads : List Answer} {m : ℕ}
    (hreads : Enough reads (AccMsgHeader.size + m)) :
    ∃ reads', Enough reads' m ∧ accUnixRecvMessage cap ⟨hdr.bytes ++ tail, reads⟩ =
      ⟨some (dataLen hdr),
        match readn cap ⟨tail, reads'⟩ (dataLen hdr) with
        | .error stop => .error stop
        | .ok ⟨none, rest⟩ => .ok ⟨none, rest⟩
        | .ok ⟨some body, rest⟩ => .ok ⟨some ⟨hdr, body⟩, rest⟩⟩ := by
  have hlen := hdr.length_bytes
  obtain ⟨reads', hloop, henough⟩ :=
    readnLoop_enough AccMsgHeader.size (hdr.bytes ++ tail) [] hreads (by simp) (by simp)
  have htake : (hdr.bytes ++ tail).take AccMsgHeader.size = hdr.bytes := List.take_left' hlen
  have hdrop : (hdr.bytes ++ tail).drop AccMsgHeader.size = tail := List.drop_left' hlen
  refine ⟨reads', henough, ?_⟩
  have hread : readn AccMsgHeader.size ⟨hdr.bytes ++ tail, reads⟩ AccMsgHeader.size =
      .ok ⟨some hdr.bytes, ⟨tail, reads'⟩⟩ := by
    rw [readn, if_neg (by simp [AccMsgHeader.size]), Int.toNat_natCast, hloop, htake, hdrop,
      List.nil_append]
  simp only [accUnixRecvMessage, hread, AccMsgHeader.ofBytes_bytes] <;> rfl

theorem readn_enough {cap len : ℕ} {tail : Bytes} {reads : List Answer} {m : ℕ}
    (hreads : Enough reads (len + m)) (hlen : len ≤ tail.length) (hcap : len ≤ cap) :
    ∃ reads', readn cap ⟨tail, reads⟩ len = .ok ⟨some (tail.take len), ⟨tail.drop len, reads'⟩⟩ ∧
      Enough reads' m := by
  obtain ⟨reads', hloop, henough⟩ :=
    readnLoop_enough cap tail [] hreads hlen (by simpa using hcap)
  refine ⟨reads', ?_, henough⟩
  rw [readn, if_neg (by omega), Int.toNat_natCast, hloop, List.nil_append]

theorem readn_short {cap len : ℕ} {tail : Bytes} {reads : List Answer}
    (hreads : Enough reads (tail.length + 1)) (hlen : tail.length < len) (hcap : len ≤ cap) :
    ∃ rest, readn cap ⟨tail, reads⟩ len = .ok ⟨none, rest⟩ := by
  obtain ⟨rest, hloop⟩ := readnLoop_short cap tail [] hreads hlen
    (by simp only [List.length_nil]; omega)
  refine ⟨rest, ?_⟩
  rw [readn, if_neg (by omega), Int.toNat_natCast, hloop]

/-- A whole body behind its header is delivered, and the rest of the stream stays. -/
theorem recv_full {cap : ℕ} {hdr : AccMsgHeader} (tail : Bytes) {reads : List Answer} {n m : ℕ}
    (hreads : Enough reads (AccMsgHeader.size + n + m)) (hdata : dataLen hdr = n)
    (hn : n ≤ tail.length) (hcap : n ≤ cap) :
    ∃ reads', accUnixRecvMessage cap ⟨hdr.bytes ++ tail, reads⟩ =
        ⟨some n, .ok ⟨some ⟨hdr, tail.take n⟩, ⟨tail.drop n, reads'⟩⟩⟩ ∧ Enough reads' m := by
  obtain ⟨mid, hmid, hrecv⟩ := recv_header cap hdr tail
    (show Enough reads (AccMsgHeader.size + (n + m)) from hreads.mono (by omega))
  obtain ⟨reads', hbody, henough⟩ := readn_enough hmid hn hcap
  refine ⟨reads', ?_, henough⟩
  rw [hrecv, hdata, hbody]

/-- A body cut by the end of the stream is not delivered. -/
theorem recv_cut {cap : ℕ} {hdr : AccMsgHeader} (tail : Bytes) {reads : List Answer} {n : ℕ}
    (hreads : Enough reads (AccMsgHeader.size + tail.length + 1)) (hdata : dataLen hdr = n)
    (hn : tail.length < n) (hcap : n ≤ cap) :
    ∃ rest, accUnixRecvMessage cap ⟨hdr.bytes ++ tail, reads⟩ = ⟨some n, .ok ⟨none, rest⟩⟩ := by
  obtain ⟨mid, hmid, hrecv⟩ := recv_header cap hdr tail
    (show Enough reads (AccMsgHeader.size + (tail.length + 1)) from hreads.mono (by omega))
  obtain ⟨rest, hbody⟩ := readn_short hmid hn hcap
  exact ⟨rest, by rw [hrecv, hdata, hbody]⟩

/-- A stream that ends inside a header, or at once, makes the receiver fail before any body. -/
theorem recv_no_header (cap : ℕ) (stream : Bytes) {reads : List Answer}
    (hreads : Enough reads (stream.length + 1)) (hshort : stream.length < AccMsgHeader.size) :
    ∃ rest, accUnixRecvMessage cap ⟨stream, reads⟩ = ⟨none, .ok ⟨none, rest⟩⟩ := by
  obtain ⟨rest, hread⟩ := readn_short hreads hshort (le_refl AccMsgHeader.size)
  exact ⟨rest, by simp only [accUnixRecvMessage, hread]⟩

/-- A framed message is received whole, with exactly its bytes taken from the stream. -/
theorem recv_framed {reads : List Answer} {msg : Message} (rest : Bytes) {m : ℕ}
    (hmsg : msg.Framed) (hreads : Enough reads (msg.bytes.length + m)) :
    ∃ reads', accUnixRecvMessage bufSize ⟨msg.bytes ++ rest, reads⟩ =
        ⟨some msg.body.length, .ok ⟨some msg, ⟨rest, reads'⟩⟩⟩ ∧ Enough reads' m := by
  have hdata := dataLen_of_total hmsg.2 hmsg.1
  rw [Message.length_bytes] at hreads
  obtain ⟨reads', hrecv, henough⟩ := recv_full (msg.body ++ rest) hreads hdata (by simp) hmsg.2
  refine ⟨reads', ?_, henough⟩
  rw [Message.bytes, List.append_assoc, hrecv, List.take_left' rfl, List.drop_left' rfl]

/-- A framed message cut anywhere makes the receiver return -1. -/
theorem recv_framed_cut {reads : List Answer} {msg : Message} {k : ℕ} (hmsg : msg.Framed)
    (hk : k < msg.bytes.length) (hreads : Enough reads (k + 1)) :
    ∃ asked rest, accUnixRecvMessage bufSize ⟨msg.bytes.take k, reads⟩ =
      ⟨asked, .ok ⟨none, rest⟩⟩ := by
  have hlen : (msg.bytes.take k).length = k := by
    simp only [List.length_take]
    omega
  by_cases hhead : k < AccMsgHeader.size
  · obtain ⟨rest, hrecv⟩ := recv_no_header bufSize (msg.bytes.take k)
      (by rwa [hlen]) (by rwa [hlen])
    exact ⟨none, rest, hrecv⟩
  · have hdata := dataLen_of_total hmsg.2 hmsg.1
    have htail : (msg.body.take (k - AccMsgHeader.size)).length = k - AccMsgHeader.size := by
      simp only [Message.length_bytes] at hk
      simp only [List.length_take]
      omega
    have hsplit : msg.bytes.take k = msg.hdr.bytes ++ msg.body.take (k - AccMsgHeader.size) := by
      rw [Message.bytes, List.take_append, AccMsgHeader.length_bytes,
        List.take_of_length_le (by simp; omega)]
    obtain ⟨rest, hrecv⟩ := recv_cut
      (msg.body.take (k - AccMsgHeader.size))
      (hreads.mono (by rw [htail]; omega)) hdata
      (by simp only [Message.length_bytes] at hk; omega) hmsg.2
    exact ⟨_, rest, by rw [hsplit, hrecv]⟩

end BeLa.Receiving
