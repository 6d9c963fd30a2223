-- Streams of frames. A reader takes one frame at a time, whole, whether its
-- body is a message or not, so it never loses its place: every result is that
-- of one body alone. A stream that is cut off anywhere gives the results of
-- its whole frames and then ends, and of a frame that is too large only the
-- length is read.
import LifecycleLog.Proofs.Wire.RoundTrip

namespace LifecycleLog.Wire

variable {α : Type}

/-- The frames of some bodies, one behind the other. -/
def stream (bodies : List (List UInt8)) : List UInt8 :=
  bodies.flatMap fun body => frameHead body.length ++ body

/-- Reads so many messages, one after the other, and answers what is left. -/
def readTimes (d : Decoder α) : Nat → List UInt8 → List (Except StoreError α) × List UInt8
  | 0, bytes => ([], bytes)
  | n + 1, bytes =>
    let (first, rest) := readFrame d bytes
    let (more, left) := readTimes d n rest
    (first :: more, left)

/-- How a stream ends that has so many bytes of a frame left. -/
def cutFault (left : Nat) : StreamFault := if left < 4 then .ended else .cutOff

/-! ## One frame -/

variable {d : Decoder α} {body front : List UInt8} {bodies : List (List UInt8)}

theorem readFrame_frame (h : body.length ≤ maxFrame) (rest : List UInt8) :
    readFrame d (frameHead body.length ++ body ++ rest) = (decodeBody d body, rest) := by
  rw [readFrame, takeFrame_frame h rest]

/-- A frame that is cut off takes all that is left of the stream. -/
theorem readFrame_cut (h : body.length ≤ maxFrame) (hp : front <+: frameHead body.length ++ body)
    (hlt : front.length < (frameHead body.length ++ body).length) :
    readFrame d front = (.error (.io (cutFault front.length)), []) := by
  have htake : takeFrame front = (.error (.io (cutFault front.length)), []) := by
    simp only [List.length_append, length_frameHead] at hlt
    by_cases h4 : front.length < 4
    · have hhead : (front.take 4).length < 4 := by
        rw [List.length_take]
        omega
      simp only [takeFrame, if_pos hhead, cutFault, if_pos h4]
    · obtain ⟨more, hm⟩ := hp
      have hhead : front.take 4 = frameHead body.length := by
        have := congrArg (List.take 4) hm
        rwa [List.take_append_of_le_length (by omega), List.take_left' (length_frameHead _)] at this
      have hpart : ((front.drop 4).take body.length).length < body.length := by
        rw [List.length_take, List.length_drop]
        omega
      simp only [takeFrame, hhead, length_frameHead, ofLittleEndian_frameHead h, if_pos hpart,
        cutFault, if_neg h4]
      rw [if_neg (by omega), if_neg (by omega)]
  rw [readFrame, htake]

/-- So does the end between two frames. -/
theorem readFrame_nil : readFrame d [] = (.error (.io .ended), []) := rfl

/-- Of a frame that is too large nothing but its length is taken. -/
theorem readFrame_tooLarge {size : Nat} (h : maxFrame < size) (hs : size < UInt32.size)
    (rest : List UInt8) :
    readFrame d (frameHead size ++ rest) = (.error (.frameTooLarge size), rest) := by
  have hsize : ofLittleEndian (frameHead size).reverse = size := by
    rw [frameHead, List.reverse_reverse]
    exact ofLittleEndian_littleEndian 4 hs
  have htake : takeFrame (frameHead size ++ rest) = (.error (.frameTooLarge size), rest) := by
    simp only [takeFrame, List.take_left' (length_frameHead size),
      List.drop_left' (length_frameHead size), length_frameHead, hsize, if_pos h]
    rw [if_neg (by omega)]
  rw [readFrame, htake]

/-! ## Many frames -/

theorem stream_nil : stream [] = [] := rfl

theorem stream_cons (body : List UInt8) (bodies : List (List UInt8)) :
    stream (body :: bodies) = frameHead body.length ++ body ++ stream bodies :=
  List.flatMap_cons

theorem readTimes_succ (n : Nat) (bytes : List UInt8) : readTimes d (n + 1) bytes =
    ((readFrame d bytes).1 :: (readTimes d n (readFrame d bytes).2).1,
      (readTimes d n (readFrame d bytes).2).2) := rfl

/-- What comes behind some frames is read after them, whatever they hold. -/
theorem readTimes_stream (h : ∀ body ∈ bodies, body.length ≤ maxFrame) (n : Nat)
    (rest : List UInt8) : readTimes d (bodies.length + n) (stream bodies ++ rest)
      = (bodies.map (decodeBody d) ++ (readTimes d n rest).1, (readTimes d n rest).2) := by
  induction bodies with
  | nil =>
    rw [List.length_nil, Nat.zero_add]
    rfl
  | cons body bodies ih =>
    have hbody := h body List.mem_cons_self
    have hn : (body :: bodies).length + n = bodies.length + n + 1 := by
      rw [List.length_cons]
      omega
    rw [hn, readTimes_succ, stream_cons, List.append_assoc, readFrame_frame hbody,
      ih fun b hb => h b (List.mem_cons_of_mem _ hb)]
    rfl

/-- Just the first `n` of the frames are whole in this start of their stream. -/
def WholeIn (bodies : List (List UInt8)) (front : List UInt8) (n : Nat) : Prop :=
  n ≤ bodies.length ∧
    ∀ m ≤ bodies.length, (stream (bodies.take m)).length ≤ front.length ↔ m ≤ n

/-- A start of a stream is some whole frames, and then a part of the next one. -/
theorem exists_wholeIn (hp : front <+: stream bodies) : ∃ n part,
    WholeIn bodies front n ∧ front = stream (bodies.take n) ++ part ∧
      (part = [] ∨ ∃ body ∈ bodies, part <+: frameHead body.length ++ body ∧
        part.length < (frameHead body.length ++ body).length) := by
  induction bodies generalizing front with
  | nil =>
    obtain rfl : front = [] := List.prefix_nil.1 hp
    refine ⟨0, [], ⟨Nat.le_refl _, fun m hm => ?_⟩, rfl, Or.inl rfl⟩
    simp [stream_nil, Nat.le_zero.1 hm]
  | cons body bodies ih =>
    rw [stream_cons] at hp
    have hhead : 0 < (frameHead body.length ++ body).length := by
      rw [List.length_append, length_frameHead]
      omega
    by_cases hlt : front.length < (frameHead body.length ++ body).length
    · have hpart : front <+: frameHead body.length ++ body :=
        List.prefix_of_prefix_length_le hp (List.prefix_append _ _) (Nat.le_of_lt hlt)
      refine ⟨0, front, ⟨Nat.zero_le _, fun m _ => ?_⟩, rfl,
        Or.inr ⟨body, List.mem_cons_self, hpart, hlt⟩⟩
      cases m with
      | zero => simp [stream_nil]
      | succ m =>
        rw [List.take_succ_cons, stream_cons, List.length_append]
        omega
    · -- the first frame is whole, and the rest of the front is a start of the rest
      obtain ⟨rest, rfl⟩ : frameHead body.length ++ body <+: front :=
        List.prefix_of_prefix_length_le (List.prefix_append _ _) hp (Nat.le_of_not_lt hlt)
      obtain ⟨n, part, ⟨hn, hwhole⟩, rfl, hcut⟩ := ih ((List.prefix_append_right_inj _).1 hp)
      refine ⟨n + 1, part, ⟨Nat.succ_le_succ hn, fun m hm => ?_⟩, ?_, ?_⟩
      · cases m with
        | zero => simp [stream_nil]
        | succ m =>
          have hm' := hwhole m (Nat.le_of_succ_le_succ hm)
          simp only [List.take_succ_cons, stream_cons, List.length_append] at hm' ⊢
          omega
      · rw [List.take_succ_cons, stream_cons, List.append_assoc _ _ part]
      · refine hcut.imp_right ?_
        rintro ⟨b, hb, hpart⟩
        exact ⟨b, List.mem_cons_of_mem _ hb, hpart⟩

/-! ## The main law -/

/-- A reader of the frames of some bodies stays in step with their writer. -/
structure InStep (d : Decoder α) (bodies : List (List UInt8)) : Prop where
  /-- Every body has its frame, -/
  written : ∀ body ∈ bodies, frame body = .ok (frameHead body.length ++ body)
  /-- the frames are read one by one, each as its body alone, whatever follows, -/
  read : ∀ rest,
    readTimes d bodies.length (stream bodies ++ rest) = (bodies.map (decodeBody d), rest)
  /-- where a body that is no message gives just that error, -/
  malformed : ∀ body ∈ bodies, ∀ e, decodeBody d body = .error e → ∃ cause, e = .malformed cause
  /-- and after the last one the stream has ended. -/
  ended : readTimes d (bodies.length + 1) (stream bodies)
    = (bodies.map (decodeBody d) ++ [.error (.io .ended)], [])
  /-- A stream that is cut off gives its whole frames and then ends. -/
  cut : ∀ front, front <+: stream bodies → ∃ n, WholeIn bodies front n ∧
    readTimes d (n + 1) front = ((bodies.take n).map (decodeBody d) ++
      [.error (.io (cutFault (front.length - (stream (bodies.take n)).length)))], [])
  /-- Of a frame that is too large the length is read, and nothing else. -/
  tooLarge : ∀ size, maxFrame < size → size < UInt32.size → ∀ rest,
    readTimes d (bodies.length + 1) (stream bodies ++ (frameHead size ++ rest))
      = (bodies.map (decodeBody d) ++ [.error (.frameTooLarge size)], rest)

/-- Whatever bodies are sent in frames, and whatever is read from them, the
reader stays in step. -/
theorem a_reader_of_frames_stays_in_step (d : Decoder α) (bodies : List (List UInt8))
    (h : ∀ body ∈ bodies, body.length ≤ maxFrame) : InStep d bodies where
  written body hb := frame_eq (h body hb)
  read rest := by
    have := readTimes_stream (d := d) h 0 rest
    simpa only [Nat.add_zero, readTimes, List.append_nil] using this
  malformed body _ e he := by
    unfold decodeBody at he
    split at he
    · cases he
    · cases he
      exact ⟨_, rfl⟩
  ended := by
    have := readTimes_stream (d := d) h 1 []
    rwa [List.append_nil] at this
  cut front hp := by
    obtain ⟨n, part, hn, rfl, hpart⟩ := exists_wholeIn hp
    refine ⟨n, hn, ?_⟩
    have hlast : readFrame d part = (.error (.io (cutFault part.length)), []) := by
      rcases hpart with rfl | ⟨body, hb, hpre, hlt⟩
      · exact readFrame_nil
      · exact readFrame_cut (h body hb) hpre hlt
    have htake : ∀ body ∈ bodies.take n, body.length ≤ maxFrame :=
      fun body hb => h body (List.mem_of_mem_take hb)
    have hread := readTimes_stream (d := d) htake 1 part
    rw [List.length_take_of_le hn.1, readTimes_succ 0 part, hlast] at hread
    rw [hread, List.length_append, Nat.add_sub_cancel_left]
    rfl
  tooLarge size hlt hs rest := by
    rw [readTimes_stream h, readTimes_succ, readFrame_tooLarge hlt hs]
    rfl

/-- Between two requests comes a body that is none; both requests are read. -/
theorem a_bad_body_leaves_the_reader_in_step :
    let bodies := [encodeRequest (.key (.get "k")), [9, 0, 0, 0],
      encodeRequest (.stream (.pending "s" "g"))]
    (∀ body ∈ bodies, body.length ≤ maxFrame) ∧
      readTimes decodeRequest 4 (stream bodies) = ([.ok (.key (.get "k")),
        .error (.malformed (.unknownTag 9 9)), .ok (.stream (.pending "s" "g")),
        .error (.io .ended)], []) := by
  intro bodies
  have h : ∀ body ∈ bodies, body.length ≤ maxFrame := by decide +kernel
  refine ⟨h, ?_⟩
  have hbodies : bodies.map (decodeBody decodeRequest) = [.ok (.key (.get "k")),
      .error (.malformed (.unknownTag 9 9)), .ok (.stream (.pending "s" "g"))] := by
    have hget : decodeBody decodeRequest (encodeRequest (.key (.get "k")))
        = .ok (.key (.get "k")) :=
      decodeBody_of_reads (roundTrip_request trivial (by decide +kernel))
    have hpending : decodeBody decodeRequest (encodeRequest (.stream (.pending "s" "g")))
        = .ok (.stream (.pending "s" "g")) :=
      decodeBody_of_reads (roundTrip_request trivial (by decide +kernel))
    have hbad : decodeBody decodeRequest [9, 0, 0, 0] = .error (.malformed (.unknownTag 9 9)) := rfl
    rw [List.map_cons, List.map_cons, List.map_cons, hget, hbad, hpending]
    rfl
  have hended := (a_reader_of_frames_stays_in_step decodeRequest bodies h).ended
  rwa [hbodies] at hended

end LifecycleLog.Wire
